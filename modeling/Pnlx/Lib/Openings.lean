import Mathlib.Algebra.Polynomial.Expand
import Mathlib.Algebra.Polynomial.BigOperators
import Mathlib.Tactic.FieldSimp
import Pnlx.Lib.Sumcheck

/-!
# Openings of polynomials

1. `cleared`, `count_quotient_le`: one quotient proves several claims, each that a polynomial
   vanishes at its place, with weights that are powers of a challenge (`count_residue_le`).
2. `foldPoly`: the polynomial of half the degree whose coefficients are on the lines through
   neighbouring ones, `foldPoly_eval`. `foldPolys` are the tables of the sumcheck protocol.
   `count_folds_le`: a wrong chain of folds is found out at most places.
-/

open Polynomial Challenges Sumcheck

namespace Openings

variable {F ι κ : Type*} [Field F]

/-! ## Several claims at once -/

section Claims

variable [Fintype ι] [DecidableEq F] (weight place : ι → F) (claim : ι → F[X])

/-- What the claims at one place leave together. -/
def residue (x : F) : F := ∑ k, if place k = x then weight k * (claim k).eval x else 0

/-- The sum of the quotients by the places, times all the different places. -/
noncomputable def cleared : F[X] :=
  ∑ k, C (weight k) * claim k * ∏ y ∈ (Finset.univ.image place).erase (place k), (X - C y)

theorem eval_cleared_place (k₀ : ι) :
    (cleared weight place claim).eval (place k₀) = residue weight place claim (place k₀) *
      ∏ y ∈ (Finset.univ.image place).erase (place k₀), (place k₀ - y) := by
  unfold cleared residue
  rw [eval_finsetSum, Finset.sum_mul]
  refine Finset.sum_congr rfl fun k _ => ?_
  rw [eval_mul, eval_mul, eval_C, eval_prod]
  simp only [eval_sub, eval_X, eval_C]
  split_ifs with h
  · rw [h]
  · have hmem : place k₀ ∈ (Finset.univ.image place).erase (place k) :=
      Finset.mem_erase.mpr ⟨Ne.symm h, Finset.mem_image_of_mem _ (Finset.mem_univ k₀)⟩
    rw [Finset.prod_eq_zero hmem (sub_self _), mul_zero, zero_mul]

theorem eval_cleared {z : F} (hz : ∀ k, z ≠ place k) :
    (∏ y ∈ Finset.univ.image place, (z - y)) *
        ∑ k, weight k * (z - place k)⁻¹ * (claim k).eval z =
      (cleared weight place claim).eval z := by
  unfold cleared
  rw [eval_finsetSum, Finset.mul_sum]
  refine Finset.sum_congr rfl fun k _ => ?_
  have hne : z - place k ≠ 0 := sub_ne_zero.mpr (hz k)
  rw [← Finset.mul_prod_erase _ _ (Finset.mem_image_of_mem place (Finset.mem_univ k)), eval_mul,
    eval_mul, eval_C, eval_prod]
  simp only [eval_sub, eval_X, eval_C]
  field_simp

variable {weight place claim}

theorem natDegree_cleared_le {d : ℕ} (hclaim : ∀ k, (claim k).natDegree ≤ d) :
    (cleared weight place claim).natDegree ≤ d + Fintype.card ι := by
  refine natDegree_sum_le_of_forall_le _ _ fun k _ => ?_
  have hprod : (∏ y ∈ (Finset.univ.image place).erase (place k), (X - C y)).natDegree ≤
      Fintype.card ι := by
    rw [natDegree_finsetProd_X_sub_C_eq_card]
    exact (Finset.card_erase_le).trans Finset.card_image_le
  exact natDegree_mul_le_of_le ((natDegree_C_mul_le _ _).trans (hclaim k)) hprod

variable [Fintype κ] {point : κ → F}

/-- Claims that leave something at a place have a quotient at few challenges. -/
theorem count_quotient_le (hpoint : Function.Injective point) {k₀ : ι}
    (hresidue : residue weight place claim (place k₀) ≠ 0) {quotient : F[X]} {d : ℕ}
    (hquotient : quotient.natDegree ≤ d) (hclaim : ∀ k, (claim k).natDegree ≤ d) :
    count (fun z : κ => (∀ k, point z ≠ place k) ∧ quotient.eval (point z) =
      ∑ k, weight k * (point z - place k)⁻¹ * (claim k).eval (point z)) ≤
        d + Fintype.card ι := by
  set places := ∏ y ∈ Finset.univ.image place, (X - C y) with hplaces
  have hdegree : (places * quotient).natDegree ≤ d + Fintype.card ι := by
    rw [add_comm]
    refine natDegree_mul_le_of_le ?_ hquotient
    rw [hplaces, natDegree_finsetProd_X_sub_C_eq_card]
    exact Finset.card_image_le
  have hne : places * quotient ≠ cleared weight place claim := by
    intro h
    have hzero : places.eval (place k₀) = 0 := by
      rw [hplaces, eval_prod]
      exact Finset.prod_eq_zero (Finset.mem_image_of_mem place (Finset.mem_univ k₀)) (by simp)
    have heval := eval_cleared_place weight place claim k₀
    rw [← h, eval_mul, hzero, zero_mul] at heval
    refine mul_ne_zero hresidue (Finset.prod_ne_zero_iff.mpr fun y hy => ?_) heval.symm
    exact sub_ne_zero.mpr (Ne.symm (Finset.ne_of_mem_erase hy))
  refine (count_mono fun z h => ?_).trans
    (card_eval_eq_le hpoint hdegree (natDegree_cleared_le hclaim) hne)
  rw [eval_mul, h.2, ← eval_cleared weight place claim h.1, hplaces, eval_prod]
  simp only [eval_sub, eval_X, eval_C]

/-- A wrong claim leaves something at its place, for all but few of the weights. -/
theorem count_residue_le (hpoint : Function.Injective point) {exponent : ι → ℕ}
    (hexponent : Function.Injective exponent) {m : ℕ} (hm : ∀ k, exponent k ≤ m) {k₀ : ι}
    (hwrong : (claim k₀).eval (place k₀) ≠ 0) :
    count (fun ν : κ => residue (fun k => point ν ^ exponent k) place claim (place k₀) = 0) ≤ m := by
  refine (count_mono fun ν h => ?_).trans (card_powers_le hpoint hexponent hm (i := k₀)
    (c := fun k => if place k = place k₀ then (claim k).eval (place k₀) else 0) ?_)
  · refine (Finset.sum_congr rfl fun k _ => ?_).trans h
    exact mul_ite_zero _ _ _
  · rwa [if_pos rfl]

end Claims

/-! ## Folds -/

/-- The coefficients are the points of the lines through two neighbours. -/
noncomputable def foldPoly (u : F) (p : F[X]) : F[X] :=
  C (1 - u) * contract 2 p + C u * contract 2 p.divX

theorem coeff_foldPoly (u : F) (p : F[X]) (i : ℕ) :
    (foldPoly u p).coeff i = p.coeff (2 * i) + u * (p.coeff (2 * i + 1) - p.coeff (2 * i)) := by
  rw [foldPoly, coeff_add, coeff_C_mul, coeff_C_mul, coeff_contract two_ne_zero,
    coeff_contract two_ne_zero, coeff_divX, mul_comm i 2]
  ring

theorem natDegree_foldPoly_le (u : F) {p : F[X]} {d : ℕ} (hp : p.natDegree ≤ d) :
    (foldPoly u p).natDegree ≤ d := by
  refine natDegree_le_iff_coeff_eq_zero.mpr fun i hi => ?_
  rw [coeff_foldPoly, coeff_eq_zero_of_natDegree_lt (by omega),
    coeff_eq_zero_of_natDegree_lt (by omega)]
  ring

/-- The even and the odd powers. -/
theorem eq_expand_contract (p : F[X]) :
    p = expand F 2 (contract 2 p) + X * expand F 2 (contract 2 p.divX) := by
  ext n
  rw [coeff_add, coeff_expand two_pos]
  rcases n with _ | n
  · simp [coeff_contract]
  · rw [coeff_X_mul, coeff_expand two_pos, coeff_contract two_ne_zero, coeff_contract two_ne_zero,
      coeff_divX]
    rcases Nat.even_or_odd n with heven | hodd
    · have h : ¬ 2 ∣ n + 1 := by
        obtain ⟨m, rfl⟩ := heven
        omega
      rw [if_neg h, if_pos heven.two_dvd, Nat.div_mul_cancel heven.two_dvd, zero_add]
    · have h : 2 ∣ n + 1 := by
        obtain ⟨m, rfl⟩ := hodd
        omega
      have h' : ¬ 2 ∣ n := by
        obtain ⟨m, rfl⟩ := hodd
        omega
      rw [if_pos h, if_neg h', Nat.div_mul_cancel h, add_zero]

/-- The fold at a square, from the polynomial at the two roots. -/
theorem foldPoly_eval (u x : F) (p : F[X]) :
    2 * x * (foldPoly u p).eval (x ^ 2) =
      x * (1 - u) * (p.eval x + p.eval (-x)) + u * (p.eval x - p.eval (-x)) := by
  have hsplit : ∀ y : F, p.eval y =
      (contract 2 p).eval (y ^ 2) + y * (contract 2 p.divX).eval (y ^ 2) := by
    intro y
    conv_lhs => rw [eq_expand_contract p]
    rw [eval_add, eval_mul, eval_X, expand_eval, expand_eval]
  rw [hsplit x, hsplit (-x), neg_sq, foldPoly, eval_add, eval_mul, eval_mul, eval_C, eval_C]
  ring

noncomputable def foldPolys : List F → F[X] → F[X]
  | [], p => p
  | u :: us, p => foldPolys us (foldPoly u p)

/-- The coefficients of the folds are the folds of the table of the coefficients. -/
theorem coeff_foldPolys (us : List F) (p : ι → F[X]) (i : ℕ) (c : ι) :
    (foldPolys us (p c)).coeff i = foldAll us (fun i c => (p c).coeff i) i c := by
  induction us generalizing p i with
  | nil => rfl
  | cons u us ih =>
    rw [foldPolys, foldAll_cons, ih (fun c => foldPoly u (p c))]
    simp only [coeff_foldPoly]
    rfl

/-- Folding is linear. -/
theorem foldAll_sum [Fintype ι] (us : List F) (weight : ι → F) (t : ℕ → ι → F) (i : ℕ) :
    foldAll us (fun i (_ : Unit) => ∑ c, weight c * t i c) i () =
      ∑ c, weight c * foldAll us t i c := by
  induction us generalizing t i with
  | nil => rfl
  | cons u us ih =>
    rw [foldAll_cons, foldAll_cons, ← ih (fold u t)]
    refine congrFun (congrFun (congrArg (foldAll us) ?_) i) ()
    funext i c
    simp only [fold, line]
    rw [← Finset.sum_sub_distrib, Finset.mul_sum, ← Finset.sum_add_distrib]
    exact Finset.sum_congr rfl fun c _ => by ring

/-- A chain of folds. -/
theorem eq_foldPolys {us : List F} {p : ℕ → F[X]}
    (h : ∀ j (hj : j < us.length), p (j + 1) = foldPoly us[j] (p j)) :
    p us.length = foldPolys us (p 0) := by
  induction us generalizing p with
  | nil => rfl
  | cons u us ih =>
    have hfirst : p 1 = foldPoly u (p 0) := h 0 (by simp)
    rw [foldPolys, List.length_cons, ← hfirst]
    exact @ih (fun j => p (j + 1)) fun j hj => h (j + 1) (by simpa using hj)

section Count

variable [Fintype κ] {point : κ → F}

theorem count_eval_pow_le (hpoint : Function.Injective point) {p : F[X]} (hp : p ≠ 0) {d m : ℕ}
    (hdegree : p.natDegree ≤ d) (hm : 0 < m) :
    count (fun x : κ => p.eval (point x ^ m) = 0) ≤ d * m := by
  refine (count_mono fun x h => ?_).trans (card_eval_eq_le hpoint (p := expand F m p) (q := 0)
    (d := d * m) ?_ (by simp) ((expand_ne_zero hm).mpr hp))
  · rw [expand_eval, eval_zero, h]
  · rw [natDegree_expand]
    exact Nat.mul_le_mul_right m hdegree

/-- What is left of a fold round at a place. In the first round the folded polynomial has a pole with
the coefficient `pole`. -/
noncomputable def foldDefect (us : List F) (p : ℕ → F[X]) (pole : F) (j : ℕ) : F[X] :=
  X * (p (j + 1) - foldPoly (us.getD j 0) (p j)) - if j = 0 then C (us.getD 0 0 * pole) else 0

/-- A chain of folds that does not end in the fold of its first polynomial, or a pole that the first
round would see, is found out in some round. -/
theorem exists_foldDefect_ne_zero {us : List F} {p : ℕ → F[X]} {pole : F}
    (h : p us.length ≠ foldPolys us (p 0) ∨ us.getD 0 0 * pole ≠ 0) (hpos : 0 < us.length) :
    ∃ j < us.length, foldDefect us p pole j ≠ 0 := by
  by_contra! hzero
  have hpole : us.getD 0 0 * pole = 0 := by
    have h0 := congrArg (fun q => q.coeff 0) (hzero 0 hpos)
    simpa [foldDefect] using h0
  refine h.elim (fun hne => hne (eq_foldPolys fun j hj => ?_)) fun hne => hne hpole
  have hj0 := hzero j hj
  rw [foldDefect, hpole, C_0, ite_self, sub_zero, mul_eq_zero, or_iff_right X_ne_zero,
    sub_eq_zero] at hj0
  rw [hj0, List.getD_eq_getElem?_getD, List.getElem?_eq_getElem hj, Option.getD_some]

theorem natDegree_foldDefect_le (us : List F) {p : ℕ → F[X]} (pole : F) {d : ℕ}
    (hp : ∀ j, (p j).natDegree ≤ d) (j : ℕ) : (foldDefect us p pole j).natDegree ≤ d + 1 := by
  unfold foldDefect
  refine (natDegree_sub_le _ _).trans (max_le ?_ ?_)
  · have hdiff : (p (j + 1) - foldPoly (us.getD j 0) (p j)).natDegree ≤ d :=
      (natDegree_sub_le _ _).trans (max_le (hp _) (natDegree_foldPoly_le _ (hp _)))
    rw [add_comm d]
    exact natDegree_mul_le_of_le natDegree_X_le hdiff
  · split_ifs
    · rw [natDegree_C]
      exact Nat.zero_le _
    · simp

/-- A wrong chain of folds passes all rounds at few challenges. -/
theorem count_folds_le (hpoint : Function.Injective point) {us : List F} {n : ℕ}
    (hlength : us.length = n) {p : ℕ → F[X]} {pole : F}
    (h : p n ≠ foldPolys us (p 0) ∨ us.getD 0 0 * pole ≠ 0) (hpos : 0 < n) {d : ℕ}
    (hp : ∀ j, (p j).natDegree ≤ d) :
    count (fun x : κ => ∀ j < n, (foldDefect us p pole j).eval (point x ^ 2 ^ (j + 1)) = 0) ≤
      (d + 1) * 2 ^ n := by
  subst hlength
  obtain ⟨j, hj, hne⟩ := exists_foldDefect_ne_zero h hpos
  calc count (fun x : κ => ∀ j < us.length,
        (foldDefect us p pole j).eval (point x ^ 2 ^ (j + 1)) = 0)
      ≤ count fun x : κ => (foldDefect us p pole j).eval (point x ^ 2 ^ (j + 1)) = 0 :=
        count_mono fun x hx => hx j hj
    _ ≤ (d + 1) * 2 ^ (j + 1) :=
        count_eval_pow_le hpoint hne (natDegree_foldDefect_le us pole hp j) (by positivity)
    _ ≤ (d + 1) * 2 ^ us.length :=
        Nat.mul_le_mul_left _ (Nat.pow_le_pow_right two_pos hj)

end Count

end Openings
