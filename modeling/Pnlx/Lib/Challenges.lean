import Mathlib.Algebra.Polynomial.Roots
import Mathlib.Algebra.BigOperators.Fin
import Mathlib.Data.Fintype.BigOperators
import Mathlib.Data.Fin.Tuple.Basic
import Mathlib.Tactic.LinearCombination

/-!
# Counting bad challenges

Challenges are drawn one after the other from a finite type, and each stands for an element of a
field.

1. `card_le_of_cons`: what is bad for few first challenges, and afterwards for few of the others, is
   bad for few lists of challenges.
2. `card_eval_eq_le`, `card_powers_le`, `card_affine_le`, `card_bitSum_le`: where two polynomials
   agree, and where a combination of powers, an affine form and a multilinear form vanish.
-/

open Polynomial

open scoped Classical

namespace Challenges

variable {F κ : Type*} [Field F] [Fintype κ] {m : ℕ}

/-! ## One challenge after the other -/

/-- The number of challenges with a property. -/
noncomputable def count {α : Type*} [Fintype α] (P : α → Prop) : ℕ := (Finset.univ.filter P).card

theorem count_mono {α : Type*} [Fintype α] {P Q : α → Prop} (h : ∀ x, P x → Q x) :
    count P ≤ count Q :=
  Finset.card_le_card fun x hx => by
    rw [Finset.mem_filter] at hx ⊢
    exact ⟨hx.1, h x hx.2⟩

theorem count_le_card {α : Type*} [Fintype α] (P : α → Prop) : count P ≤ Fintype.card α :=
  Finset.card_le_univ _

theorem count_eq_zero {α : Type*} [Fintype α] {P : α → Prop} (h : ∀ x, ¬ P x) : count P = 0 := by
  unfold count
  rw [Finset.filter_false_of_mem fun x _ => h x, Finset.card_empty]

theorem count_exists_le {α ι : Type*} [Fintype α] [Fintype ι] (P : ι → α → Prop) :
    count (fun x => ∃ i, P i x) ≤ ∑ i, count (P i) := by
  unfold count
  refine le_trans (Finset.card_le_card fun x hx => ?_) Finset.card_biUnion_le
  obtain ⟨i, hi⟩ : ∃ i, P i x := by simpa using hx
  exact Finset.mem_biUnion.mpr
    ⟨i, Finset.mem_univ i, Finset.mem_filter.mpr ⟨Finset.mem_univ x, hi⟩⟩

theorem count_or_le {α : Type*} [Fintype α] (P Q : α → Prop) :
    count (fun x => P x ∨ Q x) ≤ count P + count Q := by
  unfold count
  refine le_trans (Finset.card_le_card fun x hx => ?_) (Finset.card_union_le _ _)
  simpa using hx

/-- The pairs with a property, counted by the first part. -/
theorem count_prod {α β : Type*} [Fintype α] [Fintype β] (P : α × β → Prop) :
    count P = ∑ x : α, count fun y : β => P (x, y) := by
  unfold count
  simp only [Finset.card_filter]
  rw [Fintype.sum_prod_type]

theorem count_cons (P : (Fin (m + 1) → κ) → Prop) :
    count P = ∑ x : κ, count fun xs : Fin m → κ => P (Fin.cons x xs) := by
  unfold count
  simp only [Finset.card_filter]
  rw [← (Fin.consEquiv fun _ => κ).sum_comp, Fintype.sum_prod_type]
  rfl

/-- Few of the first parts are bad, and after each other one few of the second parts are. -/
theorem sum_count_le {α β : Type*} [Fintype α] [Fintype β] {bad : α → Prop} {P : α → β → Prop}
    {d : ℕ} (b : ℕ) (hbad : count bad ≤ d) (h : ∀ x, ¬ bad x → count (P x) ≤ b) :
    ∑ x : α, count (P x) ≤ d * Fintype.card β + Fintype.card α * b := by
  have hone : ∀ x, count (P x) ≤ (if bad x then Fintype.card β else 0) + b := by
    intro x
    by_cases hx : bad x
    · rw [if_pos hx]
      exact (count_le_card _).trans (Nat.le_add_right _ _)
    · rw [if_neg hx, zero_add]
      exact h x hx
  calc ∑ x : α, count (P x)
      ≤ ∑ x : α, ((if bad x then Fintype.card β else 0) + b) :=
        Finset.sum_le_sum fun x _ => hone x
    _ = count bad * Fintype.card β + Fintype.card α * b := by
        rw [Finset.sum_add_distrib, ← Finset.sum_filter, Finset.sum_const, Finset.sum_const,
          smul_eq_mul, smul_eq_mul, Finset.card_univ]
        rfl
    _ ≤ d * Fintype.card β + Fintype.card α * b :=
        Nat.add_le_add_right (Nat.mul_le_mul_right _ hbad) _

/-- The same with the counts scaled. -/
theorem sum_count_scaled_le {α β : Type*} [Fintype α] [Fintype β] {bad : α → Prop}
    {P : α → β → Prop} {d K : ℕ} (b : ℕ) (hbad : count bad * K ≤ d)
    (h : ∀ x, ¬ bad x → count (P x) * K ≤ b) :
    (∑ x : α, count (P x)) * K ≤ d * Fintype.card β + Fintype.card α * b := by
  rcases Nat.eq_zero_or_pos K with rfl | hK
  · exact Nat.zero_le _
  have hsum := sum_count_le (b / K) (le_refl (count bad)) fun x hx =>
    (Nat.le_div_iff_mul_le hK).mpr (h x hx)
  calc (∑ x : α, count (P x)) * K
      ≤ (count bad * Fintype.card β + Fintype.card α * (b / K)) * K := Nat.mul_le_mul_right _ hsum
    _ = count bad * K * Fintype.card β + Fintype.card α * (b / K * K) := by ring
    _ ≤ d * Fintype.card β + Fintype.card α * b :=
        Nat.add_le_add (Nat.mul_le_mul_right _ hbad)
          (Nat.mul_le_mul_left _ (Nat.div_mul_le_self b K))

theorem card_le_of_cons {P : (Fin (m + 1) → κ) → Prop} {bad : κ → Prop} {d : ℕ} (b : ℕ)
    (hbad : count bad ≤ d)
    (h : ∀ x, ¬ bad x → count (fun xs : Fin m → κ => P (Fin.cons x xs)) ≤ b) :
    count P ≤ d * Fintype.card κ ^ m + Fintype.card κ * b := by
  rw [count_cons]
  refine (sum_count_le b hbad h).trans (le_of_eq ?_)
  rw [Fintype.card_fun, Fintype.card_fin]

/-! ## Zeros -/

variable {point : κ → F}

/-- Two polynomials of the degree that differ agree at few challenges. -/
theorem card_eval_eq_le (hpoint : Function.Injective point) {d : ℕ} {p q : F[X]}
    (hp : p.natDegree ≤ d) (hq : q.natDegree ≤ d) (hne : p ≠ q) :
    count (fun x => p.eval (point x) = q.eval (point x)) ≤ d := by
  have hdiff : p - q ≠ 0 := sub_ne_zero.mpr hne
  unfold count
  rw [← Finset.card_image_of_injective _ hpoint]
  calc ((Finset.univ.filter fun x => p.eval (point x) = q.eval (point x)).image point).card
      ≤ (p - q).roots.toFinset.card := by
        refine Finset.card_le_card fun y hy => ?_
        obtain ⟨x, hx, rfl⟩ := Finset.mem_image.mp hy
        rw [Multiset.mem_toFinset, mem_roots hdiff, IsRoot, eval_sub, sub_eq_zero]
        exact (Finset.mem_filter.mp hx).2
    _ ≤ (p - q).roots.card := Multiset.toFinset_card_le _
    _ ≤ (p - q).natDegree := card_roots' _
    _ ≤ d := (natDegree_sub_le p q).trans (max_le hp hq)

/-- A combination by different powers that is not zero vanishes at few challenges. -/
theorem card_powers_le (hpoint : Function.Injective point) {ι : Type*} [Fintype ι]
    {exponent : ι → ℕ} (hexponent : Function.Injective exponent) {d : ℕ}
    (hd : ∀ k, exponent k ≤ d) {c : ι → F} {i : ι} (h : c i ≠ 0) :
    count (fun x => ∑ k, point x ^ exponent k * c k = 0) ≤ d := by
  set p : F[X] := ∑ k, monomial (exponent k) (c k) with hp
  have hdegree : p.natDegree ≤ d :=
    natDegree_sum_le_of_forall_le _ _ fun k _ => (natDegree_monomial_le _).trans (hd k)
  have hne : p ≠ 0 := by
    intro hzero
    have hcoeff := congrArg (fun q => q.coeff (exponent i)) hzero
    simp only [hp, finsetSum_coeff, coeff_monomial, hexponent.eq_iff, coeff_zero] at hcoeff
    rw [Finset.sum_ite_eq' Finset.univ i, if_pos (Finset.mem_univ i)] at hcoeff
    exact h hcoeff
  refine (count_mono fun x hx => ?_).trans
    (card_eval_eq_le hpoint hdegree (q := 0) (by simp) hne)
  rw [eval_zero, ← hx, hp, eval_finsetSum]
  exact Finset.sum_congr rfl fun k _ => by rw [eval_monomial, mul_comm]

/-- A line that is not zero vanishes at one challenge at most. -/
theorem card_line_le (hpoint : Function.Injective point) {a b : F} (h : a ≠ 0 ∨ b ≠ 0) :
    count (fun x => a + point x * b = 0) ≤ 1 := by
  unfold count
  rw [Finset.card_le_one]
  intro x hx y hy
  rw [Finset.mem_filter] at hx hy
  have hsame : (point x - point y) * b = 0 := by linear_combination hx.2 - hy.2
  rcases mul_eq_zero.mp hsame with hxy | hb
  · exact hpoint (sub_eq_zero.mp hxy)
  · have ha : a = 0 := by simpa [hb] using hx.2
    simp [ha, hb] at h

/-- An affine form that is not zero vanishes at few lists of challenges. -/
theorem card_affine_le (hpoint : Function.Injective point) {a : F} {b : Fin m → F}
    (h : a ≠ 0 ∨ ∃ k, b k ≠ 0) :
    count (fun xs : Fin m → κ => a + ∑ k, point (xs k) * b k = 0) ≤ Fintype.card κ ^ (m - 1) := by
  induction m generalizing a with
  | zero =>
    have ha : a ≠ 0 := by simpa using h
    rw [count_eq_zero fun xs => by simpa using ha]
    exact Nat.zero_le _
  | succ m ih =>
    simp only [Fin.sum_univ_succ, ← add_assoc]
    by_cases hlater : ∃ k : Fin m, b k.succ ≠ 0
    · -- whatever the first challenge is, the others decide
      have hm : 0 < m := Fin.pos_iff_nonempty.mpr ⟨hlater.choose⟩
      have hnone : count (fun _ : κ => False) ≤ 0 := (count_eq_zero fun _ => id).le
      refine (card_le_of_cons (Fintype.card κ ^ (m - 1)) hnone fun x _ => ?_).trans (le_of_eq ?_)
      · simp only [Fin.cons_zero, Fin.cons_succ]
        exact ih (Or.inr hlater)
      · rw [zero_mul, zero_add, ← pow_succ', Nat.add_sub_cancel, Nat.sub_add_cancel hm]
    · push Not at hlater
      have hfirst : a ≠ 0 ∨ b 0 ≠ 0 := by
        refine h.imp_right fun hk => ?_
        obtain ⟨k, hk⟩ := hk
        cases k using Fin.cases with
        | zero => exact hk
        | succ k => exact absurd (hlater k) hk
      refine (card_le_of_cons 0 (card_line_le hpoint hfirst) fun x hx => ?_).trans (le_of_eq ?_)
      · simp only [Fin.cons_zero, Fin.cons_succ, hlater, mul_zero, Finset.sum_const_zero, add_zero]
        exact (count_eq_zero fun _ => hx).le
      · rw [one_mul, mul_zero, add_zero, Nat.add_sub_cancel]

/-! ## Multilinear forms -/

/-- The product of the factors whose bit in the index is set. -/
def bitProduct : List F → ℕ → F
  | [], _ => 1
  | g :: gs, i => (if i % 2 = 1 then g else 1) * bitProduct gs (i / 2)

theorem bitProduct_even (g : F) (gs : List F) (i : ℕ) :
    bitProduct (g :: gs) (2 * i) = bitProduct gs i := by
  simp [bitProduct]

theorem bitProduct_odd (g : F) (gs : List F) (i : ℕ) :
    bitProduct (g :: gs) (2 * i + 1) = g * bitProduct gs i := by
  have hhalf : (2 * i + 1) / 2 = i := by omega
  simp [bitProduct, Nat.add_mod, hhalf]

theorem sum_range_pow_succ {M : Type*} [AddCommMonoid M] (f : ℕ → M) (m : ℕ) :
    ∑ i ∈ Finset.range (2 ^ (m + 1)), f i =
      ∑ i ∈ Finset.range (2 ^ m), (f (2 * i) + f (2 * i + 1)) := by
  rw [pow_succ, mul_comm]
  induction 2 ^ m with
  | zero => simp
  | succ n ih =>
    rw [Nat.mul_succ, Finset.sum_range_succ, Finset.sum_range_succ, Finset.sum_range_succ, ih,
      add_assoc]

/-- A multilinear form with a coefficient that is not zero vanishes at few lists of challenges. -/
theorem card_bitSum_le (hpoint : Function.Injective point) {f : ℕ → F}
    (h : ∃ i < 2 ^ m, f i ≠ 0) :
    count (fun xs : Fin m → κ =>
      ∑ i ∈ Finset.range (2 ^ m), f i * bitProduct ((List.ofFn xs).map point) i = 0) ≤
        m * Fintype.card κ ^ (m - 1) := by
  induction m generalizing f with
  | zero =>
    obtain ⟨i, hi, hne⟩ := h
    obtain rfl : i = 0 := by omega
    rw [count_eq_zero fun xs => by simpa [bitProduct] using hne]
    exact Nat.zero_le _
  | succ m ih =>
    obtain ⟨i, hi, hne⟩ := h
    have hhalf : i / 2 < 2 ^ m := by omega
    have hpair : f (2 * (i / 2)) ≠ 0 ∨ f (2 * (i / 2) + 1) ≠ 0 := by
      rcases Nat.mod_two_eq_zero_or_one i with heven | hodd
      · exact Or.inl (by rwa [Nat.mul_div_cancel' (Nat.dvd_of_mod_eq_zero heven)])
      · exact Or.inr (by rwa [show 2 * (i / 2) + 1 = i by omega])
    have hsplit : ∀ (x : κ) (xs : Fin m → κ),
        ∑ i ∈ Finset.range (2 ^ (m + 1)),
          f i * bitProduct ((List.ofFn (Fin.cons x xs : Fin (m + 1) → κ)).map point) i =
        ∑ i ∈ Finset.range (2 ^ m), (f (2 * i) + point x * f (2 * i + 1)) *
          bitProduct ((List.ofFn xs).map point) i := by
      intro x xs
      rw [sum_range_pow_succ]
      refine Finset.sum_congr rfl fun i _ => ?_
      simp only [List.ofFn_succ, Fin.cons_zero, Fin.cons_succ, List.map_cons, bitProduct_even,
        bitProduct_odd]
      ring
    refine (card_le_of_cons (m * Fintype.card κ ^ (m - 1)) (card_line_le hpoint hpair)
      fun x hx => ?_).trans ?_
    · simp only [hsplit]
      exact ih ⟨i / 2, hhalf, hx⟩
    · rcases m with _ | m
      · simp
      · rw [Nat.add_sub_cancel, Nat.add_sub_cancel, pow_succ]
        exact le_of_eq (by ring)

end Challenges
