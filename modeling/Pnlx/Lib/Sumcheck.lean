import Pnlx.Lib.Challenges

/-!
# The sumcheck protocol

A table has a row of columns at every index below `2 ^ m`, and the bits of an index are the values
of `m` variables. Between its rows a table is multilinear.

1. `line`, `fold`, `foldAll`: a table with its first variables fixed at points of the field.
2. `OfDegree`: a function of a row that is a polynomial along every line. `roundPoly`: the sum over
   a table with its first variable left open, `eval_roundPoly`, `natDegree_roundPoly_le`.
3. `Passes`: the checks of the verifier, round by round. `passes_honest`: the honest messages pass.
   `card_passes_le`: how many challenges a wrong claim survives, whatever the messages, each a
   function of the challenges before it.
-/

open Polynomial Challenges

namespace Sumcheck

variable {F ι κ : Type*} [Field F]

/-! ## Tables -/

/-- The point `x` of the line through `a` at `0` and `b` at `1`. -/
def line (a b : ι → F) (x : F) : ι → F := fun c => a c + x * (b c - a c)

@[simp] theorem line_zero (a b : ι → F) : line a b 0 = a := by
  funext c
  simp [line]

@[simp] theorem line_one (a b : ι → F) : line a b 1 = b := by
  funext c
  simp [line]

/-- The table with its first variable fixed. -/
def fold (x : F) (t : ℕ → ι → F) : ℕ → ι → F := fun i => line (t (2 * i)) (t (2 * i + 1)) x

/-- The table with a variable fixed for every point of the list. -/
def foldAll : List F → (ℕ → ι → F) → ℕ → ι → F
  | [], t => t
  | x :: xs, t => foldAll xs (fold x t)

@[simp] theorem foldAll_nil (t : ℕ → ι → F) : foldAll [] t = t := rfl

@[simp] theorem foldAll_cons (x : F) (xs : List F) (t : ℕ → ι → F) :
    foldAll (x :: xs) t = foldAll xs (fold x t) := rfl

/-- Folding works on each column alone. -/
theorem foldAll_comp {ι' : Type*} (e : ι → ι') (xs : List F) (t : ℕ → ι' → F) (i : ℕ) (c : ι) :
    foldAll xs t i (e c) = foldAll xs (fun i c => t i (e c)) i c := by
  induction xs generalizing t with
  | nil => rfl
  | cons x xs ih => exact ih (fold x t)

/-- A column of products of factors stays one, with the factors of the fixed variables taken out. -/
theorem foldAll_bitProduct {gs xs : List F} (hlength : gs.length = xs.length) {c : ι} {k : F}
    {t : ℕ → ι → F} (ht : ∀ i, t i c = k * bitProduct gs i) (i : ℕ) :
    foldAll xs t i c = (gs.zip xs).foldl (fun acc gx => acc * (1 + gx.2 * (gx.1 - 1))) k := by
  induction xs generalizing gs k t with
  | nil =>
    rw [List.length_nil, List.length_eq_zero_iff] at hlength
    simp [ht, hlength, bitProduct]
  | cons x xs ih =>
    obtain ⟨g, gs, rfl⟩ := List.exists_cons_of_length_eq_add_one hlength
    rw [foldAll_cons, List.zip_cons_cons, List.foldl_cons]
    refine ih (Nat.succ.inj hlength) fun i => ?_
    rw [fold, line, ht, ht, bitProduct_even, bitProduct_odd]
    ring

/-- The sum of a function of a row over a table of `m` variables. -/
def total (R : (ι → F) → F) (m : ℕ) (t : ℕ → ι → F) : F := ∑ i ∈ Finset.range (2 ^ m), R (t i)

/-- The first variable is zero or one. -/
theorem total_succ (R : (ι → F) → F) (m : ℕ) (t : ℕ → ι → F) :
    total R (m + 1) t = total R m (fold 0 t) + total R m (fold 1 t) := by
  unfold total fold
  rw [sum_range_pow_succ, Finset.sum_add_distrib]
  simp

theorem total_zero (R : (ι → F) → F) (t : ℕ → ι → F) : total R 0 t = R (t 0) := by simp [total]

/-! ## Round polynomials -/

/-- Along every line the function is a polynomial of the degree. -/
def OfDegree (d : ℕ) (R : (ι → F) → F) : Prop :=
  ∀ a b : ι → F, ∃ p : F[X], p.natDegree ≤ d ∧ ∀ x, p.eval x = R (line a b x)

variable {d : ℕ} {R : (ι → F) → F}

theorem OfDegree.exists_total (hR : OfDegree d R) (m : ℕ) (t : ℕ → ι → F) :
    ∃ p : F[X], p.natDegree ≤ d ∧ ∀ x, p.eval x = total R m (fold x t) := by
  choose p hdegree heval using hR
  refine ⟨∑ i ∈ Finset.range (2 ^ m), p (t (2 * i)) (t (2 * i + 1)), ?_, fun x => ?_⟩
  · exact natDegree_sum_le_of_forall_le _ _ fun i _ => hdegree _ _
  · rw [eval_finsetSum]
    exact Finset.sum_congr rfl fun i _ => heval _ _ x

/-- The message of the honest prover: the sum with the first variable left open. -/
noncomputable def roundPoly (hR : OfDegree d R) (m : ℕ) (t : ℕ → ι → F) : F[X] :=
  (hR.exists_total m t).choose

theorem natDegree_roundPoly_le (hR : OfDegree d R) (m : ℕ) (t : ℕ → ι → F) :
    (roundPoly hR m t).natDegree ≤ d := (hR.exists_total m t).choose_spec.1

theorem eval_roundPoly (hR : OfDegree d R) (m : ℕ) (t : ℕ → ι → F) (x : F) :
    (roundPoly hR m t).eval x = total R m (fold x t) := (hR.exists_total m t).choose_spec.2 x

/-! ## The verifier -/

/-- The claim is what each message says of the sum, and the value of the message at the challenge is
the next claim. The last claim is about the row that is left. -/
def Passes : F → List (F[X] × F) → F → Prop
  | claim, [], row => row = claim
  | claim, (p, x) :: rounds, row => p.eval 0 + p.eval 1 = claim ∧ Passes (p.eval x) rounds row

/-- The messages of the honest prover. -/
noncomputable def honest (hR : OfDegree d R) : List F → (ℕ → ι → F) → List (F[X] × F)
  | [], _ => []
  | x :: xs, t => (roundPoly hR xs.length t, x) :: honest hR xs (fold x t)

/-- The honest prover convinces the verifier of the sum, with the row of the table at the
challenges. -/
theorem passes_honest (hR : OfDegree d R) (xs : List F) (t : ℕ → ι → F) :
    Passes (total R xs.length t) (honest hR xs t) (R (foldAll xs t 0)) := by
  induction xs generalizing t with
  | nil => exact (total_zero R t).symm
  | cons x xs ih =>
    refine ⟨?_, ?_⟩
    · rw [eval_roundPoly, eval_roundPoly, List.length_cons, total_succ]
    · rw [eval_roundPoly]
      exact ih (fold x t)

theorem getElem_honest (hR : OfDegree d R) (xs : List F) (t : ℕ → ι → F) (k : ℕ)
    (hk : k < (honest hR xs t).length) (hk' : k < xs.length) :
    (honest hR xs t)[k] = (roundPoly hR (xs.length - 1 - k) (foldAll (xs.take k) t), xs[k]) := by
  induction xs generalizing t k with
  | nil => exact absurd hk' (Nat.not_lt_zero k)
  | cons x xs ih =>
    cases k with
    | zero => rfl
    | succ k =>
      rw [List.length_cons] at hk'
      have hrest : xs.length + 1 - 1 - (k + 1) = xs.length - 1 - k := by omega
      simp only [honest, List.getElem_cons_succ, List.length_cons, hrest, List.take_succ_cons,
        foldAll_cons]
      exact ih (fold x t) k _ (by omega)

@[simp] theorem length_honest (hR : OfDegree d R) (xs : List F) (t : ℕ → ι → F) :
    (honest hR xs t).length = xs.length := by
  induction xs generalizing t with
  | nil => rfl
  | cons x xs ih => rw [honest, List.length_cons, ih, List.length_cons]

/-! ## Soundness -/

section Soundness

variable [Fintype κ] {point : κ → F}

/-- What a prover sends: each message is a function of the challenges before it. -/
def played (point : κ → F) (prover : List κ → F[X]) : List κ → List (F[X] × F)
  | [] => []
  | x :: xs => (prover [], point x) :: played point (fun before => prover (x :: before)) xs

omit [Fintype κ] in
@[simp] theorem length_played (prover : List κ → F[X]) (xs : List κ) :
    (played point prover xs).length = xs.length := by
  induction xs generalizing prover with
  | nil => rfl
  | cons x xs ih => rw [played, List.length_cons, ih, List.length_cons]

omit [Fintype κ] in
theorem getElem_played (prover : List κ → F[X]) (xs : List κ) (k : ℕ)
    (hk : k < (played point prover xs).length) (hk' : k < xs.length) :
    (played point prover xs)[k] = (prover (xs.take k), point xs[k]) := by
  induction xs generalizing prover k with
  | nil => exact absurd hk' (Nat.not_lt_zero k)
  | cons x xs ih =>
    cases k with
    | zero => rfl
    | succ k => exact ih (fun before => prover (x :: before)) k _ (Nat.lt_of_succ_lt_succ hk')

/-- A wrong claim survives at few challenges. -/
theorem card_passes_le (hpoint : Function.Injective point) (hR : OfDegree d R) {m : ℕ}
    (t : ℕ → ι → F) {claim : F} (hclaim : claim ≠ total R m t) {prover : List κ → F[X]}
    (hprover : ∀ before, (prover before).natDegree ≤ d) :
    count (fun xs : Fin m → κ => Passes claim (played point prover (List.ofFn xs))
      (R (foldAll ((List.ofFn xs).map point) t 0))) ≤ m * d * Fintype.card κ ^ (m - 1) := by
  induction m generalizing t claim prover with
  | zero =>
    rw [total_zero] at hclaim
    rw [count_eq_zero fun xs h => hclaim h.symm]
    exact Nat.zero_le _
  | succ m ih =>
    set p := prover [] with hp
    set q := roundPoly hR m t with hq
    by_cases hsum : p.eval 0 + p.eval 1 = claim
    swap
    · refine (count_eq_zero fun xs h => hsum ?_).trans_le (Nat.zero_le _)
      rw [List.ofFn_succ] at h
      exact h.1
    -- the honest message proves the true sum, so this one differs from it
    have hne : p ≠ q := by
      intro h
      rw [h, hq, eval_roundPoly, eval_roundPoly, ← total_succ] at hsum
      exact hclaim hsum.symm
    have hagree : count (fun x : κ => p.eval (point x) = q.eval (point x)) ≤ d :=
      card_eval_eq_le hpoint (hprover []) (natDegree_roundPoly_le hR m t) hne
    refine (card_le_of_cons (m * d * Fintype.card κ ^ (m - 1)) hagree fun x hx => ?_).trans ?_
    · -- at the other challenges the next claim is wrong again
      have hnext : p.eval (point x) ≠ total R m (fold (point x) t) := by
        rwa [← eval_roundPoly hR]
      refine (count_mono fun xs h => ?_).trans
        (@ih (fold (point x) t) _ hnext (fun before => prover (x :: before)) fun _ => hprover _)
      simp only [List.ofFn_succ, Fin.cons_zero, Fin.cons_succ] at h
      exact h.2
    · rcases m with _ | m
      · simp
      · rw [Nat.add_sub_cancel, Nat.add_sub_cancel, pow_succ]
        exact le_of_eq (by ring)

end Soundness

end Sumcheck
