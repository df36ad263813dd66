import Mathlib.Algebra.Polynomial.BigOperators
import Pnlx.Lib.Challenges

/-!
# The copy argument

Cells have values and names, and a wiring marks each cell with the name of another one. The product
of the named cells is that of the marked cells if every cell has the value of the one that it is
wired to, and otherwise for few challenges only.

1. `card_prod_named_le`: how often the products agree for a table that does not respect the wiring.
2. `prod_of_telescope`: products over rows from a running quotient.
-/

open Polynomial Challenges

open scoped Classical

namespace Copies

variable {F ι κ : Type*} [Field F] [Fintype ι]

/-- The product of the cells, each with its name. -/
def namedProduct (value name : ι → F) (β γ : F) : F := ∏ c, (value c + β * name c + γ)

/-- A product of shifted values is a polynomial in the shift. -/
theorem prod_shift_eq_eval (f : ι → F) (γ : F) :
    ∏ c, (f c + γ) = (∏ c, (X + C (f c))).eval γ := by
  simp [eval_prod, add_comm]

theorem natDegree_prod_shift_le (f : ι → F) :
    (∏ c, (X + C (f c))).natDegree ≤ Fintype.card ι := by
  refine (natDegree_prod_le _ _).trans ?_
  simp

/-- A value of the one product that is none of the other tells the polynomials apart. -/
theorem prod_shift_ne {f g : ι → F} {c : ι} (h : ∀ e, f c ≠ g e) :
    ∏ c, (X + C (f c)) ≠ ∏ c, (X + C (g c)) := by
  intro heq
  have heval := congrArg (eval (-f c)) heq
  rw [← prod_shift_eq_eval, ← prod_shift_eq_eval] at heval
  rw [Finset.prod_eq_zero (Finset.mem_univ c) (add_neg_cancel _)] at heval
  obtain ⟨e, -, he⟩ := Finset.prod_eq_zero_iff.mp heval.symm
  exact h e (by linear_combination -he)

variable [Fintype κ] {point : κ → F}

/-- A table that does not respect the wiring has equal products for few challenges. -/
theorem card_prod_named_le (hpoint : Function.Injective point) {value name mark : ι → F}
    {wiring : ι → ι} (hwiring : Function.Injective wiring) (hname : Function.Injective name)
    (hmark : ∀ c, mark c = name (wiring c)) (hvalue : ∃ c, value (wiring c) ≠ value c) :
    count (fun βγ : κ × κ => namedProduct value name (point βγ.1) (point βγ.2) =
      namedProduct value mark (point βγ.1) (point βγ.2)) ≤
        2 * Fintype.card ι * Fintype.card κ := by
  obtain ⟨c, hc⟩ := hvalue
  -- the cell that the wiring leads to is none of the marked ones, as a pair of value and name
  have hpair : ∀ e, value (wiring c) - value e ≠ 0 ∨ name (wiring c) - mark e ≠ 0 := by
    intro e
    by_contra h
    push Not at h
    have hmarked : wiring c = wiring e := by
      refine hname ?_
      rw [← hmark e]
      exact sub_eq_zero.mp h.2
    obtain rfl : c = e := hwiring hmarked
    exact hc (sub_eq_zero.mp h.1)
  -- for few factors of the names it coincides with one of them as a sum
  have hfactor : count (fun β : κ =>
      ∃ e, value (wiring c) - value e + point β * (name (wiring c) - mark e) = 0) ≤
        Fintype.card ι := by
    refine (count_exists_le _).trans ?_
    refine (Finset.sum_le_sum fun e _ => card_line_le hpoint (hpair e)).trans ?_
    simp
  have hshift : ∀ β : κ,
      (¬ ∃ e, value (wiring c) - value e + point β * (name (wiring c) - mark e) = 0) →
      count (fun γ : κ => namedProduct value name (point β) (point γ) =
        namedProduct value mark (point β) (point γ)) ≤ Fintype.card ι := by
    intro β hβ
    push Not at hβ
    have hne : ∏ e, (X + C (value e + point β * name e)) ≠
        ∏ e, (X + C (value e + point β * mark e)) := by
      refine @prod_shift_ne F ι _ _ _ _ (wiring c) fun e he => hβ e ?_
      linear_combination he
    refine (count_mono fun γ h => ?_).trans (card_eval_eq_le hpoint
      (natDegree_prod_shift_le fun e => value e + point β * name e)
      (natDegree_prod_shift_le fun e => value e + point β * mark e) hne)
    rwa [← prod_shift_eq_eval, ← prod_shift_eq_eval]
  rw [count_prod]
  refine (sum_count_le (Fintype.card ι) hfactor hshift).trans (le_of_eq ?_)
  ring

/-! ## Running products -/

omit [Fintype ι] in
/-- A running quotient that starts at one carries the first products to the second ones. -/
theorem prod_of_telescope {num den z : ℕ → F} {m : ℕ} (hz : z 0 = 1)
    (hstep : ∀ i < m, z i * num i = z (i + 1) * den i) :
    ∏ i ∈ Finset.range m, num i = z m * ∏ i ∈ Finset.range m, den i := by
  induction m with
  | zero => simp [hz]
  | succ m ih =>
    rw [Finset.prod_range_succ, Finset.prod_range_succ, ih fun i hi => hstep i (by omega)]
    linear_combination (∏ i ∈ Finset.range m, den i) * hstep m (by omega)

end Copies
