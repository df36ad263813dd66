import Mathlib.Algebra.BigOperators.Group.Finset.Piecewise
import Mathlib.Algebra.Order.BigOperators.Group.Finset
import Mathlib.Algebra.Order.Group.Int

/-!
# Accounts with earmarked parts

An account holds an amount, of which a part is earmarked for every purpose of `κ`. A part grows by
accruals and is paid out as a whole.

1. `Account.Sound`: no part is negative and the parts are held. Every allowed move keeps it
   (`Sound.move`).
2. `part_add_paid`: the part of a purpose and what has been paid for it grow by what is accrued.
   `paid_apply`: what has been paid grows by what is paid out.
-/

namespace Earmark

variable {κ : Type*}

/-- An account: what it holds, and for every purpose what is earmarked and what has been paid. -/
@[ext]
structure Account (κ : Type*) where
  held : ℤ
  part : κ → ℤ
  paid : κ → ℤ

/-- What happens to an account. -/
inductive Move (κ : Type*) where
  /-- Assets that are not earmarked come or go. -/
  | float (held : ℤ)
  | accrue (amount : κ → ℤ)
  | pay (purpose : κ)

/-- What a move accrues for a purpose. -/
def Move.accrued : Move κ → κ → ℤ
  | accrue amount, k => amount k
  | _, _ => 0

namespace Account

/-- When a move may happen. -/
def Allows [Fintype κ] (a : Account κ) : Move κ → Prop
  | .float held => ∑ k, a.part k ≤ held
  | .accrue amount => (∀ k, 0 ≤ amount k) ∧ ∑ k, (a.part k + amount k) ≤ a.held
  | .pay _ => True

variable [DecidableEq κ]

def apply (a : Account κ) : Move κ → Account κ
  | .float held => { a with held := held }
  | .accrue amount => { a with part := fun k => a.part k + amount k }
  | .pay k =>
    { held := a.held - a.part k
      part := fun j => if j = k then 0 else a.part j
      paid := fun j => if j = k then a.paid j + a.part j else a.paid j }

/-- What a move pays out for a purpose. -/
def payout (a : Account κ) : Move κ → κ → ℤ
  | .pay purpose, k => if k = purpose then a.part k else 0
  | _, _ => 0

/-- The part of a purpose is what has been accrued for it and not yet been paid. -/
theorem part_add_paid (a : Account κ) (m : Move κ) (k : κ) :
    (a.apply m).part k + (a.apply m).paid k = a.part k + a.paid k + m.accrued k := by
  cases m with
  | float held => exact (add_zero _).symm
  | accrue amount => exact add_right_comm _ _ _
  | pay purpose =>
    show (if k = purpose then 0 else a.part k) +
      (if k = purpose then a.paid k + a.part k else a.paid k) = a.part k + a.paid k + 0
    by_cases hk : k = purpose
    · rw [if_pos hk, if_pos hk, zero_add, add_zero, add_comm]
    · rw [if_neg hk, if_neg hk, add_zero]

theorem paid_apply (a : Account κ) (m : Move κ) (k : κ) :
    (a.apply m).paid k = a.paid k + a.payout m k := by
  cases m with
  | float held => exact (add_zero _).symm
  | accrue amount => exact (add_zero _).symm
  | pay purpose =>
    show (if k = purpose then a.paid k + a.part k else a.paid k) =
      a.paid k + if k = purpose then a.part k else 0
    by_cases hk : k = purpose
    · rw [if_pos hk, if_pos hk]
    · rw [if_neg hk, if_neg hk, add_zero]

/-- No part is negative, and the account holds all parts. -/
structure Sound [Fintype κ] (a : Account κ) : Prop where
  nonneg : ∀ k, 0 ≤ a.part k
  covered : ∑ k, a.part k ≤ a.held

/-- **The rule for moves.** -/
theorem Sound.move [Fintype κ] {a : Account κ} (ha : a.Sound) {m : Move κ} (hm : a.Allows m) :
    (a.apply m).Sound := by
  cases m with
  | float held => exact ⟨ha.nonneg, hm⟩
  | accrue amount => exact ⟨fun k => add_nonneg (ha.nonneg k) (hm.1 k), hm.2⟩
  | pay purpose =>
    refine ⟨fun k => ?_, ?_⟩
    · show 0 ≤ if k = purpose then 0 else a.part k
      by_cases hk : k = purpose
      · rw [if_pos hk]
      · rw [if_neg hk]
        exact ha.nonneg k
    · show ∑ k, (if k = purpose then 0 else a.part k) ≤ a.held - a.part purpose
      have hsplit : ∑ k, a.part k =
          ∑ k, (if k = purpose then 0 else a.part k) + a.part purpose := by
        have hone : ∑ k, (if k = purpose then a.part k else 0) = a.part purpose :=
          (Finset.sum_ite_eq' Finset.univ purpose a.part).trans (if_pos (Finset.mem_univ purpose))
        rw [← hone, ← Finset.sum_add_distrib]
        refine Finset.sum_congr rfl fun k _ => ?_
        by_cases hk : k = purpose
        · rw [if_pos hk, if_pos hk, zero_add]
        · rw [if_neg hk, if_neg hk, add_zero]
      have hcovered := ha.covered
      omega

end Account

end Earmark
