import Mathlib.Tactic.SplitIfs
import Pnlx.Contracts.LiquidityVault

/-!
# A token to compute with

A token that moves exactly the amounts it is asked to move. `sampleAsset` is what a deployed vault
or pool holds in the runs of this development.
-/

namespace Pnlx.LiquidityVault

/-- A token that keeps its balances below the bound of its amounts. -/
def sampleAsset : Asset where
  State := { f : Address → ℤ // ∀ a, 0 ≤ f a ∧ f a < 2 ^ 127 }
  balance t holder := BitVec.ofInt 128 (t.val holder)
  transfer t authorized sender recipient amount :=
    let debited := Function.update t.val sender (t.val sender - amount.toInt)
    if h : sender ∈ authorized ∧ 0 ≤ amount.toInt ∧ amount.toInt ≤ t.val sender ∧
        debited recipient + amount.toInt < 2 ^ 127 then
      .ok ⟨Function.update debited recipient (debited recipient + amount.toInt), by
        obtain ⟨-, hpos, hle, hbound⟩ := h
        have hdebited (a : Address) : 0 ≤ debited a ∧ debited a < 2 ^ 127 := by
          have ht := t.property sender
          by_cases ha : a = sender
          · subst ha
            rw [show debited a = t.val a - amount.toInt from Function.update_self ..]
            omega
          · rw [show debited a = t.val a from Function.update_of_ne ha ..]
            exact t.property a
        intro a
        by_cases ha : a = recipient
        · subst ha
          rw [Function.update_self]
          exact ⟨add_nonneg (hdebited a).1 hpos, hbound⟩
        · rw [Function.update_of_ne ha]
          exact hdebited a⟩
    else
      .error "token transfer failed"
  balance_nonneg t holder := by
    have ht := t.property holder
    rw [BitVec.toInt_ofInt, Int.bmod_def]
    omega
  transfer_exact {t authorized sender recipient amount t'} h holder := by
    have hexact (f : { f : Address → ℤ // ∀ a, 0 ≤ f a ∧ f a < 2 ^ 127 }) (a : Address) :
        (BitVec.ofInt 128 (f.val a)).toInt = f.val a := by
      have hf := f.property a
      rw [BitVec.toInt_ofInt, Int.bmod_def]
      omega
    rw [hexact, hexact]
    simp only at h
    split_ifs at h with hok
    rw [← Except.ok.inj h]
    show Function.update _ _ _ holder = _
    by_cases hr : holder = recipient
    · subst hr
      rw [Function.update_self, if_pos rfl]
      by_cases hs : holder = sender
      · subst hs
        rw [Function.update_self, if_pos rfl]
      · rw [Function.update_of_ne hs, if_neg hs, sub_zero]
    · rw [Function.update_of_ne hr, if_neg hr, add_zero]
      by_cases hs : holder = sender
      · subst hs
        rw [Function.update_self, if_pos rfl]
      · rw [Function.update_of_ne hs, if_neg hs, sub_zero]

def sampleVault : Address := .contract 1

/-- Every account but the vault has a thousand. -/
def sampleTokens : sampleAsset.State :=
  ⟨fun a => if a = sampleVault then 0 else 1000, fun a => by
    show (0 : ℤ) ≤ (if a = sampleVault then 0 else 1000) ∧
      (if a = sampleVault then 0 else 1000) < (2 ^ 127 : ℤ)
    split_ifs <;> omega⟩

end Pnlx.LiquidityVault
