import Mathlib.Algebra.GroupWithZero.Nat
import Mathlib.Algebra.Order.BigOperators.Group.List
import Mathlib.Algebra.Order.Group.Nat

/-!
# Lists joined by a separator

Joining does not escape the separator. When the parts of one list are free of it, the number of
separators still tells whether a second list has the same parts (`intercalate_inj`).
-/

namespace Separators

variable {α : Type*} [DecidableEq α] {sep : α}

/-- A joined list has the separators between its parts and those inside them. -/
theorem count_intercalate (part : List α) (parts : List (List α)) :
    ([sep].intercalate (part :: parts)).count sep =
      parts.length + ((part :: parts).map (List.count sep)).sum := by
  induction parts generalizing part with
  | nil =>
    rw [List.intercalate_singleton, List.map_singleton, List.sum_singleton, List.length_nil,
      Nat.zero_add]
  | cons next parts ih =>
    rw [List.intercalate_cons_cons, List.count_append, List.count_append, List.count_singleton_self,
      ih next, List.map_cons (l := next :: parts), List.sum_cons, List.length_cons]
    omega

/-- Two joined lists of as many parts agree when the parts of one are free of the separator. -/
theorem intercalate_inj {parts parts' : List (List α)} (hlen : parts.length = parts'.length)
    (hfree : ∀ part ∈ parts, sep ∉ part)
    (h : [sep].intercalate parts = [sep].intercalate parts') : parts = parts' := by
  cases parts with
  | nil => exact (List.eq_nil_of_length_eq_zero hlen.symm).symm
  | cons part parts =>
    cases parts' with
    | nil => exact absurd hlen (Nat.succ_ne_zero _)
    | cons part' parts' =>
      have hzero : ((part :: parts).map (List.count sep)).sum = 0 :=
        List.sum_eq_zero fun n hn => by
          obtain ⟨p, hp, rfl⟩ := List.mem_map.mp hn
          exact List.count_eq_zero.mpr (hfree p hp)
      have hcount := congrArg (List.count sep) h
      rw [count_intercalate, count_intercalate, hzero, ← Nat.succ.inj hlen] at hcount
      have hzero' : ((part' :: parts').map (List.count sep)).sum = 0 := by omega
      have hfree' : ∀ p ∈ part' :: parts', sep ∉ p := fun p hp =>
        List.count_eq_zero.mp (List.sum_eq_zero_iff.mp hzero' _ (List.mem_map_of_mem hp))
      rw [← List.splitOn_intercalate sep hfree (List.cons_ne_nil _ _), h,
        List.splitOn_intercalate sep hfree' (List.cons_ne_nil _ _)]

end Separators
