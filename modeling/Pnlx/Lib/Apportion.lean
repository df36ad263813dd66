import Mathlib.Algebra.BigOperators.Group.List.Basic
import Mathlib.Algebra.Order.BigOperators.Group.List
import Mathlib.Algebra.Order.Ring.Int
import Mathlib.Tactic.Linarith

/-!
# Amounts that make up a total

1. `fill`: amounts are used in order until they cover a total, the last of them only as far as it is
   needed (`fill_of_le`). They may not cover it (`fill_of_lt`).
2. `apportion`: a total is split in proportion to parts of another one. Quotients are rounded down,
   and the last part gets what is left (`apportion_append`), which is positive (`rest_pos`).
-/

namespace Apportion

variable {α : Type*}

/-! ## Filling a total -/

/-- The amounts that are used for a total, and what they leave of it. -/
def fill (amount : α → ℤ) : ℤ → List α → List (ℤ × α) × ℤ
  | remaining, [] => ([], remaining)
  | remaining, x :: xs =>
    let part := if amount x < remaining then amount x else remaining
    if part ≤ 0 then fill amount remaining xs
    else if remaining - part = 0 then ([(part, x)], 0)
    else
      let rest := fill amount (remaining - part) xs
      ((part, x) :: rest.1, rest.2)

variable {amount : α → ℤ} {xs : List α} {remaining : ℤ}

theorem fill_cons_of_lt {x : α} (hpos : 0 < amount x) (h : amount x < remaining) :
    fill amount remaining (x :: xs) =
      ((amount x, x) :: (fill amount (remaining - amount x) xs).1,
        (fill amount (remaining - amount x) xs).2) := by
  rw [fill, if_pos h, if_neg (not_le.mpr hpos), if_neg (by omega)]

theorem fill_cons_of_le {x : α} (hremaining : 0 < remaining) (h : remaining ≤ amount x) :
    fill amount remaining (x :: xs) = ([(remaining, x)], 0) := by
  rw [fill, if_neg (not_lt.mpr h), if_neg (not_le.mpr hremaining), if_pos (sub_self _)]

/-- Amounts that do not cover the total are all used. -/
theorem fill_of_lt (hpos : ∀ x ∈ xs, 0 < amount x) (h : (xs.map amount).sum < remaining) :
    fill amount remaining xs =
      (xs.map fun x => (amount x, x), remaining - (xs.map amount).sum) := by
  induction xs generalizing remaining with
  | nil => simp [fill]
  | cons x xs ih =>
    obtain ⟨hx, hxs⟩ := List.forall_mem_cons.mp hpos
    have hsum : 0 ≤ (xs.map amount).sum := by
      refine List.sum_nonneg fun a ha => ?_
      obtain ⟨y, hy, rfl⟩ := List.mem_map.mp ha
      exact (hxs y hy).le
    rw [List.map_cons, List.sum_cons] at h
    rw [fill_cons_of_lt hx (by omega), ih hxs (by omega), List.map_cons, List.map_cons,
      List.sum_cons, sub_sub]

/-- **Amounts that cover the total** are used whole up to the one with which they do. -/
theorem fill_of_le (hpos : ∀ x ∈ xs, 0 < amount x) (hremaining : 0 < remaining)
    (h : remaining ≤ (xs.map amount).sum) :
    ∃ pre x post, xs = pre ++ x :: post ∧ (pre.map amount).sum < remaining ∧
      remaining ≤ (pre.map amount).sum + amount x ∧
      fill amount remaining xs =
        ((pre.map fun y => (amount y, y)) ++ [(remaining - (pre.map amount).sum, x)], 0) := by
  induction xs generalizing remaining with
  | nil => exact absurd (h.trans_lt hremaining) (lt_irrefl _)
  | cons x xs ih =>
    obtain ⟨hx, hxs⟩ := List.forall_mem_cons.mp hpos
    rw [List.map_cons, List.sum_cons] at h
    by_cases hlast : remaining ≤ amount x
    · refine ⟨[], x, xs, rfl, hremaining, by simpa using hlast, ?_⟩
      rw [fill_cons_of_le hremaining hlast]
      simp
    · obtain ⟨pre, y, post, rfl, hlt, hle, hfill⟩ :=
        @ih (remaining - amount x) hxs (by omega) (by omega)
      refine ⟨x :: pre, y, post, rfl, ?_, ?_, ?_⟩
      · rw [List.map_cons, List.sum_cons]
        omega
      · rw [List.map_cons, List.sum_cons]
        omega
      · rw [fill_cons_of_lt hx (not_le.mp hlast), hfill, List.map_cons, List.map_cons,
          List.sum_cons, sub_sub]
        rfl

/-! ## Proportional parts -/

/-- The parts of `total` beside the parts of `required`. What is left of `total` is `remaining`. -/
def apportion (total required : ℤ) : ℤ → List (ℤ × α) → List (ℤ × ℤ × α)
  | _, [] => []
  | remaining, [part] => [(remaining, part)]
  | remaining, part :: next :: parts =>
    let share := (total * part.1).tdiv required
    (share, part) :: apportion total required (remaining - share) (next :: parts)

variable {total required : ℤ}

theorem apportion_append (parts : List (ℤ × α)) (last : ℤ × α) (remaining : ℤ) :
    apportion total required remaining (parts ++ [last]) =
      (parts.map fun part => ((total * part.1).tdiv required, part)) ++
        [(remaining - (parts.map fun part => (total * part.1).tdiv required).sum, last)] := by
  induction parts generalizing remaining with
  | nil => simp [apportion]
  | cons part parts ih =>
    cases parts with
    | nil => simp [apportion]
    | cons next parts =>
      rw [List.cons_append, List.cons_append, apportion, ← List.cons_append, ih]
      simp [sub_sub]

/-- Rounded quotients of less than the whole leave something of the total. -/
theorem rest_pos {parts : List (ℤ × α)} (htotal : 0 < total) (hrequired : 0 < required)
    (hparts : ∀ part ∈ parts, 0 ≤ part.1) (h : (parts.map Prod.fst).sum < required) :
    0 < total - (parts.map fun part => (total * part.1).tdiv required).sum := by
  have hbound : (parts.map fun part => (total * part.1).tdiv required).sum * required ≤
      total * (parts.map Prod.fst).sum := by
    clear h
    induction parts with
    | nil => simp
    | cons part parts ih =>
      obtain ⟨hpart, hrest⟩ := List.forall_mem_cons.mp hparts
      have hshare : (total * part.1).tdiv required * required ≤ total * part.1 := by
        rw [Int.tdiv_eq_ediv_of_nonneg (mul_nonneg htotal.le hpart)]
        exact Int.ediv_mul_le _ hrequired.ne'
      have hih := ih hrest
      simp only [List.map_cons, List.sum_cons]
      linarith
  by_contra hnot
  have hall : total * required ≤
      (parts.map fun part => (total * part.1).tdiv required).sum * required :=
    mul_le_mul_of_nonneg_right (by linarith) hrequired.le
  have hlt : total * (parts.map Prod.fst).sum < total * required :=
    mul_lt_mul_of_pos_left h htotal
  linarith

/-- A share is positive exactly when the part is large enough. -/
theorem share_pos_iff {part : ℤ} (htotal : 0 < total) (hrequired : 0 < required)
    (hpart : 0 ≤ part) : 0 < (total * part).tdiv required ↔ required ≤ total * part := by
  rw [Int.tdiv_eq_ediv_of_nonneg (mul_nonneg htotal.le hpart), ← Int.add_one_le_iff, zero_add,
    Int.le_ediv_iff_mul_le hrequired, one_mul]

/-! ## Sums of what a filter leaves -/

theorem sum_filter_le {f : α → ℤ} {p : α → Bool} {l : List α} (hpos : ∀ x ∈ l, 0 < f x) :
    ((l.filter p).map f).sum ≤ (l.map f).sum :=
  ((List.filter_sublist).map f).sum_le_sum fun a ha => by
    obtain ⟨x, hx, rfl⟩ := List.mem_map.mp ha
    exact (hpos x hx).le

/-- Positive numbers have the sum of all of them only if none is left out. -/
theorem sum_filter_eq_iff {f : α → ℤ} {p : α → Bool} {l : List α} (hpos : ∀ x ∈ l, 0 < f x) :
    ((l.filter p).map f).sum = (l.map f).sum ↔ ∀ x ∈ l, p x = true := by
  refine ⟨fun h => ?_, fun h => by rw [List.filter_eq_self.mpr h]⟩
  induction l with
  | nil => exact nofun
  | cons x l ih =>
    obtain ⟨hx, hl⟩ := List.forall_mem_cons.mp hpos
    have hle := @sum_filter_le _ f p l hl
    by_cases hp : p x = true
    · rw [List.filter_cons_of_pos hp, List.map_cons, List.map_cons, List.sum_cons, List.sum_cons,
        add_right_inj] at h
      exact List.forall_mem_cons.mpr ⟨hp, ih hl h⟩
    · rw [List.filter_cons_of_neg hp, List.map_cons, List.sum_cons] at h
      omega

/-- Numbers that are not positive add nothing if all are nonnegative. -/
theorem sum_filter_pos {f : α → ℤ} {l : List α} (h : ∀ x ∈ l, 0 ≤ f x) :
    ((l.filter fun x => 0 < f x).map f).sum = (l.map f).sum := by
  induction l with
  | nil => rfl
  | cons x l ih =>
    obtain ⟨hx, hl⟩ := List.forall_mem_cons.mp h
    rw [List.filter_cons, List.map_cons, List.sum_cons, ← ih hl]
    by_cases hpos : 0 < f x
    · rw [if_pos (decide_eq_true hpos), List.map_cons, List.sum_cons]
    · have hzero : f x = 0 := le_antisymm (not_lt.mp hpos) hx
      rw [if_neg (by simpa using hpos), hzero, zero_add]

end Apportion
