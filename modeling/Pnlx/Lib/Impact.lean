import Mathlib.Algebra.Order.BigOperators.Group.List
import Mathlib.Algebra.Order.Ring.Int
import Mathlib.Tactic.Linarith

/-!
# Taking orders up to a notional

A walk takes orders in turn until their notional reaches a target. A notional is a product of size
and price that is rounded down after division by a scale. The last order is taken only as far as the
rest of the notional requires, rounded up.

1. `walk_of_lt`: orders that do not reach the target are all taken.
2. `walk_of_le`: otherwise the orders before the one that reaches it are, and a part of that one.
3. `average_bounds`: the average price of what has been taken is between its prices.
-/

namespace Impact

/-- The quotient of a number by a positive one, rounded up. -/
def ceilDiv (value divisor : ℤ) : ℤ := (value + divisor - 1).tdiv divisor

theorem le_ceilDiv_mul {value divisor : ℤ} (hvalue : 0 < value) (hdivisor : 0 < divisor) :
    value ≤ ceilDiv value divisor * divisor := by
  unfold ceilDiv
  rw [Int.tdiv_eq_ediv_of_nonneg (by omega)]
  have hlt := Int.lt_ediv_add_one_mul_self (value + divisor - 1) hdivisor
  rw [add_mul, one_mul] at hlt
  omega

theorem ceilDiv_pos {value divisor : ℤ} (hvalue : 0 < value) (hdivisor : 0 < divisor) :
    0 < ceilDiv value divisor := by
  have hle := le_ceilDiv_mul hvalue hdivisor
  by_contra hnot
  have hnonpos := mul_nonpos_of_nonpos_of_nonneg (not_lt.mp hnot) hdivisor.le
  omega

section Walk

variable {α : Type*} (size price : α → ℤ) (scale target : ℤ)

/-- What has been taken. -/
structure Taken where
  notional : ℤ
  size : ℤ
  cost : ℤ

def walk : Taken → List α → Taken
  | taken, [] => taken
  | taken, x :: xs =>
    if size x ≤ 0 ∨ price x ≤ 0 then walk taken xs
    else
      let requested := ceilDiv ((target - taken.notional) * scale) (price x)
      let part := if requested < size x then requested else size x
      if part ≤ 0 then walk taken xs
      else
        let next : Taken :=
          { notional := taken.notional + (part * price x).tdiv scale
            size := taken.size + part
            cost := taken.cost + part * price x }
        if target ≤ next.notional then next else walk next xs

/-- The notional of a whole order. -/
def worth (x : α) : ℤ := (size x * price x).tdiv scale

/-- The orders that are taken at all. -/
def counted (xs : List α) : List α := xs.filter fun x => 0 < size x ∧ 0 < price x

variable {size price scale target} {xs : List α} {x : α} {taken : Taken}

theorem counted_cons_of_pos (h : 0 < size x ∧ 0 < price x) :
    counted size price (x :: xs) = x :: counted size price xs :=
  List.filter_cons_of_pos (decide_eq_true h)

theorem counted_cons_of_neg (h : ¬ (0 < size x ∧ 0 < price x)) :
    counted size price (x :: xs) = counted size price xs :=
  List.filter_cons_of_neg fun hpos => h (of_decide_eq_true hpos)

theorem walk_skip (h : ¬ (0 < size x ∧ 0 < price x)) :
    walk size price scale target taken (x :: xs) = walk size price scale target taken xs := by
  rw [walk, if_pos]
  rwa [not_and_or, not_lt, not_lt] at h

/-- An order that does not reach the target is taken whole. -/
theorem walk_whole (hscale : 0 < scale) (hsize : 0 < size x) (hprice : 0 < price x)
    (hnotional : taken.notional < target)
    (hbelow : taken.notional + worth size price scale x < target) :
    walk size price scale target taken (x :: xs) = walk size price scale target
      { notional := taken.notional + worth size price scale x
        size := taken.size + size x
        cost := taken.cost + size x * price x } xs := by
  have hneed : 0 < (target - taken.notional) * scale := mul_pos (by omega) hscale
  have hrequested := le_ceilDiv_mul hneed hprice
  have hpart : ¬ ceilDiv ((target - taken.notional) * scale) (price x) < size x := by
    intro hlt
    have hmul : (target - taken.notional) * scale ≤ size x * price x :=
      hrequested.trans (mul_le_mul_of_nonneg_right hlt.le hprice.le)
    have hworth : target - taken.notional ≤ worth size price scale x := by
      unfold worth
      rw [Int.tdiv_eq_ediv_of_nonneg (mul_nonneg hsize.le hprice.le)]
      exact (Int.le_ediv_iff_mul_le hscale).mpr hmul
    omega
  unfold worth at hbelow ⊢
  rw [walk, if_neg (by omega)]
  dsimp only
  rw [if_neg hpart, if_neg (not_le.mpr hsize), if_neg (not_le.mpr hbelow)]

/-- An order that reaches the target is taken in part, and the walk ends. -/
theorem walk_last (hscale : 0 < scale) (hsize : 0 < size x) (hprice : 0 < price x)
    (hnotional : taken.notional < target)
    (hreached : target ≤ taken.notional + worth size price scale x) :
    ∃ part, 0 < part ∧ part ≤ size x ∧
      target ≤ (walk size price scale target taken (x :: xs)).notional ∧
      (walk size price scale target taken (x :: xs)).size = taken.size + part ∧
      (walk size price scale target taken (x :: xs)).cost = taken.cost + part * price x := by
  have hneed : 0 < (target - taken.notional) * scale := mul_pos (by omega) hscale
  have hrequested := le_ceilDiv_mul hneed hprice
  have hpos := ceilDiv_pos hneed hprice
  obtain ⟨part, hpart⟩ : ∃ part, part =
      if ceilDiv ((target - taken.notional) * scale) (price x) < size x
      then ceilDiv ((target - taken.notional) * scale) (price x) else size x := ⟨_, rfl⟩
  have hbounds : 0 < part ∧ part ≤ size x ∧
      target ≤ taken.notional + (part * price x).tdiv scale := by
    rw [hpart]
    split_ifs with hlt
    · refine ⟨hpos, hlt.le, ?_⟩
      rw [Int.tdiv_eq_ediv_of_nonneg (mul_nonneg hpos.le hprice.le)]
      have hle := (Int.le_ediv_iff_mul_le hscale).mpr hrequested
      omega
    · exact ⟨hsize, le_refl _, hreached⟩
  obtain ⟨hpartPos, hpartLe, hstop⟩ := hbounds
  refine ⟨part, hpartPos, hpartLe, ?_⟩
  rw [walk, if_neg (by omega)]
  dsimp only
  rw [← hpart, if_neg (not_le.mpr hpartPos), if_pos hstop]
  exact ⟨hstop, rfl, rfl⟩

/-- The notional of orders that are taken whole. -/
def worthOf (size price : α → ℤ) (scale : ℤ) (xs : List α) : ℤ :=
  ((counted size price xs).map (worth size price scale)).sum

theorem worth_nonneg (hscale : 0 < scale) (h : 0 < size x ∧ 0 < price x) :
    0 ≤ worth size price scale x := Int.tdiv_nonneg (mul_pos h.1 h.2).le hscale.le

theorem worthOf_nonneg (hscale : 0 < scale) (xs : List α) : 0 ≤ worthOf size price scale xs :=
  List.sum_nonneg fun w hw => by
    obtain ⟨x, hx, rfl⟩ := List.mem_map.mp hw
    exact worth_nonneg hscale (of_decide_eq_true (List.mem_filter.mp hx).2)

/-- **Orders that do not reach the target** are all taken whole. -/
theorem walk_of_lt (hscale : 0 < scale)
    (h : taken.notional + worthOf size price scale xs < target) :
    (walk size price scale target taken xs).notional =
      taken.notional + worthOf size price scale xs := by
  induction xs generalizing taken with
  | nil => exact (add_zero taken.notional).symm
  | cons x xs ih =>
    by_cases hx : 0 < size x ∧ 0 < price x
    · unfold worthOf at h ih ⊢
      rw [counted_cons_of_pos hx, List.map_cons, List.sum_cons] at h ⊢
      have hrest := @worthOf_nonneg _ size price scale hscale xs
      have hworth := worth_nonneg hscale hx
      unfold worthOf at hrest
      rw [walk_whole hscale hx.1 hx.2 (by omega) (by omega), ih (by dsimp only; omega), add_assoc]
    · unfold worthOf at h ih ⊢
      rw [counted_cons_of_neg hx] at h ⊢
      rw [walk_skip hx, ih h]

/-- **Orders that reach the target** are taken whole up to the one with which they do. -/
theorem walk_of_le (hscale : 0 < scale) (hnotional : taken.notional < target)
    (h : target ≤ taken.notional + worthOf size price scale xs) :
    ∃ pre x post part, counted size price xs = pre ++ x :: post ∧
      taken.notional + (pre.map (worth size price scale)).sum < target ∧
      target ≤ taken.notional + (pre.map (worth size price scale)).sum +
        worth size price scale x ∧
      0 < part ∧ part ≤ size x ∧
      target ≤ (walk size price scale target taken xs).notional ∧
      (walk size price scale target taken xs).size = taken.size + (pre.map size).sum + part ∧
      (walk size price scale target taken xs).cost =
        taken.cost + (pre.map fun y => size y * price y).sum + part * price x := by
  induction xs generalizing taken with
  | nil => exact absurd (h.trans_eq (add_zero _)) (not_le.mpr hnotional)
  | cons x xs ih =>
    by_cases hx : 0 < size x ∧ 0 < price x
    · by_cases hlast : target ≤ taken.notional + worth size price scale x
      · obtain ⟨part, hpos, hle, hstop, hsize, hcost⟩ :=
          @walk_last _ size price scale target xs x taken hscale hx.1 hx.2 hnotional hlast
        refine ⟨[], x, counted size price xs, part, counted_cons_of_pos hx, ?_, ?_, hpos, hle, hstop,
          ?_, ?_⟩
        · simpa using hnotional
        · simpa using hlast
        · simpa using hsize
        · simpa using hcost
      · have hsum : worthOf size price scale (x :: xs) =
            worth size price scale x + worthOf size price scale xs := by
          unfold worthOf
          rw [counted_cons_of_pos hx, List.map_cons, List.sum_cons]
        rw [walk_whole hscale hx.1 hx.2 hnotional (not_le.mp hlast)]
        obtain ⟨pre, y, post, part, hsplit, hbelow, hreached, hpos, hle, hstop, hsize, hcost⟩ :=
          @ih { notional := taken.notional + worth size price scale x
                size := taken.size + size x
                cost := taken.cost + size x * price x } (not_le.mp hlast)
            (by dsimp only; omega)
        refine ⟨x :: pre, y, post, part, ?_, ?_, ?_, hpos, hle, hstop, ?_, ?_⟩
        · rw [counted_cons_of_pos hx, hsplit, List.cons_append]
        · rw [List.map_cons, List.sum_cons]
          dsimp only at hbelow
          omega
        · rw [List.map_cons, List.sum_cons]
          dsimp only at hreached
          omega
        · rw [hsize, List.map_cons, List.sum_cons]
          dsimp only
          omega
        · rw [hcost, List.map_cons, List.sum_cons]
          dsimp only
          omega
    · have hsum : worthOf size price scale (x :: xs) = worthOf size price scale xs := by
        unfold worthOf
        rw [counted_cons_of_neg hx]
      rw [walk_skip hx, counted_cons_of_neg hx]
      exact ih hnotional (hsum ▸ h)

end Walk

/-! ## Averages -/

/-- **The average price is between bounds of the prices.** -/
theorem average_bounds {size cost low high : ℤ} (hsize : 0 < size) (hlow : low * size ≤ cost)
    (hhigh : cost ≤ high * size) (hcost : 0 ≤ cost) :
    low ≤ cost.tdiv size ∧ cost.tdiv size ≤ high := by
  rw [Int.tdiv_eq_ediv_of_nonneg hcost]
  exact ⟨(Int.le_ediv_iff_mul_le hsize).mpr hlow,
    Int.ediv_le_of_le_mul hsize hhigh⟩

/-- Bounds of the prices are bounds of a cost. -/
theorem cost_bounds {α : Type*} {size price : α → ℤ} {low high : ℤ} {xs : List α}
    (h : ∀ x ∈ xs, 0 < size x ∧ low ≤ price x ∧ price x ≤ high) :
    low * (xs.map size).sum ≤ (xs.map fun x => size x * price x).sum ∧
      (xs.map fun x => size x * price x).sum ≤ high * (xs.map size).sum := by
  induction xs with
  | nil => simp
  | cons x xs ih =>
    obtain ⟨⟨hsize, hlow, hhigh⟩, hrest⟩ := List.forall_mem_cons.mp h
    obtain ⟨hle, hge⟩ := ih hrest
    have hlowX : low * size x ≤ size x * price x := by
      rw [mul_comm]
      exact mul_le_mul_of_nonneg_left hlow hsize.le
    have hhighX : size x * price x ≤ high * size x := by
      rw [mul_comm high]
      exact mul_le_mul_of_nonneg_left hhigh hsize.le
    simp only [List.map_cons, List.sum_cons]
    constructor
    · linarith
    · linarith

/-- The average price of orders that are taken whole, and of a part of another one. -/
theorem average_part_bounds {α : Type*} {size price : α → ℤ} {low high : ℤ} {xs : List α} {x : α}
    {part : ℤ} (h : ∀ y ∈ xs, 0 < size y ∧ 0 < price y ∧ low ≤ price y ∧ price y ≤ high)
    (hpart : 0 < part) (hprice : 0 < price x) (hlow : low ≤ price x) (hhigh : price x ≤ high) :
    low ≤ ((xs.map fun y => size y * price y).sum + part * price x).tdiv
        ((xs.map size).sum + part) ∧
      ((xs.map fun y => size y * price y).sum + part * price x).tdiv
        ((xs.map size).sum + part) ≤ high := by
  have hsizes : 0 ≤ (xs.map size).sum := List.sum_nonneg fun a ha => by
    obtain ⟨y, hy, rfl⟩ := List.mem_map.mp ha
    exact (h y hy).1.le
  have hcosts : 0 ≤ (xs.map fun y => size y * price y).sum := List.sum_nonneg fun a ha => by
    obtain ⟨y, hy, rfl⟩ := List.mem_map.mp ha
    exact (mul_pos (h y hy).1 (h y hy).2.1).le
  obtain ⟨hle, hge⟩ := @cost_bounds _ size price low high xs fun y hy =>
    ⟨(h y hy).1, (h y hy).2.2⟩
  have hlowPart : low * part ≤ part * price x := by
    rw [mul_comm]
    exact mul_le_mul_of_nonneg_left hlow hpart.le
  have hhighPart : part * price x ≤ high * part := by
    rw [mul_comm high]
    exact mul_le_mul_of_nonneg_left hhigh hpart.le
  have hpay := mul_pos hpart hprice
  refine average_bounds ?_ ?_ ?_ ?_
  · omega
  · rw [mul_add]
    exact add_le_add hle hlowPart
  · rw [mul_add]
    exact add_le_add hge hhighPart
  · omega

end Impact
