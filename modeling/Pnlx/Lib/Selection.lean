import Mathlib.Data.List.Sort

/-!
# Selection by rank

An element of a list over a linear order has rank `k` if at most `k` elements are less than it, and
more than `k` are not greater. Counting ranks selects from a list without sorting it.

1. `HasRank.perm`: the order of the list does not matter. `HasRank.unique`: nor do ties.
2. `hasRank_iff`: the element of rank `k` is the one at index `k` of the sorted list.
3. `find?_hasRank`: so a search for it finds that one.
-/

namespace Selection

variable {α : Type*} [LinearOrder α] {l l' : List α} {k : ℕ} {x y : α}

/-- The sorted list has `x` at index `k`. -/
def HasRank (l : List α) (k : ℕ) (x : α) : Prop :=
  l.countP (· < x) ≤ k ∧ k < l.countP (· < x) + l.count x

instance : Decidable (HasRank l k x) := inferInstanceAs (Decidable (_ ∧ _))

theorem HasRank.perm (h : l.Perm l') : HasRank l k x ↔ HasRank l' k x := by
  unfold HasRank
  rw [h.countP_eq, h.count_eq]

/-- The elements up to `x` are those below it and those equal to it. -/
theorem countP_lt_add_count (l : List α) (x : α) :
    l.countP (· < x) + l.count x = l.countP (· ≤ x) := by
  induction l with
  | nil => rfl
  | cons a l ih =>
    rw [List.countP_cons, List.countP_cons, List.count_cons, ← ih]
    rcases lt_trichotomy a x with h | h | h
    · simp only [h, h.le, h.ne, decide_true, if_true, beq_iff_eq, if_false]
      omega
    · simp only [h, lt_irrefl, le_refl, decide_true, decide_false, if_true, beq_self_eq_true,
        Bool.false_eq_true, if_false]
      omega
    · simp only [h.not_gt, h.not_ge, h.ne', decide_false, Bool.false_eq_true, if_false, beq_iff_eq]
      omega

theorem HasRank.unique (hx : HasRank l k x) (hy : HasRank l k y) : x = y := by
  -- all elements up to a smaller one are below the greater one
  have hle {x y : α} (hx : HasRank l k x) (hy : HasRank l k y) : y ≤ x := by
    by_contra hlt
    have hcount : l.countP (· ≤ x) ≤ l.countP (· < y) :=
      List.countP_mono_left fun a _ ha => by
        rw [decide_eq_true_eq] at ha ⊢
        exact ha.trans_lt (not_le.mp hlt)
    have hx := hx.2
    rw [countP_lt_add_count] at hx
    exact absurd (hx.trans_le hcount) (not_lt.mpr hy.1)
  exact le_antisymm (hle hy hx) (hle hx hy)

/-- In a sorted list the element at index `k` has rank `k`. -/
theorem hasRank_getElem (hl : l.Pairwise (· ≤ ·)) (hk : k < l.length) : HasRank l k l[k] := by
  have hbefore : ∀ a ∈ l.take (k + 1), a ≤ l[k] := by
    intro a ha
    obtain ⟨i, hi, rfl⟩ := List.mem_take_iff_getElem.mp ha
    rcases Nat.lt_succ_iff_lt_or_eq.mp (lt_of_lt_of_le hi (min_le_left _ _)) with hik | hik
    · exact List.pairwise_iff_getElem.mp hl i k _ hk hik
    · simp only [hik, le_refl]
  have hafter : ∀ a ∈ l.drop k, ¬ a < l[k] := by
    intro a ha
    obtain ⟨i, hi, rfl⟩ := List.mem_drop_iff_getElem.mp ha
    rcases Nat.eq_zero_or_pos i with hzero | hpos
    · simp only [hzero, Nat.add_zero, lt_irrefl, not_false_iff]
    · exact not_lt.mpr (List.pairwise_iff_getElem.mp hl k (k + i) hk (by omega) (by omega))
  have hnone : (l.drop k).countP (· < l[k]) = 0 :=
    List.countP_eq_zero.mpr fun a ha => by
      rw [decide_eq_true_eq]
      exact hafter a ha
  have hall : (l.take (k + 1)).countP (· ≤ l[k]) = (l.take (k + 1)).length :=
    List.countP_eq_length.mpr fun a ha => by
      rw [decide_eq_true_eq]
      exact hbefore a ha
  constructor
  · calc l.countP (· < l[k]) = (l.take k).countP (· < l[k]) + (l.drop k).countP (· < l[k]) := by
          rw [← List.countP_append, List.take_append_drop]
      _ = (l.take k).countP (· < l[k]) := by rw [hnone, Nat.add_zero]
      _ ≤ (l.take k).length := List.countP_le_length
      _ ≤ k := List.length_take_le k l
  · have hmono : (l.take (k + 1)).countP (· ≤ l[k]) ≤ l.countP (· ≤ l[k]) :=
      (List.take_sublist _ l).countP_le
    rw [hall, List.length_take] at hmono
    rw [countP_lt_add_count]
    omega

/-- **The element of rank `k` is the one at index `k` of the sorted list.** -/
theorem hasRank_iff (hk : k < l.length) : HasRank l k x ↔ l.mergeSort[k]? = some x := by
  have hperm : l.mergeSort.Perm l := List.mergeSort_perm l _
  have hlength : k < l.mergeSort.length := by rwa [hperm.length_eq]
  have hrank : HasRank l k l.mergeSort[k] :=
    (HasRank.perm hperm).mp (hasRank_getElem (List.pairwise_mergeSort' (· ≤ ·) l) hlength)
  rw [List.getElem?_eq_getElem hlength, Option.some.injEq]
  constructor
  · exact fun h => hrank.unique h
  · rintro rfl
    exact hrank

/-- A search for the element of rank `k` finds it. -/
theorem find?_hasRank (hk : k < l.length) :
    l.find? (fun x => HasRank l k x) = l.mergeSort[k]? := by
  have hperm : l.mergeSort.Perm l := List.mergeSort_perm l _
  have hlength : k < l.mergeSort.length := by rwa [hperm.length_eq]
  have hfound : (l.find? fun x => HasRank l k x).isSome := by
    rw [List.find?_isSome]
    exact ⟨_, hperm.mem_iff.mp (List.getElem_mem hlength), decide_eq_true
      ((hasRank_iff hk).mpr (List.getElem?_eq_getElem hlength))⟩
  obtain ⟨x, hx⟩ := Option.isSome_iff_exists.mp hfound
  rw [hx]
  have hrank : HasRank l k x := by simpa using List.find?_some hx
  exact ((hasRank_iff hk).mp hrank).symm

end Selection
