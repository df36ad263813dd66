import Mathlib.Data.List.Nodup
import Mathlib.Logic.Function.Basic

/-!
# The newest entries of each group

A list in the order of insertion is cut to the last `limit` entries of each group. The cut walks
the list from its end and counts the entries it has met.

1. `newest_newest`: a second cut changes nothing.
2. `newest_map`: the cut does not look at what leaves the groups unchanged.
3. `filter_keep`: with distinct keys, the entries whose keys are kept are the newest ones.
-/

namespace Newest

variable {α β γ : Type*} [DecidableEq γ]

/-- The entries of a reversed list that are kept when `counts` of each group have been kept. -/
def keep (group : α → γ) (limit : ℕ) : List α → (γ → ℕ) → List α
  | [], _ => []
  | entry :: entries, counts =>
    if limit ≤ counts (group entry) then keep group limit entries counts
    else entry :: keep group limit entries
      (Function.update counts (group entry) (counts (group entry) + 1))

/-- The last `limit` entries of each group. -/
def newest (group : α → γ) (limit : ℕ) (entries : List α) : List α :=
  (keep group limit entries.reverse fun _ => 0).reverse

variable {group : α → γ} {limit : ℕ}

theorem keep_sublist (entries : List α) (counts : γ → ℕ) :
    (keep group limit entries counts).Sublist entries := by
  induction entries generalizing counts with
  | nil => exact List.Sublist.slnil
  | cons entry entries ih =>
    rw [keep]
    split_ifs
    · exact (ih counts).cons entry
    · exact (ih _).cons_cons entry

theorem keep_keep (entries : List α) (counts : γ → ℕ) :
    keep group limit (keep group limit entries counts) counts =
      keep group limit entries counts := by
  induction entries generalizing counts with
  | nil => rfl
  | cons entry entries ih =>
    rw [keep]
    split_ifs with hfull
    · exact ih counts
    · rw [keep, if_neg hfull, ih]

theorem keep_map {group' : β → γ} (f : α → β) {entries : List α}
    (hf : ∀ entry ∈ entries, group' (f entry) = group entry) (counts : γ → ℕ) :
    keep group' limit (entries.map f) counts = (keep group limit entries counts).map f := by
  induction entries generalizing counts with
  | nil => rfl
  | cons entry entries ih =>
    have hrest := ih fun other hother => hf other (List.mem_cons_of_mem _ hother)
    rw [List.map_cons, keep, keep, hf entry List.mem_cons_self, hrest, hrest]
    split_ifs
    · rfl
    · exact (List.map_cons ..).symm

theorem newest_sublist (entries : List α) : (newest group limit entries).Sublist entries := by
  unfold newest
  have h : (keep group limit entries.reverse fun _ => 0).Sublist entries.reverse := keep_sublist _ _
  simpa using h.reverse

/-- **A second cut changes nothing.** -/
theorem newest_newest (entries : List α) :
    newest group limit (newest group limit entries) = newest group limit entries := by
  unfold newest
  rw [List.reverse_reverse, keep_keep]

/-- **The cut does not look at what leaves the groups unchanged.** -/
theorem newest_map {group' : β → γ} (f : α → β) {entries : List α}
    (hf : ∀ entry ∈ entries, group' (f entry) = group entry) :
    newest group' limit (entries.map f) = (newest group limit entries).map f := by
  unfold newest
  rw [← List.map_reverse, keep_map f fun entry hentry => hf entry (List.mem_reverse.mp hentry),
    List.map_reverse]

omit [DecidableEq γ] in
/-- The entries of a list with distinct keys whose keys occur in a sublist are the sublist. -/
theorem filter_mem_of_sublist {κ : Type*} [DecidableEq κ] {key : α → κ} {kept entries : List α}
    (h : kept.Sublist entries) (hnodup : (entries.map key).Nodup) :
    entries.filter (fun entry => key entry ∈ kept.map key) = kept := by
  induction h with
  | slnil => rfl
  | @cons kept entries entry h ih =>
    rw [List.map_cons, List.nodup_cons] at hnodup
    have hkey : key entry ∉ kept.map key := fun hmem => hnodup.1 ((h.map key).subset hmem)
    rw [List.filter_cons_of_neg (by simpa using hkey)]
    exact ih hnodup.2
  | @cons_cons kept entries entry h ih =>
    rw [List.map_cons, List.nodup_cons] at hnodup
    rw [List.filter_cons_of_pos (by simp)]
    refine congrArg (entry :: ·) ((List.filter_congr fun other hother => ?_).trans (ih hnodup.2))
    have hne : key other ≠ key entry := fun he =>
      hnodup.1 (List.mem_map.mpr ⟨other, hother, he⟩)
    simp [hne]

/-- **With distinct keys, the entries whose keys are kept are the newest ones.** -/
theorem filter_keep {κ : Type*} [DecidableEq κ] {key : α → κ} {entries : List α}
    (hnodup : (entries.map key).Nodup) :
    entries.filter (fun entry =>
        key entry ∈ (keep group limit entries.reverse fun _ => 0).map key) =
      newest group limit entries := by
  rw [← filter_mem_of_sublist (newest_sublist entries) hnodup]
  refine List.filter_congr fun entry _ => ?_
  refine decide_eq_decide.mpr ?_
  unfold newest
  rw [List.map_reverse, List.mem_reverse]

end Newest
