import Mathlib.Data.List.Nodup
import Mathlib.Data.List.Perm.Subperm

/-!
# Walks to a root

Elements link to parents that are found by keys. A walk follows the links and gives up at a key that
it has met before, so that it ends on cycles too.

1. `isSome_climb`: a walk among the elements of a finite set of keys ends.
2. `climb_mono`: more fuel changes nothing.
3. `holds_of_climb`: what a walk that reaches a root says about its start.
-/

namespace Ancestry

/-- What an element links to. -/
inductive Link (α : Type*) where
  | root
  | broken
  | parent (parent : α)

variable {α κ : Type*} [DecidableEq κ] (key : α → κ) (link : α → Link α)

/-- The root that the links lead to, if they lead to one. There is no answer without fuel. -/
def climb : ℕ → List κ → α → Option (Option α)
  | 0, _, _ => none
  | fuel + 1, visited, a =>
    match link a with
    | .root => some (some a)
    | .broken => some none
    | .parent parent =>
      if key a ∈ visited then some none else climb fuel (key a :: visited) parent

variable {key : α → κ} {link : α → Link α} {fuel fuel' : ℕ} {visited keys : List κ} {a : α}

/-- **A walk ends** when its fuel is more than the keys that it has not met. -/
theorem isSome_climb (hlinks : ∀ a parent, link a = .parent parent → key parent ∈ keys)
    (ha : key a ∈ keys) (hnodup : visited.Nodup) (hvisited : ∀ k ∈ visited, k ∈ keys)
    (hfuel : keys.length < fuel + visited.length) : (climb key link fuel visited a).isSome := by
  induction fuel generalizing visited a with
  | zero =>
    have hle := (List.subperm_of_subset hnodup hvisited).length_le
    omega
  | succ fuel ih =>
    rw [climb]
    cases hlink : link a with
    | root => rfl
    | broken => rfl
    | parent parent =>
      dsimp only
      split_ifs with hmet
      · rfl
      · refine ih (hlinks a parent hlink) (List.nodup_cons.mpr ⟨hmet, hnodup⟩)
          (List.forall_mem_cons.mpr ⟨ha, hvisited⟩) ?_
        rw [List.length_cons]
        omega

theorem climb_mono {result : Option α} (h : climb key link fuel visited a = some result)
    (hle : fuel ≤ fuel') : climb key link fuel' visited a = some result := by
  induction fuel generalizing visited a fuel' with
  | zero => cases h
  | succ fuel ih =>
    obtain ⟨fuel', rfl⟩ := Nat.exists_eq_add_of_le' (Nat.le_trans (Nat.le_add_left 1 fuel) hle)
    rw [climb] at h ⊢
    cases hlink : link a with
    | root => rwa [hlink] at h
    | broken => rwa [hlink] at h
    | parent parent =>
      rw [hlink] at h
      dsimp only at h ⊢
      split_ifs at h ⊢ with hmet
      · exact h
      · exact ih h (Nat.le_of_succ_le_succ hle)

/-- A property that holds of roots and goes from a parent to a child holds where a walk has reached
a root. -/
theorem holds_of_climb {p : α → Prop} {root : α}
    (h : climb key link fuel visited a = some (some root)) (hroot : link root = .root → p root)
    (hparent : ∀ a parent, link a = .parent parent → p parent → p a) : p a := by
  induction fuel generalizing visited a with
  | zero => cases h
  | succ fuel ih =>
    rw [climb] at h
    cases hlink : link a with
    | root =>
      rw [hlink] at h
      cases h
      exact hroot hlink
    | broken =>
      rw [hlink] at h
      cases h
    | parent parent =>
      rw [hlink] at h
      dsimp only at h
      split_ifs at h with hmet
      · cases h
      · exact hparent a parent hlink (ih h)

end Ancestry
