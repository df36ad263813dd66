import Mathlib.Data.List.Forall2
import Mathlib.Data.List.GetD
import Mathlib.Data.Set.Function

/-!
# Lists in frames of a fixed width

A frame holds a list of at most `capacity` elements: a tag for its length, the elements, and a
filler for the slots that are free. Frames have one width, so a sequence of frames determines its
lists (`frame_append_inj`).
-/

namespace Framing

variable {α : Type*} {tag : ℕ → α} {fill : α} {capacity : ℕ}

/-- The frame of a list. -/
def frame (tag : ℕ → α) (fill : α) (capacity : ℕ) (xs : List α) : List α :=
  tag xs.length :: (xs ++ List.replicate (capacity - xs.length) fill)

theorem length_frame {xs : List α} (h : xs.length ≤ capacity) :
    (frame tag fill capacity xs).length = capacity + 1 := by
  rw [frame, List.length_cons, List.length_append, List.length_replicate, Nat.add_sub_cancel' h]

/-- A frame determines its list. -/
theorem frame_inj (htag : Set.InjOn tag {n | n ≤ capacity}) {xs ys : List α}
    (hx : xs.length ≤ capacity) (hy : ys.length ≤ capacity)
    (h : frame tag fill capacity xs = frame tag fill capacity ys) : xs = ys := by
  obtain ⟨hlen, hslots⟩ := List.cons.inj h
  exact (List.append_inj hslots (htag hx hy hlen)).1

/-- A frame and what follows it determine each other. -/
theorem frame_append_inj (htag : Set.InjOn tag {n | n ≤ capacity}) {xs ys s t : List α}
    (hx : xs.length ≤ capacity) (hy : ys.length ≤ capacity)
    (h : frame tag fill capacity xs ++ s = frame tag fill capacity ys ++ t) : xs = ys ∧ s = t := by
  obtain ⟨hframe, hrest⟩ := List.append_inj h (by rw [length_frame hx, length_frame hy])
  exact ⟨frame_inj htag hx hy hframe, hrest⟩

/-- The slots of a frame, read one after the other. -/
theorem map_getD_range {xs : List α} (h : xs.length ≤ capacity) :
    (List.range capacity).map (fun index => xs.getD index fill) =
      xs ++ List.replicate (capacity - xs.length) fill := by
  refine List.ext_getElem ?_ fun i hi hi' => ?_
  · rw [List.length_map, List.length_range, List.length_append, List.length_replicate,
      Nat.add_sub_cancel' h]
  · rw [List.getElem_map, List.getElem_range]
    by_cases hlt : i < xs.length
    · rw [List.getElem_append_left hlt, List.getD_eq_getElem _ _ hlt]
    · rw [List.getElem_append_right (by omega), List.getElem_replicate,
        List.getD_eq_default _ _ (by omega)]

/-- Frames of related lists are related. -/
theorem forall₂_frame {β : Type*} {R : α → β → Prop} {tag' : ℕ → β} {fill' : β} {xs : List α}
    {ys : List β} (h : List.Forall₂ R xs ys) (htag : R (tag xs.length) (tag' xs.length))
    (hfill : R fill fill') :
    List.Forall₂ R (frame tag fill capacity xs) (frame tag' fill' capacity ys) := by
  have hfree (n : ℕ) : List.Forall₂ R (List.replicate n fill) (List.replicate n fill') := by
    induction n with
    | zero => exact .nil
    | succ n ih => exact .cons hfill ih
  unfold frame
  rw [← h.length_eq]
  exact .cons htag (List.rel_append h (hfree _))

end Framing
