import Mathlib.Algebra.BigOperators.Group.List.Basic
import Mathlib.Algebra.GroupWithZero.Nat
import Mathlib.Data.List.Nodup
import Mathlib.Data.List.Pairwise

/-!
# Lists with a cursor

A program that works through a list with an index into it: `before` are the elements before the
index, `after` the element at the index and those behind it. It replaces the element at the index,
and moves on when that element is done.

1. `InOrder`: everything before the cursor is done and nothing behind the element at it has been
   touched. Every step keeps this (`InOrder.replace`, `InOrder.advance`).
2. `InOrder.pairwise`: when an element has been touched, all elements in front of it are done.
-/

/-- Of two elements of a list one stands in front of the other. -/
theorem List.Pairwise.or_of_ne {α : Type*} {R : α → α → Prop} {l : List α} (h : l.Pairwise R)
    {a b : α} (ha : a ∈ l) (hb : b ∈ l) (hne : a ≠ b) : R a b ∨ R b a := by
  have hsymm : Std.Symm fun x y => R x y ∨ R y x := ⟨fun _ _ h => h.symm⟩
  exact (h.imp (S := fun x y => R x y ∨ R y x) Or.inl).forall ha hb hne

/-- A list with an index into it. -/
structure Cursor (α : Type*) where
  before : List α
  after : List α
  deriving DecidableEq

namespace Cursor

variable {α β : Type*}

/-- The whole list. -/
def all (c : Cursor α) : List α := c.before ++ c.after

/-- Replace the element at the cursor. -/
def replace (c : Cursor α) (a : α) : Cursor α := ⟨c.before, a :: c.after.tail⟩

/-- Replace the element at the cursor and move behind it. -/
def advance (c : Cursor α) (a : α) : Cursor α := ⟨c.before ++ [a], c.after.tail⟩

/-- The step of a program: move on when the new element is done. -/
def put (c : Cursor α) (a : α) (finished : Prop) [Decidable finished] : Cursor α :=
  if finished then c.advance a else c.replace a

theorem all_put (c : Cursor α) (a : α) (finished : Prop) [Decidable finished] :
    (c.put a finished).all = c.before ++ a :: c.after.tail := by
  unfold put
  split_ifs
  · show c.before ++ [a] ++ c.after.tail = c.before ++ a :: c.after.tail
    rw [List.append_assoc, List.singleton_append]
  · rfl

theorem all_of_after {c : Cursor α} {a : α} {as : List α} (h : c.after = a :: as) :
    c.all = c.before ++ a :: c.after.tail := by
  rw [all, h, List.tail_cons]

theorem mem_all {c : Cursor α} {a : α} {as : List α} (h : c.after = a :: as) : a ∈ c.all := by
  rw [all, h]
  exact List.mem_append_right _ List.mem_cons_self

/-- A step that keeps a projection of the element keeps it of the list. -/
theorem map_all_put {c : Cursor α} {a a' : α} {as : List α} (h : c.after = a :: as)
    (finished : Prop) [Decidable finished] {f : α → β} (hf : f a' = f a) :
    (c.put a' finished).all.map f = c.all.map f := by
  rw [all_put, all_of_after h, List.map_append, List.map_append, List.map_cons, List.map_cons, hf]

theorem mem_all_of_others {c : Cursor α} {x : α} (hx : x ∈ c.before ++ c.after.tail) :
    x ∈ c.all := by
  rcases List.mem_append.mp hx with hx | hx
  · exact List.mem_append_left _ hx
  · exact List.mem_append_right _ (List.mem_of_mem_tail hx)

theorem mem_all_put {c : Cursor α} {a x : α} {finished : Prop} [Decidable finished] :
    x ∈ (c.put a finished).all ↔ x = a ∨ x ∈ c.before ++ c.after.tail := by
  rw [all_put, List.mem_append, List.mem_cons, List.mem_append]
  tauto

/-- A step changes a sum over the list by the change of its element. -/
theorem sum_map_all_put {c : Cursor α} {a : α} {as : List α} (h : c.after = a :: as) (a' : α)
    (finished : Prop) [Decidable finished] (f : α → ℕ) :
    ((c.put a' finished).all.map f).sum + f a = (c.all.map f).sum + f a' := by
  rw [all_put, all_of_after h]
  simp only [List.map_append, List.map_cons, List.sum_append, List.sum_cons]
  omega

/-- What holds of all elements, and of the new one, holds after a step. -/
theorem forall_all_put {c : Cursor α} {a' : α} {P : α → Prop} (hc : ∀ x ∈ c.all, P x) (ha : P a')
    (finished : Prop) [Decidable finished] : ∀ x ∈ (c.put a' finished).all, P x := by
  intro x hx
  rcases mem_all_put.mp hx with rfl | hx
  · exact ha
  · exact hc x (mem_all_of_others hx)

/-- The other elements differ from the element at the cursor where all elements differ. -/
theorem ne_of_nodup {c : Cursor α} {a x : α} {as : List α} (h : c.after = a :: as) {f : α → β}
    (hnodup : (c.all.map f).Nodup) (hx : x ∈ c.before ++ c.after.tail) : f x ≠ f a := by
  have hperm : List.Perm c.all (a :: (c.before ++ c.after.tail)) := by
    rw [all_of_after h]
    exact List.perm_middle
  rw [(hperm.map f).nodup_iff, List.map_cons, List.nodup_cons] at hnodup
  intro heq
  rw [← heq] at hnodup
  exact hnodup.1 (List.mem_map_of_mem hx)

/-- A step that does not move on keeps the number of elements from the cursor on. -/
theorem length_after_put {c : Cursor α} {a : α} {as : List α} (h : c.after = a :: as) (a' : α)
    (finished : Prop) [Decidable finished] :
    (c.put a' finished).after.length + (if finished then 1 else 0) = c.after.length := by
  unfold put
  split_ifs
  · show c.after.tail.length + 1 = c.after.length
    rw [h, List.tail_cons, List.length_cons]
  · show (a' :: c.after.tail).length + 0 = c.after.length
    rw [h, List.tail_cons, List.length_cons, List.length_cons, Nat.add_zero]

/-! ## Work in order -/

/-- The elements before the cursor are done, the one at it is not, and those behind it are
fresh. -/
structure InOrder (done fresh : α → Prop) (c : Cursor α) : Prop where
  before : ∀ a ∈ c.before, done a
  current : ∀ a ∈ c.after.head?, ¬ done a
  behind : ∀ a ∈ c.after.tail, fresh a

variable {done fresh : α → Prop}

/-- At the start of a list whose elements are fresh. -/
theorem InOrder.start (hfresh : ∀ a, fresh a → ¬ done a) {as : List α} (h : ∀ a ∈ as, fresh a) :
    InOrder done fresh ⟨[], as⟩ where
  before := fun _ ha => absurd ha List.not_mem_nil
  current := fun a ha => hfresh a (h a (List.mem_of_mem_head? ha))
  behind := fun a ha => h a (List.mem_of_mem_tail ha)

/-- A step keeps the order of work. -/
theorem InOrder.put (hfresh : ∀ a, fresh a → ¬ done a) {c : Cursor α} (hc : InOrder done fresh c)
    {a : α} {finished : Prop} [Decidable finished] (ha : finished ↔ done a) :
    InOrder done fresh (c.put a finished) := by
  unfold Cursor.put
  split_ifs with hdone
  · refine ⟨fun x hx => ?_, fun x hx => ?_, fun x hx => ?_⟩
    · rcases List.mem_append.mp hx with hx | hx
      · exact hc.before x hx
      · rw [List.mem_singleton.mp hx]
        exact ha.mp hdone
    · exact hfresh x (hc.behind x (List.mem_of_mem_head? hx))
    · exact hc.behind x (List.mem_of_mem_tail hx)
  · refine ⟨hc.before, fun x hx => ?_, hc.behind⟩
    obtain rfl : a = x := Option.some.inj hx
    exact fun h => hdone (ha.mpr h)

/-- An element that is not fresh has only done elements in front of it. -/
theorem InOrder.pairwise {c : Cursor α} (hc : InOrder done fresh c) :
    c.all.Pairwise fun a b => ¬ fresh b → done a := by
  have hafter : c.after.Pairwise fun a b => ¬ fresh b → done a := by
    cases hlist : c.after with
    | nil => exact List.Pairwise.nil
    | cons a as =>
      have hbehind : ∀ b ∈ as, fresh b := fun b hb => hc.behind b (by rw [hlist]; exact hb)
      refine List.Pairwise.cons (fun b hb hne => absurd (hbehind b hb) hne) ?_
      exact List.pairwise_of_forall_mem_list fun _ _ b hb hne => absurd (hbehind b hb) hne
  unfold all
  rw [List.pairwise_append]
  refine ⟨List.pairwise_of_forall_mem_list fun a ha _ _ _ => hc.before a ha, hafter, ?_⟩
  exact fun a ha _ _ _ => hc.before a ha

/-- An element that is not done stands at the cursor or behind it. -/
theorem InOrder.head_of_not_done {c : Cursor α} (hc : InOrder done fresh c) {R : α → α → Prop}
    (hR : c.all.Pairwise R) {a : α} (ha : a ∈ c.all) (hnot : ¬ done a) :
    ∃ b as, c.after = b :: as ∧ (a = b ∨ R b a) := by
  rcases List.mem_append.mp ha with ha | ha
  · exact absurd (hc.before a ha) hnot
  · obtain ⟨b, as, hafter⟩ := List.exists_cons_of_ne_nil (List.ne_nil_of_mem ha)
    refine ⟨b, as, hafter, ?_⟩
    rw [hafter, List.mem_cons] at ha
    have hpair : (b :: as).Pairwise R := by
      rw [← hafter]
      exact (List.pairwise_append.mp hR).2.1
    exact ha.imp_right fun ha => List.rel_of_pairwise_cons hpair ha

/-- What stands in front of a touched element is done. -/
theorem InOrder.done_of_not_rel {c : Cursor α} (hc : InOrder done fresh c) {R : α → α → Prop}
    (hR : c.all.Pairwise R) {a b : α} (ha : a ∈ c.all) (hb : b ∈ c.all) (hne : a ≠ b)
    (hab : ¬ R b a) (hfresh : ¬ fresh b) : done a := by
  rcases (hR.and hc.pairwise).or_of_ne ha hb hne with h | h
  · exact h.2 hfresh
  · exact absurd h.1 hab

end Cursor
