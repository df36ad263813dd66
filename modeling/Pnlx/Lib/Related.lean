import Mathlib.Data.List.Sort
import Pnlx.Lib.Cursor
import Pnlx.Lib.Loop

/-!
# Related lists

Two programs whose lists have related elements: their sorts, searches, cursors and computations over
the lists are related.

1. `forall₂_insertionSort`: related orders sort related lists into related lists.
2. `find?_related`: related searches find related elements; `find?_of_nodup`: a key is found.
3. `mapM_related`: a computation over one list follows the one over the other.
4. `Cursor.Related`: lists with related cursors.
-/

namespace Related

variable {α β γ δ : Type*} {R : α → β → Prop}

section Sorting

variable {r : α → α → Prop} [DecidableRel r] {s : β → β → Prop} [DecidableRel s]

theorem forall₂_orderedInsert (hrs : ∀ a b a' b', R a b → R a' b' → (r a a' ↔ s b b')) {a : α} {b : β}
    (hab : R a b) {as : List α} {bs : List β} (h : List.Forall₂ R as bs) :
    List.Forall₂ R (as.orderedInsert r a) (bs.orderedInsert s b) := by
  induction h with
  | nil => exact .cons hab .nil
  | @cons x y xs ys hxy hrest ih =>
    rw [List.orderedInsert_cons, List.orderedInsert_cons]
    by_cases hle : r a x
    · rw [if_pos hle, if_pos ((hrs _ _ _ _ hab hxy).mp hle)]
      exact .cons hab (.cons hxy hrest)
    · rw [if_neg hle, if_neg fun h => hle ((hrs _ _ _ _ hab hxy).mpr h)]
      exact .cons hxy ih

/-- Related orders sort related lists into related lists. -/
theorem forall₂_insertionSort (hrs : ∀ a b a' b', R a b → R a' b' → (r a a' ↔ s b b')) {as : List α}
    {bs : List β} (h : List.Forall₂ R as bs) :
    List.Forall₂ R (as.insertionSort r) (bs.insertionSort s) := by
  induction h with
  | nil => exact .nil
  | cons hab _ ih => exact forall₂_orderedInsert hrs hab ih

end Sorting

/-- Related searches find related elements. -/
theorem find?_related {p : α → Bool} {q : β → Bool} (hpq : ∀ a b, R a b → p a = q b) {as : List α}
    {bs : List β} (h : List.Forall₂ R as bs) : Option.Rel R (as.find? p) (bs.find? q) := by
  induction h with
  | nil => exact .none
  | cons hab _ ih =>
    rw [List.find?_cons, List.find?_cons, ← hpq _ _ hab]
    cases p _ with
    | true => exact .some hab
    | false => exact ih

/-- A search for the key of an element finds it, if no other element has its key. -/
theorem find?_of_nodup [DecidableEq β] {f : α → β} {l : List α} (h : (l.map f).Nodup) {a : α}
    (ha : a ∈ l) : l.find? (fun b => f b = f a) = some a := by
  cases hfind : l.find? (fun b => f b = f a) with
  | none => exact absurd (decide_eq_true rfl) (List.find?_eq_none.mp hfind a ha)
  | some b =>
    have hkey := List.find?_some hfind
    exact congrArg some
      (List.inj_on_of_nodup_map h (List.mem_of_find?_eq_some hfind) ha (of_decide_eq_true hkey))

/-- A search for a key that no two elements share finds the same from both ends. -/
theorem find?_reverse_of_nodup [DecidableEq β] {f : α → β} {l : List α} (h : (l.map f).Nodup) (key : β) :
    l.reverse.find? (fun a => f a = key) = l.find? (fun a => f a = key) := by
  have hreverse : (l.reverse.map f).Nodup := by
    rw [List.map_reverse, List.nodup_reverse]
    exact h
  cases hfind : l.find? (fun a => f a = key) with
  | none =>
    rw [List.find?_eq_none] at hfind ⊢
    exact fun a ha => hfind a (List.mem_reverse.mp ha)
  | some a =>
    have hkey := List.find?_some hfind
    rw [← of_decide_eq_true hkey]
    exact find?_of_nodup hreverse (List.mem_reverse.mpr (List.mem_of_find?_eq_some hfind))

/-- A computation over a list follows one over a related list. -/
theorem mapM_related {P : γ → δ → Prop} {f : α → Option γ} {g : β → Option δ}
    (hfg : ∀ a b, R a b → ∀ c, f a = some c → ∃ d, g b = some d ∧ P c d) {as : List α} {bs : List β}
    {cs : List γ} (h : List.Forall₂ R as bs) (hf : as.mapM f = some cs) :
    ∃ ds, bs.mapM g = some ds ∧ List.Forall₂ P cs ds := by
  induction h generalizing cs with
  | nil =>
    obtain rfl := Option.some.inj hf
    exact ⟨[], rfl, .nil⟩
  | cons hab _ ih =>
    rw [List.mapM_cons] at hf
    obtain ⟨c, hc, hf⟩ := Option.bind_eq_some_iff.mp hf
    obtain ⟨rest, hrest, hf⟩ := Option.bind_eq_some_iff.mp hf
    obtain rfl := Option.some.inj hf
    obtain ⟨d, hd, hcd⟩ := hfg _ _ hab c hc
    obtain ⟨ds, hds, hPs⟩ := ih hrest
    refine ⟨d :: ds, ?_, .cons hcd hPs⟩
    rw [List.mapM_cons, hd, hds]
    rfl

end Related

namespace Cursor

variable {α β : Type*} {R : α → β → Prop} {c : Cursor α} {d : Cursor β}

/-- Lists with their cursors at related elements. -/
structure Related (R : α → β → Prop) (c : Cursor α) (d : Cursor β) : Prop where
  before : List.Forall₂ R c.before d.before
  after : List.Forall₂ R c.after d.after

theorem Related.all (h : Related R c d) : List.Forall₂ R c.all d.all :=
  List.rel_append h.before h.after

theorem Related.put (h : Related R c d) {a : α} {b : β} (hab : R a b) {finished finished' : Prop}
    [Decidable finished] [Decidable finished'] (hfinished : finished ↔ finished') :
    Related R (c.put a finished) (d.put b finished') := by
  have htail : List.Forall₂ R c.after.tail d.after.tail := by
    rw [← List.drop_one, ← List.drop_one]
    exact List.forall₂_drop 1 h.after
  unfold Cursor.put
  by_cases hdone : finished
  · rw [if_pos hdone, if_pos (hfinished.mp hdone)]
    exact ⟨List.rel_append h.before (.cons hab .nil), htail⟩
  · rw [if_neg hdone, if_neg fun h => hdone (hfinished.mpr h)]
    exact ⟨h.before, .cons hab htail⟩

end Cursor
