import Mathlib.Data.Nat.Notation
import Mathlib.Logic.Function.Basic
import Mathlib.Logic.Relation

/-!
# Items that replace one another

Items are submitted, and each submitted item gets a label with a fresh number. An active item ends,
or a new item replaces it and inherits its label.

1. `Move b e b'`: the event `e` leads from the book `b` to `b'`; `Moves` for a list of events.
2. `Sound b events`: what the events so far say about the book. Moves keep it (`Sound.moves`).
3. `Sound.descendant_unique`: at most one of the items that descend from an item is active.
-/

namespace Lineage

variable {ι μ : Type*}

/-- The items with their labels, the items that have ended, and the last number. -/
structure Book (ι μ : Type*) where
  label : ι → Option (ℕ × μ)
  ended : ι → Bool
  last : ℕ

inductive Event (ι : Type*) where
  | submit (item : ι)
  | finish (item : ι)
  | replace (source residual : ι)
  deriving DecidableEq

/-- A labelled item that has not ended. -/
def Book.Active (b : Book ι μ) (i : ι) : Prop := (b.label i).isSome ∧ ¬ b.ended i

/-- The item `j` is `i`, replaces it, or replaces an item that descends from it. -/
def Descends (events : List (Event ι)) : ι → ι → Prop :=
  Relation.ReflTransGen fun source residual => Event.replace source residual ∈ events

variable [DecidableEq ι]

/-- A value of an updated map is the new value or an old one. -/
theorem eq_some_of_update {α : Type*} {f : ι → Option α} {i k : ι} {v : Option α} {x : α}
    (h : Function.update f i v k = some x) : k = i ∧ v = some x ∨ k ≠ i ∧ f k = some x := by
  by_cases hk : k = i
  · subst hk
    rw [Function.update_self] at h
    exact Or.inl ⟨rfl, h⟩
  · rw [Function.update_of_ne hk] at h
    exact Or.inr ⟨hk, h⟩

inductive Move : Book ι μ → Event ι → Book ι μ → Prop where
  | submit {b : Book ι μ} {i : ι} (data : μ) (hi : b.label i = none) :
    Move b (.submit i)
      ⟨Function.update b.label i (some (b.last + 1, data)), b.ended, b.last + 1⟩
  | finish {b : Book ι μ} {i : ι} (hi : b.Active i) :
    Move b (.finish i) ⟨b.label, Function.update b.ended i true, b.last⟩
  | replace {b : Book ι μ} {i j : ι} (hi : b.Active i) (hj : b.label j = none) :
    Move b (.replace i j)
      ⟨Function.update b.label j (b.label i), Function.update b.ended i true, b.last⟩

inductive Moves : Book ι μ → List (Event ι) → Book ι μ → Prop where
  | nil {b : Book ι μ} : Moves b [] b
  | cons {b b₁ b' : Book ι μ} {e : Event ι} {events : List (Event ι)} (h : Move b e b₁)
    (hs : Moves b₁ events b') : Moves b (e :: events) b'

theorem Move.moves {b b' : Book ι μ} {e : Event ι} (h : Move b e b') : Moves b [e] b' :=
  Moves.cons h Moves.nil

theorem Moves.append {b b₁ b' : Book ι μ} {events events' : List (Event ι)}
    (h : Moves b events b₁) (h' : Moves b₁ events' b') : Moves b (events ++ events') b' := by
  induction h with
  | nil => exact h'
  | cons hmove _ ih => exact Moves.cons hmove (ih h')

/-- What the events so far say about the book. -/
structure Sound (b : Book ι μ) (events : List (Event ι)) : Prop where
  fresh : ∀ i x, b.label i = some x → x.1 ≤ b.last
  ended : ∀ i, b.ended i → (b.label i).isSome
  unique : ∀ i j x y, b.Active i → b.Active j → b.label i = some x → b.label j = some y →
    x.1 = y.1 → i = j
  finished : ∀ i, Event.finish i ∈ events → b.ended i
  replaced : ∀ i j, Event.replace i j ∈ events →
    b.ended i ∧ b.label j = b.label i ∧ (b.label i).isSome

omit [DecidableEq ι] in
theorem sound_empty (last : ℕ) :
    Sound (⟨fun _ => none, fun _ => false, last⟩ : Book ι μ) [] where
  fresh _ _ h := nomatch h
  ended _ h := nomatch h
  unique _ _ _ _ h := nomatch h.1
  finished _ h := nomatch h
  replaced _ _ h := nomatch h

namespace Sound

variable {b b' : Book ι μ} {events : List (Event ι)}

/-- A label stays as it is when another item gets one. -/
theorem update_label {i j : ι} {x : Option (ℕ × μ)} (hj : b.label j = none)
    (hi : (b.label i).isSome) : Function.update b.label j x i = b.label i := by
  refine Function.update_of_ne ?_ _ _
  rintro rfl
  rw [hj] at hi
  exact absurd hi Bool.false_ne_true

theorem submit (h : Sound b events) {i : ι} (data : μ) (hi : b.label i = none) :
    Sound ⟨Function.update b.label i (some (b.last + 1, data)), b.ended, b.last + 1⟩
      (events ++ [.submit i]) where
  fresh k x hx := by
    rcases eq_some_of_update hx with ⟨-, hx⟩ | ⟨-, hx⟩
    · obtain rfl := Option.some.inj hx
      exact Nat.le_refl _
    · exact Nat.le_succ_of_le (h.fresh k x hx)
  ended k hk := by
    have hlabel := h.ended k hk
    show (Function.update b.label i _ k).isSome
    rw [update_label hi hlabel]
    exact hlabel
  unique k l x y hk hl hx hy hxy := by
    -- the new number is above every other number
    rcases eq_some_of_update hx with ⟨hki, hx⟩ | ⟨-, hx⟩ <;>
      rcases eq_some_of_update hy with ⟨hli, hy⟩ | ⟨-, hy⟩
    · exact hki.trans hli.symm
    · have := h.fresh l y hy
      rw [← Option.some.inj hx] at hxy
      exact absurd hxy (by omega)
    · have := h.fresh k x hx
      rw [← Option.some.inj hy] at hxy
      exact absurd hxy (by omega)
    · exact h.unique k l x y ⟨Option.isSome_of_eq_some hx, hk.2⟩
        ⟨Option.isSome_of_eq_some hy, hl.2⟩ hx hy hxy
  finished k hk := by
    rcases List.mem_append.mp hk with hk | hk
    · exact h.finished k hk
    · exact nomatch List.mem_singleton.mp hk
  replaced k l hkl := by
    rcases List.mem_append.mp hkl with hkl | hkl
    · obtain ⟨hended, hlabel, hsome⟩ := h.replaced k l hkl
      have hsome' : (b.label l).isSome := hlabel ▸ hsome
      refine ⟨hended, ?_⟩
      show Function.update b.label i _ l = Function.update b.label i _ k ∧
        (Function.update b.label i _ k).isSome
      rw [update_label hi hsome', update_label hi hsome]
      exact ⟨hlabel, hsome⟩
    · exact nomatch List.mem_singleton.mp hkl

/-- An item that is marked as ended was ended before or is the marked one. -/
theorem ended_of_mark {i k : ι} (h : Function.update b.ended i true k) : b.ended k ∨ k = i := by
  by_cases hk : k = i
  · exact Or.inr hk
  · exact Or.inl (by rwa [Function.update_of_ne hk] at h)

theorem mark {i k : ι} (h : b.ended k) : Function.update b.ended i true k := by
  by_cases hk : k = i
  · rw [hk, Function.update_self]
  · rwa [Function.update_of_ne hk]

theorem not_ended_of_mark {i k : ι} (h : ¬ Function.update b.ended i true k) :
    k ≠ i ∧ ¬ b.ended k := by
  refine ⟨?_, fun hk => h (mark hk)⟩
  rintro rfl
  exact h (Function.update_self ..)

theorem finish (h : Sound b events) {i : ι} (hi : b.Active i) :
    Sound ⟨b.label, Function.update b.ended i true, b.last⟩ (events ++ [.finish i]) where
  fresh := h.fresh
  ended k hk := by
    rcases ended_of_mark hk with hk | rfl
    · exact h.ended k hk
    · exact hi.1
  unique k l x y hk hl := h.unique k l x y ⟨hk.1, (not_ended_of_mark hk.2).2⟩
    ⟨hl.1, (not_ended_of_mark hl.2).2⟩
  finished k hk := by
    rcases List.mem_append.mp hk with hk | hk
    · exact mark (h.finished k hk)
    · obtain rfl := Event.finish.inj (List.mem_singleton.mp hk)
      exact Function.update_self ..
  replaced k l hkl := by
    rcases List.mem_append.mp hkl with hkl | hkl
    · exact ⟨mark (h.replaced k l hkl).1, (h.replaced k l hkl).2⟩
    · exact nomatch List.mem_singleton.mp hkl

theorem replace (h : Sound b events) {i j : ι} (hi : b.Active i) (hj : b.label j = none) :
    Sound ⟨Function.update b.label j (b.label i), Function.update b.ended i true, b.last⟩
      (events ++ [.replace i j]) where
  fresh k x hx := by
    rcases eq_some_of_update hx with ⟨-, hx⟩ | ⟨-, hx⟩
    · exact h.fresh i x hx
    · exact h.fresh k x hx
  ended k hk := by
    have hlabel : (b.label k).isSome := by
      rcases ended_of_mark hk with hk | rfl
      · exact h.ended k hk
      · exact hi.1
    show (Function.update b.label j _ k).isSome
    rw [update_label hj hlabel]
    exact hlabel
  unique k l x y hk hl hx hy hxy := by
    obtain ⟨hki, hke⟩ := not_ended_of_mark hk.2
    obtain ⟨hli, hle⟩ := not_ended_of_mark hl.2
    -- the residual stands for the source, which is not active any more
    rcases eq_some_of_update hx with ⟨hkj, hx⟩ | ⟨-, hx⟩ <;>
      rcases eq_some_of_update hy with ⟨hlj, hy⟩ | ⟨-, hy⟩
    · exact hkj.trans hlj.symm
    · exact absurd (h.unique i l x y hi ⟨Option.isSome_of_eq_some hy, hle⟩ hx hy hxy).symm hli
    · exact absurd (h.unique k i x y ⟨Option.isSome_of_eq_some hx, hke⟩ hi hx hy hxy) hki
    · exact h.unique k l x y ⟨Option.isSome_of_eq_some hx, hke⟩
        ⟨Option.isSome_of_eq_some hy, hle⟩ hx hy hxy
  finished k hk := by
    rcases List.mem_append.mp hk with hk | hk
    · exact mark (h.finished k hk)
    · exact nomatch List.mem_singleton.mp hk
  replaced k l hkl := by
    rcases List.mem_append.mp hkl with hkl | hkl
    · obtain ⟨hended, hlabel, hsome⟩ := h.replaced k l hkl
      have hsome' : (b.label l).isSome := hlabel ▸ hsome
      refine ⟨mark hended, ?_⟩
      show Function.update b.label j _ l = Function.update b.label j _ k ∧
        (Function.update b.label j _ k).isSome
      rw [update_label hj hsome', update_label hj hsome]
      exact ⟨hlabel, hsome⟩
    · obtain ⟨rfl, rfl⟩ := Event.replace.inj (List.mem_singleton.mp hkl)
      refine ⟨Function.update_self .., ?_⟩
      show Function.update b.label l _ l = Function.update b.label l _ k ∧
        (Function.update b.label l _ k).isSome
      rw [Function.update_self, update_label hj hi.1]
      exact ⟨rfl, hi.1⟩

theorem move (h : Sound b events) {e : Event ι} (hmove : Move b e b') :
    Sound b' (events ++ [e]) := by
  cases hmove with
  | submit data hi => exact h.submit data hi
  | finish hi => exact h.finish hi
  | replace hi hj => exact h.replace hi hj

theorem moves (h : Sound b events) {events' : List (Event ι)} (hmoves : Moves b events' b') :
    Sound b' (events ++ events') := by
  induction hmoves generalizing events with
  | nil => rwa [List.append_nil]
  | cons hmove _ ih =>
    have := ih (h.move hmove)
    rwa [List.append_assoc] at this

omit [DecidableEq ι] in
theorem label_of_descends (h : Sound b events) {i j : ι}
    (hij : Descends events i j) : b.label j = b.label i := by
  induction hij with
  | refl => rfl
  | tail _ hlast ih => rw [(h.replaced _ _ hlast).2.1, ih]

omit [DecidableEq ι] in
/-- **At most one descendant is active.** -/
theorem descendant_unique (h : Sound b events) {i j k : ι} (hij : Descends events i j)
    (hik : Descends events i k) (hj : b.Active j) (hk : b.Active k) : j = k := by
  obtain ⟨x, hx⟩ := Option.isSome_iff_exists.mp hj.1
  have hy : b.label k = some x := by
    rw [h.label_of_descends hik, ← h.label_of_descends hij, hx]
  exact h.unique j k x x hj hk hx hy rfl

end Sound

end Lineage
