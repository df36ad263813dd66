import Mathlib.Data.Finset.Card
import Mathlib.Data.List.Infix

/-!
# Sets and maps in the order of insertion

A set is a list without duplicates to which `add` appends what it does not hold yet, and a map is
a list of entries with distinct keys of which `set` replaces the one with its key or appends it.

1. `OrderedSet.addAll`: many additions. They append exactly the additions when these are distinct
   and new (`elems_addAll_eq_append_iff`, `size_addAll_eq_iff`), and the size counts the distinct
   ones (`size_addAll`).
2. `OrderedMap.get?_set`: the map after a write. `setAll_eq_self_iff`: when the writes of a loop
   change nothing.
-/

/-- A list without duplicates. -/
structure OrderedSet (α : Type*) where
  elems : List α
  nodup : elems.Nodup

namespace OrderedSet

variable {α : Type*}

def empty : OrderedSet α := ⟨[], List.nodup_nil⟩

instance : Membership α (OrderedSet α) := ⟨fun s x => x ∈ s.elems⟩

def size (s : OrderedSet α) : ℕ := s.elems.length

theorem mem_elems {s : OrderedSet α} {x : α} : x ∈ s.elems ↔ x ∈ s := Iff.rfl

@[simp] theorem not_mem_empty {x : α} : x ∉ (empty : OrderedSet α) := List.not_mem_nil

variable [DecidableEq α]

instance : DecidableEq (OrderedSet α) := fun s t =>
  decidable_of_iff (s.elems = t.elems) ⟨fun h => by cases s; cases t; cases h; rfl, congrArg elems⟩

instance (s : OrderedSet α) (x : α) : Decidable (x ∈ s) := inferInstanceAs (Decidable (x ∈ s.elems))

def add (s : OrderedSet α) (x : α) : OrderedSet α where
  elems := if x ∈ s.elems then s.elems else s.elems ++ [x]
  nodup := by
    split_ifs with hx
    · exact s.nodup
    · rw [List.nodup_append]
      refine ⟨s.nodup, List.nodup_singleton x, fun a ha b hb he => hx ?_⟩
      rw [List.mem_singleton.mp hb] at he
      exact he ▸ ha

/-- The additions of a loop. -/
def addAll (s : OrderedSet α) (xs : List α) : OrderedSet α := xs.foldl add s

variable {s : OrderedSet α} {x y : α} {xs : List α}

theorem elems_add_of_mem (h : x ∈ s) : (s.add x).elems = s.elems := if_pos h

theorem elems_add_of_not_mem (h : x ∉ s) : (s.add x).elems = s.elems ++ [x] := if_neg h

@[simp] theorem mem_add : y ∈ s.add x ↔ y ∈ s ∨ y = x := by
  by_cases hx : x ∈ s
  · rw [← mem_elems, elems_add_of_mem hx]
    exact ⟨Or.inl, fun h => h.elim id fun he => he ▸ hx⟩
  · rw [← mem_elems, elems_add_of_not_mem hx, List.mem_append, List.mem_singleton]
    rfl

@[simp] theorem addAll_nil : s.addAll [] = s := rfl

@[simp] theorem addAll_cons : s.addAll (x :: xs) = (s.add x).addAll xs := rfl

theorem size_add_of_not_mem (h : x ∉ s) : (s.add x).size = s.size + 1 := by
  unfold size
  rw [elems_add_of_not_mem h, List.length_append, List.length_singleton]

theorem mem_addAll : y ∈ s.addAll xs ↔ y ∈ s ∨ y ∈ xs := by
  induction xs generalizing s with
  | nil => simp
  | cons x xs ih => rw [addAll_cons, ih, mem_add, List.mem_cons, or_assoc]

theorem prefix_add (s : OrderedSet α) (x : α) : s.elems <+: (s.add x).elems := by
  by_cases hx : x ∈ s
  · rw [elems_add_of_mem hx]
  · rw [elems_add_of_not_mem hx]
    exact List.prefix_append _ _

theorem prefix_addAll (s : OrderedSet α) (xs : List α) : s.elems <+: (s.addAll xs).elems := by
  induction xs generalizing s with
  | nil => exact List.prefix_rfl
  | cons x xs ih => exact (prefix_add s x).trans (ih (s.add x))

theorem sublist_addAll (s : OrderedSet α) (xs : List α) :
    (s.addAll xs).elems.Sublist (s.elems ++ xs) := by
  induction xs generalizing s with
  | nil => exact List.sublist_append_left _ _
  | cons x xs ih =>
    refine (ih (s.add x)).trans ?_
    rw [List.append_cons]
    refine List.Sublist.append ?_ (List.Sublist.refl xs)
    by_cases hx : x ∈ s
    · rw [elems_add_of_mem hx]
      exact List.sublist_append_left _ _
    · rw [elems_add_of_not_mem hx]

theorem size_addAll_le (s : OrderedSet α) (xs : List α) :
    (s.addAll xs).size ≤ s.size + xs.length :=
  (sublist_addAll s xs).length_le.trans_eq List.length_append

/-- Additions of what is there change nothing. -/
theorem addAll_of_subset (h : ∀ x ∈ xs, x ∈ s) : s.addAll xs = s := by
  induction xs with
  | nil => rfl
  | cons x xs ih =>
    obtain ⟨hx, hxs⟩ := List.forall_mem_cons.mp h
    have hadd : s.add x = s := by
      cases hs : s.add x with
      | mk elems nodup =>
        obtain rfl : elems = s.elems := by rw [← elems_add_of_mem hx, hs]
        rfl
    rw [addAll_cons, hadd, ih hxs]

theorem size_le_addAll (s : OrderedSet α) (xs : List α) : s.size ≤ (s.addAll xs).size :=
  (prefix_addAll s xs).length_le

/-- Additions without growth are of what is there. -/
theorem subset_of_size_addAll (h : (s.addAll xs).size ≤ s.size) : ∀ x ∈ xs, x ∈ s := by
  intro x hx
  have hsame : s.elems = (s.addAll xs).elems := (prefix_addAll s xs).eq_of_length_le h
  rw [← mem_elems, hsame]
  exact mem_addAll.mpr (Or.inr hx)

/-- **Additions append themselves exactly when they are distinct and new.** -/
theorem elems_addAll_eq_append_iff :
    (s.addAll xs).elems = s.elems ++ xs ↔ xs.Nodup ∧ ∀ x ∈ xs, x ∉ s := by
  induction xs generalizing s with
  | nil => simp
  | cons x xs ih =>
    rw [addAll_cons, List.nodup_cons, List.forall_mem_cons]
    by_cases hx : x ∈ s
    · refine iff_of_false (fun h => ?_) fun h => h.2.1 hx
      have hsize := size_addAll_le (s.add x) xs
      have hlength := congrArg List.length h
      unfold size at hsize
      rw [elems_add_of_mem hx] at hsize
      rw [List.length_append, List.length_cons] at hlength
      omega
    · have happend : s.elems ++ x :: xs = (s.add x).elems ++ xs := by
        rw [elems_add_of_not_mem hx, List.append_assoc]
        rfl
      rw [happend, ih]
      simp only [mem_add, not_or, hx, not_false_iff, true_and]
      constructor
      · rintro ⟨hnodup, hnew⟩
        exact ⟨⟨fun hmem => (hnew x hmem).2 rfl, hnodup⟩, fun y hy => (hnew y hy).1⟩
      · rintro ⟨⟨hmem, hnodup⟩, hnew⟩
        exact ⟨hnodup, fun y hy => ⟨hnew y hy, fun he => hmem (he ▸ hy)⟩⟩

/-- **Additions are counted in full exactly when they are distinct and new.** -/
theorem size_addAll_eq_iff :
    (s.addAll xs).size = s.size + xs.length ↔ xs.Nodup ∧ ∀ x ∈ xs, x ∉ s := by
  rw [← elems_addAll_eq_append_iff]
  constructor
  · intro h
    refine (sublist_addAll s xs).eq_of_length ?_
    rw [List.length_append]
    exact h
  · intro h
    unfold size
    rw [h, List.length_append]

theorem size_eq_card (s : OrderedSet α) : s.size = s.elems.toFinset.card :=
  (List.toFinset_card_of_nodup s.nodup).symm

/-- The elements of a set, added in their order, are the set. -/
theorem addAll_empty_elems (s : OrderedSet α) : (empty : OrderedSet α).addAll s.elems = s := by
  have helems := elems_addAll_eq_append_iff.mpr ⟨s.nodup, fun x _ => not_mem_empty (x := x)⟩
  cases h : (empty : OrderedSet α).addAll s.elems with
  | mk elems nodup =>
    obtain rfl : elems = s.elems := by rw [h] at helems; exact helems
    rfl

/-- The size after additions is the number of distinct elements. -/
theorem size_addAll (s : OrderedSet α) (xs : List α) :
    (s.addAll xs).size = (s.elems ++ xs).toFinset.card := by
  rw [size_eq_card]
  refine congrArg Finset.card (Finset.ext fun y => ?_)
  rw [List.mem_toFinset, List.mem_toFinset, List.mem_append]
  exact mem_addAll

/-- A set whose elements are among those of a list is no larger. -/
theorem size_le_of_subset {t : OrderedSet α} {l : List α} (h : ∀ x ∈ t, x ∈ l) :
    t.size ≤ l.toFinset.card := by
  rw [size_eq_card]
  refine Finset.card_le_card fun x hx => ?_
  rw [List.mem_toFinset] at hx ⊢
  exact h x hx

end OrderedSet

/-- A list of entries with distinct keys. -/
structure OrderedMap (κ ν : Type*) where
  entries : List (κ × ν)
  nodup : (entries.map Prod.fst).Nodup

namespace OrderedMap

variable {κ ν : Type*} [DecidableEq κ]

instance [DecidableEq ν] : DecidableEq (OrderedMap κ ν) := fun m n =>
  decidable_of_iff (m.entries = n.entries)
    ⟨fun h => by cases m; cases n; cases h; rfl, congrArg entries⟩

def empty : OrderedMap κ ν := ⟨[], List.nodup_nil⟩

def keys (m : OrderedMap κ ν) : List κ := m.entries.map Prod.fst

def values (m : OrderedMap κ ν) : List ν := m.entries.map Prod.snd

def get? (m : OrderedMap κ ν) (k : κ) : Option ν := (m.entries.find? (·.1 = k)).map Prod.snd

/-- The entries after the write of a key that is there. -/
def replace (k : κ) (v : ν) (entry : κ × ν) : κ × ν := if entry.1 = k then (k, v) else entry

theorem replace_fst (k : κ) (v : ν) (entry : κ × ν) : (replace k v entry).1 = entry.1 := by
  unfold replace
  split_ifs with h
  · exact h.symm
  · rfl

def set (m : OrderedMap κ ν) (k : κ) (v : ν) : OrderedMap κ ν where
  entries := if k ∈ m.keys then m.entries.map (replace k v) else m.entries ++ [(k, v)]
  nodup := by
    split_ifs with hk
    · rw [List.map_map, show Prod.fst ∘ replace k v = Prod.fst from funext (replace_fst k v)]
      exact m.nodup
    · rw [List.map_append, List.map_singleton, List.nodup_append]
      refine ⟨m.nodup, List.nodup_singleton _, fun a ha b hb he => hk ?_⟩
      rw [List.mem_singleton.mp hb] at he
      show (k, v).1 ∈ m.keys
      rw [← he]
      exact ha

variable {m : OrderedMap κ ν} {k k' : κ} {v v' : ν}

@[simp] theorem get?_empty : (empty : OrderedMap κ ν).get? k = none := rfl

/-- The entry of a key is the one that a search finds. -/
theorem get?_eq_some : m.get? k = some v ↔ (k, v) ∈ m.entries := by
  unfold get?
  rw [Option.map_eq_some_iff]
  constructor
  · rintro ⟨entry, hfind, rfl⟩
    obtain rfl : entry.1 = k := by simpa using List.find?_some hfind
    exact List.mem_of_find?_eq_some hfind
  · intro hmem
    cases hfind : m.entries.find? (·.1 = k) with
    | none =>
      have hne := List.find?_eq_none.mp hfind _ hmem
      exact absurd (decide_eq_true rfl) hne
    | some entry =>
      have hkey : entry.1 = k := by simpa using List.find?_some hfind
      have hentry := List.mem_of_find?_eq_some hfind
      exact ⟨entry, rfl, congrArg Prod.snd (List.inj_on_of_nodup_map m.nodup hentry hmem hkey)⟩

theorem get?_isSome : (m.get? k).isSome ↔ k ∈ m.keys := by
  rw [Option.isSome_iff_exists, keys, List.mem_map]
  constructor
  · rintro ⟨v, hv⟩
    exact ⟨(k, v), get?_eq_some.mp hv, rfl⟩
  · rintro ⟨entry, hentry, rfl⟩
    exact ⟨entry.2, get?_eq_some.mpr hentry⟩

theorem mem_values : v ∈ m.values ↔ ∃ k, m.get? k = some v := by
  rw [values, List.mem_map]
  constructor
  · rintro ⟨entry, hentry, rfl⟩
    exact ⟨entry.1, get?_eq_some.mpr hentry⟩
  · rintro ⟨k, hk⟩
    exact ⟨(k, v), get?_eq_some.mp hk, rfl⟩

/-- **A write changes the value of its key and of no other.** -/
theorem get?_set (m : OrderedMap κ ν) (k k' : κ) (v : ν) :
    (m.set k v).get? k' = if k' = k then some v else m.get? k' := by
  refine Option.ext fun w => ?_
  rw [get?_eq_some]
  by_cases hk : k ∈ m.keys
  · rw [show (m.set k v).entries = m.entries.map (replace k v) from if_pos hk, List.mem_map]
    constructor
    · rintro ⟨entry, hentry, he⟩
      unfold replace at he
      split_ifs at he with hkey
      · obtain ⟨rfl, rfl⟩ := Prod.mk.inj he
        rw [if_pos rfl]
      · subst he
        rw [if_neg hkey, get?_eq_some]
        exact hentry
    · intro hget
      split_ifs at hget with hkey
      · obtain ⟨entry, hentry, rfl⟩ := List.mem_map.mp hk
        exact ⟨entry, hentry, by rw [replace, if_pos rfl, hkey, Option.some.inj hget]⟩
      · exact ⟨(k', w), get?_eq_some.mp hget, if_neg hkey⟩
  · rw [show (m.set k v).entries = m.entries ++ [(k, v)] from if_neg hk, List.mem_append,
      List.mem_singleton, ← get?_eq_some]
    by_cases hkey : k' = k
    · subst hkey
      have hnone : m.get? k' = none := by
        rw [← Option.not_isSome_iff_eq_none, get?_isSome]
        exact hk
      rw [hnone, if_pos rfl]
      simp [eq_comm]
    · rw [if_neg hkey]
      simp [hkey]

@[simp] theorem get?_set_self : (m.set k v).get? k = some v := by
  rw [get?_set, if_pos rfl]

/-- An entry after a write is an old one or the one written. -/
theorem mem_entries_set {entry : κ × ν} (h : entry ∈ (m.set k v).entries) :
    entry ∈ m.entries ∨ entry = (k, v) := by
  rw [show entry = (entry.1, entry.2) from rfl, ← get?_eq_some, get?_set] at h
  split_ifs at h with hkey
  · exact Or.inr (Prod.ext hkey (Option.some.inj h).symm)
  · exact Or.inl (get?_eq_some.mp h)

/-- A write loses no key. -/
theorem mem_keys_set (h : k' ∈ m.keys) : k' ∈ (m.set k v).keys := by
  rw [← get?_isSome] at h ⊢
  rw [get?_set]
  split_ifs
  · rfl
  · exact h

theorem get?_set_of_ne (h : k' ≠ k) : (m.set k v).get? k' = m.get? k' := by
  rw [get?_set, if_neg h]

theorem isSome_get?_set : ((m.set k v).get? k').isSome ↔ (m.get? k').isSome ∨ k' = k := by
  rw [get?_set]
  split_ifs with h
  · simp [h]
  · simp [h]

omit [DecidableEq κ] in
theorem ext_entries {m n : OrderedMap κ ν} (h : m.entries = n.entries) : m = n := by
  cases m
  cases n
  cases h
  rfl

def size (m : OrderedMap κ ν) : ℕ := m.entries.length

/-- A write of a new key adds an entry. -/
theorem size_set_of_none (h : m.get? k = none) : (m.set k v).size = m.size + 1 := by
  have hk : k ∉ m.keys := by
    rw [← get?_isSome, h]
    exact Bool.false_ne_true
  show (if k ∈ m.keys then _ else _ : List (κ × ν)).length = _
  rw [if_neg hk, List.length_append]
  rfl

theorem keys_set_of_mem (h : k ∈ m.keys) : (m.set k v).keys = m.keys := by
  show (if k ∈ m.keys then _ else _ : List (κ × ν)).map Prod.fst = _
  rw [if_pos h, List.map_map]
  exact congrArg (m.entries.map ·) (funext (replace_fst k v))

theorem size_le_set (m : OrderedMap κ ν) (k : κ) (v : ν) : m.size ≤ (m.set k v).size := by
  by_cases hk : k ∈ m.keys
  · have hkeys := congrArg List.length (@keys_set_of_mem _ _ _ m k v hk)
    unfold keys at hkeys
    rw [List.length_map, List.length_map] at hkeys
    exact hkeys.ge
  · rw [← get?_isSome, Option.not_isSome_iff_eq_none] at hk
    rw [size_set_of_none hk]
    exact Nat.le_succ _

omit [DecidableEq κ] in
/-- Lists of entries with the same distinct keys are the same if one has the entries of the other. -/
theorem eq_of_subset {l l' : List (κ × ν)} (hkeys : l.map Prod.fst = l'.map Prod.fst)
    (hnodup : (l.map Prod.fst).Nodup) (h : ∀ entry ∈ l, entry ∈ l') : l = l' := by
  induction l generalizing l' with
  | nil => exact (List.map_eq_nil_iff.mp hkeys.symm).symm
  | cons entry l ih =>
    obtain ⟨entry', l', rfl, hfirst, hrest⟩ := List.map_eq_cons_iff.mp hkeys.symm
    rw [List.map_cons, List.nodup_cons] at hnodup
    have hnotMem : entry.1 ∉ l'.map Prod.fst := hrest ▸ hnodup.1
    have hentry : entry = entry' := by
      rcases List.mem_cons.mp (h entry List.mem_cons_self) with he | hmem
      · exact he
      · exact absurd (List.mem_map_of_mem hmem) hnotMem
    refine congrArg₂ List.cons hentry (ih hrest.symm hnodup.2 fun other hmem => ?_)
    rcases List.mem_cons.mp (h other (List.mem_cons_of_mem _ hmem)) with rfl | hmem'
    · exact absurd (hfirst ▸ List.mem_map_of_mem hmem) hnodup.1
    · exact hmem'

theorem ext_get? {m n : OrderedMap κ ν} (hkeys : m.keys = n.keys)
    (h : ∀ k, m.get? k = n.get? k) : m = n :=
  ext_entries (eq_of_subset hkeys m.nodup fun entry hentry =>
    get?_eq_some.mp ((h entry.1).symm.trans (get?_eq_some.mpr hentry)))

/-- The entries that satisfy a test. -/
def filter (m : OrderedMap κ ν) (p : κ × ν → Bool) : OrderedMap κ ν where
  entries := m.entries.filter p
  nodup := m.nodup.sublist (List.filter_sublist.map _)

/-- The map with some of its entries. -/
def cut (m : OrderedMap κ ν) (entries : List (κ × ν)) (h : entries.Sublist m.entries) :
    OrderedMap κ ν where
  entries := entries
  nodup := m.nodup.sublist (h.map _)

/-- The values changed one by one. -/
def mapValues {μ : Type*} (m : OrderedMap κ ν) (f : ν → μ) : OrderedMap κ μ where
  entries := m.entries.map fun entry => (entry.1, f entry.2)
  nodup := by
    rw [List.map_map]
    exact m.nodup

theorem get?_mapValues {μ : Type*} (m : OrderedMap κ ν) (f : ν → μ) (k : κ) :
    (m.mapValues f).get? k = (m.get? k).map f := by
  have hfind (entries : List (κ × ν)) :
      ((entries.map fun entry => (entry.1, f entry.2)).find? (·.1 = k)).map Prod.snd =
        ((entries.find? (·.1 = k)).map Prod.snd).map f := by
    rw [List.find?_map, Option.map_map, Option.map_map]
    rfl
  exact hfind m.entries

/-- A write, changed with the other values. -/
theorem mapValues_set {μ : Type*} (m : OrderedMap κ ν) (k : κ) (v : ν) (f : ν → μ) :
    (m.set k v).mapValues f = (m.mapValues f).set k (f v) := by
  have hkeys : (m.mapValues f).keys = m.keys := List.map_map
  have hentries (n : OrderedMap κ ν) :
      (n.mapValues f).entries = n.entries.map fun entry => (entry.1, f entry.2) := rfl
  refine ext_entries ?_
  by_cases hk : k ∈ m.keys
  · have hwritten : (m.set k v).entries = m.entries.map (replace k v) := if_pos hk
    have hchanged : ((m.mapValues f).set k (f v)).entries =
        (m.mapValues f).entries.map (replace k (f v)) := if_pos (hkeys ▸ hk)
    rw [hchanged, hentries, hentries, hwritten, List.map_map, List.map_map]
    refine List.map_congr_left fun entry _ => ?_
    by_cases hkey : entry.1 = k
    · simp only [Function.comp_apply, replace, if_pos hkey]
    · simp only [Function.comp_apply, replace, if_neg hkey]
  · have hwritten : (m.set k v).entries = m.entries ++ [(k, v)] := if_neg hk
    have hchanged : ((m.mapValues f).set k (f v)).entries =
        (m.mapValues f).entries ++ [(k, f v)] := if_neg (hkeys ▸ hk)
    rw [hchanged, hentries, hentries, hwritten, List.map_append]
    rfl

/-- The writes of a loop. -/
def setAll (m : OrderedMap κ ν) (entries : List (κ × ν)) : OrderedMap κ ν :=
  entries.foldl (fun m entry => m.set entry.1 entry.2) m

theorem mem_entries_setAll {entries : List (κ × ν)} {entry : κ × ν}
    (h : entry ∈ (m.setAll entries).entries) : entry ∈ m.entries ∨ entry ∈ entries := by
  induction entries generalizing m with
  | nil => exact Or.inl h
  | cons first entries ih =>
    rcases ih h with h | h
    · exact (mem_entries_set h).imp id fun he => List.mem_cons.mpr (Or.inl he)
    · exact Or.inr (List.mem_cons_of_mem _ h)

/-- **After the writes of a loop** a key has the value of its last one. -/
theorem get?_setAll (m : OrderedMap κ ν) (entries : List (κ × ν)) (k : κ) :
    (m.setAll entries).get? k =
      ((entries.reverse.find? (·.1 = k)).map Prod.snd).or (m.get? k) := by
  induction entries generalizing m with
  | nil => rfl
  | cons entry entries ih =>
    show ((m.set entry.1 entry.2).setAll entries).get? k = _
    rw [ih, List.reverse_cons, List.find?_append, get?_set]
    cases entries.reverse.find? (·.1 = k) with
    | some last => rfl
    | none =>
      by_cases hk : k = entry.1
      · simp [hk]
      · simp [hk, Ne.symm hk]

theorem keys_setAll_of_mem {entries : List (κ × ν)} (h : ∀ entry ∈ entries, entry.1 ∈ m.keys) :
    (m.setAll entries).keys = m.keys := by
  induction entries generalizing m with
  | nil => rfl
  | cons entry entries ih =>
    obtain ⟨hentry, hentries⟩ := List.forall_mem_cons.mp h
    have hset : (m.set entry.1 entry.2).keys = m.keys := keys_set_of_mem hentry
    exact (ih fun other hmem => hset.symm ▸ hentries other hmem).trans hset

/-- **The writes of a loop change nothing** exactly when each key has the value of its last one. -/
theorem setAll_eq_self_iff {entries : List (κ × ν)} :
    m.setAll entries = m ↔
      ∀ entry, entries.reverse.find? (·.1 = entry.1) = some entry →
        m.get? entry.1 = some entry.2 := by
  constructor
  · intro h entry hlast
    have hget := get?_setAll m entries entry.1
    rw [h, hlast] at hget
    exact hget
  · intro h
    have hlast (k : κ) {last : κ × ν} (hfind : entries.reverse.find? (·.1 = k) = some last) :
        m.get? k = some last.2 := by
      have hkey : last.1 = k := by simpa using List.find?_some hfind
      rw [← hkey] at hfind ⊢
      exact h last hfind
    refine ext_get? (keys_setAll_of_mem fun entry hmem => ?_) fun k => ?_
    · cases hfind : entries.reverse.find? (·.1 = entry.1) with
      | none =>
        have hne := List.find?_eq_none.mp hfind entry (List.mem_reverse.mpr hmem)
        exact absurd (decide_eq_true rfl) hne
      | some last =>
        rw [← get?_isSome, hlast entry.1 hfind]
        rfl
    · rw [get?_setAll]
      cases hfind : entries.reverse.find? (·.1 = k) with
      | none => rfl
      | some last => exact (hlast k hfind).symm

theorem set_eq_self_iff : m.set k v = m ↔ m.get? k = some v := by
  have h := @setAll_eq_self_iff _ _ _ m [(k, v)]
  refine h.trans ⟨fun hget => hget (k, v) (by simp), fun hget entry hentry => ?_⟩
  obtain rfl : (k, v) = entry := by
    have hmem := List.mem_of_find?_eq_some hentry
    exact (List.mem_singleton.mp hmem).symm
  exact hget

/-- Writes of distinct and new keys append their entries. -/
theorem entries_setAll {entries : List (κ × ν)} (hnodup : (entries.map Prod.fst).Nodup)
    (hnew : ∀ entry ∈ entries, entry.1 ∉ m.keys) :
    (m.setAll entries).entries = m.entries ++ entries := by
  induction entries generalizing m with
  | nil => exact (List.append_nil _).symm
  | cons entry entries ih =>
    rw [List.map_cons, List.nodup_cons] at hnodup
    have hset : (m.set entry.1 entry.2).entries = m.entries ++ [entry] :=
      if_neg (hnew entry List.mem_cons_self)
    refine (ih hnodup.2 fun other hother hkey => ?_).trans ?_
    · rw [keys, hset, List.map_append, List.mem_append, List.map_singleton,
        List.mem_singleton] at hkey
      rcases hkey with hkey | hkey
      · exact hnew other (List.mem_cons_of_mem _ hother) hkey
      · exact hnodup.1 (List.mem_map.mpr ⟨other, hother, hkey⟩)
    · rw [hset, List.append_assoc]
      rfl

/-- The entries of a map, written in their order, are the map. -/
theorem setAll_empty_entries (m : OrderedMap κ ν) :
    (empty : OrderedMap κ ν).setAll m.entries = m :=
  ext_entries (entries_setAll m.nodup fun _ _ => List.not_mem_nil)

end OrderedMap
