import Pnlx.Server.JsValues

/-!
# Records as JavaScript values

A codec writes a value as a JavaScript value and reads it back, also after the properties without a
value are gone.

1. `Codec.text`, `Codec.bigint`, `Codec.number`, `Codec.count`, `Codec.list`.
2. `Properties`: named properties of an object, with those that may be absent. `Codec.record`: a
   record with such properties.
-/

namespace Pnlx.Server

open BatchMatch (Text)
open JsValue (PlainItems PlainProperties stripItems bigIntKey)

variable {α β : Type}

/-- What is written can be stored, and reads back without its absent properties. -/
structure Codec (α : Type) where
  write : α → JsValue
  read : JsValue → Option α
  plain : ∀ a, (write a).Plain
  read_strip : ∀ a, read (write a).strip = some a

namespace Codec

def text : Codec Text where
  write := .string
  read
    | .string value => some value
    | _ => none
  plain _ := trivial
  read_strip _ := rfl

def bigint : Codec ℤ where
  write := .bigint
  read
    | .bigint value => some value
    | _ => none
  plain _ := trivial
  read_strip _ := rfl

def number : Codec ℤ where
  write := .number
  read
    | .number value => some value
    | _ => none
  plain _ := trivial
  read_strip _ := rfl

/-- A number that counts something. -/
def count : Codec ℕ where
  write n := .number n
  read
    | .number (.ofNat n) => some n
    | _ => none
  plain _ := trivial
  read_strip _ := rfl

def list (item : Codec α) : Codec (List α) where
  write items := .array (items.map item.write)
  read
    | .array items => items.mapM item.read
    | _ => none
  plain items := by
    show PlainItems (items.map item.write)
    induction items with
    | nil => trivial
    | cons a items ih => exact ⟨item.plain a, ih⟩
  read_strip items := by
    show (stripItems (items.map item.write)).mapM item.read = some items
    induction items with
    | nil => rfl
    | cons a items ih =>
      rw [List.map_cons, stripItems, List.mapM_cons, item.read_strip, ih]
      rfl

end Codec

/-! ## Properties -/

/-- Properties of an object, each with its name. They are read by their names. -/
structure Properties (α : Type) where
  names : List String
  write : α → List (String × JsValue)
  read : JsValue → Option α
  names_write : ∀ a, (write a).map (·.1) = names
  plain : ∀ a, ∀ property ∈ write a, property.2.isUndefined ∨ property.2.Plain
  read_of_get : ∀ a value, (∀ property ∈ write a, value.get property.1 = property.2.strip) →
    read value = some a

namespace Properties

/-- A property that is always there. -/
def required (name : String) (codec : Codec α) : Properties α where
  names := [name]
  write a := [(name, codec.write a)]
  read value := codec.read (value.get name)
  names_write _ := rfl
  plain a := List.forall_mem_singleton.mpr (.inr (codec.plain a))
  read_of_get a value h := by
    rw [h _ (List.mem_singleton_self _)]
    exact codec.read_strip a

theorem isUndefined_of_plain {value : JsValue} (h : value.Plain) : value.isUndefined = false := by
  cases value <;> first | rfl | exact h.elim

/-- A property that may be absent. -/
def optional (name : String) (codec : Codec α) : Properties (Option α) where
  names := [name]
  write a := [(name, (a.map codec.write).getD .undefined)]
  read value := if (value.get name).isUndefined then some none else
    (codec.read (value.get name)).map some
  names_write _ := rfl
  plain a := by
    refine List.forall_mem_singleton.mpr ?_
    cases a with
    | none => exact .inl rfl
    | some a => exact .inr (codec.plain a)
  read_of_get a value h := by
    rw [h _ (List.mem_singleton_self _)]
    cases a with
    | none => rfl
    | some a =>
      have hvalue : (codec.write a).strip.isUndefined = false := by
        rw [JsValue.isUndefined_strip]
        exact isUndefined_of_plain (codec.plain a)
      show (if (codec.write a).strip.isUndefined then _ else _) = _
      rw [hvalue, if_neg Bool.false_ne_true]
      show (codec.read (codec.write a).strip).map some = _
      rw [codec.read_strip, Option.map_some]

/-- Properties, and further ones. -/
def both (first : Properties α) (second : Properties β) : Properties (α × β) where
  names := first.names ++ second.names
  write ab := first.write ab.1 ++ second.write ab.2
  read value := do
    let a ← first.read value
    let b ← second.read value
    some (a, b)
  names_write ab := by rw [List.map_append, first.names_write, second.names_write]
  plain ab := List.forall_mem_append.mpr ⟨first.plain ab.1, second.plain ab.2⟩
  read_of_get ab value h := by
    obtain ⟨hfirst, hsecond⟩ := List.forall_mem_append.mp h
    rw [first.read_of_get _ _ hfirst, second.read_of_get _ _ hsecond]
    rfl

/-- The properties as those of an object. -/
def entries (properties : Properties α) (a : α) : List (Text × JsValue) :=
  (properties.write a).map fun property => (property.1.toList, property.2)

/-- The names differ, and none is the mark of an integer. -/
def Distinct (properties : Properties α) : Prop :=
  (bigIntKey :: properties.names.map String.toList).Nodup

instance (properties : Properties α) : Decidable properties.Distinct :=
  inferInstanceAs (Decidable (List.Nodup _))

variable {properties : Properties α}

theorem names_entries (a : α) :
    (properties.entries a).map (·.1) = properties.names.map String.toList := by
  rw [entries, List.map_map, ← properties.names_write a, List.map_map]
  rfl

theorem plain_entries (h : properties.Distinct) (a : α) : (JsValue.object (properties.entries a)).Plain := by
  obtain ⟨hmark, hnodup⟩ := List.nodup_cons.mp h
  have hproperties : ∀ written : List (String × JsValue),
      (∀ property ∈ written, property.2.isUndefined ∨ property.2.Plain) →
      PlainProperties (written.map fun property => (property.1.toList, property.2)) := by
    intro written hwritten
    induction written with
    | nil => trivial
    | cons property written ih =>
      obtain ⟨hproperty, hrest⟩ := List.forall_mem_cons.mp hwritten
      exact ⟨hproperty, ih hrest⟩
  refine ⟨?_, ?_, hproperties _ (properties.plain a)⟩
  · rwa [names_entries]
  · rwa [names_entries]

/-- A property of the object that is written. -/
theorem get_entries (h : properties.Distinct) {a : α} {property : String × JsValue}
    (hproperty : property ∈ properties.write a) :
    (JsValue.object (properties.entries a)).get property.1 = property.2 := by
  have hnodup : ((properties.entries a).map (·.1)).Nodup := by
    rw [names_entries]
    exact (List.nodup_cons.mp h).2
  have hmem : (property.1.toList, property.2) ∈ properties.entries a :=
    List.mem_map_of_mem hproperty
  have hfind : (properties.entries a).find? (fun entry => entry.1 = property.1.toList) =
      some (property.1.toList, property.2) := by
    cases hfound : (properties.entries a).find? (fun entry => entry.1 = property.1.toList) with
    | none => exact absurd (List.find?_eq_none.mp hfound _ hmem) (by simp)
    | some found =>
      have hname : found.1 = property.1.toList := by simpa using List.find?_some hfound
      exact congrArg some (List.inj_on_of_nodup_map hnodup (List.mem_of_find?_eq_some hfound) hmem
        hname)
  rw [JsValue.get_object, hfind]
  rfl

end Properties

/-- A record with some properties. -/
def Codec.record (properties : Properties α) (build : α → β) (parts : β → α)
    (hparts : ∀ b, build (parts b) = b) (hdistinct : properties.Distinct) : Codec β where
  write b := .object (properties.entries (parts b))
  read value := (properties.read value).map build
  plain b := Properties.plain_entries hdistinct (parts b)
  read_strip b := by
    have hread := properties.read_of_get (parts b) (JsValue.object (properties.entries (parts b))).strip
      fun property hproperty => by
        rw [JsValue.get_strip (Properties.plain_entries hdistinct (parts b)),
          Properties.get_entries hdistinct hproperty]
    rw [hread, Option.map_some, hparts]

end Pnlx.Server
