import Pnlx.Lib.Json
import Pnlx.Server.Texts

/-!
# Records as JSON

The store keeps its records as JavaScript values. `bigintReplacer` and `bigintReviver` write an
integer as an object with one property, and a property without a value is not written.

`jsonParse_jsonStringify`: what is written reads back, without the properties that have no value.
-/

namespace Pnlx.Server

open BatchMatch (Text decimal decimalSigned)

/-- A JavaScript value. The numbers of the records are integers. -/
inductive JsValue where
  | undefined
  | null
  | bool (value : Bool)
  | number (value : ℤ)
  | bigint (value : ℤ)
  | string (value : Text)
  | array (items : List JsValue)
  | object (properties : List (Text × JsValue))

namespace JsValue

def isUndefined : JsValue → Bool
  | undefined => true
  | _ => false

/-- `value[key]`. -/
def get (value : JsValue) (key : String) : JsValue :=
  match value with
  | object properties => ((properties.find? (·.1 = key.toList)).map (·.2)).getD undefined
  | _ => undefined

/-- `value ?? other`. -/
def orElse (value other : JsValue) : JsValue :=
  match value with
  | undefined | null => other
  | value => value

/-- `{ ...value, key: property }`. -/
def assign (value : JsValue) (key : String) (property : JsValue) : JsValue :=
  match value with
  | object properties => object (
      if (properties.find? (·.1 = key.toList)).isSome then
        properties.map fun entry => if entry.1 = key.toList then (entry.1, property) else entry
      else properties ++ [(key.toList, property)])
  | value => value

theorem get_object (properties : List (Text × JsValue)) (key : String) :
    (object properties).get key =
      ((properties.find? (·.1 = key.toList)).map (·.2)).getD undefined := rfl

theorem assign_object (properties : List (Text × JsValue)) (key : String) (property : JsValue) :
    (object properties).assign key property = object (
      if (properties.find? (·.1 = key.toList)).isSome then
        properties.map fun entry => if entry.1 = key.toList then (entry.1, property) else entry
      else properties ++ [(key.toList, property)]) := rfl

/-- The property that marks an integer. -/
def bigIntKey : Text := "__pnlxBigInt".toList

mutual

/-- The tree that `JSON.stringify` writes with `bigintReplacer`. -/
def tree : JsValue → Json.Tree
  | undefined | null => .null
  | bool value => .bool value
  | number value => .number value
  | bigint value => .object [(bigIntKey, .string (decimalSigned value))]
  | string value => .string value
  | array items => .array (treeItems items)
  | object properties => .object (treeMembers properties)

def treeItems : List JsValue → List Json.Tree
  | [] => []
  | item :: items => item.tree :: treeItems items

/-- A property without a value is left out. -/
def treeMembers : List (Text × JsValue) → List (Text × Json.Tree)
  | [] => []
  | (key, value) :: properties =>
    if value.isUndefined then treeMembers properties
    else (key, value.tree) :: treeMembers properties

end

/-- `bigintReviver` on an object whose properties have been revived. -/
def bigintReviver (properties : List (Text × JsValue)) : Option JsValue :=
  match (object properties).get "__pnlxBigInt" with
  | string digits => (bigInt digits).map bigint
  | _ => some (object properties)

mutual

/-- The value that `JSON.parse` makes of a tree with `bigintReviver`. -/
def revive : Json.Tree → Option JsValue
  | .null => some null
  | .bool value => some (bool value)
  | .number value => some (number value)
  | .string value => some (string value)
  | .array items => (reviveItems items).map array
  | .object members => (reviveMembers members).bind bigintReviver

def reviveItems : List Json.Tree → Option (List JsValue)
  | [] => some []
  | item :: items => do
    let item ← revive item
    let items ← reviveItems items
    some (item :: items)

def reviveMembers : List (Text × Json.Tree) → Option (List (Text × JsValue))
  | [] => some []
  | (key, value) :: members => do
    let value ← revive value
    let properties ← reviveMembers members
    some ((key, value) :: properties)

end

/-- `JSON.stringify(value, bigintReplacer, gap)`. -/
def jsonStringify (gap : List Char) (value : JsValue) : Text := Json.print gap 0 value.tree

/-- `JSON.parse(text, bigintReviver)`. -/
def jsonParse (text : Text) : Option JsValue := (Json.parse text).bind revive

/-! ## Values that can be written -/

mutual

/-- The value without the properties that have no value. -/
def strip : JsValue → JsValue
  | array items => array (stripItems items)
  | object properties => object (stripProperties properties)
  | value => value

def stripItems : List JsValue → List JsValue
  | [] => []
  | item :: items => item.strip :: stripItems items

def stripProperties : List (Text × JsValue) → List (Text × JsValue)
  | [] => []
  | (key, value) :: properties =>
    if value.isUndefined then stripProperties properties
    else (key, value.strip) :: stripProperties properties

end

mutual

/-- A value of a protocol record: properties have distinct names, none is the mark of an integer,
and only properties may be without a value. -/
def Plain : JsValue → Prop
  | undefined => False
  | array items => PlainItems items
  | object properties =>
    (properties.map (·.1)).Nodup ∧ bigIntKey ∉ properties.map (·.1) ∧ PlainProperties properties
  | _ => True

def PlainItems : List JsValue → Prop
  | [] => True
  | item :: items => item.Plain ∧ PlainItems items

def PlainProperties : List (Text × JsValue) → Prop
  | [] => True
  | (_, value) :: properties => (value.isUndefined ∨ value.Plain) ∧ PlainProperties properties

end

/-! ## Reading and writing -/

theorem isStrWhiteSpace_digitChar {d : ℕ} (hd : d < 10) : isStrWhiteSpace d.digitChar = false := by
  have hall : ∀ d < 10, isStrWhiteSpace d.digitChar = false := by decide
  exact hall d hd

/-- The ends of a written integer are no white space. -/
theorem trim_decimal (sign : Text) (hsign : ∀ c ∈ sign, isStrWhiteSpace c = false) (n : ℕ) :
    ((sign ++ decimal n).dropWhile isStrWhiteSpace).rdropWhile isStrWhiteSpace =
      sign ++ decimal n := by
  have hall : ∀ c ∈ sign ++ decimal n, isStrWhiteSpace c = false := by
    intro c hc
    rcases List.mem_append.mp hc with hc | hc
    · exact hsign c hc
    · obtain ⟨d, hd, rfl⟩ := Numerals.mem_toDigits (by omega) hc
      exact isStrWhiteSpace_digitChar hd
  have hnil : sign ++ decimal n ≠ [] :=
    List.append_ne_nil_of_right_ne_nil _ (Json.toDigits_ne_nil n)
  have hdrop : (sign ++ decimal n).dropWhile isStrWhiteSpace = sign ++ decimal n := by
    obtain ⟨c, cs, hcs⟩ := List.exists_cons_of_ne_nil hnil
    rw [hcs] at hall ⊢
    rw [List.dropWhile_cons_of_neg (by rw [hall c List.mem_cons_self]; decide)]
  rw [hdrop, List.rdropWhile_eq_self_iff]
  intro h
  rw [hall _ (List.getLast_mem h)]
  decide

theorem strDigits_decimal (n : ℕ) : strDigits 10 (decimal n) = some (n : ℤ) := by
  unfold strDigits decimal
  rw [if_neg (Json.toDigits_ne_nil n), Numerals.readDigits_toDigits (by omega) (by omega)]
  rfl

/-- An integer reads back from its text. -/
theorem bigInt_decimalSigned (n : ℤ) : bigInt (decimalSigned n) = some n := by
  unfold decimalSigned
  split_ifs with hn
  · have htrim := trim_decimal ['-'] (List.forall_mem_singleton.mpr (by decide)) n.natAbs
    rw [List.singleton_append] at htrim
    unfold bigInt
    rw [htrim]
    show (strDigits 10 (decimal n.natAbs)).map Neg.neg = _
    rw [strDigits_decimal, Option.map_some]
    exact congrArg some (by omega)
  · have htrim := trim_decimal [] (by simp) n.natAbs
    rw [List.nil_append] at htrim
    have hdigit (c : Char) (hc : c ∈ decimal n.natAbs) : Json.isDigit c = true :=
      Json.isDigit_of_mem hc
    have hdigits : strDigits 10 (decimal n.natAbs) = some n := by
      rw [strDigits_decimal]
      exact congrArg some (by omega)
    unfold bigInt
    rw [htrim]
    -- a prefix or a sign is no digit
    split
    · next h => exact absurd h (Json.toDigits_ne_nil _)
    · next h => exact absurd (hdigit 'x' (by rw [h]; simp)) (by decide)
    · next h => exact absurd (hdigit 'X' (by rw [h]; simp)) (by decide)
    · next h => exact absurd (hdigit 'o' (by rw [h]; simp)) (by decide)
    · next h => exact absurd (hdigit 'O' (by rw [h]; simp)) (by decide)
    · next h => exact absurd (hdigit 'b' (by rw [h]; simp)) (by decide)
    · next h => exact absurd (hdigit 'B' (by rw [h]; simp)) (by decide)
    · next h => exact absurd (hdigit '-' (by rw [h]; simp)) (by decide)
    · next h => exact absurd (hdigit '+' (by rw [h]; simp)) (by decide)
    · exact hdigits

theorem isUndefined_iff {value : JsValue} : value.isUndefined = true ↔ value = undefined := by
  cases value <;> simp [isUndefined]

theorem isUndefined_strip (value : JsValue) : value.strip.isUndefined = value.isUndefined := by
  cases value <;> rfl

theorem sublist_treeMembers (properties : List (Text × JsValue)) :
    ((treeMembers properties).map (·.1)).Sublist (properties.map (·.1)) := by
  induction properties with
  | nil => exact List.Sublist.slnil
  | cons property properties ih =>
    obtain ⟨key, value⟩ := property
    rw [treeMembers, List.map_cons]
    split_ifs
    · exact ih.cons _
    · exact ih.cons_cons _

theorem keys_stripProperties (properties : List (Text × JsValue)) :
    (stripProperties properties).map (·.1) = (treeMembers properties).map (·.1) := by
  induction properties with
  | nil => rfl
  | cons property properties ih =>
    obtain ⟨key, value⟩ := property
    rw [treeMembers, stripProperties]
    split_ifs
    · exact ih
    · rw [List.map_cons, List.map_cons, ih]

mutual

theorem distinct_tree : ∀ {value : JsValue}, value.Plain → Json.Distinct value.tree
  | null, _ | bool _, _ | number _, _ | string _, _ => trivial
  | bigint _, _ => ⟨List.nodup_singleton _, trivial, trivial⟩
  | array _, h => distinct_treeItems h
  | object _, ⟨hkeys, _, h⟩ => ⟨hkeys.sublist (sublist_treeMembers _), distinct_treeMembers h⟩

theorem distinct_treeItems : ∀ {items : List JsValue}, PlainItems items →
    Json.DistinctItems (treeItems items)
  | [], _ => trivial
  | _ :: _, ⟨hitem, hitems⟩ => ⟨distinct_tree hitem, distinct_treeItems hitems⟩

theorem distinct_treeMembers : ∀ {properties : List (Text × JsValue)}, PlainProperties properties →
    Json.DistinctMembers (treeMembers properties)
  | [], _ => trivial
  | (_, value) :: _, ⟨hvalue, hproperties⟩ => by
    rw [treeMembers]
    split_ifs with hundefined
    · exact distinct_treeMembers hproperties
    · exact ⟨distinct_tree (hvalue.resolve_left hundefined), distinct_treeMembers hproperties⟩

end

theorem get_of_notMem {properties : List (Text × JsValue)} {key : String}
    (h : key.toList ∉ properties.map (·.1)) : (object properties).get key = undefined := by
  have hfind : properties.find? (fun property => property.1 = key.toList) = none := by
    rw [List.find?_eq_none]
    intro property hproperty hkey
    exact h (List.mem_map.mpr ⟨property, hproperty, of_decide_eq_true hkey⟩)
  simp only [get, hfind, Option.map_none, Option.getD_none]

mutual

theorem revive_tree : ∀ {value : JsValue}, value.Plain → revive value.tree = some value.strip
  | null, _ | bool _, _ | number _, _ | string _, _ => rfl
  | bigint n, _ => by
    rw [tree, revive, reviveMembers, revive, reviveMembers]
    show bigintReviver [(bigIntKey, string (decimalSigned n))] = _
    show (bigInt (decimalSigned n)).map bigint = _
    rw [bigInt_decimalSigned]
    rfl
  | array _, h => by
    rw [tree, revive, revive_treeItems h]
    rfl
  | object properties, ⟨_, hmark, h⟩ => by
    rw [tree, revive, revive_treeMembers h, Option.bind_some, strip]
    -- the mark of an integer is not a property
    have hget : (object (stripProperties properties)).get "__pnlxBigInt" = undefined := by
      refine get_of_notMem ?_
      rw [keys_stripProperties]
      exact fun hmem => hmark ((sublist_treeMembers properties).subset hmem)
    unfold bigintReviver
    rw [hget]

theorem revive_treeItems : ∀ {items : List JsValue}, PlainItems items →
    reviveItems (treeItems items) = some (stripItems items)
  | [], _ => rfl
  | _ :: _, ⟨hitem, hitems⟩ => by
    rw [treeItems, reviveItems, revive_tree hitem, revive_treeItems hitems]
    rfl

theorem revive_treeMembers : ∀ {properties : List (Text × JsValue)}, PlainProperties properties →
    reviveMembers (treeMembers properties) = some (stripProperties properties)
  | [], _ => rfl
  | (_, value) :: _, ⟨hvalue, hproperties⟩ => by
    rw [treeMembers, stripProperties]
    split_ifs with hundefined
    · exact revive_treeMembers hproperties
    · rw [reviveMembers, revive_tree (hvalue.resolve_left hundefined),
        revive_treeMembers hproperties]
      rfl

end

/-- **What is written reads back**, without the properties that have no value. -/
theorem jsonParse_jsonStringify {gap : List Char} (hgap : Json.Blank gap) {value : JsValue}
    (h : value.Plain) : jsonParse (jsonStringify gap value) = some value.strip := by
  unfold jsonParse jsonStringify
  rw [Json.parse_print hgap (distinct_tree h), Option.bind_some, revive_tree h]

/-! ## Values without absent properties -/

mutual

theorem tree_strip : ∀ value : JsValue, value.strip.tree = value.tree
  | undefined | null | bool _ | number _ | bigint _ | string _ => rfl
  | array items => congrArg Json.Tree.array (treeItems_strip items)
  | object properties => congrArg Json.Tree.object (treeMembers_strip properties)

theorem treeItems_strip : ∀ items : List JsValue, treeItems (stripItems items) = treeItems items
  | [] => rfl
  | item :: items => by rw [stripItems, treeItems, treeItems, tree_strip, treeItems_strip]

theorem treeMembers_strip : ∀ properties : List (Text × JsValue),
    treeMembers (stripProperties properties) = treeMembers properties
  | [] => rfl
  | (key, value) :: properties => by
    rw [stripProperties, treeMembers]
    split_ifs with hundefined
    · exact treeMembers_strip properties
    · rw [treeMembers, isUndefined_strip, if_neg hundefined, tree_strip, treeMembers_strip]

end

mutual

theorem plain_strip : ∀ {value : JsValue}, value.Plain → value.strip.Plain
  | null, _ | bool _, _ | number _, _ | string _, _ | bigint _, _ => trivial
  | array _, h => plain_stripItems h
  | object _, ⟨hkeys, hmark, h⟩ => by
    refine ⟨?_, ?_, plain_stripProperties h⟩
    · rw [keys_stripProperties]
      exact hkeys.sublist (sublist_treeMembers _)
    · rw [keys_stripProperties]
      exact fun hmem => hmark ((sublist_treeMembers _).subset hmem)

theorem plain_stripItems : ∀ {items : List JsValue}, PlainItems items →
    PlainItems (stripItems items)
  | [], _ => trivial
  | _ :: _, ⟨hitem, hitems⟩ => ⟨plain_strip hitem, plain_stripItems hitems⟩

theorem plain_stripProperties : ∀ {properties : List (Text × JsValue)}, PlainProperties properties →
    PlainProperties (stripProperties properties)
  | [], _ => trivial
  | (_, _) :: _, ⟨hvalue, hproperties⟩ => by
    rw [stripProperties]
    split_ifs with hundefined
    · exact plain_stripProperties hproperties
    · exact ⟨Or.inr (plain_strip (hvalue.resolve_left hundefined)),
        plain_stripProperties hproperties⟩

end

/-- A value without absent properties stays as it is. -/
theorem strip_strip {value : JsValue} (h : value.Plain) : value.strip.strip = value.strip := by
  have hrevive := revive_tree (plain_strip h)
  rw [tree_strip, revive_tree h] at hrevive
  exact (Option.some.inj hrevive).symm

theorem find?_stripProperties (properties : List (Text × JsValue)) (key : Text)
    (hkeys : (properties.map (·.1)).Nodup) :
    (((stripProperties properties).find? (·.1 = key)).map (·.2)).getD undefined =
      (((properties.find? (·.1 = key)).map (·.2)).getD undefined).strip := by
  induction properties with
  | nil => rfl
  | cons property properties ih =>
    obtain ⟨name, value⟩ := property
    rw [List.map_cons, List.nodup_cons] at hkeys
    rw [stripProperties]
    by_cases hname : name = key
    · subst hname
      split_ifs with hundefined
      · -- a later property does not have the name
        have hfind : properties.find? (·.1 = name) = none := by
          rw [List.find?_eq_none]
          intro entry hentry hkey
          exact hkeys.1 (List.mem_map.mpr ⟨entry, hentry, of_decide_eq_true hkey⟩)
        obtain rfl := isUndefined_iff.mp hundefined
        rw [ih hkeys.2, hfind, List.find?_cons_of_pos (by simp)]
        rfl
      · rw [List.find?_cons_of_pos (by simp), List.find?_cons_of_pos (by simp)]
        rfl
    · split_ifs with hundefined
      · rw [ih hkeys.2, List.find?_cons_of_neg (by simpa using hname)]
      · rw [List.find?_cons_of_neg (by simpa using hname),
          List.find?_cons_of_neg (by simpa using hname), ih hkeys.2]

/-- A property of the stripped value is the stripped property. -/
theorem get_strip {value : JsValue} (h : value.Plain) (key : String) :
    value.strip.get key = (value.get key).strip := by
  cases value with
  | object properties => exact find?_stripProperties properties key.toList h.1
  | _ => rfl

end JsValue

end Pnlx.Server
