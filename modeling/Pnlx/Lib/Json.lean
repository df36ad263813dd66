import Pnlx.Lib.Numerals

/-!
# JSON

Trees, their texts and a parser. `print` writes a tree as `JSON.stringify` does, with or without
indentation, and `parse` reads as `JSON.parse` does. The numbers are integers, and a text with
another number is refused.

`parse_print`: what is printed reads back as the tree.
-/

namespace Json

open Numerals

/-- A tree. The members of an object keep their order. -/
inductive Tree where
  | null
  | bool (value : Bool)
  | number (value : ℤ)
  | string (value : List Char)
  | array (items : List Tree)
  | object (members : List (List Char × Tree))

/-! ## Printer -/

/-- The four digits of an escape. -/
def unicodeDigits (n : ℕ) : List Char := List.leftpad 4 '0' (Nat.toDigits 16 n)

def escape (c : Char) : List Char :=
  if c = '"' then ['\\', '"']
  else if c = '\\' then ['\\', '\\']
  else if c.toNat = 8 then ['\\', 'b']
  else if c.toNat = 9 then ['\\', 't']
  else if c.toNat = 10 then ['\\', 'n']
  else if c.toNat = 12 then ['\\', 'f']
  else if c.toNat = 13 then ['\\', 'r']
  else if c.toNat < 32 then '\\' :: 'u' :: unicodeDigits c.toNat
  else [c]

def quote (s : List Char) : List Char := '"' :: s.flatMap escape ++ ['"']

def printNumber (n : ℤ) : List Char :=
  if n < 0 then '-' :: Nat.toDigits 10 n.natAbs else Nat.toDigits 10 n.natAbs

/-- The break before an item at a depth: nothing without a gap. -/
def lineBreak (gap : List Char) (depth : ℕ) : List Char :=
  if gap = [] then [] else '\n' :: (List.replicate depth gap).flatten

def colon (gap : List Char) : List Char := if gap = [] then [':'] else [':', ' ']

mutual

def print (gap : List Char) (depth : ℕ) : Tree → List Char
  | .null => ['n', 'u', 'l', 'l']
  | .bool true => ['t', 'r', 'u', 'e']
  | .bool false => ['f', 'a', 'l', 's', 'e']
  | .number n => printNumber n
  | .string s => quote s
  | .array [] => ['[', ']']
  | .array (item :: items) =>
    '[' :: (lineBreak gap (depth + 1) ++ print gap (depth + 1) item ++
      printItems gap (depth + 1) items ++ lineBreak gap depth ++ [']'])
  | .object [] => ['\x7b', '\x7d']
  | .object ((key, value) :: members) =>
    '\x7b' :: (lineBreak gap (depth + 1) ++ quote key ++ colon gap ++
      print gap (depth + 1) value ++ printMembers gap (depth + 1) members ++ lineBreak gap depth ++
      ['\x7d'])

def printItems (gap : List Char) (depth : ℕ) : List Tree → List Char
  | [] => []
  | item :: items => ',' :: (lineBreak gap depth ++ print gap depth item ++
      printItems gap depth items)

def printMembers (gap : List Char) (depth : ℕ) : List (List Char × Tree) → List Char
  | [] => []
  | (key, value) :: members => ',' :: (lineBreak gap depth ++ quote key ++ colon gap ++
      print gap depth value ++ printMembers gap depth members)

end

/-! ## Parser -/

def isSpace (c : Char) : Bool := c = ' ' ∨ c = '\t' ∨ c = '\n' ∨ c = '\r'

def skip (cs : List Char) : List Char := cs.dropWhile isSpace

/-- The character that follows a backslash. -/
def unescape : Char → Option Char
  | '"' => some '"'
  | '\\' => some '\\'
  | '/' => some '/'
  | 'b' => some (Char.ofNat 8)
  | 'f' => some (Char.ofNat 12)
  | 'n' => some '\n'
  | 'r' => some '\r'
  | 't' => some '\t'
  | _ => none

/-- The rest of a string after its opening quote. -/
def parseString : List Char → Option (List Char × List Char)
  | '"' :: rest => some ([], rest)
  | '\\' :: 'u' :: a :: b :: c :: d :: rest => do
    let n ← readDigits 16 0 [a, b, c, d]
    let (s, rest) ← parseString rest
    if n.isValidChar then some (Char.ofNat n :: s, rest) else none
  | '\\' :: c :: rest => do
    let (s, rest) ← parseString rest
    let c ← unescape c
    some (c :: s, rest)
  | c :: rest => do
    let (s, rest) ← parseString rest
    if c.toNat < 32 then none else some (c :: s, rest)
  | [] => none

def isDigit (c : Char) : Bool := 48 ≤ c.toNat ∧ c.toNat ≤ 57

/-- An integer without a sign. A fraction or an exponent is refused. -/
def parseDigits (cs : List Char) : Option (ℕ × List Char) :=
  let digits := cs.takeWhile isDigit
  let rest := cs.dropWhile isDigit
  if digits = [] ∨ (digits.head? = some '0' ∧ digits ≠ ['0']) ∨
      rest.head? ∈ [some '.', some 'e', some 'E'] then none
  else (readDigits 10 0 digits).map fun n => (n, rest)

def parseNumber : List Char → Option (ℤ × List Char)
  | '-' :: cs => (parseDigits cs).map fun (n, rest) => (-(n : ℤ), rest)
  | cs => (parseDigits cs).map fun (n, rest) => ((n : ℤ), rest)

/-- A member that comes before others. A later member with its key takes its place. -/
def addMember (key : List Char) (value : Tree) (members : List (List Char × Tree)) :
    List (List Char × Tree) :=
  match members.find? (·.1 = key) with
  | some (_, later) => (key, later) :: members.filter (·.1 ≠ key)
  | none => (key, value) :: members

mutual

def parseValue : (fuel : ℕ) → List Char → Option (Tree × List Char)
  | 0, _ => none
  | fuel + 1, cs =>
    match skip cs with
    | 'n' :: 'u' :: 'l' :: 'l' :: rest => some (.null, rest)
    | 't' :: 'r' :: 'u' :: 'e' :: rest => some (.bool true, rest)
    | 'f' :: 'a' :: 'l' :: 's' :: 'e' :: rest => some (.bool false, rest)
    | '"' :: rest => (parseString rest).map fun (s, rest) => (.string s, rest)
    | '[' :: rest =>
      match skip rest with
      | ']' :: rest => some (.array [], rest)
      | rest => (parseItems fuel rest).map fun (items, rest) => (.array items, rest)
    | '\x7b' :: rest =>
      match skip rest with
      | '\x7d' :: rest => some (.object [], rest)
      | rest => (parseMembers fuel rest).map fun (members, rest) => (.object members, rest)
    | rest => (parseNumber rest).map fun (n, rest) => (.number n, rest)

/-- One item or more, and the closing bracket. -/
def parseItems : (fuel : ℕ) → List Char → Option (List Tree × List Char)
  | 0, _ => none
  | fuel + 1, cs => do
    let (item, rest) ← parseValue fuel cs
    match skip rest with
    | ',' :: rest => (parseItems fuel rest).map fun (items, rest) => (item :: items, rest)
    | ']' :: rest => some ([item], rest)
    | _ => none

/-- One member or more, and the closing brace. -/
def parseMembers : (fuel : ℕ) → List Char → Option (List (List Char × Tree) × List Char)
  | 0, _ => none
  | fuel + 1, cs =>
    match skip cs with
    | '"' :: rest => do
      let (key, rest) ← parseString rest
      match skip rest with
      | ':' :: rest => do
        let (value, rest) ← parseValue fuel rest
        match skip rest with
        | ',' :: rest => (parseMembers fuel rest).map fun (members, rest) =>
            (addMember key value members, rest)
        | '\x7d' :: rest => some ([(key, value)], rest)
        | _ => none
      | _ => none
    | _ => none

end

def parse (cs : List Char) : Option Tree := do
  let (tree, rest) ← parseValue (cs.length + 1) cs
  if skip rest = [] then some tree else none

/-! ## White space -/

variable {cs rest ws gap : List Char}

theorem skip_append (hws : ∀ c ∈ ws, isSpace c = true) : skip (ws ++ cs) = skip cs := by
  unfold skip
  rw [List.dropWhile_append_of_pos hws]

theorem skip_cons {c : Char} (hc : isSpace c = false) : skip (c :: cs) = c :: cs := by
  unfold skip
  rw [List.dropWhile_cons_of_neg (by rw [hc]; decide)]

/-- The characters of an indentation. -/
def Blank (gap : List Char) : Prop := ∀ c ∈ gap, isSpace c = true

theorem blank_lineBreak (hgap : Blank gap) (depth : ℕ) : Blank (lineBreak gap depth) := by
  intro c hc
  unfold lineBreak at hc
  split_ifs at hc
  · exact absurd hc List.not_mem_nil
  · rcases List.mem_cons.mp hc with rfl | hc
    · decide
    · obtain ⟨_, hmem, hc⟩ := List.mem_flatten.mp hc
      rw [List.eq_of_mem_replicate hmem] at hc
      exact hgap c hc

/-- The parser does not see white space before a value. -/
theorem parseValue_append (hws : Blank ws) (fuel : ℕ) :
    parseValue fuel (ws ++ cs) = parseValue fuel cs := by
  cases fuel with
  | zero => rw [parseValue, parseValue]
  | succ fuel => rw [parseValue, parseValue, skip_append hws]

/-! ## Strings -/

theorem readDigits_unicodeDigits : ∀ n < 32, (unicodeDigits n).length = 4 ∧
    readDigits 16 0 (unicodeDigits n) = some n := by decide

theorem parseString_unescape {c d : Char} (hu : c ≠ 'u') (hd : unescape c = some d)
    (cs : List Char) :
    parseString ('\\' :: c :: cs) = (parseString cs).map fun (s, rest) => (d :: s, rest) := by
  rw [parseString, hd]
  · cases parseString cs with
    | none => rfl
    | some p => rfl
  · intro _ _ _ _ _ h
    exact absurd h hu

theorem parseString_escape (c : Char) (cs : List Char) :
    parseString (escape c ++ cs) = (parseString cs).map fun (s, rest) => (c :: s, rest) := by
  have hchar (n : ℕ) (hn : n.isValidChar) (h : c.toNat = n) : c = Char.ofNat n := by
    rw [← h, Char.ofNat_toNat]
  unfold escape
  split_ifs with hquote hslash h8 h9 h10 h12 h13 hcontrol
  · subst hquote
    exact parseString_unescape (by decide) rfl cs
  · subst hslash
    exact parseString_unescape (by decide) rfl cs
  · obtain rfl := hchar 8 (by decide) h8
    exact parseString_unescape (by decide) rfl cs
  · obtain rfl := hchar 9 (by decide) h9
    exact parseString_unescape (by decide) rfl cs
  · obtain rfl := hchar 10 (by decide) h10
    exact parseString_unescape (by decide) rfl cs
  · obtain rfl := hchar 12 (by decide) h12
    exact parseString_unescape (by decide) rfl cs
  · obtain rfl := hchar 13 (by decide) h13
    exact parseString_unescape (by decide) rfl cs
  · obtain ⟨hlength, hread⟩ := readDigits_unicodeDigits c.toNat hcontrol
    obtain ⟨x, y, z, w, hdigits⟩ : ∃ x y z w, unicodeDigits c.toNat = [x, y, z, w] := by
      match hdigits : unicodeDigits c.toNat with
      | [x, y, z, w] => exact ⟨x, y, z, w, rfl⟩
      | [] | [_] | [_, _] | [_, _, _] | _ :: _ :: _ :: _ :: _ :: _ =>
        rw [hdigits] at hlength
        simp at hlength
    rw [hdigits] at hread ⊢
    show parseString ('\\' :: 'u' :: x :: y :: z :: w :: cs) = _
    rw [parseString, hread]
    have hvalid : c.toNat.isValidChar := c.valid
    cases parseString cs with
    | none => rfl
    | some p =>
      show (if c.toNat.isValidChar then some (Char.ofNat c.toNat :: p.1, p.2) else none) = _
      rw [if_pos hvalid, Char.ofNat_toNat]
      rfl
  · show parseString (c :: cs) = _
    rw [parseString]
    · cases parseString cs with
      | none => rfl
      | some p => exact if_neg hcontrol
    · exact hquote
    · intro _ _ _ _ _ h
      exact absurd h hslash
    · intro _ _ h
      exact absurd h hslash

/-- A string reads back. -/
theorem parseString_quote (s rest : List Char) :
    parseString (s.flatMap escape ++ '"' :: rest) = some (s, rest) := by
  induction s with
  | nil => rw [List.flatMap_nil, List.nil_append, parseString]
  | cons c s ih =>
    rw [List.flatMap_cons, List.append_assoc, parseString_escape, ih, Option.map_some]

/-! ## Numbers -/

/-- A number cannot go on here. -/
def Ends (rest : List Char) : Prop :=
  ∀ c ∈ rest.head?, isDigit c = false ∧ some c ∉ [some '.', some 'e', some 'E']

theorem isDigit_digitChar {d : ℕ} (hd : d < 10) : isDigit d.digitChar = true := by
  have hall : ∀ d < 10, isDigit d.digitChar = true := by decide
  exact hall d hd

theorem isDigit_of_mem {n : ℕ} {c : Char} (hc : c ∈ Nat.toDigits 10 n) : isDigit c = true := by
  obtain ⟨d, hd, rfl⟩ := mem_toDigits (by omega) hc
  exact isDigit_digitChar hd

theorem toDigits_ne_nil (n : ℕ) : Nat.toDigits 10 n ≠ [] := by
  by_cases hn : n < 10
  · rw [Nat.toDigits_of_lt_base hn]
    exact List.cons_ne_nil _ _
  · rw [Nat.toDigits_of_base_le (by omega) (by omega)]
    exact List.append_ne_nil_of_right_ne_nil _ (List.cons_ne_nil _ _)

/-- Only zero is written with a zero first. -/
theorem head_toDigits {n : ℕ} (hn : n ≠ 0) : (Nat.toDigits 10 n).head? ≠ some '0' := by
  induction n using Nat.strongRecOn with
  | _ n ih =>
    by_cases hlt : n < 10
    · have hall : ∀ d < 10, d ≠ 0 → d.digitChar ≠ '0' := by decide
      rw [Nat.toDigits_of_lt_base hlt, List.head?_cons, ne_eq, Option.some.injEq]
      exact hall n hlt hn
    · rw [Nat.toDigits_of_base_le (by omega) (by omega),
        List.head?_append_of_ne_nil _ (toDigits_ne_nil _)]
      exact ih (n / 10) (by omega) (by omega)

theorem parseDigits_toDigits (n : ℕ) (hrest : Ends rest) :
    parseDigits (Nat.toDigits 10 n ++ rest) = some (n, rest) := by
  have hdigits : ∀ c ∈ Nat.toDigits 10 n, isDigit c = true := fun c hc => isDigit_of_mem hc
  have htake : (Nat.toDigits 10 n ++ rest).takeWhile isDigit = Nat.toDigits 10 n := by
    rw [List.takeWhile_append_of_pos hdigits]
    cases rest with
    | nil => rw [List.takeWhile_nil, List.append_nil]
    | cons c cs =>
      rw [List.takeWhile_cons_of_neg (by rw [(hrest c rfl).1]; decide), List.append_nil]
  have hdrop : (Nat.toDigits 10 n ++ rest).dropWhile isDigit = rest := by
    rw [List.dropWhile_append_of_pos hdigits]
    cases rest with
    | nil => rfl
    | cons c cs => rw [List.dropWhile_cons_of_neg (by rw [(hrest c rfl).1]; decide)]
  have hzero : ¬ ((Nat.toDigits 10 n).head? = some '0' ∧ Nat.toDigits 10 n ≠ ['0']) := by
    rintro ⟨hhead, hne⟩
    by_cases hn : n = 0
    · subst hn
      exact hne (by decide)
    · exact head_toDigits hn hhead
  have hhead : rest.head? ∉ [some '.', some 'e', some 'E'] := by
    cases rest with
    | nil => simp
    | cons c cs => exact (hrest c rfl).2
  unfold parseDigits
  rw [htake, hdrop]
  show (if Nat.toDigits 10 n = [] ∨ _ ∨ _ then none else _) = _
  rw [if_neg (by rintro (h | h | h); exacts [toDigits_ne_nil n h, hzero h, hhead h]),
    readDigits_toDigits (by omega) (by omega), Option.map_some]

theorem parseNumber_printNumber (n : ℤ) (hrest : Ends rest) :
    parseNumber (printNumber n ++ rest) = some (n, rest) := by
  unfold printNumber
  split_ifs with hn
  · have habs : -(n.natAbs : ℤ) = n := by omega
    rw [List.cons_append, parseNumber, parseDigits_toDigits _ hrest, Option.map_some]
    exact congrArg (fun m => some (m, rest)) habs
  · have habs : (n.natAbs : ℤ) = n := by omega
    rw [parseNumber, parseDigits_toDigits _ hrest, Option.map_some]
    · exact congrArg (fun m => some (m, rest)) habs
    · intro cs hcs
      obtain ⟨c, cs', htoDigits⟩ := List.exists_cons_of_ne_nil (toDigits_ne_nil n.natAbs)
      have hc : isDigit c = true := isDigit_of_mem (by rw [htoDigits]; exact List.mem_cons_self)
      rw [htoDigits, List.cons_append] at hcs
      obtain ⟨rfl, -⟩ := List.cons.inj hcs
      exact absurd hc (by decide)

/-! ## Trees -/

mutual

/-- No object of the tree has a key twice. -/
def Distinct : Tree → Prop
  | .null | .bool _ | .number _ | .string _ => True
  | .array items => DistinctItems items
  | .object members => (members.map (·.1)).Nodup ∧ DistinctMembers members

def DistinctItems : List Tree → Prop
  | [] => True
  | item :: items => Distinct item ∧ DistinctItems items

def DistinctMembers : List (List Char × Tree) → Prop
  | [] => True
  | (_, value) :: members => Distinct value ∧ DistinctMembers members

end

/-- A printed tree begins with a character that is no space, and with a closing bracket or brace
never. -/
theorem print_eq_cons (gap : List Char) (depth : ℕ) (t : Tree) :
    ∃ c cs, print gap depth t = c :: cs ∧ isSpace c = false ∧ c ≠ ']' := by
  cases t with
  | null => exact ⟨_, _, rfl, by decide, by decide⟩
  | bool value => cases value <;> exact ⟨_, _, rfl, by decide, by decide⟩
  | number n =>
    rw [print, printNumber]
    split_ifs
    · exact ⟨_, _, rfl, by decide, by decide⟩
    · obtain ⟨c, cs, hcs⟩ := List.exists_cons_of_ne_nil (toDigits_ne_nil n.natAbs)
      have hc : isDigit c = true := isDigit_of_mem (by rw [hcs]; exact List.mem_cons_self)
      refine ⟨c, cs, hcs, ?_, ?_⟩
      · have hdigit : 48 ≤ c.toNat ∧ c.toNat ≤ 57 := of_decide_eq_true hc
        refine decide_eq_false ?_
        rintro (rfl | rfl | rfl | rfl)
        · exact absurd hdigit (by decide)
        · exact absurd hdigit (by decide)
        · exact absurd hdigit (by decide)
        · exact absurd hdigit (by decide)
      · rintro rfl
        exact absurd hc (by decide)
  | string s => exact ⟨_, _, rfl, by decide, by decide⟩
  | array items => cases items <;> exact ⟨_, _, rfl, by decide, by decide⟩
  | object members => cases members <;> exact ⟨_, _, rfl, by decide, by decide⟩

/-- What follows a value inside of an array or an object. -/
theorem ends_cons {c : Char} (hc : isDigit c = false ∧ some c ∉ [some '.', some 'e', some 'E'])
    (cs : List Char) : Ends (c :: cs) := by
  intro d hd
  obtain rfl := Option.some.inj hd
  exact hc

theorem ends_lineBreak (gap : List Char) (depth : ℕ) (hrest : Ends rest) :
    Ends (lineBreak gap depth ++ rest) := by
  unfold lineBreak
  split_ifs
  · exact hrest
  · exact ends_cons (by decide) _

theorem addMember_of_notMem {key : List Char} {value : Tree} {members : List (List Char × Tree)}
    (h : key ∉ members.map (·.1)) : addMember key value members = (key, value) :: members := by
  have hfind : members.find? (fun member => member.1 = key) = none := by
    rw [List.find?_eq_none]
    intro member hmember hkey
    exact h (List.mem_map.mpr ⟨member, hmember, of_decide_eq_true hkey⟩)
  unfold addMember
  rw [hfind]

/-- A number is read where no other value begins. -/
theorem parseValue_number (fuel : ℕ) (n : ℤ) (hrest : Ends rest) :
    parseValue (fuel + 1) (printNumber n ++ rest) = some (.number n, rest) := by
  obtain ⟨c, cs, hcs, hspace, -⟩ := print_eq_cons [] 0 (.number n)
  rw [print] at hcs
  have hc : c = '-' ∨ isDigit c = true := by
    unfold printNumber at hcs
    split_ifs at hcs
    · exact Or.inl (List.cons.inj hcs).1.symm
    · refine Or.inr (isDigit_of_mem (n := n.natAbs) ?_)
      rw [hcs]
      exact List.mem_cons_self
  have hread := parseNumber_printNumber n hrest
  rw [hcs, List.cons_append] at hread ⊢
  rw [parseValue, skip_cons hspace]
  -- no other value begins like a number
  have hother {d : Char} {ds : List Char} (h : c :: (cs ++ rest) = d :: ds)
      (hd : ¬ (d = '-' ∨ isDigit d = true)) : False := hd ((List.cons.inj h).1 ▸ hc)
  split
  · next h => exact absurd (hother h) (by decide)
  · next h => exact absurd (hother h) (by decide)
  · next h => exact absurd (hother h) (by decide)
  · next h => exact absurd (hother h) (by decide)
  · next h => exact absurd (hother h) (by decide)
  · next h => exact absurd (hother h) (by decide)
  · rw [hread, Option.map_some]

/-- The parser reads what is printed, with fuel for each character. -/
structure Reads (gap : List Char) (fuel : ℕ) : Prop where
  value : ∀ t depth rest, Distinct t → Ends rest → (print gap depth t).length ≤ fuel →
    parseValue fuel (print gap depth t ++ rest) = some (t, rest)
  items : ∀ item items depth depth' rest, Distinct item → DistinctItems items →
    (print gap depth item ++ printItems gap depth items).length < fuel →
    parseItems fuel (print gap depth item ++ printItems gap depth items ++
      lineBreak gap depth' ++ ']' :: rest) = some (item :: items, rest)
  members : ∀ key value members depth depth' rest,
    (((key, value) :: members).map (·.1)).Nodup → Distinct value → DistinctMembers members →
    (quote key ++ colon gap ++ print gap depth value ++
      printMembers gap depth members).length < fuel →
    parseMembers fuel (quote key ++ colon gap ++ print gap depth value ++
      printMembers gap depth members ++ lineBreak gap depth' ++ '\x7d' :: rest) =
      some ((key, value) :: members, rest)

theorem parseItems_append (hws : Blank ws) (fuel : ℕ) :
    parseItems fuel (ws ++ cs) = parseItems fuel cs := by
  cases fuel with
  | zero => rw [parseItems, parseItems]
  | succ fuel => rw [parseItems, parseItems, parseValue_append hws]

theorem parseMembers_append (hws : Blank ws) (fuel : ℕ) :
    parseMembers fuel (ws ++ cs) = parseMembers fuel cs := by
  cases fuel with
  | zero => rw [parseMembers, parseMembers]
  | succ fuel => rw [parseMembers, parseMembers, skip_append hws]

theorem reads_zero (gap : List Char) : Reads gap 0 where
  value t depth rest _ _ hlength := by
    obtain ⟨c, cs, hcs, -⟩ := print_eq_cons gap depth t
    rw [hcs, List.length_cons] at hlength
    omega
  items _ _ _ _ _ _ _ hlength := absurd hlength (Nat.not_lt_zero _)
  members _ _ _ _ _ _ _ _ _ hlength := absurd hlength (Nat.not_lt_zero _)

section Steps

variable {fuel : ℕ} {rest' : List Char} {item value : Tree} {key : List Char}

theorem parseItems_last (hitem : parseValue fuel cs = some (item, rest))
    (hskip : skip rest = ']' :: rest') : parseItems (fuel + 1) cs = some ([item], rest') := by
  simp only [parseItems, hitem, hskip, Option.bind_eq_bind, Option.bind_some]

theorem parseItems_more (hitem : parseValue fuel cs = some (item, rest))
    (hskip : skip rest = ',' :: rest') :
    parseItems (fuel + 1) cs =
      (parseItems fuel rest').map fun (items, rest) => (item :: items, rest) := by
  simp only [parseItems, hitem, hskip, Option.bind_eq_bind, Option.bind_some]

/-- The text of a member up to its value. -/
theorem parse_key (gap key cs : List Char) : ∃ rest rest',
    quote key ++ colon gap ++ cs = '"' :: rest ∧ parseString rest = some (key, rest') ∧
      ∃ ws, Blank ws ∧ skip rest' = ':' :: (ws ++ cs) := by
  refine ⟨key.flatMap escape ++ '"' :: (colon gap ++ cs), colon gap ++ cs, ?_,
    parseString_quote .., ?_⟩
  · simp only [quote, List.cons_append, List.append_assoc, List.nil_append]
  · unfold colon
    split_ifs
    · exact ⟨[], fun _ h => absurd h List.not_mem_nil, skip_cons (by decide)⟩
    · exact ⟨[' '], List.forall_mem_singleton.mpr (by decide), skip_cons (by decide)⟩

theorem parseMembers_last (hvalue : parseValue fuel cs = some (value, rest))
    (hskip : skip rest = '\x7d' :: rest') (gap key : List Char) :
    parseMembers (fuel + 1) (quote key ++ colon gap ++ cs) = some ([(key, value)], rest') := by
  obtain ⟨text, after, hquote, hkey, ws, hws, hcolon⟩ := parse_key gap key cs
  have hskipped : skip ('"' :: text) = '"' :: text := skip_cons (by decide)
  rw [← parseValue_append hws] at hvalue
  simp only [hquote, parseMembers, hskipped, hkey, hcolon, hvalue, hskip, Option.bind_eq_bind,
    Option.bind_some]

theorem parseMembers_more (hvalue : parseValue fuel cs = some (value, rest))
    (hskip : skip rest = ',' :: rest') (gap key : List Char) :
    parseMembers (fuel + 1) (quote key ++ colon gap ++ cs) =
      (parseMembers fuel rest').map fun (members, rest) =>
        (addMember key value members, rest) := by
  obtain ⟨text, after, hquote, hkey, ws, hws, hcolon⟩ := parse_key gap key cs
  have hskipped : skip ('"' :: text) = '"' :: text := skip_cons (by decide)
  rw [← parseValue_append hws] at hvalue
  simp only [hquote, parseMembers, hskipped, hkey, hcolon, hvalue, hskip, Option.bind_eq_bind,
    Option.bind_some]

theorem parseValue_array (hskip : skip rest = cs) (hcs : cs.head? ≠ some ']') :
    parseValue (fuel + 1) ('[' :: rest) =
      (parseItems fuel cs).map fun (items, rest) => (.array items, rest) := by
  have hskipped : skip ('[' :: rest) = '[' :: rest := skip_cons (by decide)
  simp only [parseValue, hskipped, hskip]
  split
  · exact absurd rfl hcs
  · rfl

theorem parseValue_object (hskip : skip rest = cs) (hcs : cs.head? ≠ some '\x7d') :
    parseValue (fuel + 1) ('\x7b' :: rest) =
      (parseMembers fuel cs).map fun (members, rest) => (.object members, rest) := by
  have hskipped : skip ('\x7b' :: rest) = '\x7b' :: rest := skip_cons (by decide)
  simp only [parseValue, hskipped, hskip]
  split
  · exact absurd rfl hcs
  · rfl

end Steps

/-! ## Round trip -/

theorem reads_items_succ (hgap : Blank gap) {fuel : ℕ} (h : Reads gap fuel) (item : Tree)
    (items : List Tree) (depth depth' : ℕ) (rest : List Char) (hitem : Distinct item)
    (hitems : DistinctItems items)
    (hlength : (print gap depth item ++ printItems gap depth items).length < fuel + 1) :
    parseItems (fuel + 1) (print gap depth item ++ printItems gap depth items ++
      lineBreak gap depth' ++ ']' :: rest) = some (item :: items, rest) := by
  rw [List.length_append] at hlength
  rw [List.append_assoc, List.append_assoc]
  cases items with
  | nil =>
    have hends : Ends (lineBreak gap depth' ++ ']' :: rest) :=
      ends_lineBreak _ _ (ends_cons (by decide) _)
    have hskip : skip (lineBreak gap depth' ++ ']' :: rest) = ']' :: rest := by
      rw [skip_append (blank_lineBreak hgap depth'), skip_cons (by decide)]
    rw [printItems, List.nil_append]
    exact parseItems_last (h.value item depth _ hitem hends (by omega)) hskip
  | cons item' items =>
    rw [printItems, List.length_cons, List.length_append, List.length_append] at hlength
    obtain ⟨hitem', hitems⟩ := hitems
    have hmore := h.items item' items depth depth' rest hitem' hitems
      (by rw [List.length_append]; omega)
    rw [printItems, List.cons_append, parseItems_more (h.value item depth _ hitem
      (ends_cons (by decide) _) (by omega)) (skip_cons (by decide)), List.append_assoc,
      List.append_assoc, parseItems_append (blank_lineBreak hgap depth), ← List.append_assoc,
      ← List.append_assoc, hmore, Option.map_some]

theorem reads_members_succ (hgap : Blank gap) {fuel : ℕ} (h : Reads gap fuel) (key : List Char)
    (value : Tree) (members : List (List Char × Tree)) (depth depth' : ℕ) (rest : List Char)
    (hkeys : (((key, value) :: members).map (·.1)).Nodup) (hvalue : Distinct value)
    (hmembers : DistinctMembers members)
    (hlength : (quote key ++ colon gap ++ print gap depth value ++
      printMembers gap depth members).length < fuel + 1) :
    parseMembers (fuel + 1) (quote key ++ colon gap ++ print gap depth value ++
      printMembers gap depth members ++ lineBreak gap depth' ++ '\x7d' :: rest) =
      some ((key, value) :: members, rest) := by
  have hquoted : 0 < (quote key).length := Nat.succ_pos _
  rw [List.length_append, List.length_append, List.length_append] at hlength
  rw [List.append_assoc, List.append_assoc, List.append_assoc (quote key ++ colon gap)]
  cases members with
  | nil =>
    have hends : Ends (lineBreak gap depth' ++ '\x7d' :: rest) :=
      ends_lineBreak _ _ (ends_cons (by decide) _)
    have hskip : skip (lineBreak gap depth' ++ '\x7d' :: rest) = '\x7d' :: rest := by
      rw [skip_append (blank_lineBreak hgap depth'), skip_cons (by decide)]
    rw [printMembers, List.nil_append]
    exact parseMembers_last (h.value value depth _ hvalue hends (by omega)) hskip gap key
  | cons member members =>
    obtain ⟨key', value'⟩ := member
    obtain ⟨hfresh, hkeys⟩ := List.nodup_cons.mp hkeys
    rw [printMembers, List.length_cons, List.length_append, List.length_append, List.length_append,
      List.length_append] at hlength
    obtain ⟨hvalue', hmembers⟩ := hmembers
    have hmore := h.members key' value' members depth depth' rest hkeys hvalue' hmembers
      (by rw [List.length_append, List.length_append, List.length_append]; omega)
    rw [printMembers, List.cons_append, parseMembers_more (h.value value depth _ hvalue
      (ends_cons (by decide) _) (by omega)) (skip_cons (by decide))]
    simp only [List.append_assoc] at hmore ⊢
    rw [parseMembers_append (blank_lineBreak hgap depth), hmore, Option.map_some]
    exact congrArg (fun members => some (members, rest)) (addMember_of_notMem hfresh)

theorem reads_value_succ (hgap : Blank gap) {fuel : ℕ} (h : Reads gap fuel) (t : Tree) (depth : ℕ)
    (rest : List Char) (ht : Distinct t) (hrest : Ends rest)
    (hlength : (print gap depth t).length ≤ fuel + 1) :
    parseValue (fuel + 1) (print gap depth t ++ rest) = some (t, rest) := by
  cases t with
  | null => rfl
  | bool value => cases value <;> rfl
  | number n => exact parseValue_number fuel n hrest
  | string s =>
    have hskip : skip ('"' :: (s.flatMap escape ++ '"' :: rest)) =
        '"' :: (s.flatMap escape ++ '"' :: rest) := skip_cons (by decide)
    have hquote : quote s ++ rest = '"' :: (s.flatMap escape ++ '"' :: rest) := by
      simp only [quote, List.cons_append, List.append_assoc, List.nil_append]
    simp only [print, hquote, parseValue, hskip, parseString_quote, Option.map_some]
  | array items =>
    cases items with
    | nil => rfl
    | cons item items =>
      obtain ⟨c, cs, hcs, hspace, hc⟩ := print_eq_cons gap (depth + 1) item
      obtain ⟨hitem, hitems⟩ := ht
      rw [print, List.length_cons, List.length_append, List.length_append, List.length_append,
        List.length_append] at hlength
      have hread := h.items item items (depth + 1) depth rest hitem hitems
        (by rw [List.length_append]; simp only [List.length_singleton] at hlength; omega)
      rw [print, List.cons_append]
      simp only [List.append_assoc, List.singleton_append] at hread ⊢
      rw [parseValue_array (skip_append (blank_lineBreak hgap _)), hcs, List.cons_append,
        skip_cons hspace, ← List.cons_append, ← hcs, hread, Option.map_some]
      rw [hcs, List.cons_append, skip_cons hspace, List.head?_cons, ne_eq, Option.some.injEq]
      exact hc
  | object members =>
    cases members with
    | nil => rfl
    | cons member members =>
      obtain ⟨key, value⟩ := member
      obtain ⟨hkeys, hvalue, hmembers⟩ := ht
      rw [print, List.length_cons, List.length_append, List.length_append, List.length_append,
        List.length_append, List.length_append, List.length_append] at hlength
      have hread := h.members key value members (depth + 1) depth rest hkeys hvalue hmembers
        (by
          rw [List.length_append, List.length_append, List.length_append]
          simp only [List.length_singleton] at hlength
          omega)
      have hskip (cs : List Char) : skip (quote key ++ cs) = quote key ++ cs :=
        skip_cons (by decide)
      rw [print, List.cons_append]
      simp only [List.append_assoc, List.singleton_append] at hread ⊢
      rw [parseValue_object (skip_append (blank_lineBreak hgap _)), hskip, hread, Option.map_some]
      rw [hskip]
      exact fun h => absurd (Option.some.inj h) (by decide)

theorem reads (hgap : Blank gap) (fuel : ℕ) : Reads gap fuel := by
  induction fuel with
  | zero => exact reads_zero gap
  | succ fuel ih =>
    exact ⟨reads_value_succ hgap ih, reads_items_succ hgap ih, reads_members_succ hgap ih⟩

/-- **What is printed reads back**, with or without indentation. -/
theorem parse_print (hgap : Blank gap) {t : Tree} (ht : Distinct t) :
    parse (print gap 0 t) = some t := by
  have hread := (reads hgap ((print gap 0 t).length + 1)).value t 0 [] ht
    (fun c hc => absurd hc (Option.not_mem_none c)) (by omega)
  rw [List.append_nil] at hread
  unfold parse
  rw [hread]
  rfl

end Json
