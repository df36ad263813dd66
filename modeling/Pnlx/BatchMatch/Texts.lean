import Mathlib.Data.List.DropRight
import Mathlib.Data.List.Sort
import Pnlx.Digests
import Pnlx.Lib.Numerals

/-!
# Numbers and hashes in the texts of the batch matcher

The matcher runs in a zero-knowledge machine and takes all numbers and hashes as texts, which are
lists of characters here. A text that its parsers refuse aborts the run (`none`), and so no proof
exists.

1. `parseU128`, `parseI128`, `parseBigint`, `toFieldBiguint`: the parsers.
2. `fieldHex`, `hashFieldsHex`: the printers. A printed word reads back as the field element it
   stands for (`toFieldBiguint_hexText`, `toFieldBiguint_fieldHex`).
3. `fieldHashPair`: the Poseidon2 pair hash on texts.
-/

namespace Pnlx.BatchMatch

open Numerals

variable {H : Host}

/-- A text: its characters. -/
abbrev Text := List Char

instance Text.instLawfulBEq : LawfulBEq Text := inferInstance

/-! ## Parsers -/

/-- The characters that `str::trim` removes. -/
def isWhiteSpace (c : Char) : Bool :=
  (9 ≤ c.toNat ∧ c.toNat ≤ 13) ∨ (8192 ≤ c.toNat ∧ c.toNat ≤ 8202) ∨
    c.toNat ∈ [32, 133, 160, 5760, 8232, 8233, 8239, 8287, 12288]

def trim (cs : Text) : Text := (cs.dropWhile isWhiteSpace).rdropWhile isWhiteSpace

/-- `str::parse::<u128>`. -/
def parseU128 (value : Text) : Option U128 := do
  let digits := match value with
    | '+' :: tail => tail
    | cs => cs
  if digits = [] then none
  else
    let n ← readDigits 10 0 digits
    if n < 2 ^ 128 then some (BitVec.ofNat 128 n) else none

/-- `str::parse::<i128>`. -/
def parseI128 (value : Text) : Option I128 := do
  let (negative, digits) := match value with
    | '+' :: tail => (false, tail)
    | '-' :: tail => (true, tail)
    | cs => (false, cs)
  if digits = [] then none
  else
    let n ← readDigits 10 0 digits
    I128.ofInt? (if negative then -n else n)

/-- `strip_prefix(sign)` where no `+` follows. -/
def stripSign (sign : Char) (cs : Text) : Text :=
  if cs.head? = some sign ∧ cs.tail.head? ≠ some '+' then cs.tail else cs

/-- `BigUint::from_str_radix`: one sign, then digits, with underscores after the first. -/
def parseBigUint (radix : ℕ) (cs : Text) : Option ℕ :=
  let digits := stripSign '+' cs
  if digits.head? = none ∨ digits.head? = some '_' then none
  else readDigits radix 0 (digits.filter (· ≠ '_'))

/-- `BigInt::parse_bytes`. -/
def parseBytes (cs : Text) (radix : ℕ) : Option ℤ :=
  (parseBigUint radix (stripSign '-' cs)).map fun (n : ℕ) =>
    if cs.head? = some '-' then -(n : ℤ) else n

def parseBigint (value : Text) : Option ℤ :=
  match trim value with
  | '0' :: 'x' :: hex => parseBytes hex 16
  | trimmed => parseBytes trimmed 10

/-- The class of an integer in the field. -/
def modFloor (z : ℤ) : Fr := Fin.ofNat _ (z % (bn254ScalarModulus : ℤ)).toNat

def toFieldBiguint (value : Text) : Option Fr := (parseBigint value).map modFloor

/-! ## Printers -/

/-- `value.to_string()`. -/
def decimal (value : ℕ) : Text := Nat.toDigits 10 value

/-- `value.to_string()`. -/
def decimalSigned (value : ℤ) : Text :=
  if value < 0 then '-' :: decimal value.natAbs else decimal value.natAbs

/-- The characters of a printed word after its prefix. -/
def wordDigits (value : ℕ) : Text := List.leftpad 64 '0' (Nat.toDigits 16 value)

/-- `format!("0x{:0>64}", value.to_str_radix(16))`, and `format!("0x{}", hex::encode(..))` on the
32 bytes of a value. -/
def hexText (value : ℕ) : Text := '0' :: 'x' :: wordDigits value

def fieldHex (x : Fr) : Text := hexText x.val

/-- A field of a hashed text. -/
inductive Norm where
  | array (items : List Norm)
  | i128 (value : I128)
  | num (value : U128)
  | object (entries : List (String × Norm))
  | text (value : Text)

namespace Norm

mutual

def normalize : Norm → Text
  | array items => '[' :: List.intercalate [','] (normalizeItems items) ++ [']']
  | i128 value => decimalSigned value.toInt
  | num value => decimal value.toNat
  | object entries =>
    let sorted := (normalizeEntries entries).insertionSort fun l r => l.1 ≤ r.1
    '\x7b' :: List.intercalate [','] (sorted.map fun entry => entry.1.toList ++ ':' :: entry.2) ++
      ['\x7d']
  | text value => value

def normalizeItems : List Norm → List Text
  | [] => []
  | item :: items => item.normalize :: normalizeItems items

def normalizeEntries : List (String × Norm) → List (String × Text)
  | [] => []
  | (key, value) :: entries => (key, value.normalize) :: normalizeEntries entries

end

end Norm

def hashFieldsHex (H : Host) (domain : String) (fields : List Norm) : Text :=
  hexText (hashFields H domain (fields.map fun field => String.ofList field.normalize)).toNat

def digestToFieldHex (H : Host) (input : Text) : Text :=
  fieldHex (digestToField H (String.ofList input))

def fieldHashPair (H : Host) (left right : Text) : Option Text := do
  let left ← toFieldBiguint left
  let right ← toFieldBiguint right
  some (fieldHex (H.poseidon2Hash left right))

/-! ## A printed word reads back -/

/-- What no digit is. -/
theorem digitValue_plain {c : Char} {d : ℕ} (h : digitValue c = some d) (hd : d < 16) :
    isWhiteSpace c = false ∧ c ≠ '+' ∧ c ≠ '-' ∧ c ≠ '_' ∧ c ≠ 'x' := by
  -- a digit, or one of the first six letters
  have hrange : (48 ≤ c.toNat ∧ c.toNat ≤ 57) ∨ (97 ≤ c.toNat ∧ c.toNat ≤ 102) ∨
      (65 ≤ c.toNat ∧ c.toNat ≤ 70) := by
    unfold digitValue at h
    split_ifs at h with h₁ h₂ h₃
    all_goals
      rw [Option.some.injEq] at h
      omega
  have hne (x : Char) (hx : ¬ ((48 ≤ x.toNat ∧ x.toNat ≤ 57) ∨ (97 ≤ x.toNat ∧ x.toNat ≤ 102) ∨
      (65 ≤ x.toNat ∧ x.toNat ≤ 70))) : c ≠ x := by
    rintro rfl
    exact hx hrange
  refine ⟨decide_eq_false ?_, hne _ (by decide), hne _ (by decide), hne _ (by decide),
    hne _ (by decide)⟩
  simp only [List.mem_cons, List.not_mem_nil, or_false]
  omega

/-- The characters of a text are digits of a base up to 16. -/
def Digits (cs : Text) : Prop := ∀ c ∈ cs, ∃ d < 16, digitValue c = some d

-- a walk over the text, not over all characters
instance : DecidablePred Digits := fun cs =>
  @decidable_of_iff _ (∀ c ∈ cs, ∃ d ∈ digitValue c, d < 16)
    (by unfold Digits; simp only [Option.mem_def, and_comm]) (List.decidableBAll _ cs)

theorem Digits.of_digitChar {cs : Text} (h : ∀ c ∈ cs, ∃ d < 16, c = d.digitChar) : Digits cs := by
  intro c hc
  obtain ⟨d, hd, rfl⟩ := h c hc
  exact ⟨d, hd, digitValue_digitChar hd⟩

theorem Digits.plain {cs : Text} (h : Digits cs) {c : Char} (hc : c ∈ cs) :
    isWhiteSpace c = false ∧ c ≠ '+' ∧ c ≠ '-' ∧ c ≠ '_' ∧ c ≠ 'x' := by
  obtain ⟨d, hd, hvalue⟩ := h c hc
  exact digitValue_plain hvalue hd

theorem trim_eq_self {cs : List Char} (h : ∀ c ∈ cs, isWhiteSpace c = false) : trim cs = cs := by
  have hdrop : cs.dropWhile isWhiteSpace = cs := by
    rw [List.dropWhile_eq_self_iff]
    intro hlen
    rw [h _ (List.getElem_mem hlen)]
    exact Bool.false_ne_true
  unfold trim
  rw [hdrop, List.rdropWhile_eq_self_iff]
  intro hne
  rw [h _ (List.getLast_mem hne)]
  exact Bool.false_ne_true

/-- Digits without sign and underscore. -/
theorem parseBytes_of_digits {cs : List Char} (hne : cs ≠ []) (h : Digits cs) (radix : ℕ) :
    parseBytes cs radix = (readDigits radix 0 cs).map Int.ofNat := by
  obtain ⟨c, tail, rfl⟩ := List.exists_cons_of_ne_nil hne
  obtain ⟨-, hplus, hminus, hunder, -⟩ := h.plain List.mem_cons_self
  have hstrip {sign : Char} (hs : c ≠ sign) : stripSign sign (c :: tail) = c :: tail := by
    unfold stripSign
    rw [if_neg]
    rintro ⟨hhead, -⟩
    exact hs (Option.some.inj hhead)
  have hfilter : (c :: tail).filter (· ≠ '_') = c :: tail := by
    rw [List.filter_eq_self]
    intro x hx
    exact decide_eq_true (h.plain hx).2.2.2.1
  have huint : parseBigUint radix (c :: tail) = readDigits radix 0 (c :: tail) := by
    unfold parseBigUint
    simp only [hstrip hplus, hfilter]
    rw [if_neg]
    rintro (hnone | hhead)
    · exact Option.some_ne_none c hnone
    · exact hunder (Option.some.inj hhead)
  unfold parseBytes
  rw [hstrip hminus, huint]
  congr 1
  funext n
  rw [if_neg]
  · rfl
  · exact fun hhead => hminus (Option.some.inj hhead)

/-- A prefixed text of hexadecimal digits. -/
theorem parseBigint_hex {digits : Text} (hne : digits ≠ []) (h : Digits digits) :
    parseBigint ('0' :: 'x' :: digits) = (readDigits 16 0 digits).map Int.ofNat := by
  have hplain : ∀ c ∈ '0' :: 'x' :: digits, isWhiteSpace c = false := by
    intro c hc
    rcases List.mem_cons.mp hc with rfl | hc
    · decide
    · rcases List.mem_cons.mp hc with rfl | hc
      · decide
      · exact (h.plain hc).1
  unfold parseBigint
  rw [trim_eq_self hplain]
  exact parseBytes_of_digits hne h 16

theorem digits_wordDigits (n : ℕ) : Digits (wordDigits n) := by
  refine Digits.of_digitChar fun c hc => ?_
  unfold wordDigits List.leftpad at hc
  rcases List.mem_append.mp hc with hzero | hdigit
  · exact ⟨0, by omega, (List.mem_replicate.mp hzero).2⟩
  · exact mem_toDigits (by omega) hdigit

theorem wordDigits_ne_nil (n : ℕ) : wordDigits n ≠ [] := by
  unfold wordDigits List.leftpad
  exact List.append_ne_nil_of_right_ne_nil _ Nat.toDigits_ne_nil

theorem readDigits_wordDigits (n : ℕ) : readDigits 16 0 (wordDigits n) = some n := by
  unfold wordDigits
  rw [readDigits_leftpad (by omega), readDigits_toDigits (by omega) (by omega)]

theorem parseBigint_hexText (n : ℕ) : parseBigint (hexText n) = some (n : ℤ) := by
  unfold hexText
  rw [parseBigint_hex (wordDigits_ne_nil n) (digits_wordDigits n), readDigits_wordDigits]
  rfl

theorem modFloor_natCast (n : ℕ) : modFloor (n : ℤ) = Fin.ofNat _ n := by
  apply Fin.ext
  show (((n : ℤ) % (bn254ScalarModulus : ℤ)).toNat) % bn254ScalarModulus = n % bn254ScalarModulus
  rw [← Int.natCast_mod, Int.toNat_natCast, Nat.mod_mod]

/-- A printed word reads back as the field element it stands for. -/
theorem toFieldBiguint_hexText (n : ℕ) : toFieldBiguint (hexText n) = some (Fin.ofNat _ n) := by
  unfold toFieldBiguint
  rw [parseBigint_hexText, Option.map_some, modFloor_natCast]

@[simp] theorem toFieldBiguint_fieldHex (x : Fr) : toFieldBiguint (fieldHex x) = some x := by
  unfold fieldHex
  rw [toFieldBiguint_hexText]
  exact congrArg some (Fin.ext (Nat.mod_eq_of_lt x.isLt))

theorem digits_decimal (n : ℕ) : Digits (decimal n) := by
  refine Digits.of_digitChar fun c hc => ?_
  obtain ⟨d, hd, rfl⟩ := mem_toDigits (by omega) hc
  exact ⟨d, by omega, rfl⟩

theorem parseBigint_decimal (n : ℕ) : parseBigint (decimal n) = some (n : ℤ) := by
  have hdigits := digits_decimal n
  unfold parseBigint
  rw [trim_eq_self fun c hc => (hdigits.plain hc).1]
  split
  · next hex heq =>
    -- no digit is an `x`
    exact absurd rfl (hdigits.plain (by rw [heq]; simp : 'x' ∈ decimal n)).2.2.2.2
  · unfold decimal at hdigits ⊢
    rw [parseBytes_of_digits Nat.toDigits_ne_nil hdigits, readDigits_toDigits (by omega) (by omega)]
    rfl

/-- A printed `u128` reads back as a field element. -/
theorem toFieldBiguint_decimal (v : U128) : toFieldBiguint (decimal v.toNat) = some (asField v) := by
  unfold toFieldBiguint
  rw [parseBigint_decimal, Option.map_some]
  refine congrArg some (Fin.ext ?_)
  rw [modFloor_natCast]
  exact Nat.mod_eq_of_lt (u128_lt_modulus v)

/-- A hash of fields reads back as the field element of the word. -/
theorem toFieldBiguint_hashFieldsHex (domain : String) (fields : List Norm) :
    toFieldBiguint (hashFieldsHex H domain fields) =
      some (toField (hashFields H domain (fields.map fun field => String.ofList field.normalize))) :=
  toFieldBiguint_hexText _

/-! ## A printed number reads back -/

theorem decimal_eq_cons (n : ℕ) : ∃ c cs, decimal n = c :: cs ∧ c ≠ '+' ∧ c ≠ '-' := by
  obtain ⟨c, cs, h⟩ := List.exists_cons_of_ne_nil (Nat.toDigits_ne_nil : Nat.toDigits 10 n ≠ [])
  obtain ⟨-, hplus, hminus, -, -⟩ := (digits_decimal n).plain (by
    unfold decimal
    rw [h]
    exact List.mem_cons_self : c ∈ decimal n)
  exact ⟨c, cs, h, hplus, hminus⟩

theorem readDigits_decimal (n : ℕ) : readDigits 10 0 (decimal n) = some n :=
  readDigits_toDigits (by omega) (by omega) n

/-- A printed integer is read as a `u128` exactly when it is one. -/
theorem parseU128_decimalSigned {z : ℤ} {v : U128} :
    parseU128 (decimalSigned z) = some v ↔ z = v.toNat := by
  unfold decimalSigned
  split_ifs with hneg
  · -- a minus is no digit
    have hnone : parseU128 ('-' :: decimal z.natAbs) = none := rfl
    have hv := v.isLt
    rw [hnone]
    exact ⟨fun h => (nomatch h), fun h => by omega⟩
  · obtain ⟨c, cs, hcons, hplus, -⟩ := decimal_eq_cons z.natAbs
    have hread := readDigits_decimal z.natAbs
    have hparse : parseU128 (decimal z.natAbs) =
        if z.natAbs < 2 ^ 128 then some (BitVec.ofNat 128 z.natAbs) else none := by
      rw [hcons] at hread ⊢
      unfold parseU128
      dsimp only
      split
      · next tail heq => exact absurd (List.cons.inj heq).1 hplus
      · rw [if_neg (List.cons_ne_nil _ _), hread]
        rfl
    rw [hparse]
    split_ifs with hlt
    · rw [Option.some.injEq, ← BitVec.toNat_inj, BitVec.toNat_ofNat, Nat.mod_eq_of_lt hlt]
      omega
    · have hv := v.isLt
      exact ⟨fun h => (nomatch h), fun h => by omega⟩

theorem parseI128_cons {c : Char} {cs : Text} (hplus : c ≠ '+') (hminus : c ≠ '-') :
    parseI128 (c :: cs) = (readDigits 10 0 (c :: cs)).bind fun n => I128.ofInt? n := by
  unfold parseI128
  dsimp only
  split
  · next tail heq => exact absurd (List.cons.inj heq).1 hplus
  · next tail heq => exact absurd (List.cons.inj heq).1 hminus
  · rw [if_neg (List.cons_ne_nil c cs)]
    simp only [Bool.false_eq_true, if_false, Option.bind_eq_bind]

/-- A printed integer is read as an `i128` when it is one. -/
theorem parseI128_decimalSigned (z : ℤ) : parseI128 (decimalSigned z) = I128.ofInt? z := by
  have hread := readDigits_decimal z.natAbs
  have hne : decimal z.natAbs ≠ [] := Nat.toDigits_ne_nil
  unfold decimalSigned
  split_ifs with hneg
  · have hz : -(z.natAbs : ℤ) = z := by omega
    unfold parseI128
    simp only [hne, hread, hz, if_false, if_true, Option.bind_eq_bind, Option.bind_some]
  · have hz : (z.natAbs : ℤ) = z := by omega
    obtain ⟨c, cs, hcons, hplus, hminus⟩ := decimal_eq_cons z.natAbs
    rw [hcons] at hread ⊢
    rw [parseI128_cons hplus hminus, hread, Option.bind_some, hz]

end Pnlx.BatchMatch
