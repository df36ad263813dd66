import Pnlx.BatchMatch.Texts

/-!
# Numbers and hashes in the texts of the server

The server is written in TypeScript. Its numbers are integers without bounds and its hashes are
texts. A thrown error is `none`.

1. `bigInt`, `toField`: reading a text as an integer and as a field element.
2. `normalize`, `hashFields`: the texts that are hashed.
3. `toField_hex`: on hexadecimal texts the server reads what the matcher reads.
-/

namespace Pnlx.Server

open Numerals
open BatchMatch (Text decimalSigned fieldHex hexText)

variable {H : Host}

/-- A text that is there and not empty. -/
def given (value : Option Text) : Option Text := value.filter (· ≠ [])

/-! ## Integers -/

/-- The characters that `BigInt` removes at both ends. -/
def isStrWhiteSpace (c : Char) : Bool :=
  (9 ≤ c.toNat ∧ c.toNat ≤ 13) ∨ (8192 ≤ c.toNat ∧ c.toNat ≤ 8202) ∨
    c.toNat ∈ [32, 160, 5760, 8232, 8233, 8239, 8287, 12288, 65279]

/-- A literal of at least one digit. -/
def strDigits (radix : ℕ) (digits : Text) : Option ℤ :=
  if digits = [] then none else (readDigits radix 0 digits).map Int.ofNat

/-- `BigInt(value)`. -/
def bigInt (value : Text) : Option ℤ :=
  match (value.dropWhile isStrWhiteSpace).rdropWhile isStrWhiteSpace with
  | [] => some 0
  | '0' :: 'x' :: digits | '0' :: 'X' :: digits => strDigits 16 digits
  | '0' :: 'o' :: digits | '0' :: 'O' :: digits => strDigits 8 digits
  | '0' :: 'b' :: digits | '0' :: 'B' :: digits => strDigits 2 digits
  | '-' :: digits => (strDigits 10 digits).map Neg.neg
  | '+' :: digits => strDigits 10 digits
  | digits => strDigits 10 digits

/-- `mod(value)`. -/
def mod (value : ℤ) : Fr :=
  let out := value.tmod bn254ScalarModulus
  Fin.ofNat _ (if 0 ≤ out then out else out + bn254ScalarModulus).toNat

/-- A field argument: a text or an integer. -/
inductive FieldValue where
  | hex (value : Text)
  | bigint (value : ℤ)

def toField : FieldValue → Option Fr
  | .hex value => (bigInt value).map mod
  | .bigint value => some (mod value)

/-! ## Hashes -/

/-- A value that is hashed. -/
inductive Value where
  | array (items : List Value)
  | bigint (value : ℤ)
  | object (entries : List (String × Value))
  | text (value : Text)

namespace Value

mutual

def normalize : Value → Text
  | array items => '[' :: List.intercalate [','] (normalizeItems items) ++ [']']
  | bigint value => decimalSigned value
  | object entries =>
    let sorted := (normalizeEntries entries).insertionSort fun a b => a.1 ≤ b.1
    '\x7b' :: List.intercalate [','] (sorted.map fun entry => entry.1.toList ++ ':' :: entry.2) ++
      ['\x7d']
  | text value => value

def normalizeItems : List Value → List Text
  | [] => []
  | item :: items => item.normalize :: normalizeItems items

def normalizeEntries : List (String × Value) → List (String × Text)
  | [] => []
  | (key, entry) :: entries => (key, entry.normalize) :: normalizeEntries entries

end

end Value

def hashFields (H : Host) (domain : String) (fields : List Value) : Text :=
  hexText (Pnlx.hashFields H domain (fields.map fun field => String.ofList field.normalize)).toNat

def digestToFieldHex (H : Host) (input : Text) : Text :=
  fieldHex (digestToField H (String.ofList input))

/-- `fieldHashPair` on the `poseidon2Hash` of its package. -/
def fieldHashPair (poseidon2Hash : Fr → Fr → Fr) (left right : FieldValue) : Option Text := do
  let left ← toField left
  let right ← toField right
  some (fieldHex (poseidon2Hash left right))

/-! ## Arguments of 32 bytes -/

/-- The 64 hexadecimal digits of a 32-byte argument. -/
def bytes32 (value : Text) : Text :=
  if value = "0x0".toList then List.replicate 64 '0'
  else
    match value with
    | '0' :: 'x' :: digits => digits
    | digits => digits

/-- The command line reads a `BytesN<32>` from 64 hexadecimal digits. -/
def bytesN32Arg (value : Text) : Option BytesN32 :=
  if (bytes32 value).length = 64 then
    (readDigits 16 0 (bytes32 value)).map (BitVec.ofNat 256)
  else none

/-! ## The server reads what the matcher reads -/

theorem mod_eq_modFloor (z : ℤ) : mod z = BatchMatch.modFloor z := by
  have hpos : (0 : ℤ) < bn254ScalarModulus := by decide
  have hlt := Int.emod_lt_of_pos z hpos
  have hnonneg := Int.emod_nonneg z hpos.ne'
  have hmod : z.tmod bn254ScalarModulus = if 0 ≤ z ∨ (bn254ScalarModulus : ℤ) ∣ z
      then z % bn254ScalarModulus else z % bn254ScalarModulus - bn254ScalarModulus := by
    rw [Int.tmod_eq_emod]
    split_ifs
    · exact Int.sub_zero _
    · rfl
  unfold mod BatchMatch.modFloor
  refine congrArg (Fin.ofNat _) (congrArg Int.toNat ?_)
  rw [hmod]
  split_ifs <;> omega

theorem toField_word (v : U128) : toField (.bigint v.toNat) = some (asField v) := by
  rw [← BatchMatch.toFieldBiguint_decimal v, BatchMatch.toFieldBiguint,
    BatchMatch.parseBigint_decimal]
  exact congrArg some (mod_eq_modFloor _)

theorem digit_not_strWhiteSpace {digits : Text} (h : BatchMatch.Digits digits) {c : Char}
    (hc : c ∈ digits) : isStrWhiteSpace c = false := by
  obtain ⟨d, hd, hvalue⟩ := h c hc
  unfold digitValue at hvalue
  refine decide_eq_false ?_
  simp only [List.mem_cons, List.not_mem_nil, or_false]
  split_ifs at hvalue
  all_goals
    rw [Option.some.injEq] at hvalue
    omega

theorem bigInt_hex {digits : Text} (hne : digits ≠ []) (h : BatchMatch.Digits digits) :
    bigInt ('0' :: 'x' :: digits) = (readDigits 16 0 digits).map Int.ofNat := by
  have hplain : ∀ c ∈ '0' :: 'x' :: digits, isStrWhiteSpace c = false := by
    intro c hc
    rcases List.mem_cons.mp hc with rfl | hc
    · decide
    · rcases List.mem_cons.mp hc with rfl | hc
      · decide
      · exact digit_not_strWhiteSpace h hc
  have htrim : (('0' :: 'x' :: digits).dropWhile isStrWhiteSpace).rdropWhile isStrWhiteSpace =
      '0' :: 'x' :: digits := by
    rw [List.dropWhile_eq_self_iff.mpr, List.rdropWhile_eq_self_iff]
    · intro hne'
      rw [hplain _ (List.getLast_mem hne')]
      exact Bool.false_ne_true
    · intro hlen
      rw [hplain _ (List.getElem_mem hlen)]
      exact Bool.false_ne_true
  unfold bigInt strDigits
  rw [htrim]
  exact if_neg hne

/-- On hexadecimal texts the server reads what the matcher reads. -/
theorem toField_hex {digits : Text} (hne : digits ≠ []) (h : BatchMatch.Digits digits) :
    toField (.hex ('0' :: 'x' :: digits)) = BatchMatch.toFieldBiguint ('0' :: 'x' :: digits) := by
  show (bigInt _).map mod = (BatchMatch.parseBigint _).map BatchMatch.modFloor
  rw [bigInt_hex hne h, BatchMatch.parseBigint_hex hne h]
  rw [show mod = BatchMatch.modFloor from funext mod_eq_modFloor]

@[simp] theorem toField_fieldHex (x : Fr) : toField (.hex (BatchMatch.fieldHex x)) = some x := by
  rw [← BatchMatch.toFieldBiguint_fieldHex x]
  exact toField_hex (BatchMatch.wordDigits_ne_nil _) (BatchMatch.digits_wordDigits _)

/-! ## Hashes of 32 bytes -/

/-- `0x0`, or a prefix and 64 hexadecimal digits. -/
def IsHex32 (value : Text) : Prop :=
  value = "0x0".toList ∨
    (value.take 2 = "0x".toList ∧ (value.drop 2).length = 64 ∧ BatchMatch.Digits (value.drop 2))

instance : DecidablePred IsHex32 := fun value => by unfold IsHex32; infer_instance

/-- The 32 bytes of a hash. -/
def hexWord (value : Text) : BytesN32 := (bytesN32Arg value).getD 0

theorem toField_ofNat {n : ℕ} (h : n < 2 ^ 256) :
    Pnlx.toField (BitVec.ofNat 256 n) = Fin.ofNat _ n := by
  unfold Pnlx.toField
  rw [BitVec.toNat_ofNat, Nat.mod_eq_of_lt h]

/-- A hash is read as its 32 bytes, and as their field element. -/
theorem IsHex32.reads {value : Text} (h : IsHex32 value) :
    bytesN32Arg value = some (hexWord value) ∧
      toField (.hex value) = some (Pnlx.toField (hexWord value)) ∧
      BatchMatch.toFieldBiguint value = some (Pnlx.toField (hexWord value)) := by
  rcases h with rfl | ⟨htake, hlength, hdigits⟩
  · decide +kernel
  · obtain ⟨digits, rfl⟩ : ∃ digits, value = '0' :: 'x' :: digits :=
      ⟨value.drop 2, by rw [← List.take_append_drop 2 value, htake]; rfl⟩
    have hlength : digits.length = 64 := hlength
    have hne : digits ≠ [] := by
      rintro rfl
      exact absurd hlength (by decide)
    obtain ⟨n, hn⟩ := Option.isSome_iff_exists.mp (readDigits_isSome hdigits 0)
    have hlt : n < 2 ^ 256 := by
      have h := readDigits_lt hn
      rw [show (('0' :: 'x' :: digits).drop 2) = digits from rfl, hlength] at h
      exact h.trans_eq (by decide)
    have hbytes : bytes32 ('0' :: 'x' :: digits) = digits := by
      refine if_neg fun h => ?_
      have := congrArg List.length h
      rw [List.length_cons, List.length_cons, hlength] at this
      exact absurd this (by decide)
    have harg : bytesN32Arg ('0' :: 'x' :: digits) = some (BitVec.ofNat 256 n) := by
      unfold bytesN32Arg
      rw [hbytes, if_pos hlength, show readDigits 16 0 digits = some n from hn, Option.map_some]
    have hfield : BatchMatch.toFieldBiguint ('0' :: 'x' :: digits) =
        some (Pnlx.toField (BitVec.ofNat 256 n)) := by
      unfold BatchMatch.toFieldBiguint
      rw [BatchMatch.parseBigint_hex hne hdigits, show readDigits 16 0 digits = some n from hn,
        Option.map_some, Option.map_some, toField_ofNat hlt]
      exact congrArg some (BatchMatch.modFloor_natCast n)
    unfold hexWord
    rw [harg, toField_hex hne hdigits, hfield]
    exact ⟨rfl, rfl, rfl⟩

theorem isHex32_hexText (w : BytesN32) :
    IsHex32 (hexText w.toNat) ∧ hexWord (hexText w.toNat) = w := by
  have hlength : (BatchMatch.wordDigits w.toNat).length = 64 := by
    unfold BatchMatch.wordDigits
    have hle : (Nat.toDigits 16 w.toNat).length ≤ 64 :=
      (Nat.length_toDigits_le_iff (by decide) (by decide)).mpr (w.isLt.trans_eq (by decide))
    unfold List.leftpad
    rw [List.length_append, List.length_replicate, Nat.sub_add_cancel hle]
  have hbytes : bytes32 (hexText w.toNat) = BatchMatch.wordDigits w.toNat := by
    refine if_neg fun h => ?_
    have := congrArg List.length h
    unfold hexText at this
    rw [List.length_cons, List.length_cons, hlength] at this
    exact absurd this (by decide)
  refine ⟨Or.inr ⟨rfl, hlength, BatchMatch.digits_wordDigits _⟩, ?_⟩
  unfold hexWord bytesN32Arg
  rw [hbytes, if_pos hlength, BatchMatch.readDigits_wordDigits, Option.map_some, Option.getD_some,
    BitVec.ofNat_toNat, BitVec.setWidth_eq]

/-- A printed field element is a hash of 32 bytes. -/
theorem isHex32_fieldHex (x : Fr) : IsHex32 (BatchMatch.fieldHex x) := by
  have hlt : x.val < 2 ^ 256 := x.isLt.trans (by decide)
  have h := (isHex32_hexText (BitVec.ofNat 256 x.val)).1
  rwa [BitVec.toNat_ofNat, Nat.mod_eq_of_lt hlt] at h

end Pnlx.Server
