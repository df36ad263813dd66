import Mathlib.Data.Fin.Basic
import Mathlib.Data.BitVec
import Pnlx.Lib.BigEndian

/-!
# Words, field elements and their encodings

The fixed-width types of the contracts and circuits: `u128` and `i128` are 128-bit words, a
`BytesN<32>` is the 256-bit word its bytes denote in big-endian order, and `Fr` is the scalar
field of BN254. A 32-byte value enters a public input only after reduction modulo the field
(`fieldBytes`), so two values that agree in the field have one encoding (`fieldBytes_eq`).
-/

namespace Pnlx

/-- The BN254 scalar modulus. -/
def bn254ScalarModulus : ℕ :=
  0x30644e72e131a029b85045b68181585d2833e84879b9709143e1f593f0000001

instance : NeZero bn254ScalarModulus := ⟨by decide⟩

/-- The scalar field of BN254. The circuits only compare, hash and cast its elements. -/
abbrev Fr := Fin bn254ScalarModulus

abbrev U64 := BitVec 64

abbrev U128 := BitVec 128

/-- A signed word. Its value is `toInt`, and `as u128` is the identity. -/
abbrev I128 := BitVec 128

abbrev BytesN32 := BitVec 256

abbrev Bytes := List UInt8

/-! ## Casts -/

theorem u128_lt_modulus (v : U128) : v.toNat < bn254ScalarModulus :=
  v.isLt.trans (by decide)

/-- `value as Field`. -/
def asField (v : U128) : Fr := ⟨v.toNat, u128_lt_modulus v⟩

theorem asField_injective : Function.Injective asField := by
  intro v w h
  exact BitVec.eq_of_toNat_eq (Fin.mk.inj h)

/-- The field element a 32-byte value stands for in a proof. -/
def toField (v : BytesN32) : Fr := Fin.ofNat _ v.toNat

/-- The 32-byte encoding of a field element. -/
def ofField (x : Fr) : BytesN32 := BitVec.ofNat 256 x.val

theorem modulus_lt : bn254ScalarModulus < 2 ^ 256 := by decide

@[simp] theorem toNat_ofField (x : Fr) : (ofField x).toNat = x.val := by
  rw [ofField, BitVec.toNat_ofNat, Nat.mod_eq_of_lt (x.isLt.trans modulus_lt)]

@[simp] theorem toField_ofField (x : Fr) : toField (ofField x) = x := by
  apply Fin.ext
  rw [toField, Fin.val_ofNat, toNat_ofField, Nat.mod_eq_of_lt x.isLt]

/-- A 32-byte value is the encoding of a field element. -/
def Canonical (v : BytesN32) : Prop := v.toNat < bn254ScalarModulus

instance : DecidablePred Canonical := fun v => by unfold Canonical; infer_instance

theorem canonical_ofField (x : Fr) : Canonical (ofField x) := by
  unfold Canonical; rw [toNat_ofField]; exact x.isLt

theorem Canonical.ofField_toField {v : BytesN32} (hv : Canonical v) : ofField (toField v) = v := by
  apply BitVec.eq_of_toNat_eq
  rw [toNat_ofField, toField, Fin.val_ofNat, Nat.mod_eq_of_lt hv]

/-- The 32-byte values of a field element: fewer than six multiples of the modulus above it. -/
theorem exists_alias {v : BytesN32} {x : Fr} (h : toField v = x) :
    ∃ i < 6, v = BitVec.ofNat 256 (x.val + bn254ScalarModulus * i) := by
  have hval : v.toNat % bn254ScalarModulus = x.val := congrArg Fin.val h
  have hlt : v.toNat / bn254ScalarModulus < 6 :=
    Nat.div_lt_of_lt_mul (v.isLt.trans (by decide))
  refine ⟨v.toNat / bn254ScalarModulus, hlt, BitVec.eq_of_toNat_eq ?_⟩
  rw [BitVec.toNat_ofNat, ← hval, Nat.mod_add_div, Nat.mod_eq_of_lt v.isLt]

/-! ## Signed arithmetic

The release profile checks every operation for overflow. -/

namespace I128

def ofInt? (z : ℤ) : Option I128 :=
  if -2 ^ 127 ≤ z ∧ z < 2 ^ 127 then some (BitVec.ofInt 128 z) else none

theorem ofInt?_eq_some {z : ℤ} {x : I128} : ofInt? z = some x ↔ x.toInt = z := by
  have hlow := BitVec.le_toInt x
  have hhigh := BitVec.toInt_lt (x := x)
  unfold ofInt?
  constructor
  · intro h
    split_ifs at h with hz
    rw [← Option.some.inj h, BitVec.toInt_ofInt, Int.bmod_def]
    omega
  · rintro rfl
    rw [if_pos ⟨hlow, hhigh⟩, BitVec.ofInt_toInt]

def checkedAdd (x y : I128) : Option I128 := ofInt? (x.toInt + y.toInt)

def checkedSub (x y : I128) : Option I128 := ofInt? (x.toInt - y.toInt)

def checkedMul (x y : I128) : Option I128 := ofInt? (x.toInt * y.toInt)

/-- Division rounds towards zero. -/
def checkedDiv (x y : I128) : Option I128 := if y = 0 then none else ofInt? (x.toInt.tdiv y.toInt)

end I128

/-! ## Public inputs -/

/-- The big-endian bytes of a field element. -/
def fieldBe (x : Fr) : Bytes := BigEndian.bytes 32 x.val

/-- `U256::from_u128(value).to_be_bytes()`. -/
def u128Be (v : U128) : Bytes := BigEndian.bytes 32 v.toNat

/-- `append_i128_fields`: the magnitude and the sign of a signed word. -/
def i128Fields (value : I128) : Option Bytes :=
  if value.toInt < 0 then do
    let magnitude ← I128.checkedSub 0 value
    pure (u128Be magnitude ++ u128Be 1)
  else
    pure (u128Be value ++ u128Be 0)

/-- `U256::from_be_bytes(value).rem_euclid(&modulus).to_be_bytes()`. -/
def fieldBytes (v : BytesN32) : Bytes := BigEndian.bytes 32 (v.toNat % bn254ScalarModulus)

theorem fieldBytes_eq (v : BytesN32) : fieldBytes v = fieldBe (toField v) := rfl

theorem u128Be_eq (v : U128) : u128Be v = fieldBe (asField v) := rfl

/-- The byte string of a list of public inputs. -/
def encodePublicInputs (xs : List Fr) : Bytes := xs.flatMap fieldBe

theorem fr_lt_pow (x : Fr) : x.val < 256 ^ 32 := x.isLt.trans (by decide)

theorem encodePublicInputs_injective : Function.Injective encodePublicInputs := by
  intro xs ys h
  have hmap (zs : List Fr) : encodePublicInputs zs = (zs.map Fin.val).flatMap (BigEndian.bytes 32) := by
    unfold encodePublicInputs fieldBe; rw [List.flatMap_map]
  rw [hmap, hmap] at h
  refine List.map_injective_iff.mpr Fin.val_injective (BigEndian.flatMap_bytes_inj (by decide) ?_ ?_ h)
  all_goals
    intro n hn
    obtain ⟨x, _, rfl⟩ := List.mem_map.mp hn
    exact fr_lt_pow x

end Pnlx
