import Pnlx.Lib.Loop
import Pnlx.Words

/-!
# The arithmetic of the batch matcher

The workspace of the guest program sets no overflow checks, so in the release build the plain
operators on `u128` and `i128` wrap, and `as` always does. `Checks` says which inexact operations
abort: none in the release build (`Checks.release`). Under `Checks.exact` a run that does not abort
has computed with integers.

`mul_agrees` and its siblings: what the checked operations return, the release build returns.
-/

namespace Pnlx.BatchMatch

/-! ## Checks -/

/-- Which operations abort instead of returning an inexact result: products and sums of `u128`, and
operations and casts of `i128`. -/
structure Checks where
  products : Bool
  sums : Bool
  signed : Bool
  deriving DecidableEq

namespace Checks

/-- The release build of the guest. -/
def release : Checks := ⟨false, false, false⟩

/-- Every inexact operation aborts. -/
def exact : Checks := ⟨true, true, true⟩

end Checks

/-- `value`, which is the exact result of an operation when `fits` holds. -/
def guarded {α : Type} (check : Bool) (fits : Prop) [Decidable fits] (value : α) : Option α :=
  if check ∧ ¬ fits then none else some value

section Guarded

variable {α : Type} {check : Bool} {fits : Prop} [Decidable fits] {value w : α}

theorem guarded_eq_some : guarded check fits value = some w ↔ (check → fits) ∧ value = w := by
  unfold guarded
  split_ifs with h
  · exact ⟨fun h' => (nomatch h'), fun h' => absurd (h'.1 h.1) h.2⟩
  · rw [Option.some.injEq]
    exact ⟨fun h' => ⟨fun hc => by_contra fun hf => h ⟨hc, hf⟩, h'⟩, fun h' => h'.2⟩

@[simp] theorem guarded_false : guarded false fits value = some value :=
  if_neg fun h => Bool.false_ne_true h.1

theorem guarded_agrees : Agrees (guarded check fits value) (guarded false fits value) := by
  intro w h
  rw [guarded_false, (guarded_eq_some.mp h).2]

end Guarded

/-! ## Operations on `u128` -/

def mul (k : Checks) (x y : U128) : Option U128 :=
  guarded k.products (x.toNat * y.toNat < 2 ^ 128) (x * y)

def add (k : Checks) (x y : U128) : Option U128 :=
  guarded k.sums (x.toNat + y.toNat < 2 ^ 128) (x + y)

def sub (k : Checks) (x y : U128) : Option U128 := guarded k.sums (y.toNat ≤ x.toNat) (x - y)

/-- Add values to `total`, from left to right. -/
def sumFrom (k : Checks) (total : U128) : List U128 → Option U128
  | [] => some total
  | x :: xs => do
    let total ← add k total x
    sumFrom k total xs

/-- `sum::<u128>`. -/
def sum (k : Checks) (values : List U128) : Option U128 := sumFrom k 0 values

/-! ## Operations on `i128` -/

/-- An integer is an `i128`. -/
def FitsI128 (z : ℤ) : Prop := -2 ^ 127 ≤ z ∧ z < 2 ^ 127

instance : DecidablePred FitsI128 := fun z => by unfold FitsI128; infer_instance

def addSigned (k : Checks) (x y : I128) : Option I128 :=
  guarded k.signed (FitsI128 (x.toInt + y.toInt)) (x + y)

def subSigned (k : Checks) (x y : I128) : Option I128 :=
  guarded k.signed (FitsI128 (x.toInt - y.toInt)) (x - y)

def negSigned (k : Checks) (x : I128) : Option I128 :=
  guarded k.signed (FitsI128 (-x.toInt)) (-x)

/-- `value as i128`. -/
def asI128 (k : Checks) (x : U128) : Option I128 := guarded k.signed (x.toNat < 2 ^ 127) x

/-- `value as u128`. -/
def asU128 (k : Checks) (x : I128) : Option U128 := guarded k.signed (0 ≤ x.toInt) x

/-! ## The release build returns what a checked build returns -/

section Release

variable {k : Checks} {x y : U128}

theorem mul_agrees : Agrees (mul k x y) (mul .release x y) := guarded_agrees

theorem add_agrees : Agrees (add k x y) (add .release x y) := guarded_agrees

theorem sub_agrees : Agrees (sub k x y) (sub .release x y) := guarded_agrees

theorem sumFrom_agrees (total : U128) (xs : List U128) :
    Agrees (sumFrom k total xs) (sumFrom .release total xs) := by
  induction xs generalizing total with
  | nil => exact Agrees.refl _
  | cons x xs ih => exact add_agrees.bind fun total => ih total

theorem sum_agrees (xs : List U128) : Agrees (sum k xs) (sum .release xs) := sumFrom_agrees 0 xs

theorem addSigned_agrees : Agrees (addSigned k x y) (addSigned .release x y) := guarded_agrees

theorem subSigned_agrees : Agrees (subSigned k x y) (subSigned .release x y) := guarded_agrees

theorem negSigned_agrees : Agrees (negSigned k x) (negSigned .release x) := guarded_agrees

theorem asI128_agrees : Agrees (asI128 k x) (asI128 .release x) := guarded_agrees

theorem asU128_agrees : Agrees (asU128 k x) (asU128 .release x) := guarded_agrees

end Release

/-! ## Values -/

section Values

variable {k : Checks} {x y z : U128}

theorem mul_of_lt (h : x.toNat * y.toNat < 2 ^ 128) : mul k x y = some (x * y) :=
  guarded_eq_some.mpr ⟨fun _ => h, rfl⟩

theorem toNat_mul_of_lt (h : x.toNat * y.toNat < 2 ^ 128) :
    (x * y).toNat = x.toNat * y.toNat := by
  rw [BitVec.toNat_mul, Nat.mod_eq_of_lt h]

theorem toNat_add_of_lt (h : x.toNat + y.toNat < 2 ^ 128) :
    (x + y).toNat = x.toNat + y.toNat := by
  rw [BitVec.toNat_add, Nat.mod_eq_of_lt h]

theorem toNat_sub_of_le (h : y.toNat ≤ x.toNat) : (x - y).toNat = x.toNat - y.toNat :=
  BitVec.toNat_sub_of_le (BitVec.le_def.mpr h)

/-- A product that is checked is the product of the integers. -/
theorem toNat_mul_eq (hk : k.products = true) (h : mul k x y = some z) :
    x.toNat * y.toNat < 2 ^ 128 ∧ z.toNat = x.toNat * y.toNat := by
  obtain ⟨hlt, rfl⟩ := guarded_eq_some.mp h
  exact ⟨hlt hk, toNat_mul_of_lt (hlt hk)⟩

/-- A sum that is checked is the sum of the integers. -/
theorem toNat_add_eq (hk : k.sums = true) (h : add k x y = some z) :
    x.toNat + y.toNat < 2 ^ 128 ∧ z.toNat = x.toNat + y.toNat := by
  obtain ⟨hlt, rfl⟩ := guarded_eq_some.mp h
  exact ⟨hlt hk, toNat_add_of_lt (hlt hk)⟩

/-- A difference that is checked is the difference of the integers. -/
theorem toNat_sub_eq (hk : k.sums = true) (h : sub k x y = some z) :
    z.toNat + y.toNat = x.toNat := by
  obtain ⟨hle, rfl⟩ := guarded_eq_some.mp h
  rw [toNat_sub_of_le (hle hk), Nat.sub_add_cancel (hle hk)]

/-- Values that sum up to a `u128`. -/
theorem sumFrom_eq_some {total : U128} {xs : List U128}
    (h : total.toNat + (xs.map BitVec.toNat).sum < 2 ^ 128) :
    ∃ s, sumFrom k total xs = some s ∧ s.toNat = total.toNat + (xs.map BitVec.toNat).sum := by
  induction xs generalizing total with
  | nil => exact ⟨total, rfl, by simp⟩
  | cons x xs ih =>
    rw [List.map_cons, List.sum_cons] at h
    have hadd : (total + x).toNat = total.toNat + x.toNat := toNat_add_of_lt (by omega)
    obtain ⟨s, hs, hval⟩ := @ih (total + x) (by omega)
    refine ⟨s, ?_, ?_⟩
    · rw [sumFrom, show add k total x = some (total + x) from
        guarded_eq_some.mpr ⟨fun _ => by omega, rfl⟩]
      exact hs
    · rw [List.map_cons, List.sum_cons]
      omega

/-- A total that is checked is the total of the integers. -/
theorem toNat_sumFrom_eq (hk : k.sums = true) {total s : U128} {xs : List U128}
    (h : sumFrom k total xs = some s) :
    s.toNat = total.toNat + (xs.map BitVec.toNat).sum := by
  induction xs generalizing total with
  | nil =>
    obtain rfl := Option.some.inj h
    rfl
  | cons x xs ih =>
    obtain ⟨t, ht, hs⟩ := Option.bind_eq_some_iff.mp h
    have hadd := (toNat_add_eq hk ht).2
    have hrest := ih hs
    rw [List.map_cons, List.sum_cons]
    omega

theorem toNat_sum_eq (hk : k.sums = true) {s : U128} {xs : List U128} (h : sum k xs = some s) :
    s.toNat = (xs.map BitVec.toNat).sum := by
  rw [toNat_sumFrom_eq hk h]
  exact Nat.zero_add _

theorem toInt_of_lt (h : x.toNat < 2 ^ 127) : x.toInt = x.toNat := by
  rw [BitVec.toInt_eq_toNat_cond, if_pos (by omega)]

end Values

end Pnlx.BatchMatch
