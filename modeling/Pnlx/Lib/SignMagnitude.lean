import Mathlib.Algebra.Order.Group.Unbundled.Int
import Mathlib.Tactic.SplitIfs

/-!
# Signed numbers as a magnitude and a flag

Arithmetic that has only natural numbers keeps an integer as a magnitude and a sign flag. Zero then
has two forms, of which `Normal` excludes the negative one.

1. `toInt_inj`: normal numbers are equal when their values are.
2. `toInt_add`: addition by comparing flags and magnitudes.
3. `toInt_scale`: multiplication and rounded-down division of the magnitude truncate the value.
4. `toInt_cap`: a bound on the magnitude clamps the value.
-/

namespace Pnlx

@[ext] structure SignMag where
  abs : ℕ
  neg : Bool
  deriving DecidableEq

namespace SignMag

def toInt (x : SignMag) : ℤ := if x.neg then -x.abs else x.abs

/-- Zero is not negative. -/
def Normal (x : SignMag) : Prop := x.abs = 0 → x.neg = false

instance : DecidablePred Normal := fun x => by unfold Normal; infer_instance

def ofInt (z : ℤ) : SignMag := ⟨z.natAbs, decide (z < 0)⟩

theorem toInt_of_neg {x : SignMag} (h : x.neg = true) : x.toInt = -x.abs := if_pos h

theorem toInt_of_nonneg {x : SignMag} (h : x.neg = false) : x.toInt = x.abs :=
  if_neg (by rw [h]; exact Bool.false_ne_true)

@[simp] theorem toInt_ofInt (z : ℤ) : (ofInt z).toInt = z := by
  unfold ofInt toInt
  simp only [decide_eq_true_eq]
  split_ifs with hz <;> omega

theorem normal_ofInt (z : ℤ) : (ofInt z).Normal := by
  intro h
  have hz : z.natAbs = 0 := h
  exact decide_eq_false (by omega)

@[simp] theorem natAbs_toInt (x : SignMag) : x.toInt.natAbs = x.abs := by
  cases h : x.neg with
  | true => rw [toInt_of_neg h]; omega
  | false => rw [toInt_of_nonneg h]; omega

theorem toInt_inj {x y : SignMag} (hx : x.Normal) (hy : y.Normal) : x.toInt = y.toInt ↔ x = y := by
  constructor
  · intro h
    have habs : x.abs = y.abs := by rw [← natAbs_toInt x, h, natAbs_toInt]
    apply SignMag.ext habs
    cases hxneg : x.neg with
    | false =>
      cases hyneg : y.neg with
      | false => rfl
      | true =>
        rw [toInt_of_nonneg hxneg, toInt_of_neg hyneg] at h
        exact absurd (hy (by omega)) (by rw [hyneg]; decide)
    | true =>
      cases hyneg : y.neg with
      | true => rfl
      | false =>
        rw [toInt_of_neg hxneg, toInt_of_nonneg hyneg] at h
        exact absurd (hx (by omega)) (by rw [hxneg]; decide)
  · rintro rfl
    rfl

/-! ## Addition -/

/-- The number with this magnitude and, unless it is zero, this flag. -/
def normalize (abs : ℕ) (neg : Bool) : SignMag := ⟨abs, if abs = 0 then false else neg⟩

theorem normal_normalize (abs : ℕ) (neg : Bool) : (normalize abs neg).Normal := fun h => if_pos h

theorem toInt_normalize (abs : ℕ) (neg : Bool) :
    (normalize abs neg).toInt = toInt ⟨abs, neg⟩ := by
  unfold normalize toInt
  cases neg <;> split_ifs <;> simp_all

/-- Equal flags add the magnitudes, different flags subtract the smaller one. -/
def add (x y : SignMag) : SignMag :=
  if x.neg = y.neg then normalize (x.abs + y.abs) x.neg
  else if y.abs ≤ x.abs then normalize (x.abs - y.abs) x.neg
  else ⟨y.abs - x.abs, y.neg⟩

theorem normal_add (x y : SignMag) : (add x y).Normal := by
  unfold add
  split_ifs with hneg hle
  · exact normal_normalize _ _
  · exact normal_normalize _ _
  · intro h
    have hsub : y.abs - x.abs = 0 := h
    omega

theorem toInt_add (x y : SignMag) : (add x y).toInt = x.toInt + y.toInt := by
  obtain ⟨xabs, xneg⟩ := x
  obtain ⟨yabs, yneg⟩ := y
  unfold add
  split_ifs with hneg hle
  · obtain rfl : xneg = yneg := hneg
    rw [toInt_normalize]
    unfold toInt
    dsimp only
    split_ifs <;> omega
  · have hle' : yabs ≤ xabs := hle
    rw [toInt_normalize]
    unfold toInt
    cases xneg <;> cases yneg <;> dsimp only at hneg ⊢ <;>
      simp only [reduceCtorEq, not_true] at hneg
    all_goals
      simp only [if_true, Bool.false_eq_true, if_false]
      omega
  · have hlt : xabs < yabs := not_le.mp hle
    unfold toInt
    cases xneg <;> cases yneg <;> dsimp only at hneg ⊢ <;>
      simp only [reduceCtorEq, not_true] at hneg
    all_goals
      simp only [if_true, Bool.false_eq_true, if_false]
      omega

/-! ## Scaling and bounds -/

/-- A magnitude rounded down is the truncated quotient. -/
theorem toInt_scale (m n : ℕ) (x : SignMag) :
    toInt ⟨m * x.abs / n, x.neg⟩ = (m * x.toInt).tdiv n := by
  have hpos : ((m : ℤ) * x.abs).tdiv n = (m * x.abs / n : ℕ) := by
    rw [← Int.natCast_mul]
    exact (Int.ofNat_tdiv (m * x.abs) n).symm
  cases h : x.neg with
  | true => rw [toInt_of_neg rfl, toInt_of_neg h, Int.mul_neg, Int.neg_tdiv, hpos]
  | false => rw [toInt_of_nonneg rfl, toInt_of_nonneg h, hpos]

/-- A bounded magnitude is a value bounded in both directions. -/
theorem toInt_cap (c : ℕ) (x : SignMag) : toInt ⟨if c < x.abs then c else x.abs, x.neg⟩ =
    if (c : ℤ) < x.toInt then (c : ℤ) else if x.toInt < -(c : ℤ) then -(c : ℤ) else x.toInt := by
  cases h : x.neg with
  | true =>
    rw [toInt_of_neg rfl, toInt_of_neg h]
    dsimp only
    split_ifs <;> omega
  | false =>
    rw [toInt_of_nonneg rfl, toInt_of_nonneg h]
    dsimp only
    split_ifs <;> omega

end SignMag

end Pnlx
