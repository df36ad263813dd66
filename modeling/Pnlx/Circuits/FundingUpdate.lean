import Pnlx.Circuits.Gadgets
import Pnlx.Lib.SignMagnitude

/-!
# The funding-update circuit

`main` is satisfied by a move of a market's funding index by the premium of some time. All of its
arguments are public. The indices and the premium rate are magnitudes with a flag, and the cap is
in force when its own flag is one.

`main_eq_some_iff` says what the circuit asserts: the move is not zero, and the new index is the old
one plus the move.
-/

namespace Pnlx.FundingUpdate

def rateScale : U128 := 1000000

def fundingDelta (markPrice premiumRateAbs elapsedMs intervalMs maxDelta maxDeltaEnabled : U128) :
    Option U128 := do
  assert (markPrice > 0)
  assert (intervalMs > 0)
  (if maxDeltaEnabled ≠ 0 then assert (maxDeltaEnabled = 1) else some ())
  let premium ← checkedMul markPrice premiumRateAbs
  let value ← checkedMul premium elapsedMs
  let scale ← checkedMul rateScale intervalMs
  let raw ← checkedDiv value scale
  if maxDeltaEnabled = 1 then
    if raw > maxDelta then
      some maxDelta
    else
      some raw
  else
    some raw

def assertNormalized (absValue : U128) (isNegative : Bool) : Option Unit :=
  if absValue = 0 then assert (¬ isNegative) else some ()

def assertSignedAdd (oldAbs : U128) (oldIsNegative : Bool) (deltaAbs : U128)
    (deltaIsNegative : Bool) (newAbs : U128) (newIsNegative : Bool) : Option Unit := do
  assertNormalized oldAbs oldIsNegative
  assertNormalized newAbs newIsNegative
  if oldIsNegative = deltaIsNegative then
    let sum ← checkedAdd oldAbs deltaAbs
    assert (newAbs = sum)
    if newAbs = 0 then
      assert (¬ newIsNegative)
    else
      assert (newIsNegative = oldIsNegative)
  else
    if oldAbs ≥ deltaAbs then
      let difference ← checkedSub oldAbs deltaAbs
      assert (newAbs = difference)
      if newAbs = 0 then
        assert (¬ newIsNegative)
      else
        assert (newIsNegative = oldIsNegative)
    else
      let difference ← checkedSub deltaAbs oldAbs
      assert (newAbs = difference)
      assert (newIsNegative = deltaIsNegative)

/-- The arguments of `main`. -/
structure Assignment where
  marketId : Fr
  oldIndexAbs : U128
  oldIndexIsNegative : Bool
  newIndexAbs : U128
  newIndexIsNegative : Bool
  markPrice : U128
  premiumRateAbs : U128
  premiumRateIsNegative : Bool
  elapsedMs : U128
  intervalMs : U128
  maxDelta : U128
  maxDeltaEnabled : U128
  deriving DecidableEq

def main (a : Assignment) : Option Unit := do
  assert (a.marketId ≠ 0)
  let delta ← fundingDelta a.markPrice a.premiumRateAbs a.elapsedMs a.intervalMs a.maxDelta
    a.maxDeltaEnabled
  assert (delta > 0)
  assertSignedAdd a.oldIndexAbs a.oldIndexIsNegative delta a.premiumRateIsNegative a.newIndexAbs
    a.newIndexIsNegative

namespace Assignment

/-- The public inputs, in the order of the parameters of `main`. -/
def publicInputs (a : Assignment) : List Fr :=
  let flag (isNegative : Bool) : Fr := if isNegative then 1 else 0
  [a.marketId, asField a.oldIndexAbs, flag a.oldIndexIsNegative, asField a.newIndexAbs,
    flag a.newIndexIsNegative, asField a.markPrice, asField a.premiumRateAbs,
    flag a.premiumRateIsNegative, asField a.elapsedMs, asField a.intervalMs, asField a.maxDelta,
    asField a.maxDeltaEnabled]

def oldIndex (a : Assignment) : SignMag := ⟨a.oldIndexAbs.toNat, a.oldIndexIsNegative⟩

def newIndex (a : Assignment) : SignMag := ⟨a.newIndexAbs.toNat, a.newIndexIsNegative⟩

def premiumRate (a : Assignment) : SignMag := ⟨a.premiumRateAbs.toNat, a.premiumRateIsNegative⟩

/-- The magnitude of the uncapped move. -/
def rawDelta (a : Assignment) : ℕ :=
  a.markPrice.toNat * a.premiumRateAbs.toNat * a.elapsedMs.toNat / (1000000 * a.intervalMs.toNat)

/-- The magnitude of the move. -/
def delta (a : Assignment) : ℕ :=
  if a.maxDeltaEnabled = 1 then
    if a.maxDelta.toNat < a.rawDelta then a.maxDelta.toNat else a.rawDelta
  else
    a.rawDelta

/-- The products of `main` fit. -/
structure ProductsFit (a : Assignment) : Prop where
  premium : a.markPrice.toNat * a.premiumRateAbs.toNat < 2 ^ 128
  value : a.markPrice.toNat * a.premiumRateAbs.toNat * a.elapsedMs.toNat < 2 ^ 128
  scale : 1000000 * a.intervalMs.toNat < 2 ^ 128

/-- The arguments of the move that `main` accepts. -/
structure Valid (a : Assignment) : Prop where
  markPrice : 0 < a.markPrice.toNat
  intervalMs : 0 < a.intervalMs.toNat
  flag : a.maxDeltaEnabled = 0 ∨ a.maxDeltaEnabled = 1
  products : a.ProductsFit

end Assignment

theorem toNat_rateScale : rateScale.toNat = 1000000 := rfl

theorem pos_iff {x : U128} : x > 0 ↔ 0 < x.toNat := BitVec.lt_def

theorem toNat_eq_zero {x : U128} : x = 0 ↔ x.toNat = 0 := by
  rw [← BitVec.toNat_inj]
  rfl

/-! ## The move -/

theorem fundingDelta_eq_some {a : Assignment} {d : U128} :
    fundingDelta a.markPrice a.premiumRateAbs a.elapsedMs a.intervalMs a.maxDelta
      a.maxDeltaEnabled = some d ↔ a.Valid ∧ d.toNat = a.delta := by
  have hflag (u : Unit) : (if a.maxDeltaEnabled ≠ 0 then assert (a.maxDeltaEnabled = 1)
      else some ()) = some u ↔ a.maxDeltaEnabled = 0 ∨ a.maxDeltaEnabled = 1 := by
    split_ifs with hne
    · rw [assert_eq_some]
      exact (or_iff_right hne).symm
    · exact ⟨fun _ => Or.inl (not_not.mp hne), fun _ => rfl⟩
  have hcap (raw : U128) (hraw : raw.toNat = a.rawDelta) :
      (if a.maxDeltaEnabled = 1 then if raw > a.maxDelta then some a.maxDelta else some raw
        else some raw) = some d ↔ d.toNat = a.delta := by
    unfold Assignment.delta
    rw [← hraw]
    simp only [gt_iff_lt, BitVec.lt_def]
    split_ifs
    all_goals rw [Option.some.injEq, ← BitVec.toNat_inj, eq_comm]
  unfold fundingDelta
  simp only [Option.bind_eq_bind, Option.bind_eq_some_iff, assert_eq_some, exists_const, pos_iff,
    hflag]
  constructor
  · rintro ⟨hmark, hinterval, hflag, premium, hpremium, value, hvalue, scale, hscale, raw, hraw,
      hdelta⟩
    rw [checkedMul_eq_some] at hpremium hvalue hscale
    rw [checkedDiv_eq_some] at hraw
    rw [hpremium] at hvalue
    rw [toNat_rateScale] at hscale
    have hraw' : raw.toNat = a.rawDelta := by rw [hraw.2, hvalue, hscale]; rfl
    refine ⟨⟨hmark, hinterval, hflag, ⟨?_, ?_, ?_⟩⟩, (hcap raw hraw').mp hdelta⟩
    · rw [← hpremium]; exact premium.isLt
    · rw [← hvalue]; exact value.isLt
    · rw [← hscale]; exact scale.isLt
  · rintro ⟨⟨hmark, hinterval, hflag, ⟨hpremiumFits, hvalueFits, hscaleFits⟩⟩, hdelta⟩
    obtain ⟨premium, hpremium⟩ := exists_toNat_eq hpremiumFits
    obtain ⟨value, hvalue⟩ := exists_toNat_eq hvalueFits
    obtain ⟨scale, hscale⟩ := exists_toNat_eq hscaleFits
    obtain ⟨raw, hraw⟩ : ∃ raw : U128, raw.toNat = a.rawDelta :=
      exists_toNat_eq ((Nat.div_le_self _ _).trans_lt hvalueFits)
    refine ⟨hmark, hinterval, hflag, premium, checkedMul_eq_some.mpr hpremium, value,
      checkedMul_eq_some.mpr ?_, scale, checkedMul_eq_some.mpr ?_, raw,
      checkedDiv_eq_some.mpr ⟨?_, ?_⟩, (hcap raw hraw).mpr hdelta⟩
    · rw [hvalue, hpremium]
    · rw [hscale, toNat_rateScale]
    · rw [hscale]; omega
    · rw [hraw, hvalue, hscale]; rfl

/-! ## The new index -/

theorem assertNormalized_eq_some {x : U128} {neg : Bool} {u : Unit} :
    assertNormalized x neg = some u ↔ (⟨x.toNat, neg⟩ : SignMag).Normal := by
  have hnot : ¬ neg = true ↔ neg = false := by rw [Bool.not_eq_true]
  unfold assertNormalized SignMag.Normal
  split_ifs with hzero
  · rw [assert_eq_some, hnot]
    exact ⟨fun h _ => h, fun h => h (toNat_eq_zero.mp hzero)⟩
  · exact ⟨fun _ h => absurd (toNat_eq_zero.mpr h) hzero, fun _ => rfl⟩

/-- The flag that the circuit asks of a new magnitude. -/
theorem flag_eq_some {x : U128} {neg old : Bool} :
    (if x = 0 then assert (¬ neg) else assert (neg = old)) = some () ↔
      neg = if x.toNat = 0 then false else old := by
  have hnot : ¬ neg = true ↔ neg = false := by rw [Bool.not_eq_true]
  by_cases hzero : x = 0
  · rw [if_pos hzero, if_pos (toNat_eq_zero.mp hzero), assert_eq_some, hnot]
  · rw [if_neg hzero, if_neg (mt toNat_eq_zero.mpr hzero), assert_eq_some]

/-- A branch of `assert_signed_add` that keeps the old flag. -/
theorem keepsFlag_eq_some {result : Option U128} {n : ℕ}
    (hresult : ∀ z, result = some z ↔ z.toNat = n) {newAbs : U128} {newNeg oldNeg : Bool} :
    (result.bind fun z => (assert (newAbs = z)).bind fun _ =>
      if newAbs = 0 then assert (¬ newNeg) else assert (newNeg = oldNeg)) = some () ↔
      (⟨newAbs.toNat, newNeg⟩ : SignMag) = .normalize n oldNeg := by
  simp only [Option.bind_eq_some_iff, assert_eq_some, exists_const, flag_eq_some, hresult]
  unfold SignMag.normalize
  rw [SignMag.mk.injEq]
  constructor
  · rintro ⟨z, hz, rfl, hflag⟩
    exact ⟨hz, hz ▸ hflag⟩
  · rintro ⟨habs, hflag⟩
    exact ⟨newAbs, habs, rfl, habs ▸ hflag⟩

/-- **Signed addition.** The new index is normal and is the sum. -/
theorem assertSignedAdd_eq_some {oldAbs deltaAbs newAbs : U128} {oldNeg deltaNeg newNeg : Bool} :
    assertSignedAdd oldAbs oldNeg deltaAbs deltaNeg newAbs newNeg = some () ↔
      (⟨oldAbs.toNat, oldNeg⟩ : SignMag).Normal ∧
        (⟨newAbs.toNat, newNeg⟩ : SignMag) =
          .add ⟨oldAbs.toNat, oldNeg⟩ ⟨deltaAbs.toNat, deltaNeg⟩ := by
  have hnormal : (⟨newAbs.toNat, newNeg⟩ : SignMag) =
      .add ⟨oldAbs.toNat, oldNeg⟩ ⟨deltaAbs.toNat, deltaNeg⟩ →
      (⟨newAbs.toNat, newNeg⟩ : SignMag).Normal := fun h => h ▸ SignMag.normal_add _ _
  unfold assertSignedAdd
  simp only [Option.bind_eq_bind, Option.bind_eq_some_iff, assertNormalized_eq_some, exists_const]
  refine and_congr_right fun _ => (and_congr_right fun _ => ?_).trans (and_iff_right_of_imp hnormal)
  unfold SignMag.add
  dsimp only
  by_cases hneg : oldNeg = deltaNeg
  · rw [if_pos hneg, if_pos hneg]
    exact keepsFlag_eq_some fun z => checkedAdd_eq_some
  · rw [if_neg hneg, if_neg hneg]
    by_cases hle : oldAbs ≥ deltaAbs
    · have hle' : deltaAbs.toNat ≤ oldAbs.toNat := BitVec.le_def.mp hle
      rw [if_pos hle, if_pos hle']
      exact keepsFlag_eq_some fun z => by rw [checkedSub_eq_some]; omega
    · have hlt : ¬ deltaAbs.toNat ≤ oldAbs.toNat := mt BitVec.le_def.mpr hle
      rw [if_neg hle, if_neg hlt, SignMag.mk.injEq]
      simp only [Option.bind_eq_some_iff, assert_eq_some, exists_const, checkedSub_eq_some]
      constructor
      · rintro ⟨z, hz, rfl, hflag⟩
        exact ⟨by omega, hflag⟩
      · rintro ⟨habs, hflag⟩
        exact ⟨newAbs, by omega, rfl, hflag⟩

/-! ## The circuit -/

/-- What `main` asserts: a valid move that is not zero, from the old index to the new one. -/
theorem main_eq_some_iff {a : Assignment} :
    main a = some () ↔ a.marketId ≠ 0 ∧ a.Valid ∧ 0 < a.delta ∧ a.oldIndex.Normal ∧
      a.newIndex.Normal ∧
      a.newIndex.toInt = a.oldIndex.toInt + SignMag.toInt ⟨a.delta, a.premiumRateIsNegative⟩ := by
  unfold main
  simp only [Option.bind_eq_bind, Option.bind_eq_some_iff, assert_eq_some, exists_const,
    fundingDelta_eq_some, assertSignedAdd_eq_some, pos_iff]
  refine and_congr_right fun _ => ?_
  constructor
  · rintro ⟨d, ⟨hvalid, hdelta⟩, hpos, hold, hnew⟩
    rw [hdelta] at hpos hnew
    refine ⟨hvalid, hpos, hold, ?_, ?_⟩
    · show SignMag.Normal ⟨_, _⟩
      rw [hnew]
      exact SignMag.normal_add _ _
    · exact (congrArg SignMag.toInt hnew).trans (SignMag.toInt_add _ _)
  · rintro ⟨hvalid, hpos, hold, hnew, hsum⟩
    have hle : a.delta ≤ a.rawDelta ∨ a.delta = a.maxDelta.toNat := by
      unfold Assignment.delta
      split_ifs <;> omega
    have hraw : a.rawDelta < 2 ^ 128 :=
      (Nat.div_le_self _ _).trans_lt hvalid.products.value
    obtain ⟨d, hdelta⟩ : ∃ d : U128, d.toNat = a.delta := exists_toNat_eq (by
      have := a.maxDelta.isLt
      omega)
    refine ⟨d, ⟨hvalid, hdelta⟩, hdelta ▸ hpos, hold, ?_⟩
    rw [hdelta]
    refine (SignMag.toInt_inj hnew (SignMag.normal_add _ _)).mp ?_
    rw [hsum, SignMag.toInt_add]
    rfl

end Pnlx.FundingUpdate
