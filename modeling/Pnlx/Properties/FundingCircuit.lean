import Pnlx.Circuits.FundingUpdate
import Pnlx.Contracts.FundingSettlement
import Pnlx.MarketMath

/-!
# The funding circuit and market-math

The settlement contract encodes its arguments as the public inputs of the funding-update circuit,
each signed word as a magnitude and a flag. `satisfied_iff` says that the circuit, on that encoding,
computes the move of `fundingIndexDelta`.
-/

namespace Pnlx

open FundingUpdate

/-! ## The encoding -/

/-- The public inputs of the circuit for the arguments of a settlement. -/
def FundingArgs.Encodes (args : FundingArgs) (a : Assignment) : Prop :=
  FundingSettlement.publicInputBytes args = some (encodePublicInputs a.publicInputs)

/-- The magnitude and the flag of a signed number, as field elements. -/
def signFields (x : SignMag) : List Fr := [Fin.ofNat _ x.abs, if x.neg then 1 else 0]

/-- `append_i128_fields` appends the magnitude and the flag. -/
theorem i128Fields_eq_some {value : I128} {bytes : Bytes} (h : i128Fields value = some bytes) :
    bytes = encodePublicInputs (signFields (.ofInt value.toInt)) := by
  have hfield (v : U128) : asField v = Fin.ofNat _ v.toNat := by
    apply Fin.ext
    exact (Nat.mod_eq_of_lt (u128_lt_modulus v)).symm
  unfold i128Fields at h
  unfold signFields SignMag.ofInt encodePublicInputs
  split_ifs at h with hneg
  · obtain ⟨magnitude, hmagnitude, hbytes⟩ := Option.bind_eq_some_iff.mp h
    have habs : magnitude.toInt = -value.toInt := by
      rw [I128.ofInt?_eq_some.mp hmagnitude]
      exact zero_sub _
    have hnat : magnitude.toNat = value.toInt.natAbs := by
      have hcast := BitVec.toInt_eq_toNat_cond magnitude
      have := magnitude.isLt
      split_ifs at hcast <;> omega
    rw [← Option.some.inj hbytes, u128Be_eq, u128Be_eq, hfield magnitude, hnat]
    simp [hneg]
    rfl
  · have hnat : value.toNat = value.toInt.natAbs := by
      have hcast := BitVec.toInt_eq_toNat_cond value
      have := value.isLt
      split_ifs at hcast <;> omega
    rw [← Option.some.inj h, u128Be_eq, u128Be_eq, hfield value, hnat]
    simp [hneg]
    rfl

/-- The arguments of the circuit are the arguments of the settlement. -/
structure FundingArgs.Agrees (args : FundingArgs) (a : Assignment) : Prop where
  marketId : a.marketId = toField args.marketId
  oldIndex : a.oldIndex = .ofInt args.oldIndex.toInt
  newIndex : a.newIndex = .ofInt args.newIndex.toInt
  markPrice : a.markPrice.toNat = args.markPrice.toNat
  premiumRate : a.premiumRate = .ofInt args.premiumRate.toInt
  elapsedMs : a.elapsedMs.toNat = args.elapsedMs.toNat
  intervalMs : a.intervalMs.toNat = args.intervalMs.toNat
  maxDelta : a.maxDelta.toNat = args.maxDelta.toNat
  maxDeltaEnabled : a.maxDeltaEnabled = if args.maxDeltaEnabled then 1 else 0

theorem signFields_inj {v : U128} {neg : Bool} {z : ℤ} (hz : z.natAbs < 2 ^ 128)
    (habs : asField v = Fin.ofNat _ z.natAbs)
    (hneg : (if neg then 1 else 0 : Fr) = if decide (z < 0) then 1 else 0) :
    (⟨v.toNat, neg⟩ : SignMag) = .ofInt z := by
  have hflag (b : Bool) : ((if b then 1 else 0 : Fr) = 1) ↔ b = true := by
    cases b <;> decide
  apply SignMag.ext
  · have hval := congrArg Fin.val habs
    rw [Fin.val_ofNat, Nat.mod_eq_of_lt (hz.trans (by decide))] at hval
    exact hval
  · rw [Bool.eq_iff_iff, ← hflag, hneg, hflag]
    rfl

/-- The encoding determines the arguments. -/
theorem FundingArgs.Encodes.agrees {args : FundingArgs} {a : Assignment} (h : args.Encodes a) :
    args.Agrees a := by
  unfold FundingArgs.Encodes FundingSettlement.publicInputBytes at h
  simp only [Option.bind_eq_bind, Option.bind_eq_some_iff, Option.pure_def, Option.some.injEq] at h
  obtain ⟨old, hold, new, hnew, rate, hrate, hbytes⟩ := h
  rw [i128Fields_eq_some hold, i128Fields_eq_some hnew, i128Fields_eq_some hrate] at hbytes
  have hlist : encodePublicInputs ([toField args.marketId] ++
      signFields (.ofInt args.oldIndex.toInt) ++ signFields (.ofInt args.newIndex.toInt) ++
      [asField args.markPrice] ++ signFields (.ofInt args.premiumRate.toInt) ++
      [asField (args.elapsedMs.setWidth 128)] ++ [asField (args.intervalMs.setWidth 128)] ++
      [asField args.maxDelta] ++ [asField (if args.maxDeltaEnabled then 1 else 0)]) =
      encodePublicInputs a.publicInputs := by
    rw [← hbytes]
    simp only [encodePublicInputs, fieldBytes_eq, u128Be_eq, List.flatMap_append, List.flatMap_cons,
      List.flatMap_nil, List.append_nil]
  have hfields := encodePublicInputs_injective hlist
  simp only [signFields, Assignment.publicInputs, List.cons_append, List.nil_append,
    List.cons.injEq, and_true] at hfields
  obtain ⟨hmarket, holdAbs, holdNeg, hnewAbs, hnewNeg, hmark, hrateAbs, hrateNeg, helapsed,
    hinterval, hmax, henabled⟩ := hfields
  have hword (x : I128) : x.toInt.natAbs < 2 ^ 128 := by
    have := BitVec.le_toInt x
    have := BitVec.toInt_lt (x := x)
    omega
  have htime (x : U64) : (x.setWidth 128).toNat = x.toNat := by
    have := x.isLt
    rw [BitVec.toNat_setWidth]
    omega
  exact ⟨hmarket.symm, signFields_inj (hword _) holdAbs.symm holdNeg.symm,
    signFields_inj (hword _) hnewAbs.symm hnewNeg.symm, by rw [asField_injective hmark],
    signFields_inj (hword _) hrateAbs.symm hrateNeg.symm,
    by rw [← asField_injective helapsed, htime], by rw [← asField_injective hinterval, htime],
    by rw [asField_injective hmax], (asField_injective henabled).symm⟩

/-! ## The move -/

/-- The input of `fundingIndexDelta` for the arguments of a settlement, with `as u128` for the price
and the cap. -/
def FundingArgs.deltaInput (args : FundingArgs) : MarketMath.FundingIndexDeltaInput where
  elapsedMs := args.elapsedMs.toNat
  intervalMs := args.intervalMs.toNat
  markPrice := args.markPrice.toNat
  maxFundingDelta := if args.maxDeltaEnabled then some (args.maxDelta.toNat : ℤ) else none
  premiumRate := args.premiumRate.toInt

/-- The product under the division of the circuit fits. The product below it and the sum of the
indices fit for every settlement. -/
def FundingArgs.ProductsFit (args : FundingArgs) : Prop :=
  args.markPrice.toNat * args.premiumRate.toInt.natAbs * args.elapsedMs.toNat < 2 ^ 128

theorem fundingIndexDelta_pos {input : MarketMath.FundingIndexDeltaInput} {δ : ℤ}
    (h : MarketMath.fundingIndexDelta input = .ok δ) :
    0 < input.markPrice ∧ 0 < input.intervalMs := by
  unfold MarketMath.fundingIndexDelta at h
  split_ifs at h with hmark helapsed hinterval
  all_goals exact ⟨not_le.mp hmark, not_le.mp hinterval⟩

section Agrees

variable {args : FundingArgs} {a : Assignment}

theorem FundingArgs.Agrees.rateAbs (h : args.Agrees a) :
    a.premiumRateAbs.toNat = args.premiumRate.toInt.natAbs :=
  congrArg SignMag.abs h.premiumRate

/-- The circuit computes the move of `fundingIndexDelta`. -/
theorem FundingArgs.Agrees.fundingIndexDelta_eq (h : args.Agrees a) (hmark : 0 < a.markPrice.toNat)
    (hinterval : 0 < a.intervalMs.toNat) : MarketMath.fundingIndexDelta args.deltaInput =
      .ok (SignMag.toInt ⟨a.delta, a.premiumRateIsNegative⟩) := by
  have hraw : SignMag.toInt ⟨a.rawDelta, a.premiumRateIsNegative⟩ =
      (args.deltaInput.markPrice * args.deltaInput.premiumRate * args.deltaInput.elapsedMs).tdiv
        (MarketMath.rateScale * args.deltaInput.intervalMs) := by
    have hscale := SignMag.toInt_scale (a.markPrice.toNat * a.elapsedMs.toNat)
      (1000000 * a.intervalMs.toNat) a.premiumRate
    have hrate : a.premiumRate.toInt = args.premiumRate.toInt := by
      rw [h.premiumRate, SignMag.toInt_ofInt]
    rw [hrate, h.markPrice, h.elapsedMs, h.intervalMs] at hscale
    unfold Assignment.rawDelta
    rw [mul_right_comm, h.markPrice, h.elapsedMs, h.intervalMs]
    refine hscale.trans ?_
    unfold FundingArgs.deltaInput MarketMath.rateScale
    push_cast
    rw [mul_right_comm]
  rw [h.markPrice] at hmark
  rw [h.intervalMs] at hinterval
  unfold MarketMath.fundingIndexDelta
  rw [if_neg (by unfold FundingArgs.deltaInput; dsimp only; omega),
    if_neg (by unfold FundingArgs.deltaInput; dsimp only; omega),
    if_neg (by unfold FundingArgs.deltaInput; dsimp only; omega), ← hraw]
  have hflag : a.maxDeltaEnabled = 1 ↔ args.maxDeltaEnabled = true := by
    rw [h.maxDeltaEnabled]
    cases args.maxDeltaEnabled <;> decide
  unfold Assignment.delta FundingArgs.deltaInput
  dsimp only
  by_cases henabled : args.maxDeltaEnabled = true
  · have hcap := SignMag.toInt_cap args.maxDelta.toNat ⟨a.rawDelta, a.premiumRateIsNegative⟩
    dsimp only at hcap
    rw [if_pos henabled, if_pos (hflag.mpr henabled), h.maxDelta, hcap, if_neg (by simp)]
    dsimp only
    split_ifs <;> rfl
  · rw [if_neg henabled, if_neg (mt hflag.mp henabled), if_neg (by simp)]

end Agrees

/-- The premium fits with the value, as no time gives no move. -/
theorem FundingUpdate.premium_lt {a : Assignment} (h : 0 < a.delta)
    (hvalue : a.markPrice.toNat * a.premiumRateAbs.toNat * a.elapsedMs.toNat < 2 ^ 128) :
    a.markPrice.toNat * a.premiumRateAbs.toNat < 2 ^ 128 := by
  have hle : a.delta ≤ a.rawDelta := by
    unfold Assignment.delta
    split_ifs <;> omega
  have helapsed : 0 < a.elapsedMs.toNat := by
    by_contra hzero
    have hraw : a.rawDelta = 0 := by
      unfold Assignment.rawDelta
      rw [Nat.eq_zero_of_not_pos hzero, mul_zero, Nat.zero_div]
    omega
  exact (Nat.le_mul_of_pos_right _ helapsed).trans_lt hvalue

/-- **The circuit agrees with market-math.** On the encoding of any settlement, the circuit is
satisfied exactly when the new index is the old one plus the move of `fundingIndexDelta`, the move
is not zero, the product fits and the market's identifier is not zero in the field. -/
theorem FundingUpdate.satisfied_iff {args : FundingArgs} {a : Assignment} (h : args.Encodes a) :
    main a = some () ↔ toField args.marketId ≠ 0 ∧ args.ProductsFit ∧
      ∃ δ, MarketMath.fundingIndexDelta args.deltaInput = .ok δ ∧ δ ≠ 0 ∧
        args.newIndex.toInt = args.oldIndex.toInt + δ := by
  have hagrees := h.agrees
  have hproduct : a.markPrice.toNat * a.premiumRateAbs.toNat * a.elapsedMs.toNat < 2 ^ 128 ↔
      args.ProductsFit := by
    rw [hagrees.markPrice, hagrees.rateAbs, hagrees.elapsedMs]
    rfl
  have hmove {n : ℕ} {neg : Bool} : SignMag.toInt ⟨n, neg⟩ ≠ 0 ↔ 0 < n := by
    have hnat := SignMag.natAbs_toInt ⟨n, neg⟩
    dsimp only at hnat
    omega
  rw [main_eq_some_iff, hagrees.marketId, hagrees.oldIndex, hagrees.newIndex, SignMag.toInt_ofInt,
    SignMag.toInt_ofInt]
  refine and_congr_right fun _ => ?_
  constructor
  · rintro ⟨hvalid, hpos, -, -, hsum⟩
    exact ⟨hproduct.mp hvalid.products.value, _,
      hagrees.fundingIndexDelta_eq hvalid.markPrice hvalid.intervalMs, hmove.mpr hpos, hsum⟩
  · rintro ⟨hfits, δ, hδ, hne, hsum⟩
    have hpos := fundingIndexDelta_pos hδ
    have hmark : 0 < a.markPrice.toNat := by
      rw [hagrees.markPrice]
      exact Int.natCast_pos.mp hpos.1
    have hinterval : 0 < a.intervalMs.toNat := by
      rw [hagrees.intervalMs]
      exact Int.natCast_pos.mp hpos.2
    obtain rfl : SignMag.toInt ⟨a.delta, a.premiumRateIsNegative⟩ = δ :=
      Except.ok.inj ((hagrees.fundingIndexDelta_eq hmark hinterval).symm.trans hδ)
    have hdelta : 0 < a.delta := hmove.mp hne
    have hvalue := hproduct.mpr hfits
    have hflag : a.maxDeltaEnabled = 0 ∨ a.maxDeltaEnabled = 1 := by
      rw [hagrees.maxDeltaEnabled]
      cases args.maxDeltaEnabled
      · exact Or.inl rfl
      · exact Or.inr rfl
    have hscale : 1000000 * a.intervalMs.toNat < 2 ^ 128 := by
      have := args.intervalMs.isLt
      rw [hagrees.intervalMs]
      omega
    exact ⟨⟨hmark, hinterval, hflag, premium_lt hdelta hvalue, hvalue, hscale⟩, hdelta,
      SignMag.normal_ofInt _, SignMag.normal_ofInt _, hsum⟩

section Examples

/-- A cap of 50 on a negative premium takes the index from 30 across zero. -/
def cappedUpdate : FundingArgs :=
  ⟨9, 30, -20, 1500, -100000, 3600000, 3600000, 50, true, ⟨5, 1, 2, 4, 3⟩⟩

def cappedAssignment : Assignment :=
  ⟨9, 30, false, 20, true, 1500, 100000, true, 3600000, 3600000, 50, 1⟩

theorem satisfied_cappedUpdate : cappedUpdate.Encodes cappedAssignment ∧
    FundingUpdate.main cappedAssignment = some () := by
  have hencodes : cappedUpdate.Encodes cappedAssignment := by
    unfold FundingArgs.Encodes
    decide +kernel
  have hfacts : toField cappedUpdate.marketId ≠ 0 ∧ cappedUpdate.ProductsFit ∧
      MarketMath.fundingIndexDelta cappedUpdate.deltaInput = .ok (-50) ∧
      cappedUpdate.newIndex.toInt = cappedUpdate.oldIndex.toInt + -50 := by
    unfold FundingArgs.ProductsFit
    decide +kernel
  obtain ⟨hmarket, hfits, hdelta, hsum⟩ := hfacts
  exact ⟨hencodes, (FundingUpdate.satisfied_iff hencodes).mpr
    ⟨hmarket, hfits, -50, hdelta, by decide, hsum⟩⟩

end Examples

end Pnlx
