import Pnlx.BatchMatch.Margins

/-!
# When a round is exact

A build whose products and sums are checked makes a round exactly when the values of the round fit
the words (`RoundFits`). Every other operation of a round always fits.

1. `fillFees_iff`, `assertFill_iff`, `allocateMargin_iff`: when the parts of a fill are exact.
2. `matchPair_iff`: when a round is exact.
-/

namespace Pnlx.BatchMatch

variable {H : Host} {k : Checks} {market : MarketInput}

section Operations

variable {x y z : U128}

theorem add_of_lt (h : x.toNat + y.toNat < 2 ^ 128) : add k x y = some (x + y) :=
  guarded_eq_some.mpr ⟨fun _ => h, rfl⟩

theorem sub_of_le (h : y.toNat ≤ x.toNat) : sub k x y = some (x - y) :=
  guarded_eq_some.mpr ⟨fun _ => h, rfl⟩

end Operations

/-! ## Fees -/

section Fees

variable {size price margin rate maxLeverage : U128}

/-- The value of a crossing. -/
def valueOf (size price : U128) : ℕ := size.toNat * price.toNat / 100000000

theorem toNat_value (h : size.toNat * price.toNat < 2 ^ 128) :
    (size * price / priceScale).toNat = valueOf size price := by
  rw [BitVec.toNat_udiv, toNat_mul_of_lt h]
  rfl

theorem notional_of_lt (h : size.toNat * price.toNat < 2 ^ 128) :
    notional k size price = some (size * price / priceScale) := by
  unfold notional
  rw [mul_of_lt h]
  rfl

theorem notional_fits (hp : k.products = true) {v : U128} (h : notional k size price = some v) :
    size.toNat * price.toNat < 2 ^ 128 := by
  obtain ⟨product, hproduct, -⟩ := Option.bind_eq_some_iff.mp h
  exact (toNat_mul_eq hp hproduct).1

/-- A value is far below the range of `u128`. -/
theorem valueOf_lt (h : size.toNat * price.toNat < 2 ^ 128) :
    valueOf size price * 500 < 2 ^ 128 := by
  unfold valueOf
  omega

/-- The fees of a crossing are exact when its value is. -/
theorem fillFees_of_lt (h : size.toNat * price.toNat < 2 ^ 128) :
    ∃ fees, fillFees k size price = some fees ∧
      fees.grossTakerFee.toNat = valueOf size price * 500 / 1000000 ∧
      fees.makerRebate.toNat = valueOf size price * 150 / 1000000 ∧
      fees.insurance.toNat = valueOf size price * 100 / 1000000 ∧
      fees.grossTakerFee.toNat =
        fees.makerRebate.toNat + fees.insurance.toNat + fees.treasury.toNat := by
  have hvalue := toNat_value h
  have hlt := valueOf_lt h
  set value := size * price / priceScale with hdef
  have hmul (ppm : U128) (hppm : ppm.toNat ≤ 500) : mul k value ppm = some (value * ppm) ∧
      (value * ppm / rateScale).toNat = valueOf size price * ppm.toNat / 1000000 := by
    have hfits : value.toNat * ppm.toNat < 2 ^ 128 := by
      rw [hvalue]
      exact (Nat.mul_le_mul_left _ hppm).trans_lt hlt
    refine ⟨mul_of_lt hfits, ?_⟩
    rw [BitVec.toNat_udiv, toNat_mul_of_lt hfits, hvalue]
    rfl
  obtain ⟨hgross, hgross'⟩ := hmul takerFeePpm (by decide)
  obtain ⟨hrebate, hrebate'⟩ := hmul makerRebatePpm (by decide)
  obtain ⟨hinsurance, hinsurance'⟩ := hmul insuranceFeePpm (by decide)
  rw [show takerFeePpm.toNat = 500 from rfl] at hgross'
  rw [show makerRebatePpm.toNat = 150 from rfl] at hrebate'
  rw [show insuranceFeePpm.toNat = 100 from rfl] at hinsurance'
  have hle : (value * makerRebatePpm / rateScale).toNat ≤ (value * takerFeePpm / rateScale).toNat := by
    omega
  have hrest := toNat_sub_of_le hle
  have hle' : (value * insuranceFeePpm / rateScale).toNat ≤
      (value * takerFeePpm / rateScale - value * makerRebatePpm / rateScale).toNat := by
    omega
  refine ⟨⟨value * takerFeePpm / rateScale, value * makerRebatePpm / rateScale,
    value * insuranceFeePpm / rateScale, value * takerFeePpm / rateScale -
      value * makerRebatePpm / rateScale - value * insuranceFeePpm / rateScale⟩,
    ?_, hgross', hrebate', hinsurance', ?_⟩
  · unfold fillFees
    simp only [notional_of_lt h, ← hdef, hgross, hrebate, hinsurance, sub_of_le hle, sub_of_le hle',
      Option.bind_eq_bind, Option.bind_some]
  · have htreasury := toNat_sub_of_le hle'
    simp only
    omega

theorem fillFees_fits (hp : k.products = true) {fees : FillFees}
    (h : fillFees k size price = some fees) : size.toNat * price.toNat < 2 ^ 128 := by
  obtain ⟨value, hvalue, -⟩ := Option.bind_eq_some_iff.mp h
  exact notional_fits hp hvalue

/-- The fees of an exact crossing. -/
theorem fillFees_eq (hp : k.products = true) {fees : FillFees}
    (h : fillFees k size price = some fees) :
    fees.grossTakerFee.toNat = valueOf size price * 500 / 1000000 ∧
      fees.makerRebate.toNat = valueOf size price * 150 / 1000000 ∧
      fees.insurance.toNat = valueOf size price * 100 / 1000000 ∧
      fees.grossTakerFee.toNat =
        fees.makerRebate.toNat + fees.insurance.toNat + fees.treasury.toNat := by
  obtain ⟨fees', hfees', hspec⟩ := fillFees_of_lt (k := k) (fillFees_fits hp h)
  obtain rfl := Option.some.inj (h.symm.trans hfees')
  exact hspec

theorem hasInitialMargin_of_lt (h : size.toNat * price.toNat < 2 ^ 128)
    (hrate : valueOf size price * rate.toNat < 2 ^ 128) :
    hasInitialMargin k size price margin rate =
      some (decide (valueOf size price * rate.toNat / 1000000 ≤ margin.toNat)) := by
  have hvalue := toNat_value h
  have hfits : (size * price / priceScale).toNat * rate.toNat < 2 ^ 128 := by rwa [hvalue]
  unfold hasInitialMargin
  simp only [notional_of_lt h, mul_of_lt hfits, Option.bind_eq_bind, Option.bind_some]
  refine congrArg some (decide_eq_decide.mpr ?_)
  rw [ge_iff_le, BitVec.le_def, BitVec.toNat_udiv, toNat_mul_of_lt hfits, hvalue]
  rfl

theorem hasInitialMargin_fits (hp : k.products = true) {enough : Bool}
    (h : hasInitialMargin k size price margin rate = some enough) :
    size.toNat * price.toNat < 2 ^ 128 ∧ valueOf size price * rate.toNat < 2 ^ 128 := by
  obtain ⟨value, hvalue, h⟩ := Option.bind_eq_some_iff.mp h
  obtain ⟨required, hrequired, -⟩ := Option.bind_eq_some_iff.mp h
  have hlt := notional_fits hp hvalue
  rw [notional_of_lt hlt] at hvalue
  obtain rfl := Option.some.inj hvalue
  rw [← toNat_value hlt]
  exact ⟨hlt, (toNat_mul_eq hp hrequired).1⟩

theorem hasMaxLeverage_of_lt (h : size.toNat * price.toNat < 2 ^ 128)
    (hleverage : margin.toNat * maxLeverage.toNat < 2 ^ 128) :
    hasMaxLeverage k size price margin maxLeverage =
      some (decide (0 < margin.toNat ∧ 0 < maxLeverage.toNat ∧
        valueOf size price ≤ margin.toNat * maxLeverage.toNat)) := by
  have hpos (x : U128) : x > 0 ↔ 0 < x.toNat := BitVec.lt_def
  unfold hasMaxLeverage
  split_ifs with hboth
  · simp only [notional_of_lt h, mul_of_lt hleverage, Option.bind_eq_bind, Option.bind_some]
    rw [hpos, hpos] at hboth
    refine congrArg some (decide_eq_decide.mpr ?_)
    rw [BitVec.le_def, toNat_value h, toNat_mul_of_lt hleverage]
    exact ⟨fun hle => ⟨hboth.1, hboth.2, hle⟩, fun hle => hle.2.2⟩
  · rw [hpos, hpos] at hboth
    refine congrArg some (decide_eq_false fun hall => hboth ⟨hall.1, hall.2.1⟩).symm

theorem hasMaxLeverage_fits (hp : k.products = true)
    (h : hasMaxLeverage k size price margin maxLeverage = some true) :
    size.toNat * price.toNat < 2 ^ 128 ∧ margin.toNat * maxLeverage.toNat < 2 ^ 128 := by
  unfold hasMaxLeverage at h
  split_ifs at h with hboth
  · obtain ⟨value, hvalue, h⟩ := Option.bind_eq_some_iff.mp h
    obtain ⟨limit, hlimit, -⟩ := Option.bind_eq_some_iff.mp h
    exact ⟨notional_fits hp hvalue, (toNat_mul_eq hp hlimit).1⟩
  · exact absurd (Option.some.inj h) Bool.false_ne_true

end Fees

/-! ## A fill -/

section Fill

variable {order : BookOrder} {size price margin : U128}

/-- What the risk checks of a fill multiply. -/
def ChecksFit (market : MarketInput) (size price margin : U128) : Prop :=
  size.toNat * price.toNat < 2 ^ 128 ∧
    (∀ rate ∈ parseU128 market.initialMarginRate, valueOf size price * rate.toNat < 2 ^ 128) ∧
    ∀ leverage ∈ parseU128 market.maxLeverage, margin.toNat * leverage.toNat < 2 ^ 128

theorem assertFill_eq_some : assertFill k market size price margin = some () ↔
    ∃ rate leverage, parseU128 market.initialMarginRate = some rate ∧
      hasInitialMargin k size price margin rate = some true ∧
      parseU128 market.maxLeverage = some leverage ∧
      hasMaxLeverage k size price margin leverage = some true := by
  unfold assertFill
  simp only [Option.bind_eq_bind, Option.bind_eq_some_iff, assert_eq_some]
  constructor
  · rintro ⟨rate, hrate, _, henough, _, rfl, leverage, hleverage, _, hallowed, rfl⟩
    exact ⟨rate, leverage, hrate, henough, hleverage, hallowed⟩
  · rintro ⟨rate, leverage, hrate, henough, hleverage, hallowed⟩
    exact ⟨rate, hrate, true, henough, (), rfl, leverage, hleverage, true, hallowed, rfl⟩

theorem assertFill_iff (hp : k.products = true)
    (h : assertFill .release market size price margin = some ()) :
    assertFill k market size price margin = some () ↔ ChecksFit market size price margin := by
  constructor
  · intro hk
    obtain ⟨rate, leverage, hrate, henough, hleverage, hallowed⟩ := assertFill_eq_some.mp hk
    obtain ⟨hlt, hrateFits⟩ := hasInitialMargin_fits hp henough
    refine ⟨hlt, fun r hr => ?_, fun l hl => ?_⟩
    · rw [Option.mem_def, hrate, Option.some.injEq] at hr
      rw [← hr]
      exact hrateFits
    · rw [Option.mem_def, hleverage, Option.some.injEq] at hl
      rw [← hl]
      exact (hasMaxLeverage_fits hp hallowed).2
  · rintro ⟨hlt, hrateFits, hleverageFits⟩
    obtain ⟨rate, leverage, hrate, henough, hleverage, hallowed⟩ := assertFill_eq_some.mp h
    rw [hasInitialMargin_of_lt hlt (hrateFits rate hrate)] at henough
    rw [hasMaxLeverage_of_lt hlt (hleverageFits leverage hleverage)] at hallowed
    refine assertFill_eq_some.mpr ⟨rate, leverage, hrate, ?_, hleverage, ?_⟩
    · rw [hasInitialMargin_of_lt hlt (hrateFits rate hrate), henough]
    · rw [hasMaxLeverage_of_lt hlt (hleverageFits leverage hleverage), hallowed]

/-- What the allocation of a margin computes with. -/
def ShareFits (order : BookOrder) (size : U128) : Prop :=
  order.margin.toNat * (order.filled.toNat + size.toNat) + order.size.toNat < 2 ^ 128

theorem share_le_share {margin filled filled' size : ℕ} (h : filled ≤ filled') :
    share margin filled size ≤ share margin filled' size := by
  unfold share
  refine Nat.div_le_div_right ?_
  have hmul := Nat.mul_le_mul_left margin h
  omega

theorem allocateMargin_iff (hp : k.products = true) (hs : k.sums = true)
    (hfilled : order.filled.toNat + size.toNat ≤ order.size.toNat) (hpos : 0 < order.size.toNat)
    (hshare : order.allocatedMargin.toNat =
      share order.margin.toNat order.filled.toNat order.size.toNat) :
    (∃ filled, allocateMargin k order size = some (fillMargin order size, filled)) ↔
      ShareFits order size := by
  have hlt := order.size.isLt
  have hnext : (order.filled + size).toNat = order.filled.toNat + size.toNat :=
    toNat_add_of_lt (by omega)
  constructor
  · rintro ⟨filled, h⟩
    unfold allocateMargin at h
    simp only [Option.bind_eq_bind, Option.bind_eq_some_iff] at h
    obtain ⟨nextFilled, hnextFilled, value, hvalue, allocated, hallocated, -⟩ := h
    obtain ⟨total, htotal, -⟩ := Option.bind_eq_some_iff.mp hallocated
    obtain ⟨-, rfl⟩ := guarded_eq_some.mp hnextFilled
    have hvalue' := (toNat_mul_eq hp hvalue).2
    have htotal' := (toNat_add_eq hs htotal).1
    unfold ShareFits
    rw [← hnext]
    omega
  · intro hfits
    unfold ShareFits at hfits
    have hmul : order.margin.toNat * (order.filled + size).toNat < 2 ^ 128 := by
      rw [hnext]
      omega
    have hvalue := toNat_mul_of_lt hmul
    rw [hnext] at hvalue
    have hadd : (order.margin * (order.filled + size)).toNat + order.size.toNat < 2 ^ 128 := by omega
    have htotal := toNat_add_of_lt hadd
    have hone : (1 : U128).toNat ≤ (order.margin * (order.filled + size) + order.size).toNat := by
      rw [htotal]
      exact Nat.le_trans hpos (Nat.le_add_left _ _)
    have hnumerator := toNat_sub_of_le hone
    have hallocated : (allocatedAfter order size).toNat =
        share order.margin.toNat (order.filled.toNat + size.toNat) order.size.toNat := by
      unfold allocatedAfter share
      rw [BitVec.toNat_udiv, hnumerator, htotal, hvalue]
      rfl
    have hle : order.allocatedMargin.toNat ≤ (allocatedAfter order size).toNat := by
      rw [hallocated, hshare]
      exact share_le_share (Nat.le_add_right _ _)
    refine ⟨{ filledBy order size with remaining := order.remaining }, ?_⟩
    unfold allocateMargin ceilDiv
    rw [add_of_lt (by omega), Option.bind_eq_bind, Option.bind_some, mul_of_lt hmul]
    simp only [add_of_lt hadd, sub_of_le hone, Option.bind_eq_bind, Option.bind_some]
    rw [show (order.margin * (order.filled + size) + order.size - 1) / order.size =
      allocatedAfter order size from rfl, sub_of_le hle]
    rfl

/-- What an exact fill needs of an order before it. -/
structure Allocates (order : BookOrder) : Prop where
  pos : 0 < order.size.toNat
  left : order.filled.toNat + order.remaining.toNat = order.size.toNat
  share : order.allocatedMargin.toNat =
    share order.margin.toNat order.filled.toNat order.size.toNat

theorem fills_iff (hp : k.products = true) (hs : k.sums = true) (ho : Allocates order)
    (hsize : size.toNat ≤ order.remaining.toNat) {fillIndex : ℕ} {delta : I128} {fill : Fill}
    (hdelta : ∀ {k k' : Checks} {m m' : U128},
      marginAfterFee k m delta = some m' → marginAfterFee k' m delta = some m')
    (h : Fills H .release market order size price fillIndex delta fill) :
    Fills H k market order size price fillIndex delta fill ↔
      ShareFits order size ∧ ChecksFit market size price fill.margin := by
  have hleft := ho.left
  have hfilled : order.filled.toNat + size.toNat ≤ order.size.toNat := by omega
  have hallocate := allocateMargin_iff (k := k) hp hs hfilled ho.pos ho.share
  constructor
  · intro hk
    exact ⟨hallocate.mp hk.allocated, (assertFill_iff hp h.checked).mp hk.checked⟩
  · rintro ⟨hshare, hchecks⟩
    exact ⟨hallocate.mpr hshare, hdelta h.margin, (assertFill_iff hp h.checked).mpr hchecks,
      h.described⟩

end Fill

/-! ## A round -/

/-- The margin of the fill of an order in a crossing, after its rebate or fee. -/
def marginOf (order : BookOrder) (size price : U128) (maker : Prop) [Decidable maker] : ℕ :=
  if maker then (fillMargin order size).toNat + valueOf size price * 150 / 1000000
  else (fillMargin order size).toNat - valueOf size price * 500 / 1000000

/-- The values of a crossing of `long` and `short` fit the words. -/
structure RoundFits (market : MarketInput) (long short : BookOrder) : Prop where
  value : (crossingSize long short).toNat * (executionPrice long short).toNat < 2 ^ 128
  rate : ∀ rate ∈ parseU128 market.initialMarginRate,
    valueOf (crossingSize long short) (executionPrice long short) * rate.toNat < 2 ^ 128
  longShare : ShareFits long (crossingSize long short)
  shortShare : ShareFits short (crossingSize long short)
  longLeverage : ∀ leverage ∈ parseU128 market.maxLeverage,
    marginOf long (crossingSize long short) (executionPrice long short)
      (long.sequence ≤ short.sequence) * leverage.toNat < 2 ^ 128
  shortLeverage : ∀ leverage ∈ parseU128 market.maxLeverage,
    marginOf short (crossingSize long short) (executionPrice long short)
      (¬ long.sequence ≤ short.sequence) * leverage.toNat < 2 ^ 128

section Round

variable {long short : BookOrder} {fillIndex : ℕ} {trade : Trade} {fees : FillFees}
  {deltas : I128 × I128}

/-- The margins of a trade whose fees are exact. -/
theorem Crosses.margins (h : Crosses H k market fillIndex long short trade fees deltas)
    (hgross : fees.grossTakerFee.toNat =
      valueOf (crossingSize long short) (executionPrice long short) * 500 / 1000000)
    (hrebate : fees.makerRebate.toNat =
      valueOf (crossingSize long short) (executionPrice long short) * 150 / 1000000) :
    trade.longFill.margin.toNat = marginOf long (crossingSize long short)
        (executionPrice long short) (long.sequence ≤ short.sequence) ∧
      trade.shortFill.margin.toNat = marginOf short (crossingSize long short)
        (executionPrice long short) (¬ long.sequence ≤ short.sequence) := by
  obtain ⟨hgrossLt, hrebateLt⟩ := fillFees_lt h.charged
  have hlong := h.longFill.margin
  have hshort := h.shortFill.margin
  rw [feeDeltas_eq_some h.shared] at hlong hshort
  unfold marginOf
  rw [← hgross, ← hrebate]
  by_cases hmaker : long.sequence ≤ short.sequence
  · rw [if_pos hmaker] at hlong hshort
    rw [if_pos hmaker, if_neg (not_not.mpr hmaker)]
    rw [marginAfterFee_rebate hrebateLt] at hlong
    rw [marginAfterFee_fee hgrossLt] at hshort
    omega
  · rw [if_neg hmaker] at hlong hshort
    rw [if_neg hmaker, if_pos hmaker]
    rw [marginAfterFee_fee hgrossLt] at hlong
    rw [marginAfterFee_rebate hrebateLt] at hshort
    omega

theorem feeDeltas_of_lt (hgross : fees.grossTakerFee.toNat < 2 ^ 127)
    (hrebate : fees.makerRebate.toNat < 2 ^ 127) (longMaker : Prop) [Decidable longMaker] :
    feeDeltas k fees longMaker = some (if longMaker then (fees.makerRebate, -fees.grossTakerFee)
      else (-fees.grossTakerFee, fees.makerRebate)) := by
  have hint := toInt_of_lt hgross
  have hneg : FitsI128 (-fees.grossTakerFee.toInt) := by
    unfold FitsI128
    omega
  unfold feeDeltas asI128 negSigned
  simp only [guarded_eq_some.mpr ⟨fun _ => hrebate, rfl⟩, guarded_eq_some.mpr ⟨fun _ => hgross, rfl⟩,
    guarded_eq_some.mpr ⟨fun _ => hneg, rfl⟩, Option.bind_eq_bind, Option.bind_some]

/-- When a round is exact. -/
theorem matchPair_iff (hp : k.products = true) (hs : k.sums = true) {book book' : Book}
    (hlong : Allocates long) (hshort : Allocates short)
    (h : matchPair H .release market book long short = some book') :
    matchPair H k market book long short = some book' ↔ RoundFits market long short := by
  obtain ⟨hlongLe, hshortLe⟩ := crossingSize_le long short
  obtain ⟨trade, fees, deltas, hcross, rfl⟩ := matchPair_eq_some.mp h
  obtain ⟨hgrossLt, hrebateLt⟩ := fillFees_lt hcross.charged
  have hshared := feeDeltas_eq_some hcross.shared
  -- a fee is taken and a rebate is given in the same way in every build
  have hdelta (delta : I128) (hmem : delta = fees.makerRebate ∨ delta = -fees.grossTakerFee)
      {k k' : Checks} {m m' : U128} (hm : marginAfterFee k m delta = some m') :
      marginAfterFee k' m delta = some m' := by
    rcases hmem with rfl | rfl
    · exact (marginAfterFee_rebate hrebateLt).mpr ((marginAfterFee_rebate hrebateLt).mp hm)
    · exact (marginAfterFee_fee hgrossLt).mpr ((marginAfterFee_fee hgrossLt).mp hm)
  have hdelta₁ : deltas.1 = fees.makerRebate ∨ deltas.1 = -fees.grossTakerFee := by
    rw [hshared]
    split_ifs
    · exact Or.inl rfl
    · exact Or.inr rfl
  have hdelta₂ : deltas.2 = fees.makerRebate ∨ deltas.2 = -fees.grossTakerFee := by
    rw [hshared]
    split_ifs
    · exact Or.inr rfl
    · exact Or.inl rfl
  have hlongIff := fills_iff (k := k) hp hs hlong hlongLe (hdelta _ hdelta₁) hcross.longFill
  have hshortIff := fills_iff (k := k) hp hs hshort hshortLe (hdelta _ hdelta₂) hcross.shortFill
  constructor
  · intro hk
    obtain ⟨trade', fees', deltas', hcross', hbook⟩ := matchPair_eq_some.mp hk
    obtain rfl := Book.cross_inj hbook
    obtain ⟨hgross, hrebate, -, -⟩ := fillFees_eq hp hcross'.charged
    obtain ⟨hlongMargin, hshortMargin⟩ := hcross'.margins hgross hrebate
    obtain rfl : fees = fees' := by
      have := fillFees_agrees _ _ _ hcross'.charged
      rw [hcross.charged] at this
      exact Option.some.inj this
    obtain rfl : deltas = deltas' := hshared.trans (feeDeltas_eq_some hcross'.shared).symm
    obtain ⟨hlongShare, hvalue, hrate, hlongLeverage⟩ := hlongIff.mp hcross'.longFill
    obtain ⟨hshortShare, -, -, hshortLeverage⟩ := hshortIff.mp hcross'.shortFill
    rw [hlongMargin] at hlongLeverage
    rw [hshortMargin] at hshortLeverage
    exact ⟨hvalue, hrate, hlongShare, hshortShare, hlongLeverage, hshortLeverage⟩
  · intro hfits
    obtain ⟨fees', hfees', hgross, hrebate, -⟩ := fillFees_of_lt (k := k) hfits.value
    obtain rfl : fees = fees' := by
      have := fillFees_agrees _ _ _ hfees'
      rw [hcross.charged] at this
      exact Option.some.inj this
    obtain ⟨hlongMargin, hshortMargin⟩ := hcross.margins hgross hrebate
    refine matchPair_eq_some.mpr ⟨trade, fees, deltas, ⟨hfees', ?_, ?_, ?_, hcross.execution⟩, rfl⟩
    · rw [feeDeltas_of_lt hgrossLt hrebateLt, hshared]
    · refine hlongIff.mpr ⟨hfits.longShare, hfits.value, hfits.rate, ?_⟩
      rw [hlongMargin]
      exact hfits.longLeverage
    · refine hshortIff.mpr ⟨hfits.shortShare, hfits.value, hfits.rate, ?_⟩
      rw [hshortMargin]
      exact hfits.shortLeverage

end Round

end Pnlx.BatchMatch
