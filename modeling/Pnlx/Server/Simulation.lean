import Pnlx.BatchMatch.Exact
import Pnlx.Lib.Related
import Pnlx.Server.Rounds
import Pnlx.Server.Settlement

/-!
# The guest program follows the server

Where all products of the server's match stay below `2^127`, the guest program makes the same
crossings on the same request: its words are the integers of the server (`SameOrder`, `decode`).

1. `fillFees_follow`, `assertFill_follow`, `Fills.follow`: the parts of a crossing.
2. `Crosses.follow`: a crossing.
3. `matchLoop_follow`, `matchOrders_follow`: the loop, and the orders after it.
-/

namespace Pnlx.Server

open BatchMatch (Text Side valueOf parseU128 parseI128 toNat_add_of_lt toNat_sub_of_le)

variable {H : Host} {poseidon2Hash : Fr → Fr → Fr} {market : MarketConfig}

/-! ## What the words of the guest program stand for -/

/-- The bound on the products. -/
def productBound : Option ℤ := some (2 ^ 127)

def decodeFees (fees : BatchMatch.FillFees) : FillFees :=
  ⟨fees.grossTakerFee.toNat, fees.makerRebate.toNat, fees.insurance.toNat, fees.treasury.toNat⟩

def decodeFill (fill : BatchMatch.Fill) : Fill where
  intentCommitment := fill.intentCommitment
  marketId := fill.marketId
  ownerCommitment := fill.ownerCommitment
  side := fill.side
  size := fill.size.toNat
  price := fill.price.toNat
  margin := fill.margin.toNat
  positionCommitment := fill.positionCommitment
  positionNullifier := fill.positionNullifier

def decodeExecution (execution : BatchMatch.Execution) : MatchExecution where
  grossTakerFee := execution.grossTakerFee.toNat
  makerRebate := execution.makerRebate.toNat
  insurance := execution.insurance.toNat
  treasury := execution.treasury.toNat
  longIntentCommitment := execution.longIntentCommitment
  longLimitPrice := execution.longLimitPrice.toNat
  longNoteNullifier := execution.longNoteNullifier
  longPositionCommitment := execution.longPositionCommitment
  makerIntentCommitment := execution.makerIntentCommitment
  makerSide := execution.makerSide
  price := execution.price.toNat
  shortIntentCommitment := execution.shortIntentCommitment
  shortLimitPrice := execution.shortLimitPrice.toNat
  shortNoteNullifier := execution.shortNoteNullifier
  shortPositionCommitment := execution.shortPositionCommitment
  size := execution.size.toNat
  takerIntentCommitment := execution.takerIntentCommitment

/-- An order of the server and the one of the guest program. -/
structure SameOrder (o : BookOrder) (g : BatchMatch.BookOrder) : Prop where
  source : g.intent = proverIntent o.intent
  limitPrice : o.intent.limitPrice = g.limitPrice.toNat
  margin : o.intent.margin = g.margin.toNat
  allocatedMargin : o.allocatedMargin = g.allocatedMargin.toNat
  filled : o.filled = g.filled.toNat
  remaining : o.remaining = g.remaining.toNat
  size : o.size = g.size.toNat
  size_le : g.size.toNat ≤ 2 ^ 127
  sequence : o.sequence = g.sequence
  side : o.side = g.side

/-- The parameters of a market fit the words of the guest program. -/
structure MarketFits (market : MarketConfig) : Prop where
  fundingIndex : 0 ≤ market.fundingIndex ∧ market.fundingIndex < 2 ^ 128
  initialMarginRate : 0 ≤ market.initialMarginRate ∧ market.initialMarginRate < 2 ^ 128
  maxLeverage : 0 ≤ market.maxLeverage ∧ market.maxLeverage < 2 ^ 128

/-- An integer that is a word. -/
theorem exists_word {z : ℤ} (h : 0 ≤ z ∧ z < 2 ^ 128) : ∃ v : U128, z = v.toNat :=
  ⟨BitVec.ofNat 128 z.toNat, by rw [BitVec.toNat_ofNat]; omega⟩

/-! ## Fees and risk checks -/

section Fees

variable {size price margin rate maxLeverage : U128} {k : BatchMatch.Checks}

theorem times_natCast {m n : ℕ} {z : ℤ} (h : times productBound m n = some z) :
    m * n < 2 ^ 127 ∧ z = (m * n : ℕ) := by
  obtain ⟨hlt, rfl⟩ := times_eq_some.mp h
  have hlt : (m : ℤ) * n < 2 ^ 127 := hlt _ rfl
  refine ⟨by exact_mod_cast hlt, (Int.natCast_mul m n).symm⟩

theorem abs_natCast (n : ℕ) : abs (n : ℤ) = n := if_neg (by omega)

theorem notional_natCast {value : ℤ}
    (h : notional productBound size.toNat price.toNat = some value) :
    size.toNat * price.toNat < 2 ^ 127 ∧ value = valueOf size price := by
  unfold notional at h
  obtain ⟨product, hproduct, hvalue⟩ := Option.bind_eq_some_iff.mp h
  rw [abs_natCast] at hproduct
  obtain ⟨hlt, rfl⟩ := times_natCast hproduct
  refine ⟨hlt, ?_⟩
  rw [← Option.some.inj hvalue]
  exact (Int.ofNat_tdiv _ _).symm

/-- The fees of a crossing. -/
theorem fillFees_follow {fees : FillFees}
    (h : fillFees productBound size.toNat price.toNat = some fees) :
    0 < size.toNat ∧ 0 < price.toNat ∧ size.toNat * price.toNat < 2 ^ 127 ∧
      ∃ fees', BatchMatch.fillFees k size price = some fees' ∧ decodeFees fees' = fees := by
  unfold fillFees at h
  simp only [Option.bind_eq_bind, Option.bind_eq_some_iff, assert_eq_some, Option.some.injEq] at h
  obtain ⟨_, hpos, value, hvalue, takerFee, htaker, rebate, hrebate, insuranceFee, hinsurance, rfl⟩ := h
  obtain ⟨hlt, rfl⟩ := notional_natCast hvalue
  obtain ⟨-, rfl⟩ := times_natCast (n := 500) htaker
  obtain ⟨-, rfl⟩ := times_natCast (n := 150) hrebate
  obtain ⟨-, rfl⟩ := times_natCast (n := 100) hinsurance
  obtain ⟨fees', hfees', hgross, hrebate', hinsurance', hsplit⟩ :=
    BatchMatch.fillFees_of_lt (k := k) (hlt.trans (by decide))
  refine ⟨by omega, by omega, hlt, fees', hfees', ?_⟩
  have hdiv (n : ℕ) : ((n : ℕ) : ℤ).tdiv rateScale = (n / 1000000 : ℕ) := (Int.ofNat_tdiv _ _).symm
  unfold decodeFees
  rw [FillFees.mk.injEq, hdiv, hdiv, hdiv]
  omega

theorem marginAt_natCast {required : ℤ}
    (h : marginAt productBound size.toNat price.toNat rate.toNat = some required) :
    size.toNat * price.toNat < 2 ^ 127 ∧ valueOf size price * rate.toNat < 2 ^ 127 ∧
      required = (valueOf size price * rate.toNat / 1000000 : ℕ) := by
  unfold marginAt at h
  obtain ⟨value, hvalue, h⟩ := Option.bind_eq_some_iff.mp h
  obtain ⟨product, hproduct, hrequired⟩ := Option.bind_eq_some_iff.mp h
  obtain ⟨hlt, rfl⟩ := notional_natCast hvalue
  obtain ⟨hlt', rfl⟩ := times_natCast hproduct
  refine ⟨hlt, hlt', ?_⟩
  rw [← Option.some.inj hrequired]
  exact (Int.ofNat_tdiv _ _).symm

theorem hasInitialMargin_follow
    (h : hasInitialMargin productBound size.toNat price.toNat margin.toNat rate.toNat = some true) :
    BatchMatch.hasInitialMargin k size price margin rate = some true := by
  unfold hasInitialMargin at h
  obtain ⟨required, hrequired, h⟩ := Option.bind_eq_some_iff.mp h
  obtain ⟨hlt, hlt', rfl⟩ := marginAt_natCast hrequired
  have hle := of_decide_eq_true (Option.some.inj h)
  rw [BatchMatch.hasInitialMargin_of_lt (hlt.trans (by decide)) (hlt'.trans (by decide))]
  exact congrArg some (decide_eq_true (by exact_mod_cast hle))

theorem hasMaxLeverage_follow
    (h : hasMaxLeverage productBound size.toNat price.toNat margin.toNat maxLeverage.toNat =
      some true) :
    BatchMatch.hasMaxLeverage k size price margin maxLeverage = some true := by
  unfold hasMaxLeverage at h
  split_ifs at h with hpos
  · exact absurd (Option.some.inj h) Bool.false_ne_true
  · obtain ⟨value, hvalue, h⟩ := Option.bind_eq_some_iff.mp h
    obtain ⟨limit, hlimit, h⟩ := Option.bind_eq_some_iff.mp h
    obtain ⟨hlt, rfl⟩ := notional_natCast hvalue
    obtain ⟨hlt', rfl⟩ := times_natCast hlimit
    have hle := of_decide_eq_true (Option.some.inj h)
    rw [BatchMatch.hasMaxLeverage_of_lt (hlt.trans (by decide)) (hlt'.trans (by decide))]
    exact congrArg some (decide_eq_true ⟨by omega, by omega, by exact_mod_cast hle⟩)

/-- The risk checks of a fill. -/
theorem assertFill_follow (hmarket : MarketFits market)
    (h : assertFill productBound market size.toNat price.toNat margin.toNat = some ()) :
    BatchMatch.assertFill k (proverMarket market) size price margin = some () := by
  unfold assertFill at h
  simp only [Option.bind_eq_bind, Option.bind_eq_some_iff, assert_eq_some] at h
  obtain ⟨_, henough, _, rfl, _, hallowed, _, rfl, -⟩ := h
  obtain ⟨rate, hrate⟩ := exists_word hmarket.initialMarginRate
  obtain ⟨leverage, hleverage⟩ := exists_word hmarket.maxLeverage
  rw [hrate] at henough
  rw [hleverage] at hallowed
  exact BatchMatch.assertFill_eq_some.mpr ⟨rate, leverage,
    BatchMatch.parseU128_decimalSigned.mpr hrate, hasInitialMargin_follow henough,
    BatchMatch.parseU128_decimalSigned.mpr hleverage, hasMaxLeverage_follow hallowed⟩

end Fees

/-! ## Fills -/

section Fill

variable {o : BookOrder} {g : BatchMatch.BookOrder} {size price margin index : U128}

theorem fieldHashPair_follow (x y : Fr) :
    BatchMatch.fieldHashPair H (BatchMatch.fieldHex x) (BatchMatch.fieldHex y) =
      fieldHashPair H.poseidon2Hash (.hex (BatchMatch.fieldHex x)) (.hex (BatchMatch.fieldHex y)) := by
  unfold BatchMatch.fieldHashPair fieldHashPair
  rw [toField_fieldHex, toField_fieldHex, BatchMatch.toFieldBiguint_fieldHex,
    BatchMatch.toFieldBiguint_fieldHex]

/-- The commitment of a position. -/
theorem circuitPositionCommitment_follow (m owner rho blinding : Fr) (side : Side) :
    BatchMatch.circuitPositionCommitment H (BatchMatch.fieldHex m) side size price margin index
        (BatchMatch.fieldHex owner) (BatchMatch.fieldHex rho) (BatchMatch.fieldHex blinding) =
      circuitPositionCommitment H.poseidon2Hash (BatchMatch.fieldHex m) side size.toNat price.toNat
        margin.toNat index.toNat (BatchMatch.fieldHex owner) (BatchMatch.fieldHex rho)
        (BatchMatch.fieldHex blinding) := by
  have hside : BatchMatch.toFieldBiguint (if side = .long then ['1'] else ['2']) =
      toField (.bigint (if side = .long then 1 else 2)) := by
    cases side <;> decide +kernel
  unfold BatchMatch.circuitPositionCommitment circuitPositionCommitment
  simp only [BatchMatch.fieldHashPair, fieldHashPair, hside, toField_fieldHex, toField_word,
    BatchMatch.toFieldBiguint_fieldHex, BatchMatch.toFieldBiguint_decimal, Option.bind_eq_bind,
    Option.bind_some]
  cases toField (.bigint (if side = .long then 1 else 2)) with
  | none => rfl
  | some x =>
    simp only [toField_fieldHex, BatchMatch.toFieldBiguint_fieldHex, Option.bind_some]

/-- The texts of a fill. -/
theorem describeFill_follow (ho : SameOrder o g) (hmarket : MarketFits market) {fillIndex : ℕ}
    {fill : Fill} (h : describeFill H H.poseidon2Hash market o size.toNat price.toNat margin.toNat
      fillIndex = some fill) :
    ∃ fill', BatchMatch.describeFill H (proverMarket market) g size price margin fillIndex =
      some fill' ∧ decodeFill fill' = fill := by
  obtain ⟨index, hindex⟩ := exists_word hmarket.fundingIndex
  unfold describeFill at h
  simp only [Option.bind_eq_bind, Option.bind_eq_some_iff, Option.some.injEq] at h
  obtain ⟨commitment, hcommitment, nullifier, hnullifier, rfl⟩ := h
  rw [hindex] at hcommitment
  unfold digestToFieldHex at hcommitment hnullifier
  rw [← circuitPositionCommitment_follow] at hcommitment
  rw [← fieldHashPair_follow] at hnullifier
  have hparse : parseU128 (proverMarket market).fundingIndex = some index :=
    BatchMatch.parseU128_decimalSigned.mpr hindex
  unfold BatchMatch.describeFill BatchMatch.digestToFieldHex
  rw [hparse]
  simp only [Option.bind_eq_bind, Option.bind_some, ho.source, ← ho.side, proverIntent]
  rw [hcommitment, Option.bind_some]
  have hcolon (l r : Text) : l ++ ":".toList ++ r = l ++ ':' :: r := by
    rw [List.append_assoc]
    rfl
  rw [hcolon, hnullifier]
  exact ⟨_, rfl, rfl⟩

theorem ceilDiv_natCast {m f n : ℕ} (h : 0 < n) :
    ceilDiv ((m : ℤ) * f) n = BatchMatch.share m f n := by
  have hnumerator : (m : ℤ) * f + n - 1 = (m * f + n - 1 : ℕ) := by
    rw [← Int.natCast_mul]
    omega
  unfold ceilDiv BatchMatch.share
  rw [hnumerator]
  exact (Int.ofNat_tdiv _ _).symm

theorem SameOrder.allocates (ho : SameOrder o g) (hk : Kept o) : BatchMatch.Allocates g := by
  have hpos := hk.size_pos
  have hleft := hk.left
  have hshare := hk.share
  rw [ho.size] at hpos hleft hshare
  rw [ho.filled, ho.remaining] at hleft
  rw [ho.margin, ho.filled, ho.allocatedMargin, ceilDiv_natCast (by omega)] at hshare
  exact ⟨by omega, by omega, by exact_mod_cast hshare⟩

/-- A fee or a rebate and the word that is added to a margin. -/
def SameDelta (delta : ℤ) (delta' : I128) : Prop :=
  ∃ fee : U128, fee.toNat < 2 ^ 127 ∧
    ((delta = fee.toNat ∧ delta' = fee) ∨ (delta = -fee.toNat ∧ delta' = -fee))

theorem SameDelta.marginAfterFee {delta : ℤ} {delta' : I128} (h : SameDelta delta delta')
    {k : BatchMatch.Checks} {allocated m : U128} (hm : (allocated.toNat : ℤ) + delta = m.toNat) :
    BatchMatch.marginAfterFee k allocated delta' = some m := by
  obtain ⟨fee, hlt, ⟨rfl, rfl⟩ | ⟨rfl, rfl⟩⟩ := h
  · exact (BatchMatch.marginAfterFee_rebate hlt).mpr (by omega)
  · exact (BatchMatch.marginAfterFee_fee hlt).mpr (by omega)

/-- A fill of the server is a fill of the guest program. -/
theorem Fills.follow (ho : SameOrder o g) (hk : Kept o) (hmarket : MarketFits market)
    (hpos : 0 < size.toNat) (hle : size.toNat ≤ g.remaining.toNat) {fillIndex : ℕ} {delta : ℤ}
    {delta' : I128} (hdelta : SameDelta delta delta') {fill : Fill}
    (h : Fills H H.poseidon2Hash productBound market o size.toNat price.toNat fillIndex delta fill) :
    ∃ fill', BatchMatch.Fills H .exact (proverMarket market) g size price fillIndex delta' fill' ∧
      decodeFill fill' = fill := by
  have halloc := ho.allocates hk
  have hleft := halloc.left
  have hsize := ho.size_le
  have hproduct : g.margin.toNat * (g.filled.toNat + size.toNat) < 2 ^ 127 := by
    have hlt := h.product _ rfl
    rw [ho.margin, ho.filled] at hlt
    exact_mod_cast hlt
  have hfits : BatchMatch.ShareFits g size := by
    unfold BatchMatch.ShareFits
    omega
  have hallocated := (BatchMatch.allocateMargin_iff (k := .exact) rfl rfl (by omega) halloc.pos
    halloc.share).mpr hfits
  obtain ⟨filled, hallocate⟩ := hallocated
  obtain ⟨hshare, hmargin⟩ := BatchMatch.allocateMargin_exact rfl rfl hallocate
  have hnext : (g.filled + size).toNat = g.filled.toNat + size.toNat :=
    toNat_add_of_lt (by omega)
  have hafter : allocatedAfter o size.toNat = (BatchMatch.allocatedAfter g size).toNat := by
    unfold allocatedAfter
    rw [hshare, ho.margin, ho.filled, ho.size, hnext, ← Int.natCast_add, ceilDiv_natCast halloc.pos]
  -- the margin of a fill is at most the margin of its order
  have hbelow : (BatchMatch.allocatedAfter g size).toNat ≤ g.margin.toNat := by
    rw [hshare, hnext]
    refine (BatchMatch.share_le_share (show _ ≤ g.size.toNat by omega)).trans ?_
    rw [BatchMatch.share_all halloc.pos]
  have hmarginLt : g.margin.toNat < 2 ^ 127 :=
    (Nat.le_mul_of_pos_right _ (by omega)).trans_lt hproduct
  have hfillMargin := h.margin
  rw [hafter, ho.allocatedMargin] at hfillMargin
  have hword : 0 ≤ fill.margin ∧ fill.margin < 2 ^ 128 := by
    have := assertFill_margin_pos h.checked
    obtain ⟨fee, hlt, ⟨rfl, rfl⟩ | ⟨rfl, rfl⟩⟩ := hdelta
    · omega
    · omega
  obtain ⟨m, hm⟩ := exists_word hword
  have hchecked := h.checked
  have hdescribed := h.described
  rw [hm] at hchecked hdescribed
  obtain ⟨fill', hdescribe, hdecode⟩ := describeFill_follow ho hmarket hdescribed
  obtain ⟨-, -, -, -, -, -, hm'⟩ := BatchMatch.describeFill_data hdescribe
  refine ⟨fill', ⟨⟨filled, hallocate⟩, hdelta.marginAfterFee ?_, ?_, ?_⟩, hdecode⟩
  · rw [hm', ← hm]
    omega
  · rw [hm']
    exact assertFill_follow hmarket hchecked
  · rw [hm']
    exact hdescribe

end Fill

/-! ## Crossings -/

section Crossing

variable {long short : BookOrder} {long' short' : BatchMatch.BookOrder}

theorem crossingSize_follow (hlong : SameOrder long long') (hshort : SameOrder short short') :
    crossingSize long short = (BatchMatch.crossingSize long' short').toNat := by
  unfold crossingSize BatchMatch.crossingSize
  rw [hlong.remaining, hshort.remaining]
  by_cases hle : long'.remaining ≤ short'.remaining
  · have hle' := BitVec.le_def.mp hle
    rw [if_pos hle]
    omega
  · have hle' : ¬ long'.remaining.toNat ≤ short'.remaining.toNat := fun h => hle (BitVec.le_def.mpr h)
    rw [if_neg hle]
    omega

theorem executionPrice_follow (hlong : SameOrder long long') (hshort : SameOrder short short') :
    executionPrice long short = (BatchMatch.executionPrice long' short').toNat := by
  unfold executionPrice BatchMatch.executionPrice
  rw [hlong.sequence, hshort.sequence, hlong.limitPrice, hshort.limitPrice]
  split_ifs
  · rfl
  · rfl

theorem createExecution_follow (hlong : SameOrder long long') (hshort : SameOrder short short')
    (size price : U128) (longFill shortFill : BatchMatch.Fill) (fees : BatchMatch.FillFees) :
    decodeExecution (BatchMatch.createExecution long' short' size price longFill shortFill fees) =
      createExecution long short size.toNat price.toNat (decodeFill longFill) (decodeFill shortFill)
        (decodeFees fees) := by
  unfold createExecution BatchMatch.createExecution
  rw [hlong.sequence, hshort.sequence, hlong.limitPrice, hshort.limitPrice]
  by_cases hmaker : long'.sequence ≤ short'.sequence
  · simp [hmaker, decodeExecution, hlong.source, hshort.source, proverIntent, hlong.side, decodeFill,
      decodeFees]
  · have hne : short'.sequence ≠ long'.sequence := by omega
    simp [hmaker, hne, decodeExecution, hlong.source, hshort.source, proverIntent, hshort.side,
      decodeFill, decodeFees]

/-- A crossing of the server is a crossing of the guest program. -/
theorem Crosses.follow (hlong : SameOrder long long') (hshort : SameOrder short short')
    (hk : Kept long) (hk' : Kept short) (hmarket : MarketFits market) {fillIndex : ℕ} {trade : Trade}
    {fees : FillFees}
    (h : Crosses H H.poseidon2Hash productBound market fillIndex long short trade fees) :
    ∃ trade' fees' deltas', BatchMatch.Crosses H .exact (proverMarket market) fillIndex long' short'
      trade' fees' deltas' ∧ decodeExecution trade'.execution = trade.execution ∧
        decodeFill trade'.longFill = trade.longFill ∧
        decodeFill trade'.shortFill = trade.shortFill := by
  obtain ⟨hcharged, hlongFill, hshortFill, hexecution⟩ := h
  have hsize := crossingSize_follow hlong hshort
  have hprice := executionPrice_follow hlong hshort
  rw [hsize, hprice] at hcharged hlongFill hshortFill hexecution
  obtain ⟨hlongLe, hshortLe⟩ := BatchMatch.crossingSize_le long' short'
  obtain ⟨hsize, -, -, fees', hfees', rfl⟩ := fillFees_follow (k := .exact) hcharged
  obtain ⟨hgross, hrebate⟩ := BatchMatch.fillFees_lt hfees'
  have hmaker : SameDelta (decodeFees fees').makerRebate fees'.makerRebate :=
    ⟨fees'.makerRebate, hrebate, Or.inl ⟨rfl, rfl⟩⟩
  have htaker : SameDelta (-(decodeFees fees').grossTakerFee) (-fees'.grossTakerFee) :=
    ⟨fees'.grossTakerFee, hgross, Or.inr ⟨rfl, rfl⟩⟩
  have hlongDelta : SameDelta (feeDelta (decodeFees fees') (long.sequence ≤ short.sequence))
      (if long'.sequence ≤ short'.sequence then (fees'.makerRebate, -fees'.grossTakerFee)
        else (-fees'.grossTakerFee, fees'.makerRebate)).1 := by
    unfold feeDelta
    rw [hlong.sequence, hshort.sequence]
    split_ifs
    · exact hmaker
    · exact htaker
  have hshortDelta : SameDelta (feeDelta (decodeFees fees') (¬ long.sequence ≤ short.sequence))
      (if long'.sequence ≤ short'.sequence then (fees'.makerRebate, -fees'.grossTakerFee)
        else (-fees'.grossTakerFee, fees'.makerRebate)).2 := by
    unfold feeDelta
    rw [hlong.sequence, hshort.sequence, ite_not]
    split_ifs
    · exact htaker
    · exact hmaker
  obtain ⟨longFill', hlongFill', hlongDecode⟩ :=
    hlongFill.follow hlong hk hmarket hsize hlongLe hlongDelta
  obtain ⟨shortFill', hshortFill', hshortDecode⟩ :=
    hshortFill.follow hshort hk' hmarket hsize hshortLe hshortDelta
  refine ⟨⟨BatchMatch.createExecution long' short' (BatchMatch.crossingSize long' short')
    (BatchMatch.executionPrice long' short') longFill' shortFill' fees', longFill', shortFill'⟩, fees',
    _, ⟨hfees', BatchMatch.feeDeltas_of_lt hgross hrebate _, hlongFill', hshortFill', rfl⟩, ?_,
    hlongDecode, hshortDecode⟩
  rw [hexecution, createExecution_follow hlong hshort, hlongDecode, hshortDecode]

/-- A fill keeps orders the same. -/
theorem SameOrder.filledBy {o : BookOrder} {g : BatchMatch.BookOrder} (ho : SameOrder o g)
    (hk : Kept o) {size price : U128} {fillIndex : ℕ} {delta' : I128} {fill' : BatchMatch.Fill}
    (hle : size.toNat ≤ g.remaining.toNat)
    (h : BatchMatch.Fills H .exact (proverMarket market) g size price fillIndex delta' fill') :
    SameOrder (filledBy o size.toNat) (BatchMatch.filledBy g size) := by
  have halloc := ho.allocates hk
  have hleft := halloc.left
  have hsize := ho.size_le
  obtain ⟨filled, hallocate⟩ := h.allocated
  obtain ⟨hshare, -⟩ := BatchMatch.allocateMargin_exact rfl rfl hallocate
  have hnext : (g.filled + size).toNat = g.filled.toNat + size.toNat :=
    toNat_add_of_lt (by omega)
  refine ⟨ho.source, ho.limitPrice, ho.margin, ?_, ?_, ?_, ho.size, ho.size_le, ho.sequence, ho.side⟩
  · show allocatedAfter o size.toNat = (BatchMatch.allocatedAfter g size).toNat
    unfold allocatedAfter
    rw [hshare, ho.margin, ho.filled, ho.size, hnext, ← Int.natCast_add, ceilDiv_natCast halloc.pos]
  · show o.filled + size.toNat = (g.filled + size).toNat
    rw [hnext, ho.filled, Int.natCast_add]
  · show o.remaining - size.toNat = (g.remaining - size).toNat
    rw [toNat_sub_of_le hle, ho.remaining, Int.ofNat_sub hle]

end Crossing

/-! ## The loop -/

/-- A book of the server and the one of the guest program. -/
structure SameBook (book : Book) (book' : BatchMatch.Book) : Prop where
  longs : Cursor.Related SameOrder book.longs book'.longs
  shorts : Cursor.Related SameOrder book.shorts book'.shorts
  fills : book'.fills.map decodeFill = book.fills
  executions : book'.executions.map decodeExecution = book.executions
  spentNullifiers : book'.spentNullifiers = book.spentNullifiers
  kept : book.Kept

section Loop

variable {book final : Book} {book' : BatchMatch.Book}

theorem SameOrder.limitPrice_lt {long short : BookOrder} {long' short' : BatchMatch.BookOrder}
    (hlong : SameOrder long long') (hshort : SameOrder short short') :
    long.intent.limitPrice < short.intent.limitPrice ↔ long'.limitPrice < short'.limitPrice := by
  rw [hlong.limitPrice, hshort.limitPrice, BitVec.lt_def]
  omega

theorem SameBook.crossed_none (h : SameBook book book') (hnone : book.crossed = none) :
    book'.crossed = none := by
  cases hcrossed : book'.crossed with
  | none => rfl
  | some pair =>
    obtain ⟨longs', shorts', hlongs', hshorts', hprice⟩ :=
      @BatchMatch.Book.crossed_eq_some book' pair.1 pair.2 hcrossed
    have hlongs := h.longs.after
    have hshorts := h.shorts.after
    rw [hlongs', List.forall₂_cons_right_iff] at hlongs
    rw [hshorts', List.forall₂_cons_right_iff] at hshorts
    obtain ⟨long, longs, hlong, -, hlongs⟩ := hlongs
    obtain ⟨short, shorts, hshort, -, hshorts⟩ := hshorts
    have hsome := Book.crossed_of_after hlongs hshorts
      fun hlt => hprice ((hlong.limitPrice_lt hshort).mp hlt)
    exact absurd (hnone.symm.trans hsome) (Option.some_ne_none _).symm

theorem SameBook.crossed_some (h : SameBook book book') {long short : BookOrder}
    (hcrossed : book.crossed = some (long, short)) : ∃ long' short',
      book'.crossed = some (long', short') ∧ SameOrder long long' ∧ SameOrder short short' := by
  obtain ⟨longs, shorts, hlongs, hshorts, hprice⟩ := Book.crossed_eq_some hcrossed
  have hlongs' := h.longs.after
  have hshorts' := h.shorts.after
  rw [hlongs, List.forall₂_cons_left_iff] at hlongs'
  rw [hshorts, List.forall₂_cons_left_iff] at hshorts'
  obtain ⟨long', longs', hlong, -, hlongs'⟩ := hlongs'
  obtain ⟨short', shorts', hshort, -, hshorts'⟩ := hshorts'
  exact ⟨long', short', BatchMatch.Book.crossed_of_after hlongs' hshorts'
    fun hlt => hprice ((hlong.limitPrice_lt hshort).mpr hlt), hlong, hshort⟩

/-- A round of the server is a round of the guest program. -/
theorem SameBook.round (hmarket : MarketFits market) (h : SameBook book book')
    {long short : BookOrder} (hcrossed : book.crossed = some (long, short))
    (hround : matchPair H H.poseidon2Hash productBound market book long short = some final) :
    ∃ pair' final', book'.crossed = some pair' ∧
      BatchMatch.matchPair H .exact (proverMarket market) book' pair'.1 pair'.2 = some final' ∧
      SameBook final final' := by
  obtain ⟨long', short', hcrossed', hlong, hshort⟩ := h.crossed_some hcrossed
  obtain ⟨longs, shorts, hlongs, hshorts, -⟩ := Book.crossed_eq_some hcrossed
  obtain ⟨trade, fees, hcross, rfl⟩ := matchPair_eq_some hround
  have hk := h.kept long (List.mem_append_left _ (Cursor.mem_all hlongs))
  have hk' := h.kept short (List.mem_append_right _ (Cursor.mem_all hshorts))
  have hlength : book.fills.length = book'.fills.length := by
    rw [← h.fills, List.length_map]
  rw [hlength] at hcross
  obtain ⟨trade', fees', deltas', hcross', hexecution, hlongFill, hshortFill⟩ :=
    hcross.follow hlong hshort hk hk' hmarket
  obtain ⟨hlongLe, hshortLe⟩ := BatchMatch.crossingSize_le long' short'
  have hsize := crossingSize_follow hlong hshort
  have hlongFilled := hlong.filledBy hk hlongLe hcross'.longFill
  have hshortFilled := hshort.filledBy hk' hshortLe hcross'.shortFill
  rw [← hsize] at hlongFilled hshortFilled
  have hdone {o : BookOrder} {g : BatchMatch.BookOrder} (ho : SameOrder o g) :
      o.remaining = 0 ↔ g.remaining = 0 := by
    rw [ho.remaining, BitVec.toNat_eq]
    exact Int.natCast_eq_zero
  refine ⟨(long', short'), book'.cross long' short' trade', hcrossed',
    BatchMatch.matchPair_eq_some.mpr ⟨trade', fees', deltas', hcross', rfl⟩, ?_, ?_, ?_, ?_, ?_,
    h.kept.cross hcrossed trade⟩
  · exact h.longs.put hlongFilled (hdone hlongFilled)
  · exact h.shorts.put hshortFilled (hdone hshortFilled)
  · show (book'.fills ++ [trade'.longFill, trade'.shortFill]).map decodeFill =
      book.fills ++ [trade.longFill, trade.shortFill]
    rw [List.map_append, h.fills, ← hlongFill, ← hshortFill]
    rfl
  · show (book'.executions ++ [trade'.execution]).map decodeExecution =
      book.executions ++ [trade.execution]
    rw [List.map_append, h.executions, ← hexecution]
    rfl
  · show BatchMatch.pushUnique (BatchMatch.pushUnique book'.spentNullifiers
      long'.intent.noteNullifier) short'.intent.noteNullifier = addUnique (addUnique _ _) _
    rw [h.spentNullifiers, hlong.source, hshort.source]
    rfl

/-- The loop of the server is the loop of the guest program. -/
theorem matchLoop_follow (hmarket : MarketFits market) (h : SameBook book book')
    (hloop : matchLoop H H.poseidon2Hash productBound market book = some final) :
    ∃ final', BatchMatch.matchLoop H .exact (proverMarket market) book' = some final' ∧
      SameBook final final' := by
  have hrounds : book'.rounds = book.rounds := by
    unfold BatchMatch.Book.rounds Book.rounds
    rw [h.longs.after.length_eq, h.shorts.after.length_eq]
  unfold BatchMatch.matchLoop
  rw [hrounds]
  refine loop_simulates (fun _ _ hR hnone => hR.crossed_none hnone) ?_ h hloop
  rintro book book' ⟨long, short⟩ final hR hcrossed hround
  exact hR.round hmarket hcrossed hround

end Loop

/-! ## The orders -/

/-- The integers of an order fit the words of the guest program. -/
structure OrderFits (intent : PrivateMatchIntent) : Prop where
  signedSize : -2 ^ 127 ≤ intent.signedSize ∧ intent.signedSize < 2 ^ 127
  limitPrice : intent.limitPrice < 2 ^ 128
  margin : intent.margin < 2 ^ 128

theorem toNat_abs (x : I128) : x.abs.toNat = x.toInt.natAbs := by
  have hlt := x.isLt
  have hint := BitVec.toInt_eq_toNat_cond x
  unfold BitVec.abs
  rw [BitVec.msb_eq_toInt]
  by_cases hneg : x.toInt < 0
  · rw [if_pos (decide_eq_true hneg)]
    show (-x).toNat = _
    rw [BitVec.toNat_neg]
    split_ifs at hint <;> omega
  · rw [if_neg (by rw [decide_eq_false hneg]; exact Bool.false_ne_true)]
    split_ifs at hint <;> omega

theorem toInt_ofInt {z : ℤ} (h : -2 ^ 127 ≤ z ∧ z < 2 ^ 127) : (BitVec.ofInt 128 z).toInt = z := by
  rw [BitVec.toInt_ofInt, Int.bmod_def]
  omega

theorem toBookOrder_follow {intent : PrivateMatchIntent} {sequence : ℕ} {o : BookOrder}
    (hfits : OrderFits intent) (h : toBookOrder intent sequence = some o) :
    ∃ g, BatchMatch.toBookOrder (proverIntent intent) sequence = some g ∧ SameOrder o g := by
  unfold toBookOrder at h
  simp only [Option.bind_eq_bind, Option.bind_eq_some_iff, assert_eq_some, Option.some.injEq] at h
  obtain ⟨_, hsize, _, hprice, _, hmargin, rfl⟩ := h
  obtain ⟨price, hprice'⟩ := exists_word ⟨by omega, hfits.limitPrice⟩
  obtain ⟨margin, hmargin'⟩ := exists_word ⟨by omega, hfits.margin⟩
  have hint := toInt_ofInt hfits.signedSize
  have hrange := hfits.signedSize
  have hparse : parseI128 (proverIntent intent).signedSize =
      some (BitVec.ofInt 128 intent.signedSize) :=
    (BatchMatch.parseI128_decimalSigned _).trans (if_pos hfits.signedSize)
  have habs : (BitVec.ofInt 128 intent.signedSize).abs.toNat = intent.signedSize.natAbs := by
    rw [toNat_abs, hint]
  have hsize' : (if 0 ≤ intent.signedSize then intent.signedSize else -intent.signedSize) =
      (BitVec.ofInt 128 intent.signedSize).abs.toNat := by
    rw [habs]
    split_ifs <;> omega
  have hzero : (0 : U128).toNat = 0 := rfl
  have hpos : (BitVec.ofInt 128 intent.signedSize).abs > 0 ∧ price > 0 ∧ margin > 0 := by
    simp only [gt_iff_lt, BitVec.lt_def, hzero]
    omega
  refine ⟨⟨0, 0, proverIntent intent, price, margin, (BitVec.ofInt 128 intent.signedSize).abs, sequence,
    if 0 ≤ intent.signedSize then .long else .short, (BitVec.ofInt 128 intent.signedSize).abs⟩, ?_, ?_⟩
  · unfold BatchMatch.toBookOrder
    rw [hparse, show parseU128 (proverIntent intent).limitPrice = some price from
      BatchMatch.parseU128_decimalSigned.mpr hprice',
      show parseU128 (proverIntent intent).margin = some margin from
        BatchMatch.parseU128_decimalSigned.mpr hmargin']
    simp only [Option.bind_eq_bind, Option.bind_some, Option.bind_eq_some_iff, assert_eq_some, hint]
    exact ⟨(), hpos.1, (), hpos.2.1, (), hpos.2.2, trivial⟩
  · exact ⟨rfl, hprice', hmargin', rfl, rfl, hsize', hsize', by rw [habs]; omega, rfl, rfl⟩

/-- The orders of a request. -/
theorem toBookOrders_follow {intents : List PrivateMatchIntent} {orders : List BookOrder}
    (hfits : ∀ intent ∈ intents, OrderFits intent) (h : toBookOrders intents = some orders) :
    ∃ orders', BatchMatch.toBookOrders (intents.map proverIntent) = some orders' ∧
      List.Forall₂ SameOrder orders orders' := by
  have hzip : List.Forall₂ (fun (p : PrivateMatchIntent × ℕ) (q : BatchMatch.RecoveredIntent × ℕ) =>
      OrderFits p.1 ∧ q = (proverIntent p.1, p.2)) intents.zipIdx
      ((intents.map proverIntent).zipIdx) := by
    rw [List.zipIdx_map, List.forall₂_map_right_iff, List.forall₂_same]
    exact fun p hp => ⟨hfits p.1 (List.fst_mem_of_mem_zipIdx hp), rfl⟩
  refine Related.mapM_related ?_ hzip h
  rintro ⟨intent, sequence⟩ _ ⟨hfit, rfl⟩ o ho
  exact toBookOrder_follow hfit ho

/-- The sorted book of the orders. -/
theorem sortedBook_follow {orders : List BookOrder} {orders' : List BatchMatch.BookOrder}
    (h : List.Forall₂ SameOrder orders orders') (hkept : ∀ order ∈ orders, Kept order) :
    SameBook (sortedBook orders) (BatchMatch.sortedBook orders') := by
  have hside (side : Side) : List.Forall₂ SameOrder (orders.filter (·.side = side))
      (orders'.filter (·.side = side)) := by
    refine List.rel_filter (fun o g ho => ?_) h
    show decide (o.side = side) = true ↔ decide (g.side = side) = true
    rw [ho.side]
  refine ⟨⟨.nil, ?_⟩, ⟨.nil, ?_⟩, rfl, rfl, rfl, sortedBook_kept hkept⟩
  · refine Related.forall₂_insertionSort (fun a b a' b' hab hab' => ?_) (hside .long)
    unfold longPriority BatchMatch.longPriority
    rw [hab.limitPrice, hab'.limitPrice, hab.sequence, hab'.sequence, BitVec.lt_def, BitVec.toNat_eq]
    omega
  · refine Related.forall₂_insertionSort (fun a b a' b' hab hab' => ?_) (hside .short)
    unfold shortPriority BatchMatch.shortPriority
    rw [hab.limitPrice, hab'.limitPrice, hab.sequence, hab'.sequence, BitVec.lt_def, BitVec.toNat_eq]
    omega

/-- The order of the guest program after the loop is the one that the server finds. -/
theorem afterLoop_follow {orders sources : List BookOrder}
    {filled sources' : List BatchMatch.BookOrder} (hsources : List.Forall₂ SameOrder sources sources')
    (hfresh : List.Forall₂ SameOrder orders (filled.map BatchMatch.fresh))
    (hperm : List.Perm filled sources')
    (hnodup : ((filled.map BatchMatch.fresh).map (·.sequence)).Nodup) :
    List.Forall₂ SameOrder (orders.map (afterLoop sources)) filled := by
  have hinj : (sources'.map (·.sequence)).Nodup := by
    rw [List.map_map] at hnodup
    exact (hperm.map _).nodup_iff.mp hnodup
  rw [List.forall₂_map_right_iff, List.forall₂_iff_zip] at hfresh
  rw [List.forall₂_map_left_iff, List.forall₂_iff_zip]
  refine ⟨hfresh.1, fun {o f} hzip => ?_⟩
  have hsame := hfresh.2 hzip
  have hmem : f ∈ sources' := hperm.mem_iff.mp (List.of_mem_zip hzip).2
  have hfind : sources'.find? (·.sequence = f.sequence) = some f := Related.find?_of_nodup hinj hmem
  have hrel := Related.find?_related (p := fun s => s.sequence = o.sequence)
    (q := fun s => s.sequence = f.sequence) (fun a b hab => by
      rw [hab.sequence, hsame.sequence]
      rfl) hsources
  rw [hfind] at hrel
  unfold afterLoop
  generalize sources.find? (·.sequence = o.sequence) = found at hrel ⊢
  cases hrel with
  | some h => exact h

/-- The orders after the loop: the server shares objects, the guest program writes back. -/
theorem matchOrders_follow {input : MatchInput} {book : Book} {orders : List BookOrder}
    (hmarket : MarketFits input.market) (hfits : ∀ intent ∈ input.intents, OrderFits intent)
    (h : matchOrders H H.poseidon2Hash productBound input = some (book, orders)) :
    ∃ book' orders', BatchMatch.matchOrders H .exact (proverMarket input.market)
        (input.intents.map proverIntent) = some (book', orders') ∧
      SameBook book book' ∧ List.Forall₂ SameOrder orders orders' := by
  unfold matchOrders at h
  simp only [Option.bind_eq_bind, Option.bind_eq_some_iff, assert_eq_some, Option.some.injEq,
    Prod.mk.injEq] at h
  obtain ⟨start, hstart, _, hnodup, book, hloop, _, hne, rfl, rfl⟩ := h
  obtain ⟨start', hstart', hsame⟩ := toBookOrders_follow hfits hstart
  obtain ⟨book', hloop', hbook⟩ :=
    matchLoop_follow hmarket (sortedBook_follow hsame (toBookOrders_kept hstart)) hloop
  have hnullifiers : start'.map (·.intent.noteNullifier) = start.map (·.intent.noteNullifier) := by
    rw [← List.forall₂_eq_eq_eq, List.forall₂_map_left_iff, List.forall₂_map_right_iff]
    refine hsame.flip.imp fun g o ho => ?_
    rw [ho.source]
    rfl
  have hfills : book'.fills ≠ [] := by
    rw [← hbook.fills] at hne
    exact fun hnil => hne (by rw [hnil]; rfl)
  have hadmitted := BatchMatch.toBookOrders_admitted hstart' (by rw [hnullifiers]; exact hnodup)
  refine ⟨book', (book'.longs.all ++ book'.shorts.all).foldl BatchMatch.writeBack start', ?_, hbook, ?_⟩
  · unfold BatchMatch.matchOrders
    simp only [Option.bind_eq_bind, Option.bind_eq_some_iff, assert_eq_some, Option.some.injEq]
    exact ⟨start', hstart', (), by rw [hnullifiers]; exact hnodup, book', hloop', (), hfills, rfl⟩
  · obtain ⟨trades, htrading⟩ := BatchMatch.matchLoop_trading hadmitted hloop'
    have hback := htrading.writtenBack hadmitted
    exact afterLoop_follow (List.rel_append hbook.longs.all hbook.shorts.all)
      (hback.fresh.symm ▸ hsame) hback.perm (hback.fresh.symm ▸ hadmitted.nodup_sequences)

end Pnlx.Server
