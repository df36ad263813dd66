import Pnlx.BatchMatch.Arithmetic
import Pnlx.BatchMatch.Texts
import Pnlx.Circuits.Notes

/-!
# Orders and fills of the batch matcher

The guest program crosses the long and the short orders of a request. A failed assertion aborts it
(`none`). The functions take the `Checks` of the build; `checked_add` and `checked_sub` abort in
every build.

1. `toBookOrder`, `fillFees`, `createFill`: one order, the fees of one crossing, one fill.
2. `describeFill_eq_some`: a fill commits to the position that it describes.
-/

namespace Pnlx.BatchMatch

variable {H : Host}

def priceScale : U128 := 100000000

def rateScale : U128 := 1000000

def takerFeePpm : U128 := 500

def makerRebatePpm : U128 := 150

def insuranceFeePpm : U128 := 100

/-! ## Data -/

structure MarketInput where
  fundingIndex : Text
  initialMarginRate : Text
  marketId : Text
  maxLeverage : Text
  deriving DecidableEq

structure RecoveredIntent where
  batchId : Text
  intentCommitment : Text
  limitPrice : Text
  margin : Text
  marketId : Text
  noteChangeCommitment : Text
  noteNullifier : Text
  ownerCommitment : Text
  signedSize : Text
  sourceIntentCommitment : Option Text
  deriving DecidableEq

inductive Side where
  | long
  | short
  deriving DecidableEq

def sideStr : Side → Text
  | .long => "long".toList
  | .short => "short".toList

structure BookOrder where
  allocatedMargin : U128
  filled : U128
  intent : RecoveredIntent
  limitPrice : U128
  margin : U128
  remaining : U128
  sequence : ℕ
  side : Side
  size : U128
  deriving DecidableEq

structure Fill where
  intentCommitment : Text
  margin : U128
  marketId : Text
  ownerCommitment : Text
  positionCommitment : Text
  positionNullifier : Text
  price : U128
  side : Side
  size : U128
  deriving DecidableEq

structure Execution where
  grossTakerFee : U128
  makerRebate : U128
  insurance : U128
  treasury : U128
  longIntentCommitment : Text
  longLimitPrice : U128
  longNoteNullifier : Text
  longPositionCommitment : Text
  makerIntentCommitment : Text
  makerSide : Side
  price : U128
  shortIntentCommitment : Text
  shortLimitPrice : U128
  shortNoteNullifier : Text
  shortPositionCommitment : Text
  size : U128
  takerIntentCommitment : Text
  deriving DecidableEq

structure FillFees where
  grossTakerFee : U128
  makerRebate : U128
  insurance : U128
  treasury : U128
  deriving DecidableEq

/-! ## Orders -/

def toBookOrder (intent : RecoveredIntent) (sequence : ℕ) : Option BookOrder := do
  let signedSize ← parseI128 intent.signedSize
  let side := if 0 ≤ signedSize.toInt then Side.long else Side.short
  let size := signedSize.abs
  let limitPrice ← parseU128 intent.limitPrice
  let margin ← parseU128 intent.margin
  assert (size > 0)
  assert (limitPrice > 0)
  assert (margin > 0)
  some ⟨0, 0, intent, limitPrice, margin, size, sequence, side, size⟩

/-- What an order takes from its intent. -/
structure OrderOf (intent : RecoveredIntent) (sequence : ℕ) (order : BookOrder) : Prop where
  source : order.intent = intent
  place : order.sequence = sequence
  signedSize : ∃ z : I128, parseI128 intent.signedSize = some z ∧ order.size = z.abs ∧
    order.side = if 0 ≤ z.toInt then .long else .short
  limitPrice : parseU128 intent.limitPrice = some order.limitPrice
  margin : parseU128 intent.margin = some order.margin
  size_pos : order.size > 0
  limitPrice_pos : order.limitPrice > 0
  margin_pos : order.margin > 0
  start : order.filled = 0 ∧ order.allocatedMargin = 0 ∧ order.remaining = order.size

theorem toBookOrder_eq_some {intent : RecoveredIntent} {sequence : ℕ} {order : BookOrder}
    (h : toBookOrder intent sequence = some order) : OrderOf intent sequence order := by
  unfold toBookOrder at h
  simp only [Option.bind_eq_bind, Option.bind_eq_some_iff, assert_eq_some, Option.some.injEq] at h
  obtain ⟨z, hz, limitPrice, hprice, margin, hmargin, _, hsize, _, hpos, _, hpos', rfl⟩ := h
  exact ⟨rfl, rfl, ⟨z, hz, rfl, rfl⟩, hprice, hmargin, hsize, hpos, hpos', rfl, rfl, rfl⟩

/-- `compare_long_priority(a, b)` is not `Greater`. -/
def longPriority (a b : BookOrder) : Prop :=
  b.limitPrice < a.limitPrice ∨ (b.limitPrice = a.limitPrice ∧ a.sequence ≤ b.sequence)

/-- `compare_short_priority(a, b)` is not `Greater`. -/
def shortPriority (a b : BookOrder) : Prop :=
  a.limitPrice < b.limitPrice ∨ (a.limitPrice = b.limitPrice ∧ a.sequence ≤ b.sequence)

instance : DecidableRel longPriority := fun a b => by unfold longPriority; infer_instance

instance : DecidableRel shortPriority := fun a b => by unfold shortPriority; infer_instance

def executionPrice (long short : BookOrder) : U128 :=
  if long.sequence ≤ short.sequence then long.limitPrice else short.limitPrice

/-! ## Fees and risk checks -/

def notional (k : Checks) (size price : U128) : Option U128 := do
  let value ← mul k size price
  some (value / priceScale)

def fillFees (k : Checks) (size price : U128) : Option FillFees := do
  let value ← notional k size price
  let takerFee ← mul k value takerFeePpm
  let rebate ← mul k value makerRebatePpm
  let insuranceFee ← mul k value insuranceFeePpm
  let grossTakerFee := takerFee / rateScale
  let makerRebate := rebate / rateScale
  let insurance := insuranceFee / rateScale
  let afterRebate ← sub k grossTakerFee makerRebate
  let treasury ← sub k afterRebate insurance
  some ⟨grossTakerFee, makerRebate, insurance, treasury⟩

def hasInitialMargin (k : Checks) (size price margin initialRate : U128) : Option Bool := do
  let value ← notional k size price
  let required ← mul k value initialRate
  some (decide (margin ≥ required / rateScale))

def hasMaxLeverage (k : Checks) (size price margin maxLeverage : U128) : Option Bool :=
  if margin > 0 ∧ maxLeverage > 0 then do
    let value ← notional k size price
    let limit ← mul k margin maxLeverage
    some (decide (value ≤ limit))
  else some false

/-- The callers divide by the size of an order, which is not zero. -/
def ceilDiv (k : Checks) (value divisor : U128) : Option U128 := do
  let total ← add k value divisor
  let numerator ← sub k total 1
  some (numerator / divisor)

/-! ## Fills -/

/-- The margin of a fill, and the order after it. -/
def allocateMargin (k : Checks) (order : BookOrder) (fillSize : U128) :
    Option (U128 × BookOrder) := do
  let nextFilled ← add k order.filled fillSize
  let value ← mul k order.margin nextFilled
  let nextAllocated ← ceilDiv k value order.size
  let fillMargin ← sub k nextAllocated order.allocatedMargin
  some (fillMargin, { order with filled := nextFilled, allocatedMargin := nextAllocated })

def circuitPositionCommitment (H : Host) (marketDigest : Text) (side : Side)
    (size entryPrice margin fundingIndex : U128) (ownerDigest rhoDigest blinding : Text) :
    Option Text := do
  let sideValue := if side = .long then ['1'] else ['2']
  let market ← fieldHashPair H marketDigest sideValue
  let trade ← fieldHashPair H (decimal size.toNat) (decimal entryPrice.toNat)
  let left ← fieldHashPair H market trade
  let economics ← fieldHashPair H (decimal margin.toNat) (decimal fundingIndex.toNat)
  let entropy ← fieldHashPair H rhoDigest blinding
  let owner ← fieldHashPair H ownerDigest entropy
  let right ← fieldHashPair H economics owner
  fieldHashPair H left right

/-- The margin of a fill after its fee or rebate. -/
def marginAfterFee (k : Checks) (allocatedMargin : U128) (feeDelta : I128) : Option U128 :=
  if feeDelta.toInt < 0 then checkedSub allocatedMargin feeDelta.abs
  else do
    let rebate ← asU128 k feeDelta
    checkedAdd allocatedMargin rebate

/-- The risk checks of a fill. -/
def assertFill (k : Checks) (market : MarketInput) (size price margin : U128) : Option Unit := do
  let initialMarginRate ← parseU128 market.initialMarginRate
  let enough ← hasInitialMargin k size price margin initialMarginRate
  assert (enough = true)
  let maxLeverage ← parseU128 market.maxLeverage
  let allowed ← hasMaxLeverage k size price margin maxLeverage
  assert (allowed = true)

/-- The fill of an order and its margin: its texts and digests. -/
def describeFill (H : Host) (market : MarketInput) (order : BookOrder) (size price margin : U128)
    (fillIndex : ℕ) : Option Fill := do
  let intent := order.intent
  let rho := intent.intentCommitment ++ ":position:".toList ++ decimal fillIndex
  let blindingRaw := intent.intentCommitment ++ ":blinding:".toList ++ decimal fillIndex
  let marketDigest := digestToFieldHex H ("market:".toList ++ intent.marketId)
  let ownerDigest := digestToFieldHex H ("owner:".toList ++ intent.ownerCommitment)
  let rhoDigest := digestToFieldHex H ("rho:".toList ++ rho)
  let blinding := digestToFieldHex H ("blinding:".toList ++ blindingRaw)
  let spendSecretDigest :=
    digestToFieldHex H ("spend:".toList ++ intent.ownerCommitment ++ ":".toList ++ rho)
  let fundingIndex ← parseU128 market.fundingIndex
  let positionCommitment ← circuitPositionCommitment H marketDigest order.side size price margin
    fundingIndex ownerDigest rhoDigest blinding
  let positionNullifier ← fieldHashPair H spendSecretDigest rhoDigest
  some ⟨intent.intentCommitment, margin, intent.marketId, intent.ownerCommitment,
    positionCommitment, positionNullifier, price, order.side, size⟩

/-- A fill of an order, and the order after it. -/
def createFill (H : Host) (k : Checks) (market : MarketInput) (order : BookOrder)
    (size price : U128) (fillIndex : ℕ) (feeDelta : I128) : Option (Fill × BookOrder) := do
  let (allocatedMargin, filledOrder) ← allocateMargin k order size
  let margin ← marginAfterFee k allocatedMargin feeDelta
  assertFill k market size price margin
  let fill ← describeFill H market order size price margin fillIndex
  some (fill, filledOrder)

def createExecution (long short : BookOrder) (size price : U128) (longFill shortFill : Fill)
    (fees : FillFees) : Execution :=
  let maker := if long.sequence ≤ short.sequence then long else short
  let taker := if maker.sequence = long.sequence then short else long
  { grossTakerFee := fees.grossTakerFee
    makerRebate := fees.makerRebate
    insurance := fees.insurance
    treasury := fees.treasury
    longIntentCommitment := long.intent.intentCommitment
    longLimitPrice := long.limitPrice
    longNoteNullifier := long.intent.noteNullifier
    longPositionCommitment := longFill.positionCommitment
    makerIntentCommitment := maker.intent.intentCommitment
    makerSide := maker.side
    price
    shortIntentCommitment := short.intent.intentCommitment
    shortLimitPrice := short.limitPrice
    shortNoteNullifier := short.intent.noteNullifier
    shortPositionCommitment := shortFill.positionCommitment
    size
    takerIntentCommitment := taker.intent.intentCommitment }

/-! ## The position of a fill -/

/-- The pair hash of the matcher is the pair hash of the circuits. -/
def SamePairHash (H : Host) : Prop := ∀ x y, H.poseidon2Hash x y = hashPair H x y

theorem fieldHashPair_eq_some (hH : SamePairHash H) {left right : Text} {x y : Fr}
    (hx : toFieldBiguint left = some x) (hy : toFieldBiguint right = some y) :
    fieldHashPair H left right = some (fieldHex (hashPair H x y)) := by
  unfold fieldHashPair
  rw [hx, hy, ← hH x y]
  rfl

/-- The commitment of the matcher is the commitment of the circuits. -/
theorem circuitPositionCommitment_eq_some (hH : SamePairHash H) (side : Side)
    (size entryPrice margin fundingIndex : U128) (market owner rho blinding : Fr) :
    circuitPositionCommitment H (fieldHex market) side size entryPrice margin fundingIndex
        (fieldHex owner) (fieldHex rho) (fieldHex blinding) =
      some (fieldHex (positionCommitment H (side = .long) size entryPrice margin fundingIndex market
        owner rho blinding)) := by
  have hside : toFieldBiguint (if side = .long then ['1'] else ['2']) =
      some (if side = .long then 1 else 2) := by
    cases side <;> decide +kernel
  have hfield (x : Fr) : toFieldBiguint (fieldHex x) = some x := toFieldBiguint_fieldHex x
  unfold circuitPositionCommitment
  simp only [fieldHashPair_eq_some hH (hfield _) hside, fieldHashPair_eq_some hH (hfield _) (hfield _),
    fieldHashPair_eq_some hH (toFieldBiguint_decimal _) (toFieldBiguint_decimal _),
    Option.bind_eq_bind, Option.bind_some]
  simp only [positionCommitment, decide_eq_true_eq]

/-- The position that a fill of an order commits to. -/
def fillPosition (H : Host) (order : BookOrder) (size price margin fundingIndex : U128)
    (fillIndex : ℕ) : Position :=
  let intent := order.intent
  let digest (text : Text) := digestToField H (String.ofList text)
  ⟨order.side = .long, size, price, margin, fundingIndex, digest ("market:".toList ++ intent.marketId),
    digest ("owner:".toList ++ intent.ownerCommitment),
    digest ("rho:".toList ++
      (intent.intentCommitment ++ ":position:".toList ++ decimal fillIndex)),
    digest ("blinding:".toList ++
      (intent.intentCommitment ++ ":blinding:".toList ++ decimal fillIndex))⟩

theorem describeFill_eq_some (hH : SamePairHash H) {market : MarketInput} {order : BookOrder}
    {size price margin : U128} {fillIndex : ℕ} {fill : Fill}
    (h : describeFill H market order size price margin fillIndex = some fill) :
    ∃ fundingIndex, parseU128 market.fundingIndex = some fundingIndex ∧
      fill.positionCommitment =
        fieldHex ((fillPosition H order size price margin fundingIndex fillIndex).commitment H) := by
  unfold describeFill digestToFieldHex at h
  simp only [Option.bind_eq_bind, Option.bind_eq_some_iff] at h
  obtain ⟨index, hindex, commitment, hcommitment, nullifier, -, hfill⟩ := h
  rw [circuitPositionCommitment_eq_some hH] at hcommitment
  refine ⟨index, hindex, ?_⟩
  rw [← Option.some.inj hfill]
  exact (Option.some.inj hcommitment).symm

/-- What a fill repeats of its order and its crossing. -/
theorem describeFill_data {market : MarketInput} {order : BookOrder} {size price margin : U128}
    {fillIndex : ℕ} {fill : Fill}
    (h : describeFill H market order size price margin fillIndex = some fill) :
    fill.intentCommitment = order.intent.intentCommitment ∧
      fill.marketId = order.intent.marketId ∧
      fill.ownerCommitment = order.intent.ownerCommitment ∧ fill.side = order.side ∧
      fill.size = size ∧ fill.price = price ∧ fill.margin = margin := by
  unfold describeFill at h
  simp only [Option.bind_eq_bind, Option.bind_eq_some_iff] at h
  obtain ⟨_, -, _, -, _, -, hfill⟩ := h
  rw [← Option.some.inj hfill]
  exact ⟨rfl, rfl, rfl, rfl, rfl, rfl, rfl⟩

end Pnlx.BatchMatch
