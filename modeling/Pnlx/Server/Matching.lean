import Pnlx.BatchMatch.Orders
import Pnlx.Lib.Cursor
import Pnlx.Server.Texts

/-!
# The matcher of the server

`BatchMatcherService.match`: the same loop as in the guest program, on integers without bounds. The
functions take a bound on the products that they compute. Without a bound (`none`) they are the
functions of the server.

1. `matchPair`, `matchLoop`: one crossing, and the loop.
2. `matchOrders`, `matchBatch`: the match of an input, and its result.
3. `matchBatch_agrees`: a run whose products stay below a bound returns the same without it.
-/

namespace Pnlx.Server

open BatchMatch (Text Side sideStr decimal)

variable {H : Host} {poseidon2Hash : Fr → Fr → Fr} {bound : Option ℤ}

/-! ## Data -/

structure PrivateMatchIntent where
  batchId : Text
  intentCommitment : Text
  limitPrice : ℤ
  margin : ℤ
  marketId : Text
  noteChangeCommitment : Text
  noteNullifier : Text
  ownerCommitment : Text
  signedSize : ℤ
  sourceIntentCommitment : Option Text
  deriving DecidableEq

structure MarketConfig where
  fundingIndex : ℤ
  initialMarginRate : ℤ
  maintenanceMarginRate : ℤ
  marketId : Text
  maxLeverage : ℤ
  deriving DecidableEq

structure MatchInput where
  batchId : Text
  intents : List PrivateMatchIntent
  market : MarketConfig
  deriving DecidableEq

structure BookOrder where
  allocatedMargin : ℤ
  filled : ℤ
  intent : PrivateMatchIntent
  remaining : ℤ
  sequence : ℕ
  side : Side
  size : ℤ
  deriving DecidableEq

structure FillFees where
  grossTakerFee : ℤ
  makerRebate : ℤ
  insurance : ℤ
  treasury : ℤ
  deriving DecidableEq

structure Fill where
  intentCommitment : Text
  marketId : Text
  ownerCommitment : Text
  side : Side
  size : ℤ
  price : ℤ
  margin : ℤ
  positionCommitment : Text
  positionNullifier : Text
  deriving DecidableEq

structure MatchExecution where
  grossTakerFee : ℤ
  makerRebate : ℤ
  insurance : ℤ
  treasury : ℤ
  longIntentCommitment : Text
  longLimitPrice : ℤ
  longNoteNullifier : Text
  longPositionCommitment : Text
  makerIntentCommitment : Text
  makerSide : Side
  price : ℤ
  shortIntentCommitment : Text
  shortLimitPrice : ℤ
  shortNoteNullifier : Text
  shortPositionCommitment : Text
  size : ℤ
  takerIntentCommitment : Text
  deriving DecidableEq

structure OrderUpdate where
  intentCommitment : Text
  residualCommitment : Option Text
  status : Text
  deriving DecidableEq

structure MatchResult where
  executions : List MatchExecution
  fees : FillFees
  fills : List Fill
  marginChangeCommitments : List Text
  orderUpdates : List OrderUpdate
  residuals : List PrivateMatchIntent
  spentNullifiers : List Text
  aggregateVolume : ℤ
  openInterestDelta : ℤ
  residualSize : ℤ
  totalLongSize : ℤ
  totalShortSize : ℤ
  matchTranscriptDigest : Text
  deriving DecidableEq

/-- The state of the loop. -/
structure Book where
  longs : Cursor BookOrder
  shorts : Cursor BookOrder
  fills : List Fill
  executions : List MatchExecution
  spentNullifiers : List Text
  deriving DecidableEq

/-! ## Market arithmetic -/

def priceScale : ℤ := 100000000

def rateScale : ℤ := 1000000

def takerFeePpm : ℤ := 500

def makerRebatePpm : ℤ := 150

def insuranceFeePpm : ℤ := 100

/-- `x * y`, if it is below the bound. -/
def times (bound : Option ℤ) (x y : ℤ) : Option ℤ :=
  if ∀ b ∈ bound, x * y < b then some (x * y) else none

def abs (value : ℤ) : ℤ := if value < 0 then -value else value

def notional (bound : Option ℤ) (size price : ℤ) : Option ℤ := do
  let value ← times bound (abs size) price
  some (value.tdiv priceScale)

/-- `initialMargin` and `maintenanceMargin`. -/
def marginAt (bound : Option ℤ) (size price rate : ℤ) : Option ℤ := do
  let value ← notional bound size price
  let required ← times bound value rate
  some (required.tdiv rateScale)

def hasInitialMargin (bound : Option ℤ) (size price margin initialRate : ℤ) : Option Bool := do
  let required ← marginAt bound size price initialRate
  some (decide (margin ≥ required))

def hasMaxLeverage (bound : Option ℤ) (size price margin maxLeverage : ℤ) : Option Bool :=
  if margin ≤ 0 ∨ maxLeverage ≤ 0 then some false
  else do
    let value ← notional bound size price
    let limit ← times bound margin maxLeverage
    some (decide (value ≤ limit))

def fillFees (bound : Option ℤ) (size price : ℤ) : Option FillFees := do
  assert (¬ (size ≤ 0 ∨ price ≤ 0))
  let value ← notional bound size price
  let takerFee ← times bound value takerFeePpm
  let rebate ← times bound value makerRebatePpm
  let insuranceFee ← times bound value insuranceFeePpm
  let grossTakerFee := takerFee.tdiv rateScale
  let makerRebate := rebate.tdiv rateScale
  let insurance := insuranceFee.tdiv rateScale
  some ⟨grossTakerFee, makerRebate, insurance, grossTakerFee - makerRebate - insurance⟩

/-- `MatchRiskEngine.assertFill`. -/
def assertFill (bound : Option ℤ) (market : MarketConfig) (size price margin : ℤ) :
    Option Unit := do
  let enough ← hasInitialMargin bound size price margin market.initialMarginRate
  assert (enough = true)
  let allowed ← hasMaxLeverage bound size price margin market.maxLeverage
  assert (allowed = true)
  let maintenance ← marginAt bound size price market.maintenanceMarginRate
  assert (¬ margin ≤ maintenance)

/-! ## Orders -/

def toBookOrder (intent : PrivateMatchIntent) (sequence : ℕ) : Option BookOrder := do
  let side := if 0 ≤ intent.signedSize then Side.long else Side.short
  let size := if 0 ≤ intent.signedSize then intent.signedSize else -intent.signedSize
  assert (size ≠ 0)
  assert (¬ intent.limitPrice ≤ 0)
  assert (¬ intent.margin ≤ 0)
  some ⟨0, 0, intent, size, sequence, side, size⟩

/-- `compareLongPriority(a, b)` is not positive. -/
def longPriority (a b : BookOrder) : Prop :=
  b.intent.limitPrice < a.intent.limitPrice ∨
    (b.intent.limitPrice = a.intent.limitPrice ∧ a.sequence ≤ b.sequence)

/-- `compareShortPriority(a, b)` is not positive. -/
def shortPriority (a b : BookOrder) : Prop :=
  a.intent.limitPrice < b.intent.limitPrice ∨
    (a.intent.limitPrice = b.intent.limitPrice ∧ a.sequence ≤ b.sequence)

instance : DecidableRel longPriority := fun a b => by unfold longPriority; infer_instance

instance : DecidableRel shortPriority := fun a b => by unfold shortPriority; infer_instance

def executionPrice (long short : BookOrder) : ℤ :=
  if long.sequence ≤ short.sequence then long.intent.limitPrice else short.intent.limitPrice

/-! ## Fills -/

def ceilDiv (value divisor : ℤ) : ℤ := (value + divisor - 1).tdiv divisor

/-- The margin of a fill, and the order after it. -/
def allocateMargin (bound : Option ℤ) (order : BookOrder) (fillSize : ℤ) :
    Option (ℤ × BookOrder) := do
  let nextFilled := order.filled + fillSize
  let value ← times bound order.intent.margin nextFilled
  let nextAllocatedMargin := ceilDiv value order.size
  some (nextAllocatedMargin - order.allocatedMargin,
    { order with filled := nextFilled, allocatedMargin := nextAllocatedMargin })

def circuitPositionCommitment (poseidon2Hash : Fr → Fr → Fr) (marketDigest : Text) (side : Side)
    (size entryPrice margin fundingIndex : ℤ) (ownerDigest rhoDigest blinding : Text) :
    Option Text := do
  let side := if side = .long then 1 else 2
  let market ← fieldHashPair poseidon2Hash (.hex marketDigest) (.bigint side)
  let trade ← fieldHashPair poseidon2Hash (.bigint size) (.bigint entryPrice)
  let left ← fieldHashPair poseidon2Hash (.hex market) (.hex trade)
  let economics ← fieldHashPair poseidon2Hash (.bigint margin) (.bigint fundingIndex)
  let entropy ← fieldHashPair poseidon2Hash (.hex rhoDigest) (.hex blinding)
  let owner ← fieldHashPair poseidon2Hash (.hex ownerDigest) (.hex entropy)
  let right ← fieldHashPair poseidon2Hash (.hex economics) (.hex owner)
  fieldHashPair poseidon2Hash (.hex left) (.hex right)

/-- The fill of an order and its margin: its texts and digests. -/
def describeFill (H : Host) (poseidon2Hash : Fr → Fr → Fr) (market : MarketConfig)
    (order : BookOrder) (size price margin : ℤ) (fillIndex : ℕ) : Option Fill := do
  let intent := order.intent
  let rho := intent.intentCommitment ++ ":position:".toList ++ decimal fillIndex
  let blinding := intent.intentCommitment ++ ":blinding:".toList ++ decimal fillIndex
  let marketDigest := digestToFieldHex H ("market:".toList ++ intent.marketId)
  let ownerDigest := digestToFieldHex H ("owner:".toList ++ intent.ownerCommitment)
  let rhoDigest := digestToFieldHex H ("rho:".toList ++ rho)
  let blindingDigest := digestToFieldHex H ("blinding:".toList ++ blinding)
  let spendSecretDigest :=
    digestToFieldHex H ("spend:".toList ++ intent.ownerCommitment ++ ':' :: rho)
  let positionCommitment ← circuitPositionCommitment poseidon2Hash marketDigest order.side size price
    margin market.fundingIndex ownerDigest rhoDigest blindingDigest
  let positionNullifier ← fieldHashPair poseidon2Hash (.hex spendSecretDigest) (.hex rhoDigest)
  some
    { intentCommitment := intent.intentCommitment
      marketId := intent.marketId
      ownerCommitment := intent.ownerCommitment
      side := order.side
      size
      price
      margin
      positionCommitment
      positionNullifier }

def createFill (H : Host) (poseidon2Hash : Fr → Fr → Fr) (bound : Option ℤ) (market : MarketConfig)
    (order : BookOrder) (size price : ℤ) (fillIndex : ℕ) (feeDelta : ℤ) :
    Option (Fill × BookOrder) := do
  let (allocated, order) ← allocateMargin bound order size
  let margin := allocated + feeDelta
  assertFill bound market size price margin
  let fill ← describeFill H poseidon2Hash market order size price margin fillIndex
  some (fill, order)

def createExecution (long short : BookOrder) (size price : ℤ) (longFill shortFill : Fill)
    (fees : FillFees) : MatchExecution :=
  let maker := if long.sequence ≤ short.sequence then long else short
  let taker := if long.sequence ≤ short.sequence then short else long
  { grossTakerFee := fees.grossTakerFee
    makerRebate := fees.makerRebate
    insurance := fees.insurance
    treasury := fees.treasury
    longIntentCommitment := long.intent.intentCommitment
    longLimitPrice := long.intent.limitPrice
    longNoteNullifier := long.intent.noteNullifier
    longPositionCommitment := longFill.positionCommitment
    makerIntentCommitment := maker.intent.intentCommitment
    makerSide := maker.side
    price
    shortIntentCommitment := short.intent.intentCommitment
    shortLimitPrice := short.intent.limitPrice
    shortNoteNullifier := short.intent.noteNullifier
    shortPositionCommitment := shortFill.positionCommitment
    size
    takerIntentCommitment := taker.intent.intentCommitment }

/-! ## The loop -/

/-- `spentNullifiers.add(value)`: a set keeps the order of insertion. -/
def addUnique (values : List Text) (value : Text) : List Text :=
  if value ∈ values then values else values ++ [value]

/-- The body of the loop for the current orders `long` and `short`. -/
def matchPair (H : Host) (poseidon2Hash : Fr → Fr → Fr) (bound : Option ℤ) (market : MarketConfig)
    (book : Book) (long short : BookOrder) : Option Book := do
  let size := min long.remaining short.remaining
  let price := executionPrice long short
  let fees ← fillFees bound size price
  let longDelta := if long.sequence ≤ short.sequence then fees.makerRebate else -fees.grossTakerFee
  let shortDelta := if long.sequence ≤ short.sequence then -fees.grossTakerFee else fees.makerRebate
  let (longFill, long) ← createFill H poseidon2Hash bound market long size price book.fills.length
    longDelta
  let (shortFill, short) ← createFill H poseidon2Hash bound market short size price
    (book.fills.length + 1) shortDelta
  let execution := createExecution long short size price longFill shortFill fees
  let long := { long with remaining := long.remaining - size }
  let short := { short with remaining := short.remaining - size }
  some
    { longs := book.longs.put long (long.remaining = 0)
      shorts := book.shorts.put short (short.remaining = 0)
      fills := book.fills ++ [longFill, shortFill]
      executions := book.executions ++ [execution]
      spentNullifiers := addUnique
        (addUnique book.spentNullifiers long.intent.noteNullifier) short.intent.noteNullifier }

/-- The orders that the loop crosses next. -/
def Book.crossed (book : Book) : Option (BookOrder × BookOrder) :=
  match book.longs.after, book.shorts.after with
  | long :: _, short :: _ =>
    if long.intent.limitPrice < short.intent.limitPrice then none else some (long, short)
  | _, _ => none

/-- Every crossing ends at least one order. -/
def Book.rounds (book : Book) : ℕ := book.longs.after.length + book.shorts.after.length

def matchLoop (H : Host) (poseidon2Hash : Fr → Fr → Fr) (bound : Option ℤ) (market : MarketConfig)
    (book : Book) : Option Book :=
  loop Book.crossed (fun book pair => matchPair H poseidon2Hash bound market book pair.1 pair.2)
    book.rounds book

/-! ## The orders of a match -/

def toBookOrders (intents : List PrivateMatchIntent) : Option (List BookOrder) :=
  intents.zipIdx.mapM fun intent => toBookOrder intent.1 intent.2

/-- The book before the loop. -/
def sortedBook (orders : List BookOrder) : Book where
  longs := ⟨[], (orders.filter (·.side = .long)).insertionSort longPriority⟩
  shorts := ⟨[], (orders.filter (·.side = .short)).insertionSort shortPriority⟩
  fills := []
  executions := []
  spentNullifiers := []

/-- The orders of the input share their objects with the sorted lists: `order` as the loop leaves
it. -/
def afterLoop (sources : List BookOrder) (order : BookOrder) : BookOrder :=
  (sources.find? (·.sequence = order.sequence)).getD order

/-- The loop of `match`: the book after it, and the orders with their fills. -/
def matchOrders (H : Host) (poseidon2Hash : Fr → Fr → Fr) (bound : Option ℤ) (input : MatchInput) :
    Option (Book × List BookOrder) := do
  let orders ← toBookOrders input.intents
  -- `rejectDuplicateNullifiers`
  assert (orders.map (·.intent.noteNullifier)).Nodup
  let book ← matchLoop H poseidon2Hash bound input.market (sortedBook orders)
  assert (book.fills ≠ [])
  some (book, orders.map (afterLoop (book.longs.all ++ book.shorts.all)))

/-! ## The result -/

def residualCommitment (H : Host) (order : BookOrder) : Text :=
  hashFields H "residual-order"
    [.text order.intent.intentCommitment, .bigint order.filled, .bigint order.allocatedMargin]

def residualNullifier (H : Host) (order : BookOrder) : Text :=
  hashFields H "residual-nullifier"
    [.text order.intent.intentCommitment, .bigint order.filled, .bigint order.remaining,
      .bigint order.allocatedMargin]

def createOrderUpdate (H : Host) (order : BookOrder) : OrderUpdate :=
  { intentCommitment := order.intent.intentCommitment
    residualCommitment := if order.remaining > 0 then some (residualCommitment H order) else none
    status := if order.remaining > 0 then "partially-filled".toList else "filled".toList }

def createOrderUpdates (H : Host) (orders : List BookOrder) : List OrderUpdate :=
  (orders.filter (·.filled > 0)).map (createOrderUpdate H)

def createResidual (H : Host) (input : MatchInput) (order : BookOrder) :
    Option PrivateMatchIntent := do
  let margin := order.intent.margin - order.allocatedMargin
  assert (¬ margin ≤ 0)
  some
    { batchId := input.batchId
      intentCommitment := residualCommitment H order
      limitPrice := order.intent.limitPrice
      margin
      marketId := order.intent.marketId
      noteChangeCommitment := "0x0".toList
      noteNullifier := residualNullifier H order
      ownerCommitment := order.intent.ownerCommitment
      signedSize := if order.side = .long then order.remaining else -order.remaining
      sourceIntentCommitment := some order.intent.intentCommitment }

def createResiduals (H : Host) (input : MatchInput) (orders : List BookOrder) :
    Option (List PrivateMatchIntent) :=
  (orders.filter fun order => order.filled > 0 ∧ order.remaining > 0).mapM (createResidual H input)

def createMarginChangeCommitments (orders : List BookOrder) : List Text :=
  (orders.filter fun order =>
    order.filled > 0 ∧ order.intent.noteChangeCommitment ≠ "0x0".toList).map
      (·.intent.noteChangeCommitment)

def executionValue (execution : MatchExecution) : Value :=
  .array [.bigint execution.grossTakerFee, .bigint execution.makerRebate,
    .bigint execution.insurance, .bigint execution.treasury, .text execution.longIntentCommitment,
    .bigint execution.longLimitPrice, .text execution.longNoteNullifier,
    .text execution.longPositionCommitment, .text execution.makerIntentCommitment,
    .text (sideStr execution.makerSide), .bigint execution.price,
    .text execution.shortIntentCommitment, .bigint execution.shortLimitPrice,
    .text execution.shortNoteNullifier, .text execution.shortPositionCommitment,
    .bigint execution.size, .text execution.takerIntentCommitment]

def feesValue (fees : FillFees) : Value :=
  .array [.bigint fees.grossTakerFee, .bigint fees.makerRebate, .bigint fees.insurance,
    .bigint fees.treasury]

def fillValue (fill : Fill) : Value :=
  .array [.text fill.intentCommitment, .text fill.marketId, .text fill.ownerCommitment,
    .text (sideStr fill.side), .bigint fill.size, .bigint fill.price, .bigint fill.margin,
    .text fill.positionCommitment, .text fill.positionNullifier]

def updateValue (update : OrderUpdate) : Value :=
  .array [.text update.intentCommitment, .text (update.residualCommitment.getD "0x0".toList),
    .text update.status]

def residualValue (residual : PrivateMatchIntent) : Value :=
  .array [.text residual.intentCommitment, .text residual.marketId, .text residual.ownerCommitment,
    .bigint residual.signedSize, .bigint residual.limitPrice, .bigint residual.margin,
    .text residual.noteNullifier, .text (residual.sourceIntentCommitment.getD "0x0".toList)]

def matchTranscriptDigest (H : Host) (result : MatchResult) : Text :=
  hashFields H "match-transcript"
    [.array (result.executions.map executionValue), feesValue result.fees,
      .array (result.fills.map fillValue), .array (result.marginChangeCommitments.map .text),
      .array (result.orderUpdates.map updateValue), .array (result.residuals.map residualValue),
      .array (result.spentNullifiers.map .text), .bigint result.aggregateVolume,
      .bigint result.openInterestDelta, .bigint result.residualSize, .bigint result.totalLongSize,
      .bigint result.totalShortSize]

def addFees (total : FillFees) (execution : MatchExecution) : FillFees :=
  ⟨total.grossTakerFee + execution.grossTakerFee, total.makerRebate + execution.makerRebate,
    total.insurance + execution.insurance, total.treasury + execution.treasury⟩

def totalFees (executions : List MatchExecution) : FillFees := executions.foldl addFees ⟨0, 0, 0, 0⟩

def sideSize (orders : List BookOrder) (side : Side) : ℤ :=
  ((orders.filter (·.side = side)).map (·.size)).foldl (· + ·) 0

def filledSigned (fills : List Fill) : ℤ :=
  (fills.map fun fill => if fill.side = .long then fill.size else -fill.size).foldl (· + ·) 0

/-- What `match` computes from the fills and the orders. -/
def createResult (H : Host) (input : MatchInput) (book : Book) (orders : List BookOrder) :
    Option MatchResult := do
  let aggregateVolume := (book.fills.map (·.size)).foldl (· + ·) 0
  let totalLongSize := sideSize orders .long
  let totalShortSize := sideSize orders .short
  let residualSigned := totalLongSize - totalShortSize - filledSigned book.fills
  let residuals ← createResiduals H input orders
  let result : MatchResult :=
    { executions := book.executions
      fees := totalFees book.executions
      fills := book.fills
      marginChangeCommitments := createMarginChangeCommitments orders
      orderUpdates := createOrderUpdates H orders
      residuals
      spentNullifiers := book.spentNullifiers
      aggregateVolume
      openInterestDelta := aggregateVolume
      residualSize := if residualSigned < 0 then -residualSigned else residualSigned
      totalLongSize
      totalShortSize
      matchTranscriptDigest := [] }
  some { result with matchTranscriptDigest := matchTranscriptDigest H result }

/-- `BatchMatcherService.match`. -/
def matchBatch (H : Host) (poseidon2Hash : Fr → Fr → Fr) (bound : Option ℤ) (input : MatchInput) :
    Option MatchResult := do
  let (book, orders) ← matchOrders H poseidon2Hash bound input
  createResult H input book orders

/-! ## Bounded products -/

theorem times_agrees (x y : ℤ) : Agrees (times bound x y) (times none x y) := by
  intro z h
  unfold times at h ⊢
  rw [if_pos fun b hb => absurd hb (Option.not_mem_none b)]
  split_ifs at h
  exact h

theorem notional_agrees (size price : ℤ) :
    Agrees (notional bound size price) (notional none size price) :=
  (times_agrees _ _).bind fun _ => Agrees.refl _

theorem marginAt_agrees (size price rate : ℤ) :
    Agrees (marginAt bound size price rate) (marginAt none size price rate) :=
  (notional_agrees size price).bind fun _ => (times_agrees _ _).bind fun _ => Agrees.refl _

theorem hasInitialMargin_agrees (size price margin rate : ℤ) :
    Agrees (hasInitialMargin bound size price margin rate)
      (hasInitialMargin none size price margin rate) :=
  (marginAt_agrees size price rate).bind fun _ => Agrees.refl _

theorem hasMaxLeverage_agrees (size price margin maxLeverage : ℤ) :
    Agrees (hasMaxLeverage bound size price margin maxLeverage)
      (hasMaxLeverage none size price margin maxLeverage) := by
  unfold hasMaxLeverage
  refine Agrees.ite (Agrees.refl _) ?_
  exact (notional_agrees size price).bind fun _ => (times_agrees _ _).bind fun _ => Agrees.refl _

theorem fillFees_agrees (size price : ℤ) :
    Agrees (fillFees bound size price) (fillFees none size price) := by
  refine (Agrees.refl _).bind fun _ => (notional_agrees size price).bind fun value => ?_
  refine (times_agrees _ _).bind fun takerFee => (times_agrees _ _).bind fun rebate => ?_
  exact (times_agrees _ _).bind fun insuranceFee => Agrees.refl _

theorem assertFill_agrees (market : MarketConfig) (size price margin : ℤ) :
    Agrees (assertFill bound market size price margin)
      (assertFill none market size price margin) := by
  unfold assertFill
  refine (hasInitialMargin_agrees size price margin _).bind fun enough => ?_
  refine (Agrees.refl _).bind fun _ => (hasMaxLeverage_agrees _ _ _ _).bind fun allowed => ?_
  exact (Agrees.refl _).bind fun _ => (marginAt_agrees size price _).bind fun _ => Agrees.refl _

theorem createFill_agrees (market : MarketConfig) (order : BookOrder) (size price : ℤ)
    (fillIndex : ℕ) (feeDelta : ℤ) :
    Agrees (createFill H poseidon2Hash bound market order size price fillIndex feeDelta)
      (createFill H poseidon2Hash none market order size price fillIndex feeDelta) := by
  unfold createFill
  refine ((times_agrees _ _).bind fun _ => Agrees.refl _).bind fun allocated => ?_
  exact (assertFill_agrees market _ _ _).bind fun _ => Agrees.refl _

theorem matchPair_agrees (market : MarketConfig) (book : Book) (long short : BookOrder) :
    Agrees (matchPair H poseidon2Hash bound market book long short)
      (matchPair H poseidon2Hash none market book long short) := by
  unfold matchPair
  refine (fillFees_agrees _ _).bind fun fees => ?_
  refine (createFill_agrees market long _ _ _ _).bind fun longFill => ?_
  exact (createFill_agrees market short _ _ _ _).bind fun shortFill => Agrees.refl _

theorem matchLoop_agrees (market : MarketConfig) (book : Book) :
    Agrees (matchLoop H poseidon2Hash bound market book)
      (matchLoop H poseidon2Hash none market book) :=
  loop_agrees fun book pair => matchPair_agrees market book pair.1 pair.2

theorem matchOrders_agrees (input : MatchInput) :
    Agrees (matchOrders H poseidon2Hash bound input) (matchOrders H poseidon2Hash none input) := by
  refine (Agrees.refl _).bind fun orders => (Agrees.refl _).bind fun _ => ?_
  exact (matchLoop_agrees input.market _).bind fun book => Agrees.refl _

/-- A run whose products stay below a bound returns the same without it. -/
theorem matchBatch_agrees (input : MatchInput) :
    Agrees (matchBatch H poseidon2Hash bound input) (matchBatch H poseidon2Hash none input) :=
  (matchOrders_agrees input).bind fun _ => Agrees.refl _

end Pnlx.Server
