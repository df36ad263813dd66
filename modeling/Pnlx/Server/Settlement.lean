import Pnlx.BatchMatch.Settlement
import Pnlx.Server.Matching

/-!
# The settlement of the server

The server prepares the settlement of a match, sends the request to the guest program, hashes the
public inputs of the settlement, and calls the contract with them.

1. `prepareRisc0SettlementDraft`, `toProverInput`: the settlement and the request.
2. `batchSettlementPublicInputBytes`: the public inputs that the server hashes.
3. `settleArgs`: the arguments with which the server calls the contract.
-/

namespace Pnlx.Server

open BatchMatch (Text decimalSigned hexText)

variable {H : Host}

def maxPublicItems : ℕ := 8

def feeEpoch : ℤ := 1

structure SettlementProofInput where
  batchId : Text
  market : MarketConfig
  intents : List PrivateMatchIntent
  matched : MatchResult
  deriving DecidableEq

/-- A settlement without its proof. -/
structure BatchSettlement where
  batchId : Text
  marketId : Text
  matchTranscriptDigest : Text
  settlementDigest : Text
  newCommitments : List Text
  marginChangeCommitments : List Text
  spentNullifiers : List Text
  matchingPayloadCommitments : List Text
  residualCommitments : List Text
  residualMargins : List ℤ
  residualPayloadCommitments : List Text
  fillCount : ℕ
  feeConfigHash : Text
  grossTakerFee : ℤ
  makerRebate : ℤ
  insuranceFee : ℤ
  treasuryFee : ℤ
  makerIntents : List Text
  takerIntents : List Text
  aggregateVolume : ℤ
  openInterestDelta : ℤ
  orderUpdates : List OrderUpdate
  residualSize : ℤ
  deriving DecidableEq

/-! ## Public inputs -/

inductive ContractPublicInput where
  | field (value : Text)
  | u128 (value : ℤ)
  deriving DecidableEq

/-- The bytes of a public input: `fieldBytes` and `u128Bytes`. -/
def ContractPublicInput.bytes : ContractPublicInput → Option Bytes
  | field value => (toField (.hex value)).map fieldBe
  | u128 value =>
    if value < 0 ∨ value > 2 ^ 128 - 1 then none else some (BigEndian.bytes 32 value.toNat)

/-- The byte string that `contractPublicInputHash` hashes. -/
def contractPublicInputBytes (inputs : List ContractPublicInput) : Option Bytes :=
  (inputs.mapM ContractPublicInput.bytes).map List.flatten

def publicVec (values : List Text) : Option (List ContractPublicInput) := do
  assert (¬ values.length > maxPublicItems)
  some (.u128 values.length :: values.map .field ++
    List.replicate (maxPublicItems - values.length) (.field "0x0".toList))

def publicAmounts (values : List ℤ) : Option (List ContractPublicInput) := do
  assert (¬ values.length > maxPublicItems)
  some (.u128 values.length :: values.map .u128 ++
    List.replicate (maxPublicItems - values.length) (.u128 0))

def assertBatchSettlementCapacity (settlement : BatchSettlement) : Option Unit :=
  assert (¬ ∃ count ∈ [settlement.orderUpdates.length, settlement.newCommitments.length,
    settlement.marginChangeCommitments.length, settlement.spentNullifiers.length,
    settlement.matchingPayloadCommitments.length, settlement.residualCommitments.length,
    settlement.residualMargins.length, settlement.residualPayloadCommitments.length,
    settlement.makerIntents.length, settlement.takerIntents.length], count > maxPublicItems)

/-- The public inputs of `batchSettlementPublicInputHash`. -/
def batchSettlementPublicInputs (H : Host) (settlement : BatchSettlement) :
    Option (List ContractPublicInput) := do
  assertBatchSettlementCapacity settlement
  -- "intent payload count mismatch"
  assert (¬ ∃ count ∈ [settlement.matchingPayloadCommitments.length,
    settlement.residualCommitments.length, settlement.residualMargins.length,
    settlement.residualPayloadCommitments.length], count ≠ settlement.orderUpdates.length)
  let filledIntents ← publicVec (settlement.orderUpdates.map (·.intentCommitment))
  let newCommitments ← publicVec settlement.newCommitments
  let marginChangeCommitments ← publicVec settlement.marginChangeCommitments
  let spentNullifiers ← publicVec settlement.spentNullifiers
  let matchingPayloadCommitments ← publicVec settlement.matchingPayloadCommitments
  let residualCommitments ← publicVec settlement.residualCommitments
  let residualMargins ← publicAmounts settlement.residualMargins
  let residualPayloadCommitments ← publicVec settlement.residualPayloadCommitments
  let makerIntents ← publicVec settlement.makerIntents
  let takerIntents ← publicVec settlement.takerIntents
  some ([.field (hashFields H "batch-id" [.text settlement.batchId]),
      .field (hashFields H "market-id" [.text settlement.marketId]),
      .field settlement.settlementDigest] ++ (filledIntents ++ (newCommitments ++
    (marginChangeCommitments ++ (spentNullifiers ++ (matchingPayloadCommitments ++
      (residualCommitments ++ (residualMargins ++ (residualPayloadCommitments ++
    ([.u128 settlement.residualSize, .u128 settlement.aggregateVolume,
        .field settlement.feeConfigHash, .u128 settlement.grossTakerFee,
        .u128 settlement.makerRebate, .u128 settlement.insuranceFee, .u128 settlement.treasuryFee] ++
      (makerIntents ++ takerIntents)))))))))))

/-- The byte string that `batchSettlementPublicInputHash` hashes. -/
def batchSettlementPublicInputBytes (H : Host) (settlement : BatchSettlement) : Option Bytes :=
  (batchSettlementPublicInputs H settlement).bind contractPublicInputBytes

/-- `FEE_CONFIG_HASH`. -/
def feeConfigHash (H : Host) : Text :=
  hexText (H.sha256 (([feeEpoch, takerFeePpm, makerRebatePpm, insuranceFeePpm].map fun value =>
    BigEndian.bytes 32 value.toNat).flatten)).toNat

/-! ## The settlement of a match -/

def matchingPayloadCommitment (H : Host) (payload : PrivateMatchIntent) : Text :=
  hashFields H "matching-payload"
    [.text payload.intentCommitment, .text payload.marketId, .text payload.ownerCommitment,
      .bigint payload.signedSize, .bigint payload.limitPrice, .bigint payload.margin,
      .text payload.noteNullifier, .text payload.noteChangeCommitment,
      .text (payload.sourceIntentCommitment.getD "0x0".toList)]

/-- An optional text that is there and not empty. -/
def truthy (value : Option Text) : Bool := value.getD [] ≠ []

def normalizedUpdate (update : OrderUpdate) : Value :=
  .object ([("intentCommitment", .text update.intentCommitment), ("status", .text update.status)] ++
    match update.residualCommitment with
    | some residual => if residual ≠ [] then [("residualCommitment", .text residual)] else []
    | none => [])

def risc0SettlementDigest (H : Host) (input : SettlementProofInput) (newCommitments : List Text) :
    Text :=
  hashFields H "risc0-settlement"
    [.text input.batchId, .text input.market.marketId, .text input.matched.matchTranscriptDigest,
      .array (input.matched.orderUpdates.map normalizedUpdate),
      .array (newCommitments.map .text), .array (input.matched.marginChangeCommitments.map .text),
      .array (input.matched.spentNullifiers.map .text), .bigint input.matched.aggregateVolume,
      .bigint input.matched.openInterestDelta, .bigint input.matched.residualSize]

/-- `intentByCommitment.get(commitment)`: the last intent with the commitment. -/
def intentByCommitment (intents : List PrivateMatchIntent) (commitment : Text) :
    Option PrivateMatchIntent :=
  intents.reverse.find? (·.intentCommitment = commitment)

/-- `residualBySource.get(source)`: the last residual of the source. -/
def residualBySource (residuals : List PrivateMatchIntent) (source : Text) :
    Option PrivateMatchIntent :=
  residuals.reverse.find? (·.sourceIntentCommitment = some source)

/-- The payload commitment of the residual of an update. -/
def residualPayload (H : Host) (residuals : List PrivateMatchIntent) (update : OrderUpdate) :
    Option Text := do
  let residual := residualBySource residuals update.intentCommitment
  assert (residual.isSome = truthy update.residualCommitment)
  match residual with
  | some residual => do
    assert (some residual.intentCommitment = update.residualCommitment)
    some (matchingPayloadCommitment H residual)
  | none => some "0x0".toList

def prepareRisc0SettlementDraft (H : Host) (input : SettlementProofInput) :
    Option BatchSettlement := do
  -- `assertMatchTranscript`
  assert (input.matched.matchTranscriptDigest = matchTranscriptDigest H input.matched)
  let newCommitments := input.matched.fills.map (·.positionCommitment)
  let settlementDigest := risc0SettlementDigest H input newCommitments
  let matchingPayloadCommitments ← input.matched.orderUpdates.mapM fun update =>
    (intentByCommitment input.intents update.intentCommitment).map (matchingPayloadCommitment H)
  let residualPayloadCommitments ← input.matched.orderUpdates.mapM
    (residualPayload H input.matched.residuals)
  some
    { aggregateVolume := input.matched.aggregateVolume
      batchId := input.batchId
      fillCount := input.matched.fills.length
      feeConfigHash := feeConfigHash H
      grossTakerFee := input.matched.fees.grossTakerFee
      makerRebate := input.matched.fees.makerRebate
      insuranceFee := input.matched.fees.insurance
      treasuryFee := input.matched.fees.treasury
      makerIntents := input.matched.executions.map (·.makerIntentCommitment)
      takerIntents := input.matched.executions.map (·.takerIntentCommitment)
      matchTranscriptDigest := input.matched.matchTranscriptDigest
      marginChangeCommitments := input.matched.marginChangeCommitments
      matchingPayloadCommitments
      marketId := input.market.marketId
      newCommitments
      openInterestDelta := input.matched.openInterestDelta
      orderUpdates := input.matched.orderUpdates
      residualSize := input.matched.residualSize
      residualCommitments :=
        input.matched.orderUpdates.map (·.residualCommitment.getD "0x0".toList)
      residualMargins := input.matched.orderUpdates.map fun update =>
        ((residualBySource input.matched.residuals update.intentCommitment).map (·.margin)).getD 0
      residualPayloadCommitments
      settlementDigest
      spentNullifiers := input.matched.spentNullifiers }

/-! ## The request -/

def proverIntent (intent : PrivateMatchIntent) : BatchMatch.RecoveredIntent where
  batchId := intent.batchId
  intentCommitment := intent.intentCommitment
  limitPrice := decimalSigned intent.limitPrice
  margin := decimalSigned intent.margin
  marketId := intent.marketId
  noteChangeCommitment := intent.noteChangeCommitment
  noteNullifier := intent.noteNullifier
  ownerCommitment := intent.ownerCommitment
  signedSize := decimalSigned intent.signedSize
  sourceIntentCommitment := intent.sourceIntentCommitment

def proverMarket (market : MarketConfig) : BatchMatch.MarketInput where
  fundingIndex := decimalSigned market.fundingIndex
  initialMarginRate := decimalSigned market.initialMarginRate
  marketId := market.marketId
  maxLeverage := decimalSigned market.maxLeverage

def proverUpdate (update : OrderUpdate) : BatchMatch.OrderUpdate where
  intentCommitment := update.intentCommitment
  residualCommitment := update.residualCommitment
  status := update.status

def proverDraft (draft : BatchSettlement) : BatchMatch.SettlementDraft where
  aggregateVolume := decimalSigned draft.aggregateVolume
  batchId := draft.batchId
  fillCount := draft.fillCount
  feeConfigHash := draft.feeConfigHash
  grossTakerFee := decimalSigned draft.grossTakerFee
  makerRebate := decimalSigned draft.makerRebate
  insuranceFee := decimalSigned draft.insuranceFee
  treasuryFee := decimalSigned draft.treasuryFee
  makerIntents := draft.makerIntents
  takerIntents := draft.takerIntents
  marginChangeCommitments := draft.marginChangeCommitments
  matchingPayloadCommitments := draft.matchingPayloadCommitments
  residualCommitments := draft.residualCommitments
  residualMargins := draft.residualMargins.map decimalSigned
  residualPayloadCommitments := draft.residualPayloadCommitments
  marketId := draft.marketId
  matchTranscriptDigest := draft.matchTranscriptDigest
  newCommitments := draft.newCommitments
  openInterestDelta := decimalSigned draft.openInterestDelta
  orderUpdates := draft.orderUpdates.map proverUpdate
  residualSize := decimalSigned draft.residualSize
  settlementDigest := draft.settlementDigest
  spentNullifiers := draft.spentNullifiers

/-- The request, whose integers are printed. -/
def toProverInput (input : SettlementProofInput) (draft : BatchSettlement) :
    BatchMatch.ProofRequest where
  batchId := input.batchId
  intents := input.intents.map proverIntent
  market := proverMarket input.market
  expected := proverDraft draft

/-! ## The call of the contract -/

/-- `settleBatch`: the arguments of the call of `settle` for a settlement and its proof. -/
def settleArgs (H : Host) (record : BatchSettlement) (proof : ProofMeta) : Option SettleArgs := do
  let batchId ← bytesN32Arg (hashFields H "batch-id" [.text record.batchId])
  let marketId ← bytesN32Arg (hashFields H "market-id" [.text record.marketId])
  let settlementDigest ← bytesN32Arg record.settlementDigest
  let filledIntents ← (record.orderUpdates.map (·.intentCommitment)).mapM bytesN32Arg
  let newCommitments ← record.newCommitments.mapM bytesN32Arg
  let marginChangeCommitments ← record.marginChangeCommitments.mapM bytesN32Arg
  let spentNullifiers ← record.spentNullifiers.mapM bytesN32Arg
  let matchingPayloadCommitments ← record.matchingPayloadCommitments.mapM bytesN32Arg
  let residualCommitments ← record.residualCommitments.mapM bytesN32Arg
  let residualPayloadCommitments ← record.residualPayloadCommitments.mapM bytesN32Arg
  let residualMargins ← record.residualMargins.mapM I128.ofInt?
  let volume ← I128.ofInt? record.aggregateVolume
  let residual ← I128.ofInt? record.residualSize
  let feeConfigHash ← bytesN32Arg record.feeConfigHash
  let grossTakerFee ← I128.ofInt? record.grossTakerFee
  let makerRebate ← I128.ofInt? record.makerRebate
  let insuranceFee ← I128.ofInt? record.insuranceFee
  let treasuryFee ← I128.ofInt? record.treasuryFee
  let makerIntents ← record.makerIntents.mapM bytesN32Arg
  let takerIntents ← record.takerIntents.mapM bytesN32Arg
  some
    { batchId, marketId, settlementDigest, proof, filledIntents, newCommitments,
      marginChangeCommitments, spentNullifiers, matchingPayloadCommitments, residualCommitments,
      residualMargins, residualPayloadCommitments, volume, residual, feeConfigHash, grossTakerFee,
      makerRebate, insuranceFee, treasuryFee, makerIntents, takerIntents }

end Pnlx.Server
