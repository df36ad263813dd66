import Pnlx.Server.Store

/-!
# The commit of an external settlement

A matcher hands the server a settlement with the records that belong to it. The server checks them
against the orders of its store and commits them.

1. `validateExternalAccountEvents`: each opening and each residual order has its account event.
2. `validateExternalBatchSettlement`, `commitExternalBatchSettlement`: the checks and the commit.
-/

namespace Pnlx.Server

open BatchMatch (Text hexText)
open Script

variable (H : Host)

/-- `ExternalBatchSettlementTranscript`. Lists that are left out are empty. -/
structure ExternalBatchSettlementTranscript where
  accountEvents : List AccountEventRecord
  positionOpenings : List PositionLifecycleRecord
  privateMatchIntents : List PrivateMatchIntent
  residualOrders : List ResidualOrderRecord
  settlement : SettlementRecord
  deriving DecidableEq

/-! ## Account events -/

def positionOpeningAccountEventDataCommitment (opening : PositionLifecycleRecord)
    (ciphertext : Text) : Text :=
  hashFields H "account-event-data:position-opening"
    [.text opening.settlementDigest, .text opening.positionCommitment,
      .text opening.ownerCommitment, .text ciphertext]

def positionOpeningAccountEventId (opening : PositionLifecycleRecord) (dataCommitment : Text) :
    Text :=
  hashFields H "account-event:position-opening"
    [.text opening.settlementDigest, .text opening.positionCommitment, .text dataCommitment]

def residualOrderAccountEventDataCommitment (residual : ResidualOrderRecord)
    (settlementDigest ciphertext : Text) : Text :=
  hashFields H "account-event-data:residual-order"
    [.text settlementDigest, .text residual.intentCommitment, .text residual.sourceIntentCommitment,
      .text residual.ownerCommitment, .text ciphertext]

def residualOrderAccountEventId (residual : ResidualOrderRecord)
    (settlementDigest dataCommitment : Text) : Text :=
  hashFields H "account-event:residual-order"
    [.text settlementDigest, .text residual.intentCommitment, .text residual.sourceIntentCommitment,
      .text dataCommitment]

def findPositionOpeningEvent (opening : PositionLifecycleRecord)
    (events : List AccountEventRecord) : Option AccountEventRecord :=
  events.find? fun event => event.eventId = positionOpeningAccountEventId H opening
    (positionOpeningAccountEventDataCommitment H opening event.ciphertext)

def findResidualOrderEvent (residual : ResidualOrderRecord) (settlementDigest : Text)
    (events : List AccountEventRecord) : Option AccountEventRecord :=
  events.find? fun event => event.eventId = residualOrderAccountEventId H residual settlementDigest
    (residualOrderAccountEventDataCommitment H residual settlementDigest event.ciphertext)

def assertPositionOpeningAccountEvent (opening : PositionLifecycleRecord)
    (event : AccountEventRecord) : StoreScript Unit := do
  throwIf (event.ownerCommitment ≠ opening.ownerCommitment) "position account event owner mismatch"
  let dataCommitment := positionOpeningAccountEventDataCommitment H opening event.ciphertext
  throwIf (event.dataCommitment ≠ dataCommitment) "position account event data commitment mismatch"
  throwIf (event.eventId ≠ positionOpeningAccountEventId H opening dataCommitment)
    "position account event id mismatch"

def assertResidualOrderAccountEvent (residual : ResidualOrderRecord) (settlementDigest : Text)
    (event : AccountEventRecord) : StoreScript Unit := do
  throwIf (event.ownerCommitment ≠ residual.ownerCommitment)
    "residual account event owner mismatch"
  let dataCommitment :=
    residualOrderAccountEventDataCommitment H residual settlementDigest event.ciphertext
  throwIf (event.dataCommitment ≠ dataCommitment) "residual account event data commitment mismatch"
  throwIf (event.eventId ≠ residualOrderAccountEventId H residual settlementDigest dataCommitment)
    "residual account event id mismatch"

/-- The ids of the events of the openings and the residual orders. -/
def expectedEventIds (settlementDigest : Text) (openings : List PositionLifecycleRecord)
    (residualOrders : List ResidualOrderRecord) (events : List AccountEventRecord) : List Text :=
  openings.filterMap (fun opening => (findPositionOpeningEvent H opening events).map (·.eventId)) ++
    residualOrders.filterMap fun residual =>
      (findResidualOrderEvent H residual settlementDigest events).map (·.eventId)

def validateExternalAccountEvents (settlementDigest : Text)
    (openings : List PositionLifecycleRecord) (residualOrders : List ResidualOrderRecord)
    (events : List AccountEventRecord) : StoreScript Unit := do
  throwIf (¬ (events.map (·.eventId)).Nodup) "external account event duplicate id"
  openings |> forEach fun opening => do
    let event ← orThrow (findPositionOpeningEvent H opening events)
      "external position account event is required"
    assertPositionOpeningAccountEvent H opening event
  residualOrders |> forEach fun residual => do
    let event ← orThrow (findResidualOrderEvent H residual settlementDigest events)
      "external residual account event is required"
    assertResidualOrderAccountEvent H residual settlementDigest event
  throwIf (events.length ≠ (OrderedSet.empty.addAll
    (expectedEventIds H settlementDigest openings residualOrders events)).size)
    "external account event count mismatch"

/-! ## The settlement -/

/-- `batchSettlementPublicInputHash`. -/
def batchSettlementPublicInputHash (settlement : BatchSettlement) : Option Text :=
  (batchSettlementPublicInputBytes H settlement).map fun bytes => hexText (H.sha256 bytes).toNat

/-- The orders of a market that are open, in order. -/
def activeOrderRecords (store : ProtocolStore) (marketId : Text) : List OrderRecord :=
  (store.intents.values.map (·.order) ++ store.residualOrders.values.map (·.order)).filter
    fun order => order.marketId = marketId ∧
      store.orderStatus order.intentCommitment = some statusOpen

/-- `activeOrders.get(intentCommitment)`: the last of the orders with the commitment. -/
def activeOrder (store : ProtocolStore) (marketId intentCommitment : Text) : Option OrderRecord :=
  (activeOrderRecords store marketId).reverse.find? (·.intentCommitment = intentCommitment)

/-- `updateOwners.get(intentCommitment)`: the owner of an order that the settlement updates. An
empty text is no owner. -/
def updateOwner (store : ProtocolStore) (settlement : SettlementRecord) (intentCommitment : Text) :
    Option Text :=
  if intentCommitment ∈ settlement.orderUpdates.map (·.intentCommitment) then
    ((activeOrder store settlement.marketId intentCommitment).map (·.ownerCommitment)).filter
      (· ≠ [])
  else none

/-- `residualUpdates.get(commitment)`: the last update with the residual. -/
def residualUpdate (settlement : SettlementRecord) (commitment : Text) : Option OrderUpdate :=
  settlement.orderUpdates.reverse.find? fun update =>
    truthy update.residualCommitment ∧ update.residualCommitment = some commitment

/-- One round of the loop over the updates of a settlement. -/
def validateOrderUpdate (store : ProtocolStore) (settlement : SettlementRecord)
    (update : OrderUpdate) (index : ℕ) : StoreScript Unit := do
  throwIf (update.intentCommitment ∈
    (settlement.orderUpdates.take index).map (·.intentCommitment))
    "external settlement duplicate order update"
  let order ← orThrow (activeOrder store settlement.marketId update.intentCommitment)
    "external settlement unknown active order"
  throwIf (settlement.matchingPayloadCommitments[index]? ≠ some order.matchingPayloadCommitment)
    "external settlement registered payload mismatch"
  throwIf (settlement.residualCommitments[index]? ≠
    some (update.residualCommitment.getD "0x0".toList))
    "external settlement residual commitment mismatch"
  throwIf (update.status ≠ statusFilled ∧ update.status ≠ statusPartiallyFilled)
    "external settlement invalid order status"
  throwIf (order.noteNullifier ∉ settlement.spentNullifiers)
    "external settlement spent nullifier mismatch"
  throwIf (∃ change ∈ order.noteChangeCommitment, change ≠ [] ∧ change ≠ "0x0".toList ∧
    change ∉ settlement.marginChangeCommitments) "external settlement missing margin note change"

/-- `expectedSpentNullifiers`. -/
def expectedSpentNullifiers (store : ProtocolStore) (settlement : SettlementRecord) :
    OrderedSet Text :=
  .addAll .empty (settlement.orderUpdates.filterMap fun update =>
    (activeOrder store settlement.marketId update.intentCommitment).map (·.noteNullifier))

/-- One round of the loop over the openings of a transcript. -/
def validatePositionOpening (store : ProtocolStore) (transcript : ExternalBatchSettlementTranscript)
    (opening : PositionLifecycleRecord) (index : ℕ) : StoreScript Unit := do
  let settlement := transcript.settlement
  throwIf (opening.positionCommitment ∈
    (transcript.positionOpenings.take index).map (·.positionCommitment))
    "external position opening duplicate commitment"
  throwIf (opening.positionCommitment ∉ settlement.newCommitments)
    "external position opening commitment mismatch"
  throwIf (opening.settlementDigest ≠ settlement.settlementDigest)
    "external position opening settlement mismatch"
  throwIf (opening.batchId ≠ settlement.batchId ∨ opening.marketId ≠ settlement.marketId)
    "external position opening batch mismatch"
  throwIf (updateOwner store settlement opening.sourceIntentCommitment ≠
    some opening.ownerCommitment) "external position opening owner mismatch"

/-- The sequence of the order that a residual comes from. -/
def sourceSequence (store : ProtocolStore) (intentCommitment : Text) : Option ℤ :=
  ((store.intents.get? intentCommitment).bind (·.submissionSequence)).or
    ((store.residualOrders.get? intentCommitment).bind (·.submissionSequence))

/-- One round of the loop over the residual orders of a transcript. -/
def validateResidualOrder (store : ProtocolStore) (transcript : ExternalBatchSettlementTranscript)
    (residual : ResidualOrderRecord) (index : ℕ) : StoreScript Unit := do
  let settlement := transcript.settlement
  throwIf (residual.intentCommitment ∈
    (transcript.residualOrders.take index).map (·.intentCommitment))
    "external residual order duplicate commitment"
  let update ← orThrow (residualUpdate settlement residual.intentCommitment)
    "external residual order update mismatch"
  throwIf (update.status ≠ statusPartiallyFilled) "external residual order update mismatch"
  throwIf (residual.batchId ≠ settlement.batchId ∨ residual.marketId ≠ settlement.marketId)
    "external residual order batch mismatch"
  throwIf (residual.sourceIntentCommitment ≠ update.intentCommitment)
    "external residual order source mismatch"
  let updateIndex :=
    settlement.orderUpdates.findIdx (·.intentCommitment = update.intentCommitment)
  throwIf (settlement.residualPayloadCommitments[updateIndex]? ≠
    some residual.matchingPayloadCommitment) "external residual order payload mismatch"
  throwIf (∃ sequence ∈ sourceSequence store update.intentCommitment,
    residual.submissionSequence ≠ some sequence) "external residual order priority mismatch"
  throwIf (updateOwner store settlement update.intentCommitment ≠ some residual.ownerCommitment)
    "external residual order owner mismatch"
  throwIf (residual.noteNullifier ∈ settlement.spentNullifiers)
    "external residual order nullifier mismatch"

/-- The private payload of a residual order, with the margin that the settlement names. -/
def validateResidualPayload (transcript : ExternalBatchSettlementTranscript)
    (residual : ResidualOrderRecord) : StoreScript Unit := do
  let settlement := transcript.settlement
  let payload ← orThrow
    (intentByCommitment transcript.privateMatchIntents residual.intentCommitment)
    "external residual private match payload is required"
  assertPrivateMatchIntent H residual.order payload
  let updateIndex :=
    settlement.orderUpdates.findIdx (·.residualCommitment = some residual.intentCommitment)
  throwIf (settlement.residualMargins[updateIndex]? ≠ some payload.margin)
    "external residual order margin mismatch"

variable (markets : Text → Option MarketConfig)

/-- The markets are kept beside the rest of the store. -/
def validateExternalBatchSettlement (transcript : ExternalBatchSettlementTranscript) :
    StoreScript Unit := do
  let store ← read id
  let settlement := transcript.settlement
  let proof := settlement.proof
  throwIf (markets settlement.marketId).isNone "unknown market"
  throwIf (settlement.fillCount ≠ settlement.newCommitments.length)
    "external settlement fill count mismatch"
  throwIf (¬ settlement.newCommitments.Nodup) "external settlement duplicate commitment"
  throwIf (proof.circuitId ≠ "batch-match".toList) "external settlement proof circuit mismatch"
  throwIf (proof.proofSystem ≠ some "risc0-groth16".toList)
    "external settlement proof system mismatch"
  let publicInputHash ← orThrow (batchSettlementPublicInputHash H settlement.toBatchSettlement)
    "invalid batch settlement public inputs"
  throwIf (proof.publicInputHash ≠ publicInputHash)
    "external settlement proof public input mismatch"
  throwIf (¬ truthy proof.imageId ∨ ¬ truthy proof.journalDigest ∨ ¬ truthy proof.sealDigest)
    "external settlement RISC0 receipt metadata is required"
  throwIf (proof.journalDigest ≠ some proof.publicInputHash)
    "external settlement RISC0 journal mismatch"
  throwIf (proof.sealDigest ≠ some proof.proofDigest) "external settlement RISC0 seal mismatch"
  settlement.orderUpdates.zipIdx |> forEach fun (update, index) =>
    validateOrderUpdate store settlement update index
  throwIf (settlement.spentNullifiers.length ≠ (expectedSpentNullifiers store settlement).size)
    "external settlement spent nullifier mismatch"
  throwIf (∃ nullifier ∈ settlement.spentNullifiers,
    nullifier ∉ expectedSpentNullifiers store settlement)
    "external settlement spent nullifier mismatch"
  transcript.positionOpenings.zipIdx |> forEach fun (opening, index) =>
    validatePositionOpening store transcript opening index
  throwIf (transcript.positionOpenings.length ≠ settlement.newCommitments.length)
    "external position opening count mismatch"
  throwIf (∃ commitment ∈ settlement.newCommitments,
    commitment ∉ transcript.positionOpenings.map (·.positionCommitment))
    "external position opening commitment mismatch"
  transcript.residualOrders.zipIdx |> forEach fun (residual, index) =>
    validateResidualOrder store transcript residual index
  throwIf (transcript.residualOrders.length ≠ (OrderedSet.empty.addAll
    ((settlement.orderUpdates.filterMap (·.residualCommitment)).filter (· ≠ []))).size)
    "external residual order count mismatch"
  settlement.orderUpdates.zipIdx |> forEach fun (update, index) =>
    throwIf (¬ truthy update.residualCommitment ∧
      settlement.residualPayloadCommitments[index]? ≠ some "0x0".toList)
      "external settlement unexpected residual payload"
  transcript.residualOrders |> forEach (validateResidualPayload H transcript)
  validateExternalAccountEvents H settlement.settlementDigest transcript.positionOpenings
    transcript.residualOrders transcript.accountEvents

def commitExternalBatchSettlement (now : ℤ) (transcript : ExternalBatchSettlementTranscript)
    (proofVerified : Bool) : StoreScript SettlementRecord := do
  validateExternalBatchSettlement H markets transcript
  doIf proofVerified (recordProof transcript.settlement.proof)
  let store ← read id
  throwIf (¬ hasProof store transcript.settlement.proof) "external settlement proof is not verified"
  addSettlement H now transcript.settlement transcript.positionOpenings transcript.residualOrders
    transcript.accountEvents transcript.privateMatchIntents
  pure transcript.settlement

end Pnlx.Server
