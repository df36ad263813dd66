import Pnlx.Server.Transcripts

/-!
# The executor

`ExecutorService` takes orders, cancels them, and settles batches. A settlement is created from the
orders that are open, proved while the service goes on, and committed afterwards. The service keeps
the positions and residual orders of a settlement until then.

1. `prepareBatch`, `createBatchSettlement`: a settlement before and after its proof.
2. `commitBatchSettlement`: the commit of a settlement that the service has created.
3. `ExecutorService.step`: one step of the service.
-/

namespace Pnlx.Server

open BatchMatch (Text)
open Script

deriving instance DecidableEq for PreparedSettlement

variable (H : Host) (poseidon2Hash : Fr → Fr → Fr)

/-- The service, with the batches whose proofs are being made and the settlements that it has
returned. -/
structure ExecutorService where
  store : ProtocolStore
  pendingPositionOpenings : OrderedMap Text (List PositionLifecycleRecord)
  pendingResidualOrders : OrderedMap Text (List ResidualOrderRecord)
  proving : List PreparedSettlement
  created : List SettlementRecord

namespace ExecutorService

/-- A new service. -/
def empty : ExecutorService := ⟨.empty, .empty, .empty, [], []⟩

/-! ## A settlement is created -/

/-- The new orders of a batch. -/
def relevantIntents (store : ProtocolStore) (marketId batchId : Text) : List MatchRecord :=
  (store.intents.values.filter fun intent =>
    intent.batchId = batchId ∧ intent.marketId = marketId ∧
      store.orderStatus intent.intentCommitment = some statusOpen).map fun intent =>
    ⟨intent.order, intent.submissionSequence⟩

/-- The intents in the order in which they are matched: residual orders first. -/
def privateMatchIntentsFor (store : ProtocolStore) (batchId : Text)
    (records residuals : List MatchRecord) : Except String (List PrivateMatchIntent) :=
  (residuals ++ records).mapM (privateMatchIntentFor H store batchId)

/-- `createBatchSettlementAsync` up to the proof. -/
def prepareBatch (markets : Text → Option MarketConfig) (store : ProtocolStore)
    (batchId marketId : Text) : Except String PreparedSettlement := do
  let market ← orError "unknown market" (markets marketId)
  let relevant := relevantIntents store marketId batchId
  let residuals := activeResiduals store marketId batchId
  let _ ← orError "batch has no active intents" (assert (relevant ≠ [] ∨ residuals ≠ []))
  let intents ← privateMatchIntentsFor H store batchId relevant residuals
  let matched ← orError "batch cannot be matched"
    (matchBatch H poseidon2Hash none ⟨batchId, intents, market⟩)
  let proofInput : SettlementProofInput := ⟨batchId, market, intents, matched⟩
  let draft ← orError "batch cannot be settled" (prepareRisc0SettlementDraft H proofInput)
  pure ⟨proofInput, relevant ++ residuals, draft⟩

def createResidualOrderRecords (now : ℤ) (store : ProtocolStore) (settlement : SettlementRecord)
    (residuals : List PrivateMatchIntent) : List ResidualOrderRecord :=
  residuals.map fun residual =>
    let source := residual.sourceIntentCommitment.getD residual.intentCommitment
    { batchId := settlement.batchId
      createdAt := now
      intentCommitment := residual.intentCommitment
      marketId := residual.marketId
      matchingPayloadCommitment := matchingPayloadCommitment H residual
      noteNullifier := residual.noteNullifier
      ownerCommitment := residual.ownerCommitment
      sourceIntentCommitment := source
      submissionSequence := sourceSequence store source
      updatedAt := now }

/-- The private payloads of residual orders are kept before the settlement is committed. -/
def keepResiduals (store : ProtocolStore) (residuals : List PrivateMatchIntent) : ProtocolStore :=
  { store with
    privateMatchIntents := store.privateMatchIntents.setAll
      (residuals.map fun residual => (residual.intentCommitment, residual)) }

/-- `createBatchSettlementAsync` after the proof. -/
def createBatchSettlement (now : ℤ) (service : ExecutorService) (prepared : PreparedSettlement)
    (proof : ProofRecord) : ExecutorService :=
  let matched := prepared.input.matched
  let settlement : SettlementRecord := { prepared.draft with proof := proof }
  { store := keepResiduals service.store matched.residuals
    pendingPositionOpenings := service.pendingPositionOpenings.set settlement.settlementDigest
      (createPositionOpenings settlement matched.fills)
    pendingResidualOrders := service.pendingResidualOrders.set settlement.settlementDigest
      (createResidualOrderRecords H now service.store settlement matched.residuals)
    proving := service.proving.erase prepared
    created := service.created ++ [settlement] }

/-! ## A settlement is committed -/

/-- The positions that wait for a settlement. -/
def openingsOf (service : ExecutorService) (settlement : SettlementRecord) :
    List PositionLifecycleRecord :=
  (service.pendingPositionOpenings.get? settlement.settlementDigest).getD []

/-- The residual orders that wait for a settlement. -/
def residualsOf (service : ExecutorService) (settlement : SettlementRecord) :
    List ResidualOrderRecord :=
  (service.pendingResidualOrders.get? settlement.settlementDigest).getD []

/-- What `commitBatchSettlement` does to the store. -/
def commitScript (now : ℤ) (service : ExecutorService) (settlement : SettlementRecord) :
    StoreScript Unit := do
  recordProof settlement.proof
  let store ← read id
  let residuals := service.residualsOf settlement
  addSettlement H now settlement (service.openingsOf settlement) residuals []
    (residuals.filterMap fun residual => store.privateMatchIntents.get? residual.intentCommitment)

/-- What waits for a settlement is dropped when its commit has returned. -/
def commitBatchSettlement (now : ℤ) (service : ExecutorService) (settlement : SettlementRecord) :
    ExecutorService :=
  match commitScript H now service settlement service.store with
  | (.ok _, store) =>
    { service with
      store
      pendingPositionOpenings := service.pendingPositionOpenings.filter
        (·.1 ≠ settlement.settlementDigest)
      pendingResidualOrders := service.pendingResidualOrders.filter
        (·.1 ≠ settlement.settlementDigest) }
  | (.error _, store) => { service with store }

end ExecutorService

/-! ## Steps -/

inductive ExecutorAction where
  | recordProof (proof : ProofRecord)
  | addMarginCommitment (commitment : Text)
  | addWithdrawal (record : WithdrawalRecord)
  | submitIntent (now : ℤ) (record : IntentRecord) (privateMatchIntent : Option PrivateMatchIntent)
  | cancelOrder (now : ℤ) (intentCommitment : Text) (cancellationTxHash : Option Text)
  | prepareBatch (batchId marketId : Text)
  | createBatchSettlement (now : ℤ) (prepared : PreparedSettlement) (proof : ProofRecord)
  | commitBatchSettlement (now : ℤ) (settlement : SettlementRecord)
  | commitExternalBatchSettlement (now : ℤ) (transcript : ExternalBatchSettlementTranscript)
      (proofVerified : Bool)

namespace ExecutorService

/-- The service after a script on its store. -/
def onStore {α : Type} (service : ExecutorService) (x : StoreScript α) : ExecutorService :=
  { service with store := x.after service.store }

/-- A script that throws leaves what it has written. -/
def step (markets : Text → Option MarketConfig) (service : ExecutorService) :
    ExecutorAction → Except String ExecutorService
  | .recordProof proof => .ok (service.onStore (Server.recordProof proof))
  | .addMarginCommitment commitment => .ok (service.onStore (Server.addMarginCommitment commitment))
  | .addWithdrawal record => .ok (service.onStore (Server.addWithdrawal record))
  | .submitIntent now record privateMatchIntent =>
    .ok (service.onStore (addIntent H poseidon2Hash now record privateMatchIntent))
  | .cancelOrder now intentCommitment cancellationTxHash =>
    .ok (service.onStore (Server.cancelOrder now intentCommitment cancellationTxHash))
  | .prepareBatch batchId marketId => do
    let prepared ← ExecutorService.prepareBatch H poseidon2Hash markets service.store batchId marketId
    pure { service with proving := service.proving ++ [prepared] }
  | .createBatchSettlement now prepared proof =>
    if prepared ∈ service.proving then
      .ok (ExecutorService.createBatchSettlement H now service prepared proof)
    else .error "no such batch"
  | .commitBatchSettlement now settlement =>
    if settlement ∈ service.created then
      .ok (ExecutorService.commitBatchSettlement H now service settlement)
    else .error "no such settlement"
  | .commitExternalBatchSettlement now transcript proofVerified =>
    .ok (service.onStore
      (Server.commitExternalBatchSettlement H markets now transcript proofVerified))

end ExecutorService

end Pnlx.Server
