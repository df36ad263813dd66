import Pnlx.Lib.Ordered
import Pnlx.Lib.Script
import Pnlx.Server.FieldMerkle
import Pnlx.Server.Settlement

/-!
# The store of the server

`ProtocolStore` holds the commitments, nullifiers and records of the protocol in sets and maps that
keep the order of insertion. Its operations are scripts: an operation that throws keeps what it has
added before. What an operation reads from the clock is its argument `now`. The times and funding
indices of positions, the times of account events, the prices and roots of liquidations, the prices
of triggers and the transaction hashes of intents, settlements, liquidations and closes are left out:
no operation here reads them, and one that writes them also writes a record that is new or has
written something else before.
-/

namespace Pnlx.Server

open BatchMatch (Text)
open Script

/-! ## Records -/

/-- `ProofMeta`: the parts of a proof that the server reads. -/
structure ProofRecord where
  circuitId : Text
  circuitKey : Text
  verifierHash : Text
  publicInputHash : Text
  proofDigest : Text
  proofSystem : Option Text
  imageId : Option Text
  journalDigest : Option Text
  sealDigest : Option Text
  deriving DecidableEq

structure IntentRecord where
  batchId : Text
  batchDigest : Text
  marketId : Text
  marketDigest : Text
  marginRoot : Text
  ownerCommitmentField : Text
  ownerCommitment : Text
  intentCommitment : Text
  matchingPayloadCommitment : Text
  noteChangeCommitment : Text
  proof : ProofRecord
  noteNullifier : Text
  submissionSequence : Option ℤ
  deriving DecidableEq

structure ResidualOrderRecord where
  batchId : Text
  createdAt : ℤ
  intentCommitment : Text
  marketId : Text
  matchingPayloadCommitment : Text
  noteNullifier : Text
  ownerCommitment : Text
  sourceIntentCommitment : Text
  submissionSequence : Option ℤ
  updatedAt : ℤ
  deriving DecidableEq

/-- What an `IntentRecord` and a `ResidualOrderRecord` have in common. Only an intent has a note
change. -/
structure OrderRecord where
  batchId : Text
  intentCommitment : Text
  marketId : Text
  matchingPayloadCommitment : Text
  noteNullifier : Text
  ownerCommitment : Text
  noteChangeCommitment : Option Text
  deriving DecidableEq

def IntentRecord.order (record : IntentRecord) : OrderRecord where
  batchId := record.batchId
  intentCommitment := record.intentCommitment
  marketId := record.marketId
  matchingPayloadCommitment := record.matchingPayloadCommitment
  noteNullifier := record.noteNullifier
  ownerCommitment := record.ownerCommitment
  noteChangeCommitment := some record.noteChangeCommitment

def ResidualOrderRecord.order (record : ResidualOrderRecord) : OrderRecord where
  batchId := record.batchId
  intentCommitment := record.intentCommitment
  marketId := record.marketId
  matchingPayloadCommitment := record.matchingPayloadCommitment
  noteNullifier := record.noteNullifier
  ownerCommitment := record.ownerCommitment
  noteChangeCommitment := none

structure OrderLifecycleRecord where
  batchId : Text
  cancellationTxHash : Option Text
  createdAt : ℤ
  intentCommitment : Text
  matchingRunId : Option Text
  marketId : Text
  ownerCommitment : Text
  residualCommitment : Option Text
  status : Text
  updatedAt : ℤ
  deriving DecidableEq

structure PositionLifecycleRecord where
  batchId : Text
  closeCommitment : Option Text
  liquidationRewardCommitment : Option Text
  marginOutputCommitment : Option Text
  marketId : Text
  newPositionCommitment : Option Text
  ownerCommitment : Text
  positionCommitment : Text
  positionIndex : Option ℕ
  positionNullifier : Text
  settlementDigest : Text
  sourceIntentCommitment : Text
  status : Text
  deriving DecidableEq

/-- A `BatchSettlement` with its proof. -/
structure SettlementRecord extends BatchSettlement where
  proof : ProofRecord
  deriving DecidableEq

structure LiquidationRecord where
  marketId : Text
  positionCommitment : Text
  positionNullifier : Text
  rewardCommitment : Text
  proof : ProofRecord
  deriving DecidableEq

structure ConditionalOrderRecord where
  marketId : Text
  positionNullifier : Text
  closeCommitment : Text
  proof : ProofRecord
  deriving DecidableEq

structure PositionCloseRecord where
  marketId : Text
  markPrice : ℤ
  positionCommitment : Text
  positionNullifier : Text
  positionRoot : Text
  closeCommitment : Text
  newPositionCommitment : Text
  marginOutputCommitment : Text
  outputPositionIndex : Option ℕ
  outputPositionRoot : Option Text
  proof : ProofRecord
  deriving DecidableEq

structure WithdrawalRecord where
  root : Text
  nullifier : Text
  recipient : Text
  tokenDigest : Text
  withdrawAmount : ℤ
  changeCommitment : Text
  proof : ProofRecord
  deriving DecidableEq

structure AccountEventRecord where
  ciphertext : Text
  dataCommitment : Text
  eventId : Text
  ownerCommitment : Text
  deriving DecidableEq

structure ProtocolStore where
  marginCommitments : OrderedSet Text
  positionCommitments : OrderedSet Text
  spentNullifiers : OrderedSet Text
  intents : OrderedMap Text IntentRecord
  residualOrders : OrderedMap Text ResidualOrderRecord
  orderLifecycle : OrderedMap Text OrderLifecycleRecord
  positionLifecycle : OrderedMap Text PositionLifecycleRecord
  settlements : OrderedMap Text SettlementRecord
  liquidations : OrderedMap Text LiquidationRecord
  conditionalCloses : OrderedMap Text ConditionalOrderRecord
  positionCloses : OrderedMap Text PositionCloseRecord
  withdrawals : OrderedMap Text WithdrawalRecord
  accountEvents : OrderedMap Text AccountEventRecord
  privateMatchIntents : OrderedMap Text PrivateMatchIntent
  proofs : OrderedSet Text
  deriving DecidableEq

/-- A new store. -/
def ProtocolStore.empty : ProtocolStore where
  marginCommitments := .empty
  positionCommitments := .empty
  spentNullifiers := .empty
  intents := .empty
  residualOrders := .empty
  orderLifecycle := .empty
  positionLifecycle := .empty
  settlements := .empty
  liquidations := .empty
  conditionalCloses := .empty
  positionCloses := .empty
  withdrawals := .empty
  accountEvents := .empty
  privateMatchIntents := .empty
  proofs := .empty

abbrev StoreScript := Script ProtocolStore String

/-! ## Roots and proofs of membership -/

section Roots

variable (poseidon2Hash : Fr → Fr → Fr)

def ProtocolStore.marginMembershipRoot (store : ProtocolStore) : Option Text :=
  fieldMerkleRoot poseidon2Hash store.marginCommitments.elems fieldMerkleDepth

def ProtocolStore.marginMembershipProof (store : ProtocolStore) (commitment : Text) :
    Option FieldMerkleProof :=
  fieldMerkleProof poseidon2Hash store.marginCommitments.elems commitment fieldMerkleDepth

def ProtocolStore.positionMembershipRoot (store : ProtocolStore) : Option Text :=
  positionMerkleRoot poseidon2Hash store.positionCommitments.elems positionMerkleDepth

end Roots

/-! ## Proofs and nullifiers -/

/-- `[circuitKey, verifierHash, publicInputHash, proofDigest].join(":")`. -/
def proofKey (proof : ProofRecord) : Text :=
  List.intercalate [':']
    [proof.circuitKey, proof.verifierHash, proof.publicInputHash, proof.proofDigest]

def hasProof (store : ProtocolStore) (proof : ProofRecord) : Prop := proofKey proof ∈ store.proofs

instance (store : ProtocolStore) (proof : ProofRecord) : Decidable (hasProof store proof) := by
  unfold hasProof; infer_instance

def recordProof (proof : ProofRecord) : StoreScript Unit :=
  update fun store => { store with proofs := store.proofs.add (proofKey proof) }

def assertProof (proof : ProofRecord) : StoreScript Unit := do
  let store ← read id
  throwIf (¬ hasProof store proof) "unverified proof"

def spend (nullifier : Text) : StoreScript Unit := do
  let store ← read id
  throwIf (nullifier ∈ store.spentNullifiers) "nullifier already spent"
  update fun store => { store with spentNullifiers := store.spentNullifiers.add nullifier }

/-! ## Margin notes -/

def addMarginCommitment (commitment : Text) : StoreScript Unit := do
  let store ← read id
  throwIf (commitment ∈ store.marginCommitments) "margin commitment already exists"
  update fun store => { store with marginCommitments := store.marginCommitments.add commitment }

def addWithdrawal (record : WithdrawalRecord) : StoreScript Unit := do
  let store ← read id
  throwIf (store.withdrawals.get? record.nullifier).isSome "withdrawal already exists"
  assertProof record.proof
  spend record.nullifier
  doIf (record.changeCommitment ≠ "0x0".toList) (update fun store =>
    { store with marginCommitments := store.marginCommitments.add record.changeCommitment })
  update fun store => { store with withdrawals := store.withdrawals.set record.nullifier record }

/-! ## Orders -/

def statusOpen : Text := "open".toList

def statusCancelled : Text := "cancelled".toList

def statusFilled : Text := "filled".toList

def statusPartiallyFilled : Text := "partially-filled".toList

/-- `this.orderLifecycle.get(intentCommitment)?.status`. -/
def ProtocolStore.orderStatus (store : ProtocolStore) (intentCommitment : Text) : Option Text :=
  (store.orderLifecycle.get? intentCommitment).map (·.status)

def assertPrivateMatchIntent (H : Host) (record : OrderRecord) (payload : PrivateMatchIntent) :
    StoreScript Unit := do
  throwIf (payload.intentCommitment ≠ record.intentCommitment)
    "private match payload intent mismatch"
  throwIf (payload.marketId ≠ record.marketId) "private match payload market mismatch"
  throwIf (payload.ownerCommitment ≠ record.ownerCommitment)
    "private match payload owner mismatch"
  throwIf (payload.noteNullifier ≠ record.noteNullifier)
    "private match payload nullifier mismatch"
  throwIf (record.noteChangeCommitment.isSome ∧
      some payload.noteChangeCommitment ≠ record.noteChangeCommitment)
    "private match payload change commitment mismatch"
  throwIf (record.noteChangeCommitment.isNone ∧ payload.noteChangeCommitment ≠ "0x0".toList)
    "residual private match payload cannot carry a note change"
  throwIf (matchingPayloadCommitment H payload ≠ record.matchingPayloadCommitment)
    "private match payload commitment mismatch"

/-- The payload of an order is checked and kept, if there is one. -/
def keepPrivateMatchIntent (H : Host) (record : OrderRecord)
    (privateMatchIntent : Option PrivateMatchIntent) : StoreScript Unit :=
  match privateMatchIntent with
  | some payload => do
    assertPrivateMatchIntent H record payload
    update fun store => { store with
      privateMatchIntents := store.privateMatchIntents.set record.intentCommitment payload }
  | none => pure ()

/-- The lifecycle of an order that has just been added. -/
def openLifecycle (createdAt updatedAt : ℤ) (order : OrderRecord) : OrderLifecycleRecord where
  batchId := order.batchId
  cancellationTxHash := none
  createdAt := createdAt
  intentCommitment := order.intentCommitment
  matchingRunId := none
  marketId := order.marketId
  ownerCommitment := order.ownerCommitment
  residualCommitment := none
  status := statusOpen
  updatedAt := updatedAt

/-- An order with the nullifier is in the book and not cancelled. -/
def ProtocolStore.locked (store : ProtocolStore) (nullifier : Text) : Prop :=
  ∃ existing ∈ store.intents.values, existing.noteNullifier = nullifier ∧
    store.orderStatus existing.intentCommitment ≠ some statusCancelled

instance (store : ProtocolStore) (nullifier : Text) : Decidable (store.locked nullifier) := by
  unfold ProtocolStore.locked; infer_instance

def addIntent (H : Host) (poseidon2Hash : Fr → Fr → Fr) (now : ℤ) (record : IntentRecord)
    (privateMatchIntent : Option PrivateMatchIntent) : StoreScript Unit := do
  let store ← read id
  throwIf (store.intents.get? record.intentCommitment).isSome "intent commitment already exists"
  throwIf (record.batchDigest = [] ∨ record.marketDigest = [] ∨ record.ownerCommitmentField = [])
    "intent public binding is required"
  throwIf (record.matchingPayloadCommitment = [])
    "intent matching payload commitment is required"
  keepPrivateMatchIntent H record.order privateMatchIntent
  assertProof record.proof
  let root ← orThrow (store.marginMembershipRoot poseidon2Hash) "field merkle tree is full"
  throwIf (record.marginRoot ≠ root) "intent margin root is not current"
  throwIf (record.noteNullifier ∈ store.spentNullifiers) "intent nullifier already spent"
  throwIf (store.locked record.noteNullifier) "intent nullifier already locked"
  update fun store => { store with
    intents := store.intents.set record.intentCommitment record
    orderLifecycle := store.orderLifecycle.set record.intentCommitment
      (openLifecycle now now record.order) }

def cancelOrder (now : ℤ) (intentCommitment : Text) (cancellationTxHash : Option Text) :
    StoreScript Unit := do
  let store ← read id
  let existing ← orThrow (store.orderLifecycle.get? intentCommitment) "unknown order"
  throwIf (existing.status = statusFilled) "filled order cannot be cancelled"
  throwIf (existing.status = statusCancelled) "order already cancelled"
  throwIf (existing.status = statusPartiallyFilled ∧ truthy existing.residualCommitment)
    "This order has rolled over; cancel its active residual instead"
  update fun store => { store with
    orderLifecycle := store.orderLifecycle.set intentCommitment
      { existing with
        cancellationTxHash := if truthy cancellationTxHash then cancellationTxHash
          else existing.cancellationTxHash
        status := statusCancelled
        updatedAt := now } }

def addResidualOrder (H : Host) (record : ResidualOrderRecord)
    (privateMatchIntent : Option PrivateMatchIntent) : StoreScript Unit := do
  let store ← read id
  throwIf (store.residualOrders.get? record.intentCommitment).isSome
    "residual order already exists"
  throwIf (record.matchingPayloadCommitment = [])
    "residual order matching payload commitment is required"
  keepPrivateMatchIntent H record.order privateMatchIntent
  update fun store => { store with
    residualOrders := store.residualOrders.set record.intentCommitment record
    orderLifecycle := store.orderLifecycle.set record.intentCommitment
      (openLifecycle record.createdAt record.updatedAt record.order) }

/-! ## Settlements -/

def addPositionOpening (record : PositionLifecycleRecord) : StoreScript Unit := do
  let store ← read id
  throwIf (store.positionLifecycle.get? record.positionCommitment).isSome
    "position lifecycle already exists"
  throwIf (record.status ≠ statusOpen) "position opening must be open"
  throwIf (record.positionCommitment ∉ store.positionCommitments) "unknown position commitment"
  update fun store => { store with
    positionLifecycle := store.positionLifecycle.set record.positionCommitment record }

def validatePositionOpenings (settlement : SettlementRecord)
    (openings : List PositionLifecycleRecord) : StoreScript Unit :=
  openings |> forEach fun opening => do
    throwIf (opening.batchId ≠ settlement.batchId) "position opening batch mismatch"
    throwIf (opening.marketId ≠ settlement.marketId) "position opening market mismatch"
    throwIf (opening.settlementDigest ≠ settlement.settlementDigest)
      "position opening settlement mismatch"
    throwIf (opening.positionCommitment ∉ settlement.newCommitments)
      "position opening commitment mismatch"

/-- `residualUpdates.get(commitment)`: the source of the last update with the residual. An empty
text is no source. -/
def residualSource (settlement : SettlementRecord) (commitment : Text) : Option Text :=
  ((settlement.orderUpdates.reverse.find? fun update =>
    update.status = statusPartiallyFilled ∧ truthy update.residualCommitment ∧
      update.residualCommitment = some commitment).map (·.intentCommitment)).filter (· ≠ [])

def validateResidualOrders (settlement : SettlementRecord)
    (residuals : List ResidualOrderRecord) : StoreScript Unit :=
  residuals |> forEach fun residual => do
    throwIf (residual.batchId ≠ settlement.batchId) "residual order batch mismatch"
    throwIf (residual.marketId ≠ settlement.marketId) "residual order market mismatch"
    let source ← orThrow (residualSource settlement residual.intentCommitment)
      "residual order update mismatch"
    throwIf (source ≠ residual.sourceIntentCommitment) "residual order source mismatch"

/-- The intent or the residual order with the commitment. -/
def ProtocolStore.order (store : ProtocolStore) (intentCommitment : Text) : Option OrderRecord :=
  ((store.intents.get? intentCommitment).map (·.order)).or
    ((store.residualOrders.get? intentCommitment).map (·.order))

/-- The lifecycle that an update of a settlement writes. -/
def settledLifecycle (now : ℤ) (order : OrderRecord) (previous : Option OrderLifecycleRecord)
    (orderUpdate : OrderUpdate) : OrderLifecycleRecord where
  batchId := order.batchId
  cancellationTxHash := none
  createdAt := (previous.map (·.createdAt)).getD now
  intentCommitment := orderUpdate.intentCommitment
  matchingRunId := previous.bind (·.matchingRunId)
  marketId := order.marketId
  ownerCommitment := order.ownerCommitment
  residualCommitment := orderUpdate.residualCommitment
  status := orderUpdate.status
  updatedAt := now

/-- One round of `applySettlementOrderUpdates`. -/
def applyOrderUpdate (now : ℤ) (orderUpdate : OrderUpdate) : StoreScript Unit := do
  let store ← read id
  let order ← orThrow (store.order orderUpdate.intentCommitment) "unknown settlement intent"
  let previous := store.orderLifecycle.get? orderUpdate.intentCommitment
  update fun store => { store with
    orderLifecycle := store.orderLifecycle.set orderUpdate.intentCommitment
      (settledLifecycle now order previous orderUpdate) }

def applySettlementOrderUpdates (now : ℤ) (settlement : SettlementRecord) : StoreScript Unit :=
  forEach (applyOrderUpdate now) settlement.orderUpdates

def addAccountEvent (record : AccountEventRecord) : StoreScript Unit := do
  let store ← read id
  throwIf (store.accountEvents.get? record.eventId).isSome "account event already exists"
  update fun store => { store with accountEvents := store.accountEvents.set record.eventId record }

/-- The key of a settlement. -/
def settlementKey (settlement : SettlementRecord) : Text :=
  settlement.marketId ++ ':' :: settlement.batchId

/-- One round of the loop over the openings of a settlement, whose first position has the index
`firstPositionIndex`. -/
def openPosition (settlement : SettlementRecord) (firstPositionIndex : ℕ)
    (opening : PositionLifecycleRecord) : StoreScript Unit := do
  let offset ← orThrow (settlement.newCommitments.idxOf? opening.positionCommitment)
    "position opening commitment is not in settlement"
  addPositionOpening { opening with positionIndex := some (firstPositionIndex + offset) }

def addSettlement (H : Host) (now : ℤ) (settlement : SettlementRecord)
    (positionOpenings : List PositionLifecycleRecord) (residualOrders : List ResidualOrderRecord)
    (accountEvents : List AccountEventRecord) (privateMatchIntents : List PrivateMatchIntent) :
    StoreScript Unit := do
  let store ← read id
  throwIf (store.settlements.get? (settlementKey settlement)).isSome "batch already settled"
  throwIf (settlement.matchTranscriptDigest = []) "match transcript digest is required"
  assertProof settlement.proof
  validatePositionOpenings settlement positionOpenings
  validateResidualOrders settlement residualOrders
  update fun store => { store with
    positionCommitments := store.positionCommitments.addAll settlement.newCommitments
    marginCommitments := store.marginCommitments.addAll settlement.marginChangeCommitments }
  forEach spend settlement.spentNullifiers
  applySettlementOrderUpdates now settlement
  forEach (openPosition settlement store.positionCommitments.size) positionOpenings
  residualOrders |> forEach fun residual =>
    addResidualOrder H residual (intentByCommitment privateMatchIntents residual.intentCommitment)
  forEach addAccountEvent accountEvents
  update fun store =>
    { store with settlements := store.settlements.set (settlementKey settlement) settlement }

/-! ## Liquidations and closes -/

def ProtocolStore.findPosition (store : ProtocolStore)
    (positionCommitment positionNullifier : Text) : Option PositionLifecycleRecord :=
  (store.positionLifecycle.get? positionCommitment).or
    (store.positionLifecycle.values.find? (·.positionNullifier = positionNullifier))

/-- The lifecycle of a position is changed, if it is known. -/
def markPosition (positionCommitment positionNullifier : Text)
    (mark : PositionLifecycleRecord → PositionLifecycleRecord) : StoreScript Unit :=
  update fun store =>
    match store.findPosition positionCommitment positionNullifier with
    | some position => { store with
        positionLifecycle :=
          store.positionLifecycle.set position.positionCommitment (mark position) }
    | none => store

def markPositionLiquidated (record : LiquidationRecord) : StoreScript Unit :=
  markPosition record.positionCommitment record.positionNullifier fun position => { position with
    liquidationRewardCommitment := some record.rewardCommitment
    status := "liquidated".toList }

def addLiquidation (record : LiquidationRecord) : StoreScript Unit := do
  let store ← read id
  throwIf (store.liquidations.get? record.positionNullifier).isSome "position already liquidated"
  assertProof record.proof
  spend record.positionNullifier
  markPositionLiquidated record
  update fun store =>
    { store with liquidations := store.liquidations.set record.positionNullifier record }

def addConditionalClose (record : ConditionalOrderRecord) : StoreScript Unit := do
  let store ← read id
  throwIf (store.conditionalCloses.get? record.closeCommitment).isSome
    "conditional close already exists"
  assertProof record.proof
  update fun store => { store with
    conditionalCloses := store.conditionalCloses.set record.closeCommitment record }

def markPositionClosed (record : PositionCloseRecord) : StoreScript Unit :=
  markPosition record.positionCommitment record.positionNullifier fun position => { position with
    closeCommitment := some record.closeCommitment
    marginOutputCommitment := some record.marginOutputCommitment
    newPositionCommitment := some record.newPositionCommitment
    status := "closed".toList }

def addPositionCloseRecord (poseidon2Hash : Fr → Fr → Fr) (record : PositionCloseRecord) :
    StoreScript Unit := do
  let store ← read id
  throwIf (store.positionCloses.get? record.closeCommitment).isSome "position close already exists"
  assertProof record.proof
  spend record.positionNullifier
  update fun store => { store with
    positionCommitments := store.positionCommitments.add record.newPositionCommitment
    marginCommitments := store.marginCommitments.add record.marginOutputCommitment }
  markPositionClosed record
  let root ← (do
    let store ← read id
    orThrow (store.positionMembershipRoot poseidon2Hash) "position merkle tree is full")
  update fun store' => { store' with
    positionCloses := store'.positionCloses.set record.closeCommitment { record with
      outputPositionIndex := some store.positionCommitments.size
      outputPositionRoot := some root } }

/-- The conditional close of a record has been triggered. -/
def ProtocolStore.triggered (store : ProtocolStore) (record : PositionCloseRecord) : Prop :=
  ∃ close ∈ store.conditionalCloses.get? record.closeCommitment,
    close.marketId = record.marketId ∧ close.positionNullifier = record.positionNullifier

instance (store : ProtocolStore) (record : PositionCloseRecord) :
    Decidable (store.triggered record) := by
  unfold ProtocolStore.triggered; infer_instance

def addPositionClose (poseidon2Hash : Fr → Fr → Fr) (record : PositionCloseRecord) :
    StoreScript Unit := do
  let store ← read id
  throwIf (¬ store.triggered record) "conditional close not triggered"
  addPositionCloseRecord poseidon2Hash record

def addManualPositionClose (poseidon2Hash : Fr → Fr → Fr) (record : PositionCloseRecord) :
    StoreScript Unit :=
  addPositionCloseRecord poseidon2Hash record

def addPairedPositionCloses (poseidon2Hash : Fr → Fr → Fr) (trader maker : PositionCloseRecord)
    (conditional : Bool) : StoreScript Unit := do
  let store ← read id
  throwIf (trader.marketId ≠ maker.marketId ∨ trader.markPrice ≠ maker.markPrice ∨
      trader.positionNullifier = maker.positionNullifier ∨
      trader.closeCommitment = maker.closeCommitment ∨
      trader.marginOutputCommitment = maker.marginOutputCommitment)
    "invalid paired position closes"
  throwIf ((store.positionCloses.get? trader.closeCommitment).isSome ∨
      (store.positionCloses.get? maker.closeCommitment).isSome ∨
      trader.positionNullifier ∈ store.spentNullifiers ∨
      maker.positionNullifier ∈ store.spentNullifiers)
    "paired position already closed"
  assertProof trader.proof
  assertProof maker.proof
  throwIf (conditional ∧ ¬ store.triggered trader) "conditional close not triggered"
  addPositionCloseRecord poseidon2Hash trader
  addPositionCloseRecord poseidon2Hash maker

/-! ## Calls -/

/-- A call of an operation of the store. -/
inductive StoreCall where
  | recordProof (proof : ProofRecord)
  | addMarginCommitment (commitment : Text)
  | addWithdrawal (record : WithdrawalRecord)
  | addIntent (now : ℤ) (record : IntentRecord) (privateMatchIntent : Option PrivateMatchIntent)
  | cancelOrder (now : ℤ) (intentCommitment : Text) (cancellationTxHash : Option Text)
  | addSettlement (now : ℤ) (settlement : SettlementRecord)
      (positionOpenings : List PositionLifecycleRecord) (residualOrders : List ResidualOrderRecord)
      (accountEvents : List AccountEventRecord) (privateMatchIntents : List PrivateMatchIntent)
  | addAccountEvent (record : AccountEventRecord)
  | addLiquidation (record : LiquidationRecord)
  | addConditionalClose (record : ConditionalOrderRecord)
  | addPositionClose (record : PositionCloseRecord)
  | addManualPositionClose (record : PositionCloseRecord)
  | addPairedPositionCloses (trader maker : PositionCloseRecord) (conditional : Bool)

def StoreCall.script (H : Host) (poseidon2Hash : Fr → Fr → Fr) : StoreCall → StoreScript Unit
  | .recordProof proof => Server.recordProof proof
  | .addMarginCommitment commitment => Server.addMarginCommitment commitment
  | .addWithdrawal record => Server.addWithdrawal record
  | .addIntent now record privateMatchIntent =>
    Server.addIntent H poseidon2Hash now record privateMatchIntent
  | .cancelOrder now intentCommitment cancellationTxHash =>
    Server.cancelOrder now intentCommitment cancellationTxHash
  | .addSettlement now settlement positionOpenings residualOrders accountEvents
      privateMatchIntents =>
    Server.addSettlement H now settlement positionOpenings residualOrders accountEvents
      privateMatchIntents
  | .addAccountEvent record => Server.addAccountEvent record
  | .addLiquidation record => Server.addLiquidation record
  | .addConditionalClose record => Server.addConditionalClose record
  | .addPositionClose record => Server.addPositionClose poseidon2Hash record
  | .addManualPositionClose record => Server.addManualPositionClose poseidon2Hash record
  | .addPairedPositionCloses trader maker conditional =>
    Server.addPairedPositionCloses poseidon2Hash trader maker conditional

end Pnlx.Server
