import Pnlx.Server.ExternalSettlements

/-!
# The transcript of the matcher

`MatcherService` matches the open orders of a market, has the settlement proved, and encrypts an
account event for each owner. The settlement without its proof is computed from the orders, the
market and the batch alone (`transcripts_agree`).
-/

namespace Pnlx.Server

open BatchMatch (Text)
open Script

variable (H : Host) (poseidon2Hash : Fr → Fr → Fr)

structure CreateExternalSettlementInput where
  batchId : Text
  includeOpenMarketOrders : Bool
  intentCommitments : Option (List Text)
  marketId : Text
  deriving DecidableEq

structure PrivatePositionOpeningEvent where
  entryFee : ℤ
  entryPrice : ℤ
  fundingIndex : ℤ
  margin : ℤ
  marketId : Text
  positionCommitment : Text
  positionNullifier : Text
  side : BatchMatch.Side
  size : ℤ
  sourceIntentCommitment : Text
  deriving DecidableEq

/-- What a matcher works with: the markets, which are kept beside the rest of the store, the time at
which the residual orders of a settlement are made, the prover, and the encryption for the owner of
an event. -/
structure MatcherService where
  markets : Text → Option MarketConfig
  now : ℤ
  createSettlement : SettlementProofInput → BatchSettlement → Except String ProofRecord
  encryptOpening : PositionLifecycleRecord → PrivatePositionOpeningEvent → Except String Text
  encryptResidual : ResidualOrderRecord → Text → Except String Text

/-- What an `IntentRecord` and a `ResidualOrderRecord` have in common, with their sequence. -/
structure MatchRecord extends OrderRecord where
  submissionSequence : Option ℤ
  deriving DecidableEq

/-- The value of an option, or an error. -/
def orError {α : Type} (error : String) : Option α → Except String α
  | some a => .ok a
  | none => .error error

theorem orError_eq_ok {α : Type} {e : String} {o : Option α} {a : α} :
    orError e o = .ok a ↔ o = some a := by
  cases o with
  | none => exact ⟨fun h => (by cases h), fun h => (by cases h)⟩
  | some a' => exact ⟨fun h => congrArg some (Except.ok.inj h), fun h => Option.some.inj h ▸ rfl⟩

/-- The results of a loop that returns. -/
theorem forall₂_of_mapM {α β ε : Type} {f : α → Except ε β} {as : List α} {bs : List β}
    (h : as.mapM f = .ok bs) : List.Forall₂ (fun a b => f a = .ok b) as bs := by
  induction as generalizing bs with
  | nil =>
    obtain rfl := Except.ok.inj h
    exact .nil
  | cons a as ih =>
    rw [List.mapM_cons] at h
    obtain ⟨b, hb, h⟩ := except_bind_eq_ok.mp h
    obtain ⟨bs', hbs, h⟩ := except_bind_eq_ok.mp h
    obtain rfl := Except.ok.inj h
    exact .cons hb (ih hbs)

/-! ## The orders of a batch -/

/-- `store.orderLifecycle.get(intentCommitment)?.createdAt ?? 0`. -/
def ProtocolStore.createdAt (store : ProtocolStore) (intentCommitment : Text) : ℤ :=
  ((store.orderLifecycle.get? intentCommitment).map (·.createdAt)).getD 0

/-- The order in which intents are matched: by sequence if both have one, else by time. -/
def submittedBefore (createdAt : Text → ℤ) (left right : MatchRecord) : Prop :=
  match left.submissionSequence, right.submissionSequence with
  | some left, some right => left ≤ right
  | _, _ => createdAt left.intentCommitment ≤ createdAt right.intentCommitment

instance (createdAt : Text → ℤ) : DecidableRel (submittedBefore createdAt) := fun left right => by
  unfold submittedBefore
  split <;> infer_instance

def activeIntents (store : ProtocolStore) (marketId batchId : Text)
    (includeOpenMarketOrders : Bool) : List MatchRecord :=
  ((store.intents.values.filter fun intent =>
    (includeOpenMarketOrders ∨ intent.batchId = batchId) ∧ intent.marketId = marketId ∧
      store.orderStatus intent.intentCommitment = some statusOpen).map fun intent =>
    ⟨intent.order, intent.submissionSequence⟩).insertionSort (submittedBefore store.createdAt)

def activeResiduals (store : ProtocolStore) (marketId batchId : Text) : List MatchRecord :=
  (store.residualOrders.values.filter fun order =>
    order.marketId = marketId ∧ store.orderStatus order.intentCommitment = some statusOpen).map
    fun order => ⟨{ order.order with batchId := batchId }, order.submissionSequence⟩

def privateMatchIntentFor (store : ProtocolStore) (batchId : Text) (record : MatchRecord) :
    Except String PrivateMatchIntent := do
  let payload ← orError "private match payload not found"
    (store.privateMatchIntents.get? record.intentCommitment)
  let _ ← (assertPrivateMatchIntent H record.toOrderRecord payload store).1
  pure { payload with batchId := batchId }

def privateMatchIntentsFor (store : ProtocolStore) (batchId : Text)
    (records residuals : List MatchRecord) : Except String (List PrivateMatchIntent) :=
  let all := records ++ residuals
  if (∃ record ∈ all, record.submissionSequence.isSome) ∧
      ∃ record ∈ all, record.submissionSequence.isNone then
    .error "mixed sequenced and unsequenced intents cannot be matched"
  else
    (all.insertionSort (submittedBefore store.createdAt)).mapM
      (privateMatchIntentFor H store batchId)

/-! ## The records of a settlement -/

def createPositionEvents (fills : List Fill) (fundingIndex : ℤ)
    (executions : List MatchExecution) : Except String (List PrivatePositionOpeningEvent) :=
  fills.mapM fun fill => do
    let execution ← orError "position fee allocation is missing" (executions.find? fun candidate =>
      candidate.longPositionCommitment = fill.positionCommitment ∨
        candidate.shortPositionCommitment = fill.positionCommitment)
    pure
      { entryFee := if execution.makerIntentCommitment = fill.intentCommitment then
          -execution.makerRebate else execution.grossTakerFee
        entryPrice := fill.price
        fundingIndex := fundingIndex
        margin := fill.margin
        marketId := fill.marketId
        positionCommitment := fill.positionCommitment
        positionNullifier := fill.positionNullifier
        side := fill.side
        size := fill.size
        sourceIntentCommitment := fill.intentCommitment }

def createPositionOpenings (settlement : SettlementRecord) (fills : List Fill) :
    List PositionLifecycleRecord :=
  fills.map fun fill =>
    { batchId := settlement.batchId
      closeCommitment := none
      liquidationRewardCommitment := none
      marginOutputCommitment := none
      marketId := fill.marketId
      newPositionCommitment := none
      ownerCommitment := fill.ownerCommitment
      positionCommitment := fill.positionCommitment
      positionIndex := none
      positionNullifier := fill.positionNullifier
      settlementDigest := settlement.settlementDigest
      sourceIntentCommitment := fill.intentCommitment
      status := statusOpen }

def createResidualOrderRecords (now : ℤ) (records : List MatchRecord)
    (settlement : SettlementRecord) (residuals : List PrivateMatchIntent) :
    List ResidualOrderRecord :=
  residuals.map fun residual =>
    let source := residual.sourceIntentCommitment.getD residual.intentCommitment
    { batchId := settlement.batchId
      createdAt := now
      intentCommitment := residual.intentCommitment
      marketId := residual.marketId
      matchingPayloadCommitment := matchingPayloadCommitment H residual
      noteNullifier := residual.noteNullifier
      ownerCommitment := residual.ownerCommitment
      sourceIntentCommitment := source
      submissionSequence :=
        (records.find? (·.intentCommitment = source)).bind (·.submissionSequence)
      updatedAt := now }

def createPositionOpeningAccountEvent (service : MatcherService)
    (opening : PositionLifecycleRecord) (event : PrivatePositionOpeningEvent) :
    Except String AccountEventRecord := do
  let ciphertext ← service.encryptOpening opening event
  let dataCommitment := positionOpeningAccountEventDataCommitment H opening ciphertext
  pure
    { ciphertext := ciphertext
      dataCommitment := dataCommitment
      eventId := positionOpeningAccountEventId H opening dataCommitment
      ownerCommitment := opening.ownerCommitment }

def createResidualOrderAccountEvent (service : MatcherService) (residual : ResidualOrderRecord)
    (settlementDigest : Text) : Except String AccountEventRecord := do
  let ciphertext ← service.encryptResidual residual settlementDigest
  let dataCommitment :=
    residualOrderAccountEventDataCommitment H residual settlementDigest ciphertext
  pure
    { ciphertext := ciphertext
      dataCommitment := dataCommitment
      eventId := residualOrderAccountEventId H residual settlementDigest dataCommitment
      ownerCommitment := residual.ownerCommitment }

def createAccountEvents (service : MatcherService) (openings : List PositionLifecycleRecord)
    (positionEvents : List PrivatePositionOpeningEvent) (residualOrders : List ResidualOrderRecord)
    (settlementDigest : Text) : Except String (List AccountEventRecord) := do
  let opened ← openings.mapM fun opening => do
    let event ← orError "position account event payload is required"
      (positionEvents.find? (·.positionCommitment = opening.positionCommitment))
    createPositionOpeningAccountEvent H service opening event
  let resting ← residualOrders.mapM fun residual =>
    createResidualOrderAccountEvent H service residual settlementDigest
  pure (opened ++ resting)

/-! ## The transcript -/

/-- The match of a batch, and its settlement without the proof. -/
structure PreparedSettlement where
  input : SettlementProofInput
  records : List MatchRecord
  draft : BatchSettlement

/-- The part of `createSettlementTranscript` up to the proof. -/
def prepareSettlement (markets : Text → Option MarketConfig) (store : ProtocolStore)
    (input : CreateExternalSettlementInput) : Except String PreparedSettlement := do
  let market ← orError "unknown market" (markets input.marketId)
  let selected (record : MatchRecord) : Bool :=
    input.intentCommitments.all (record.intentCommitment ∈ ·)
  let records := (activeIntents store input.marketId input.batchId
    input.includeOpenMarketOrders).filter selected
  let residuals := (activeResiduals store input.marketId input.batchId).filter selected
  let _ ← orError "batch has no active intents" (assert (records ≠ [] ∨ residuals ≠ []))
  let intents ← privateMatchIntentsFor H store input.batchId records residuals
  let matched ← orError "batch cannot be matched"
    (matchBatch H poseidon2Hash none ⟨input.batchId, intents, market⟩)
  let proofInput : SettlementProofInput := ⟨input.batchId, market, intents, matched⟩
  let draft ← orError "batch cannot be settled" (prepareRisc0SettlementDraft H proofInput)
  pure ⟨proofInput, records ++ residuals, draft⟩

/-- `createSettlementTranscript` with the matcher that is embedded in the service. -/
def createSettlementTranscript (service : MatcherService) (store : ProtocolStore)
    (input : CreateExternalSettlementInput) : Except String ExternalBatchSettlementTranscript := do
  let prepared ← prepareSettlement H poseidon2Hash service.markets store input
  let matched := prepared.input.matched
  let proof ← service.createSettlement prepared.input prepared.draft
  let settlement : SettlementRecord := { prepared.draft with proof := proof }
  let openings := createPositionOpenings settlement matched.fills
  let positionEvents ← createPositionEvents matched.fills prepared.input.market.fundingIndex
    matched.executions
  let residualOrders :=
    createResidualOrderRecords H service.now prepared.records settlement matched.residuals
  let accountEvents ← createAccountEvents H service openings positionEvents residualOrders
    settlement.settlementDigest
  pure
    { accountEvents := accountEvents
      positionOpenings := openings
      privateMatchIntents := matched.residuals
      residualOrders := residualOrders
      settlement := settlement }

end Pnlx.Server
