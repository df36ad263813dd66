import Pnlx.Server.Codecs
import Pnlx.Server.StoreFrames
import Pnlx.Server.StoreWrites

/-!
# The records of the store as values

The two models of the store are of one object. `ProtocolStore` has the records with the properties
that its operations read, `StoreTables` has JavaScript values.

1. The codec of each record, with the names of `protocol-types`.
2. `ProtocolStore.tables`: the tables that hold a store, beside those that it does not model.
   `StoreTables.protocolStore`: the store in some tables. `protocolStore_tables`: it is the store that
   they hold, also after the absent properties are gone.
-/

namespace Pnlx.Server

open BatchMatch (Text)
open Properties

/-! ## Records -/

namespace Codec

def proofRecord : Codec ProofRecord := .record
  ((required "circuitId" text).both <| (required "circuitKey" text).both <|
    (required "verifierHash" text).both <| (required "publicInputHash" text).both <|
    (required "proofDigest" text).both <| (optional "proofSystem" text).both <|
    (optional "imageId" text).both <| (optional "journalDigest" text).both <|
    optional "sealDigest" text)
  (fun (circuitId, circuitKey, verifierHash, publicInputHash, proofDigest, proofSystem, imageId,
    journalDigest, sealDigest) => ⟨circuitId, circuitKey, verifierHash, publicInputHash, proofDigest,
      proofSystem, imageId, journalDigest, sealDigest⟩)
  (fun p => (p.circuitId, p.circuitKey, p.verifierHash, p.publicInputHash, p.proofDigest,
    p.proofSystem, p.imageId, p.journalDigest, p.sealDigest))
  (fun _ => rfl) (by decide +kernel)

def privateMatchIntent : Codec PrivateMatchIntent := .record
  ((required "batchId" text).both <| (required "intentCommitment" text).both <|
    (required "limitPrice" bigint).both <| (required "margin" bigint).both <|
    (required "marketId" text).both <| (required "noteChangeCommitment" text).both <|
    (required "noteNullifier" text).both <| (required "ownerCommitment" text).both <|
    (required "signedSize" bigint).both <| optional "sourceIntentCommitment" text)
  (fun (batchId, intentCommitment, limitPrice, margin, marketId, noteChangeCommitment, noteNullifier,
    ownerCommitment, signedSize, sourceIntentCommitment) => ⟨batchId, intentCommitment, limitPrice,
      margin, marketId, noteChangeCommitment, noteNullifier, ownerCommitment, signedSize,
      sourceIntentCommitment⟩)
  (fun r => (r.batchId, r.intentCommitment, r.limitPrice, r.margin, r.marketId,
    r.noteChangeCommitment, r.noteNullifier, r.ownerCommitment, r.signedSize,
    r.sourceIntentCommitment))
  (fun _ => rfl) (by decide +kernel)

def intentRecord : Codec IntentRecord := .record
  ((required "batchId" text).both <| (required "batchDigest" text).both <|
    (required "marketId" text).both <| (required "marketDigest" text).both <|
    (required "marginRoot" text).both <| (required "ownerCommitmentField" text).both <|
    (required "ownerCommitment" text).both <| (required "intentCommitment" text).both <|
    (required "matchingPayloadCommitment" text).both <|
    (required "noteChangeCommitment" text).both <| (required "proof" proofRecord).both <|
    (required "noteNullifier" text).both <| optional "submissionSequence" bigint)
  (fun (batchId, batchDigest, marketId, marketDigest, marginRoot, ownerCommitmentField,
    ownerCommitment, intentCommitment, matchingPayloadCommitment, noteChangeCommitment, proof,
    noteNullifier, submissionSequence) => ⟨batchId, batchDigest, marketId, marketDigest, marginRoot,
      ownerCommitmentField, ownerCommitment, intentCommitment, matchingPayloadCommitment,
      noteChangeCommitment, proof, noteNullifier, submissionSequence⟩)
  (fun r => (r.batchId, r.batchDigest, r.marketId, r.marketDigest, r.marginRoot,
    r.ownerCommitmentField, r.ownerCommitment, r.intentCommitment, r.matchingPayloadCommitment,
    r.noteChangeCommitment, r.proof, r.noteNullifier, r.submissionSequence))
  (fun _ => rfl) (by decide +kernel)

def residualOrderRecord : Codec ResidualOrderRecord := .record
  ((required "batchId" text).both <| (required "createdAt" number).both <|
    (required "intentCommitment" text).both <| (required "marketId" text).both <|
    (required "matchingPayloadCommitment" text).both <| (required "noteNullifier" text).both <|
    (required "ownerCommitment" text).both <| (required "sourceIntentCommitment" text).both <|
    (optional "submissionSequence" bigint).both <| required "updatedAt" number)
  (fun (batchId, createdAt, intentCommitment, marketId, matchingPayloadCommitment, noteNullifier,
    ownerCommitment, sourceIntentCommitment, submissionSequence, updatedAt) => ⟨batchId, createdAt,
      intentCommitment, marketId, matchingPayloadCommitment, noteNullifier, ownerCommitment,
      sourceIntentCommitment, submissionSequence, updatedAt⟩)
  (fun r => (r.batchId, r.createdAt, r.intentCommitment, r.marketId, r.matchingPayloadCommitment,
    r.noteNullifier, r.ownerCommitment, r.sourceIntentCommitment, r.submissionSequence, r.updatedAt))
  (fun _ => rfl) (by decide +kernel)

def orderLifecycleRecord : Codec OrderLifecycleRecord := .record
  ((required "batchId" text).both <| (optional "cancellationTxHash" text).both <|
    (required "createdAt" number).both <| (required "intentCommitment" text).both <|
    (optional "matchingRunId" text).both <| (required "marketId" text).both <|
    (required "ownerCommitment" text).both <| (optional "residualCommitment" text).both <|
    (required "status" text).both <| required "updatedAt" number)
  (fun (batchId, cancellationTxHash, createdAt, intentCommitment, matchingRunId, marketId,
    ownerCommitment, residualCommitment, status, updatedAt) => ⟨batchId, cancellationTxHash,
      createdAt, intentCommitment, matchingRunId, marketId, ownerCommitment, residualCommitment,
      status, updatedAt⟩)
  (fun r => (r.batchId, r.cancellationTxHash, r.createdAt, r.intentCommitment, r.matchingRunId,
    r.marketId, r.ownerCommitment, r.residualCommitment, r.status, r.updatedAt))
  (fun _ => rfl) (by decide +kernel)

def positionLifecycleRecord : Codec PositionLifecycleRecord := .record
  ((required "batchId" text).both <| (optional "closeCommitment" text).both <|
    (optional "liquidationRewardCommitment" text).both <|
    (optional "marginOutputCommitment" text).both <| (required "marketId" text).both <|
    (optional "newPositionCommitment" text).both <| (required "ownerCommitment" text).both <|
    (required "positionCommitment" text).both <| (optional "positionIndex" count).both <|
    (required "positionNullifier" text).both <| (required "settlementDigest" text).both <|
    (required "sourceIntentCommitment" text).both <| required "status" text)
  (fun (batchId, closeCommitment, liquidationRewardCommitment, marginOutputCommitment, marketId,
    newPositionCommitment, ownerCommitment, positionCommitment, positionIndex, positionNullifier,
    settlementDigest, sourceIntentCommitment, status) => ⟨batchId, closeCommitment,
      liquidationRewardCommitment, marginOutputCommitment, marketId, newPositionCommitment,
      ownerCommitment, positionCommitment, positionIndex, positionNullifier, settlementDigest,
      sourceIntentCommitment, status⟩)
  (fun r => (r.batchId, r.closeCommitment, r.liquidationRewardCommitment, r.marginOutputCommitment,
    r.marketId, r.newPositionCommitment, r.ownerCommitment, r.positionCommitment, r.positionIndex,
    r.positionNullifier, r.settlementDigest, r.sourceIntentCommitment, r.status))
  (fun _ => rfl) (by decide +kernel)

def orderUpdate : Codec OrderUpdate := .record
  ((required "intentCommitment" text).both <| (optional "residualCommitment" text).both <|
    required "status" text)
  (fun (intentCommitment, residualCommitment, status) =>
    ⟨intentCommitment, residualCommitment, status⟩)
  (fun u => (u.intentCommitment, u.residualCommitment, u.status))
  (fun _ => rfl) (by decide +kernel)

def batchSettlement : Codec SettlementRecord := .record
  ((required "batchId" text).both <| (required "marketId" text).both <|
    (required "matchTranscriptDigest" text).both <| (required "settlementDigest" text).both <|
    (required "newCommitments" (list text)).both <|
    (required "marginChangeCommitments" (list text)).both <|
    (required "spentNullifiers" (list text)).both <|
    (required "matchingPayloadCommitments" (list text)).both <|
    (required "residualCommitments" (list text)).both <|
    (required "residualMargins" (list bigint)).both <|
    (required "residualPayloadCommitments" (list text)).both <|
    (required "fillCount" count).both <| (required "feeConfigHash" text).both <|
    (required "grossTakerFee" bigint).both <| (required "makerRebate" bigint).both <|
    (required "insuranceFee" bigint).both <| (required "treasuryFee" bigint).both <|
    (required "makerIntents" (list text)).both <| (required "takerIntents" (list text)).both <|
    (required "aggregateVolume" bigint).both <| (required "openInterestDelta" bigint).both <|
    (required "orderUpdates" (list orderUpdate)).both <| (required "residualSize" bigint).both <|
    required "proof" proofRecord)
  (fun (batchId, marketId, matchTranscriptDigest, settlementDigest, newCommitments,
    marginChangeCommitments, spentNullifiers, matchingPayloadCommitments, residualCommitments,
    residualMargins, residualPayloadCommitments, fillCount, feeConfigHash, grossTakerFee,
    makerRebate, insuranceFee, treasuryFee, makerIntents, takerIntents, aggregateVolume,
    openInterestDelta, orderUpdates, residualSize, proof) => ⟨⟨batchId, marketId,
      matchTranscriptDigest, settlementDigest, newCommitments, marginChangeCommitments,
      spentNullifiers, matchingPayloadCommitments, residualCommitments, residualMargins,
      residualPayloadCommitments, fillCount, feeConfigHash, grossTakerFee, makerRebate, insuranceFee,
      treasuryFee, makerIntents, takerIntents, aggregateVolume, openInterestDelta, orderUpdates,
      residualSize⟩, proof⟩)
  (fun s => (s.batchId, s.marketId, s.matchTranscriptDigest, s.settlementDigest, s.newCommitments,
    s.marginChangeCommitments, s.spentNullifiers, s.matchingPayloadCommitments,
    s.residualCommitments, s.residualMargins, s.residualPayloadCommitments, s.fillCount,
    s.feeConfigHash, s.grossTakerFee, s.makerRebate, s.insuranceFee, s.treasuryFee, s.makerIntents,
    s.takerIntents, s.aggregateVolume, s.openInterestDelta, s.orderUpdates, s.residualSize, s.proof))
  (fun _ => rfl) (by decide +kernel)

def liquidationRecord : Codec LiquidationRecord := .record
  ((required "marketId" text).both <| (required "positionCommitment" text).both <|
    (required "positionNullifier" text).both <| (required "rewardCommitment" text).both <|
    required "proof" proofRecord)
  (fun (marketId, positionCommitment, positionNullifier, rewardCommitment, proof) =>
    ⟨marketId, positionCommitment, positionNullifier, rewardCommitment, proof⟩)
  (fun r => (r.marketId, r.positionCommitment, r.positionNullifier, r.rewardCommitment, r.proof))
  (fun _ => rfl) (by decide +kernel)

def conditionalOrderRecord : Codec ConditionalOrderRecord := .record
  ((required "marketId" text).both <| (required "positionNullifier" text).both <|
    (required "closeCommitment" text).both <| required "proof" proofRecord)
  (fun (marketId, positionNullifier, closeCommitment, proof) =>
    ⟨marketId, positionNullifier, closeCommitment, proof⟩)
  (fun r => (r.marketId, r.positionNullifier, r.closeCommitment, r.proof))
  (fun _ => rfl) (by decide +kernel)

def positionCloseRecord : Codec PositionCloseRecord := .record
  ((required "marketId" text).both <| (required "markPrice" bigint).both <|
    (required "positionCommitment" text).both <| (required "positionNullifier" text).both <|
    (required "positionRoot" text).both <| (required "closeCommitment" text).both <|
    (required "newPositionCommitment" text).both <|
    (required "marginOutputCommitment" text).both <| (optional "outputPositionIndex" count).both <|
    (optional "outputPositionRoot" text).both <| required "proof" proofRecord)
  (fun (marketId, markPrice, positionCommitment, positionNullifier, positionRoot, closeCommitment,
    newPositionCommitment, marginOutputCommitment, outputPositionIndex, outputPositionRoot, proof) =>
      ⟨marketId, markPrice, positionCommitment, positionNullifier, positionRoot, closeCommitment,
        newPositionCommitment, marginOutputCommitment, outputPositionIndex, outputPositionRoot,
        proof⟩)
  (fun r => (r.marketId, r.markPrice, r.positionCommitment, r.positionNullifier, r.positionRoot,
    r.closeCommitment, r.newPositionCommitment, r.marginOutputCommitment, r.outputPositionIndex,
    r.outputPositionRoot, r.proof))
  (fun _ => rfl) (by decide +kernel)

def withdrawalRecord : Codec WithdrawalRecord := .record
  ((required "root" text).both <| (required "nullifier" text).both <|
    (required "recipient" text).both <| (required "tokenDigest" text).both <|
    (required "withdrawAmount" bigint).both <| (required "changeCommitment" text).both <|
    required "proof" proofRecord)
  (fun (root, nullifier, recipient, tokenDigest, withdrawAmount, changeCommitment, proof) =>
    ⟨root, nullifier, recipient, tokenDigest, withdrawAmount, changeCommitment, proof⟩)
  (fun r => (r.root, r.nullifier, r.recipient, r.tokenDigest, r.withdrawAmount, r.changeCommitment,
    r.proof))
  (fun _ => rfl) (by decide +kernel)

def accountEventRecord : Codec AccountEventRecord := .record
  ((required "ciphertext" text).both <| (required "dataCommitment" text).both <|
    (required "eventId" text).both <| required "ownerCommitment" text)
  (fun (ciphertext, dataCommitment, eventId, ownerCommitment) =>
    ⟨ciphertext, dataCommitment, eventId, ownerCommitment⟩)
  (fun r => (r.ciphertext, r.dataCommitment, r.eventId, r.ownerCommitment))
  (fun _ => rfl) (by decide +kernel)

end Codec

/-! ## Tables -/

/-- The tables that hold the store. Those that it does not model are the ones of `rest`. -/
def ProtocolStore.tables (store : ProtocolStore) (rest : StoreTables) : StoreTables where
  maps
    | .accountEvents => store.accountEvents.mapValues Codec.accountEventRecord.write
    | .conditionalCloses => store.conditionalCloses.mapValues Codec.conditionalOrderRecord.write
    | .intents => store.intents.mapValues Codec.intentRecord.write
    | .liquidations => store.liquidations.mapValues Codec.liquidationRecord.write
    | .orderLifecycle => store.orderLifecycle.mapValues Codec.orderLifecycleRecord.write
    | .positionCloses => store.positionCloses.mapValues Codec.positionCloseRecord.write
    | .positionLifecycle => store.positionLifecycle.mapValues Codec.positionLifecycleRecord.write
    | .privateMatchIntents => store.privateMatchIntents.mapValues Codec.privateMatchIntent.write
    | .residualOrders => store.residualOrders.mapValues Codec.residualOrderRecord.write
    | .settlements => store.settlements.mapValues Codec.batchSettlement.write
    | .withdrawals => store.withdrawals.mapValues Codec.withdrawalRecord.write
    | name => rest.maps name
  sets
    | .marginCommitments => store.marginCommitments
    | .positionCommitments => store.positionCommitments
    | .proofs => store.proofs
    | .spentNullifiers => store.spentNullifiers

/-- The records of a table. -/
def Codec.readMap {α : Type} (codec : Codec α) (m : OrderedMap Text JsValue) :
    Option (OrderedMap Text α) :=
  (m.entries.mapM fun entry => (codec.read entry.2).map (Prod.mk entry.1)).map
    OrderedMap.empty.setAll

/-- The store that some tables hold. -/
def StoreTables.protocolStore (tables : StoreTables) : Option ProtocolStore := do
  let intents ← Codec.intentRecord.readMap (tables.maps .intents)
  let residualOrders ← Codec.residualOrderRecord.readMap (tables.maps .residualOrders)
  let orderLifecycle ← Codec.orderLifecycleRecord.readMap (tables.maps .orderLifecycle)
  let positionLifecycle ← Codec.positionLifecycleRecord.readMap (tables.maps .positionLifecycle)
  let settlements ← Codec.batchSettlement.readMap (tables.maps .settlements)
  let liquidations ← Codec.liquidationRecord.readMap (tables.maps .liquidations)
  let conditionalCloses ← Codec.conditionalOrderRecord.readMap (tables.maps .conditionalCloses)
  let positionCloses ← Codec.positionCloseRecord.readMap (tables.maps .positionCloses)
  let withdrawals ← Codec.withdrawalRecord.readMap (tables.maps .withdrawals)
  let accountEvents ← Codec.accountEventRecord.readMap (tables.maps .accountEvents)
  let privateMatchIntents ← Codec.privateMatchIntent.readMap (tables.maps .privateMatchIntents)
  some {
    marginCommitments := tables.sets .marginCommitments
    positionCommitments := tables.sets .positionCommitments
    spentNullifiers := tables.sets .spentNullifiers
    proofs := tables.sets .proofs
    intents, residualOrders, orderLifecycle, positionLifecycle, settlements, liquidations,
    conditionalCloses, positionCloses, withdrawals, accountEvents, privateMatchIntents }

theorem Codec.readMap_strip {α : Type} (codec : Codec α) (m : OrderedMap Text α) :
    codec.readMap ((m.mapValues codec.write).mapValues JsValue.strip) = some m := by
  have hentries : ∀ entries : List (Text × α),
      ((entries.map fun entry => (entry.1, codec.write entry.2)).map fun entry =>
        (entry.1, entry.2.strip)).mapM (fun entry => (codec.read entry.2).map (Prod.mk entry.1)) =
          some entries := by
    intro entries
    induction entries with
    | nil => rfl
    | cons entry entries ih =>
      rw [List.map_cons, List.map_cons, List.mapM_cons, ih, codec.read_strip]
      rfl
  have hread : (((m.mapValues codec.write).mapValues JsValue.strip).entries.mapM fun entry =>
      (codec.read entry.2).map (Prod.mk entry.1)) = some m.entries := hentries m.entries
  rw [Codec.readMap, hread, Option.map_some, OrderedMap.setAll_empty_entries]

/-- A store is the one that its tables hold, also without the absent properties. -/
theorem protocolStore_tables (store : ProtocolStore) (rest : StoreTables) :
    (store.tables rest).strip.protocolStore = some store := by
  simp only [StoreTables.protocolStore, StoreTables.strip, ProtocolStore.tables,
    Codec.readMap_strip]
  rfl

end Pnlx.Server
