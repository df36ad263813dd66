import Pnlx.Contracts.BatchSettlement
import Pnlx.Server.Transcripts

/-!
# The batch executor

The executor works on the store of the server and on what a relay reads from the ledger.

1. `assertPositionRootSynchronized`, `isSettledOnchain`: what the executor asks of the ledger.
2. `batchIdForMarket`, `activeIntentCommitments`: the batch of a market.
3. `runMarket`: the phases of a run, from the checks to the commit in the store.
-/

namespace Pnlx

open BatchMatch (Text decimal hexText)

/-- The ledger and the store of the server. -/
structure World (H : Host) where
  ledger : Chain H
  store : Server.ProtocolStore

namespace Server

open Script

variable {H : Host} {α : Type}

abbrev WorldScript (H : Host) := Script (World H) String

/-- A reading of the contract at an address. -/
def view (contract : Address) (x : Contract H α) : WorldScript H α := fun world =>
  (match x ⟨[], none, contract, 0⟩ world.ledger with
    | .ok (a, _) => .ok a
    | .error e => .error e, world)

/-- `positionRoot` of the relay. -/
def positionRoot (positionState : Address) : WorldScript H Text := do
  let root ← view positionState PositionState.currentRoot
  pure (hexText root.toNat)

/-- `text.toLowerCase()` of a hexadecimal text. -/
def toLowerCase (text : Text) : Text := text.map Char.toLower

/-- A relay may offer no reading of the root of positions. -/
def assertPositionRootSynchronized (poseidon2Hash : Fr → Fr → Fr)
    (settlementsOnchainRequired : Bool) (positionRoot : Option (WorldScript H Text)) :
    WorldScript H Unit :=
  match positionRoot with
  | none => pure ()
  | some positionRoot => doIf settlementsOnchainRequired (do
    let world ← read id
    let localRoot ← orThrow (world.store.positionMembershipRoot poseidon2Hash)
      "position merkle tree is full"
    let onchainRoot ← positionRoot
    throwIf (toLowerCase localRoot ≠ toLowerCase onchainRoot)
      ("position root out of sync: local " ++ String.ofList localRoot ++ ", on-chain " ++
        String.ofList onchainRoot))

/-- `isBatchSettled` of the relay, for a digest. -/
def isBatchSettled (batchSettlement : Address) (batchId marketId settlementDigest : Text) :
    WorldScript H Bool := do
  let batchKey ← orThrow (bytesN32Arg (hashFields H "batch-id" [.text batchId]))
    "invalid batch id"
  let marketKey ← orThrow (bytesN32Arg (hashFields H "market-id" [.text marketId]))
    "invalid market id"
  let digest ← orThrow (bytesN32Arg settlementDigest) "invalid settlement digest"
  view batchSettlement (BatchSettlement.isSettledDigest batchKey marketKey digest)

/-- What a call of the relay reports. -/
structure OnchainRelayCall where
  functionName : String
  submitted : Bool
  deriving DecidableEq

abbrev OnchainRelayResult := List OnchainRelayCall

/-- A relay need not be able to read the ledger. -/
structure OnchainRelay (H : Host) where
  settleBatch : SettlementRecord → WorldScript H OnchainRelayResult
  isBatchSettled : Option (Text → Text → Text → WorldScript H Bool)
  positionRoot : Option (WorldScript H Text)

def hasSubmittedProofVerification (result : Option OnchainRelayResult) : Bool :=
  (result.getD []).any fun relay => relay.functionName = "verify_and_record" ∧ relay.submitted

/-! ## The service -/

structure RunBatchExecutorInput where
  batchIdPrefix : Option Text
  now : Option ℕ
  deriving DecidableEq

/-- What the executor is built with. Its progress, the oracle, the liquidity of makers and the
premium samples are work on records that the model leaves out, and may do anything to the world. -/
structure BatchExecutorService (H : Host) where
  markets : Text → Option MarketConfig
  matcher : CreateExternalSettlementInput → WorldScript H ExternalBatchSettlementTranscript
  onchain : Option (OnchainRelay H)
  batchIdPrefix : Option Text
  settlementsOnchainRequired : Bool
  progress : WorldScript H Unit
  refreshMarketOracleIfNeeded : Text → ℕ → WorldScript H Unit
  ensureForMarket : Text → Text → WorldScript H Unit
  sampleFundingPremium : Text → ℕ → WorldScript H Unit
  finalizeSettlement : SettlementRecord → WorldScript H Unit
  flushStore : WorldScript H Unit

/-- `MatcherService` on the store of the executor. -/
def MatcherService.gateway (poseidon2Hash : Fr → Fr → Fr) (service : MatcherService)
    (input : CreateExternalSettlementInput) :
    WorldScript H ExternalBatchSettlementTranscript := do
  let world ← read id
  Script.ofExcept (createSettlementTranscript H poseidon2Hash service world.store input)

/-- The orders of a market that are open, sorted. -/
def activeIntentCommitments (store : ProtocolStore) (marketId : Text) : List Text :=
  sort ((store.orderLifecycle.values.filter fun order =>
    order.marketId = marketId ∧ order.status = statusOpen).map (·.intentCommitment))

/-- The open orders of a market that are not those of a maker, sorted. -/
def clientOrderIds (store : ProtocolStore) (marketId : Text) : List Text :=
  sort ((store.orderLifecycle.values.filter fun order =>
    order.marketId = marketId ∧ order.status = statusOpen ∧
      ¬ "maker-auto-".toList.isPrefixOf order.batchId).map (·.intentCommitment))

/-- The batch is named after its client orders, or after the start of the run. -/
def batchIdForMarket (H : Host) (batchIdPrefix : Option Text) (store : ProtocolStore)
    (marketId : Text) (startedAt : ℕ) (input : RunBatchExecutorInput) : Text :=
  let named (suffix : Text) : Text :=
    (input.batchIdPrefix.or batchIdPrefix).getD "auto".toList ++ '-' :: marketId ++ '-' :: suffix
  if input.now.isSome ∨ clientOrderIds store marketId = [] then named (decimal startedAt)
  else
    named (((hashFields H "batch-active-orders"
      (.text marketId :: (clientOrderIds store marketId).map .text)).drop 2).take 16)

/-! ## The phases -/

def runPhase {α : Type} (phase : String) (task : WorldScript H α) : WorldScript H α :=
  task.mapError fun cause => phase ++ ": " ++ cause

def onStore {α : Type} (x : StoreScript α) : WorldScript H α :=
  onPart World.store (fun world store => { world with store := store }) x

def assertSettlementOrdersActive (settlement : SettlementRecord) : WorldScript H Unit := do
  let world ← read id
  throwIf (∃ update ∈ settlement.orderUpdates,
    world.store.orderStatus update.intentCommitment ≠ some statusOpen)
    "batch intent no longer active"

/-- A reading that fails counts as not settled. -/
def isSettledOnchain (onchain : Option (OnchainRelay H)) (settlement : SettlementRecord) :
    WorldScript H Bool :=
  match onchain.bind (·.isBatchSettled) with
  | some isBatchSettled =>
    (isBatchSettled settlement.batchId settlement.marketId settlement.settlementDigest).recover
      false
  | none => pure false

/-- An error of the relay counts as no result, unless settlements have to be on the ledger. -/
def trySettleOnchain (settlementsOnchainRequired : Bool) (onchain : Option (OnchainRelay H))
    (settlement : SettlementRecord) : WorldScript H (Option OnchainRelayResult) :=
  match onchain with
  | some relay =>
    let settle := do
      let result ← relay.settleBatch settlement
      pure (some result)
    branch settlementsOnchainRequired settle (settle.recover none)
  | none => pure none

/-- The checks of `runMarket` and its settlement on the ledger: the transcript that is to be
committed, and whether its proof has been verified. -/
def settleMarket (poseidon2Hash : Fr → Fr → Fr) (service : BatchExecutorService H)
    (marketId : Text) (startedAt : ℕ) (input : RunBatchExecutorInput) :
    WorldScript H (ExternalBatchSettlementTranscript × Bool) := do
  let world ← read id
  let batchId :=
    batchIdForMarket H service.batchIdPrefix world.store marketId startedAt input
  service.progress
  runPhase "matcher" (assertPositionRootSynchronized poseidon2Hash
    service.settlementsOnchainRequired (service.onchain.bind (·.positionRoot)))
  runPhase "oracle" (service.refreshMarketOracleIfNeeded marketId startedAt)
  runPhase "maker-liquidity" (service.ensureForMarket batchId marketId)
  runPhase "maker-liquidity" service.flushStore
  runPhase "oracle" (service.sampleFundingPremium marketId startedAt)
  let world ← read id
  let intentCommitments := activeIntentCommitments world.store marketId
  throwIf (intentCommitments.length = 0) "batch has no active intents"
  throwIf (intentCommitments.length < 2) "batch has no crossed liquidity"
  service.progress
  let transcript ← runPhase "proving"
    (service.matcher ⟨batchId, true, some intentCommitments, marketId⟩)
  service.progress
  runPhase "batch-settlement" (assertSettlementOrdersActive transcript.settlement)
  let alreadySettledOnchain ← isSettledOnchain service.onchain transcript.settlement
  let relay ← branch alreadySettledOnchain (pure none) (runPhase "batch-settlement"
    (trySettleOnchain service.settlementsOnchainRequired service.onchain transcript.settlement))
  let confirmedOnchain ← branch alreadySettledOnchain (pure true)
    (isSettledOnchain service.onchain transcript.settlement)
  throwIf (service.settlementsOnchainRequired ∧ ¬ confirmedOnchain)
    "batch settlement and fee allocation are not confirmed on-chain"
  let proofVerified := alreadySettledOnchain || hasSubmittedProofVerification relay
  throwIf (service.settlementsOnchainRequired ∧ ¬ proofVerified)
    "settlements require on-chain relay"
  service.progress
  pure (transcript, proofVerified)

/-- The record of a run names it settled if this returns, and names the error if it throws. -/
def runMarket (poseidon2Hash : Fr → Fr → Fr) (service : BatchExecutorService H)
    (marketId : Text) (startedAt : ℕ) (input : RunBatchExecutorInput) (committedAt : ℤ) :
    WorldScript H SettlementRecord := do
  let (transcript, proofVerified) ← settleMarket poseidon2Hash service marketId startedAt input
  let settlement ← runPhase "settlement-commit" (onStore (commitExternalBatchSettlement H
    service.markets committedAt transcript (proofVerified || !service.settlementsOnchainRequired)))
  service.progress
  runPhase "maker-finalize" (service.finalizeSettlement settlement)
  runPhase "maker-finalize" service.flushStore
  pure settlement

@[simp] theorem returns_view {contract : Address} {x : Contract H α} {w w' : World H} {a : α} :
    Returns (view contract x) w a w' ↔
      (∃ c, Program.Returns x ⟨[], none, contract, 0⟩ w.ledger a c) ∧ w' = w := by
  unfold Returns view Program.Returns
  rw [Prod.mk.injEq, eq_comm (a := w)]
  cases x ⟨[], none, contract, 0⟩ w.ledger with
  | error e => exact ⟨fun h => (by cases h.1), fun ⟨⟨_, h⟩, _⟩ => (by cases h)⟩
  | ok result =>
    simp only [Except.ok.injEq, Prod.ext_iff, exists_and_left, exists_eq', and_true]

end Server

end Pnlx
