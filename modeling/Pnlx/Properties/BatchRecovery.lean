import Pnlx.Properties.LockedMargin
import Pnlx.Properties.PositionSpending
import Pnlx.Properties.SettledBatches
import Pnlx.Properties.StoreAtomicity
import Pnlx.Server.BatchExecutor
import Pnlx.Server.StoreFrames

/-!
# Settlements of the ledger and of the server

A settlement is committed to the store after the ledger has confirmed it. A server that stops
between the two finds the settlement by its digest when it makes the batch again. But a run of a
market begins by comparing the roots of positions, and these differ as long as the settlement is not
committed (`batch_recovered_iff`).
-/

namespace Pnlx.Server

open BatchMatch (Text hexText)
open Script Runs

variable {H : Host} {P : Fr → Fr → Fr} {b p : Address} {w w' w₁ : World H}
  {now : ℤ}

/-! ## The store -/

/-- The tables of the orders are the same. -/
structure SameOrders (s s' : ProtocolStore) : Prop where
  intents : s'.intents = s.intents
  residualOrders : s'.residualOrders = s.residualOrders
  orderLifecycle : s'.orderLifecycle = s.orderLifecycle
  privateMatchIntents : s'.privateMatchIntents = s.privateMatchIntents

/-- A script that neither reads nor changes the store. -/
def Stateless {α : Type} (x : StoreScript α) : Prop := ∃ result, ∀ s, x s = (result, s)

theorem stateless_throwIf {q : Prop} [Decidable q] {e : String} :
    Stateless (throwIf q e) := ⟨_, fun _ => rfl⟩

theorem Stateless.andThen {α β : Type} {x : StoreScript α} {f : α → StoreScript β}
    (hx : Stateless x) (hf : ∀ a, Stateless (f a)) : Stateless (x >>= f) := by
  obtain ⟨result, hresult⟩ := hx
  cases result with
  | error e => exact ⟨.error e, fun s => by rw [bind_apply, hresult]⟩
  | ok a =>
    obtain ⟨result, hrest⟩ := hf a
    exact ⟨result, fun s => by rw [bind_apply, hresult]; exact hrest s⟩

theorem stateless_assertPrivateMatchIntent (record : OrderRecord) (payload : PrivateMatchIntent) :
    Stateless (assertPrivateMatchIntent H record payload) := by
  unfold assertPrivateMatchIntent
  repeat refine Stateless.andThen stateless_throwIf fun _ => ?_
  exact stateless_throwIf

/-- The settlement of a batch depends on the orders only. -/
theorem prepareSettlement_eq {s s' : ProtocolStore} (h : SameOrders s s')
    (markets : Text → Option MarketConfig) (input : CreateExternalSettlementInput) :
    prepareSettlement H P markets s' input = prepareSettlement H P markets s input := by
  have hcreatedAt : s'.createdAt = s.createdAt := by
    unfold ProtocolStore.createdAt
    rw [h.orderLifecycle]
  have hstatus : s'.orderStatus = s.orderStatus := by
    unfold ProtocolStore.orderStatus
    rw [h.orderLifecycle]
  have hpayload : privateMatchIntentFor H s' = privateMatchIntentFor H s := by
    funext batchId record
    unfold privateMatchIntentFor
    rw [h.privateMatchIntents]
    refine congrArg _ (funext fun payload => ?_)
    obtain ⟨result, hresult⟩ :=
      stateless_assertPrivateMatchIntent (H := H) record.toOrderRecord payload
    rw [hresult, hresult]
  unfold prepareSettlement privateMatchIntentsFor activeIntents activeResiduals
  rw [h.intents, h.residualOrders, hcreatedAt, hstatus, hpayload]

/-- What the transcript of a batch says about the batch. -/
theorem transcript_settlement {m : MatcherService} {store : ProtocolStore}
    {input : CreateExternalSettlementInput} {T : ExternalBatchSettlementTranscript}
    (h : createSettlementTranscript H P m store input = .ok T) :
    ∃ prepared, prepareSettlement H P m.markets store input = .ok prepared ∧
      T.settlement.toBatchSettlement = prepared.draft ∧
      T.settlement.batchId = input.batchId := by
  unfold createSettlementTranscript at h
  simp only [except_bind_eq_ok] at h
  obtain ⟨prepared, hprepared, proof, -, positionEvents, -, accountEvents, -, hT⟩ := h
  obtain rfl := Except.ok.inj hT
  refine ⟨prepared, hprepared, rfl, ?_⟩
  unfold prepareSettlement at hprepared
  simp only [except_bind_eq_ok] at hprepared
  obtain ⟨market, -, _, -, intents, -, matched, -, draft, hdraft, heq⟩ := hprepared
  obtain rfl := Except.ok.inj heq
  unfold prepareRisc0SettlementDraft at hdraft
  have hdraft := orError_eq_ok.mp hdraft
  simp only [bind, Option.bind_eq_some_iff, Option.some.injEq] at hdraft
  obtain ⟨-, -, payloads, -, residuals, -, rfl⟩ := hdraft
  rfl

/-- Two transcripts of a batch of the same orders settle the same. -/
theorem transcripts_agree {m m₀ : MatcherService} {s s₀ : ProtocolStore}
    {input : CreateExternalSettlementInput} {T T₀ : ExternalBatchSettlementTranscript}
    (hmarkets : m₀.markets = m.markets) (horders : SameOrders s₀ s) (h₀ : createSettlementTranscript H P m₀ s₀ input = .ok T₀)
    (h : createSettlementTranscript H P m s input = .ok T) :
    T.settlement.toBatchSettlement = T₀.settlement.toBatchSettlement := by
  obtain ⟨prepared₀, hprepared₀, heq₀, -⟩ := transcript_settlement h₀
  obtain ⟨prepared, hprepared, heq, -⟩ := transcript_settlement h
  rw [prepareSettlement_eq horders, ← hmarkets, hprepared₀] at hprepared
  rw [heq, heq₀, Except.ok.inj hprepared]

/-! ## What the relay reads -/

/-- The ledger has settled the batch of the settlement with its digest. -/
def SettledOn (b : Address) (world : World H) (settlement : BatchSettlement) : Prop :=
  Returns (isBatchSettled b settlement.batchId settlement.marketId settlement.settlementDigest)
    world true world

/-- The root that the server computes is the root of the ledger. -/
def RootsAgree (P : Fr → Fr → Fr) (p : Address) (world : World H) : Prop :=
  ∃ localRoot root, world.store.positionMembershipRoot P = some localRoot ∧
    Program.Returns PositionState.currentRoot ⟨[], none, p, 0⟩ world.ledger root world.ledger ∧
    toLowerCase localRoot = toLowerCase (hexText root.toNat)

theorem returns_isBatchSettled {batchId marketId digest : Text} {a : Bool} :
    Returns (isBatchSettled b batchId marketId digest) w a w' ↔
      (∃ batchKey marketKey word,
        bytesN32Arg (hashFields H "batch-id" [.text batchId]) = some batchKey ∧
          bytesN32Arg (hashFields H "market-id" [.text marketId]) = some marketKey ∧
          bytesN32Arg digest = some word ∧
          a = ((w.ledger.storage .batchSettlement b).batch (batchKey, marketKey)).any
            (·.settlementDigest = word)) ∧ w' = w := by
  unfold isBatchSettled
  simp only [returns_bind, returns_orThrow, returns_view, returns_load, exists_and_left,
    exists_eq_left, and_assoc, exists_eq, and_true]
  constructor
  · rintro ⟨batchKey, hbatch, marketKey, hmarket, word, hword, ha, rfl⟩
    exact ⟨⟨batchKey, hbatch, marketKey, hmarket, word, hword, ha⟩, rfl⟩
  · rintro ⟨⟨batchKey, hbatch, marketKey, hmarket, word, hword, ha⟩, rfl⟩
    exact ⟨batchKey, hbatch, marketKey, hmarket, word, hword, ha, rfl⟩

/-- A settled batch stays settled while the ledger goes on. -/
theorem SettledOn.run {settlement : BatchSettlement} (h : SettledOn b w settlement)
    {actions : List (Action H)} (hledger : w'.ledger = final step w.ledger actions) :
    SettledOn b w' settlement := by
  obtain ⟨⟨batchKey, marketKey, word, hbatch, hmarket, hword, ha⟩, -⟩ :=
    returns_isBatchSettled.mp h
  obtain ⟨record, hrecord, hdigest⟩ := (Option.any_eq_true _ _).mp ha.symm
  have hkept : ((final step w.ledger actions).storage .batchSettlement b).batch
      (batchKey, marketKey) = some record := BatchSettlement.settledBatch_of_run hrecord
  refine returns_isBatchSettled.mpr ⟨⟨batchKey, marketKey, word, hbatch, hmarket, hword, ?_⟩, rfl⟩
  rw [hledger, hkept]
  exact hdigest.symm

/-- The store and what a relay reads are the same. -/
abbrev Calm : World H → World H → Prop :=
  Same fun w => (w.store, w.ledger.storage .batchSettlement, w.ledger.storage .positionState)

theorem SettledOn.calm {settlement : BatchSettlement} (h : SettledOn b w settlement)
    (hcalm : Calm w w') : SettledOn b w' settlement := by
  obtain ⟨⟨batchKey, marketKey, word, hbatch, hmarket, hword, ha⟩, -⟩ :=
    returns_isBatchSettled.mp h
  refine returns_isBatchSettled.mpr ⟨⟨batchKey, marketKey, word, hbatch, hmarket, hword, ?_⟩, rfl⟩
  rw [ha, (Prod.mk.inj (Prod.mk.inj hcalm).2).1]

theorem returns_currentRoot {c c' : Chain H} {env : Env} {root : BytesN32} :
    Program.Returns PositionState.currentRoot env c root c' ↔
      (c.storage .positionState env.current).treeHashVersion =
          some PositionState.poseidon2TreeVersion ∧
        (c.storage .positionState env.current).currentRoot = some root ∧ c' = c := by
  unfold PositionState.currentRoot PositionState.requirePoseidon2Tree
  simp only [Program.returns_bind, returns_load, Program.returns_failIf, returns_stored,
    exists_eq_left, exists_and_left, and_assoc, exists_const, ne_eq, not_not]

theorem RootsAgree.calm (h : RootsAgree P p w) (hcalm : Calm w w') : RootsAgree P p w' := by
  obtain ⟨hstore, hread⟩ := Prod.mk.inj hcalm
  obtain ⟨localRoot, root, hlocal, hroot, hagree⟩ := h
  obtain ⟨hversion, hcurrent, -⟩ := returns_currentRoot.mp hroot
  refine ⟨localRoot, root, ?_, returns_currentRoot.mpr ⟨?_, ?_, rfl⟩, hagree⟩
  · rw [hstore, hlocal]
  · rw [(Prod.mk.inj hread).2, hversion]
  · rw [(Prod.mk.inj hread).2, hcurrent]

theorem RootsAgree.roots_eq (h : RootsAgree P p w) :
    (w.store.positionMembershipRoot P).map toLowerCase =
      (w.ledger.storage .positionState p).currentRoot.map fun root =>
        toLowerCase (hexText root.toNat) := by
  obtain ⟨localRoot, root, hlocal, hroot, hagree⟩ := h
  obtain ⟨-, hcurrent, -⟩ := returns_currentRoot.mp hroot
  have hcurrent : (w.ledger.storage .positionState p).currentRoot = some root := hcurrent
  rw [hlocal, hcurrent, Option.map_some, Option.map_some, hagree]

theorem returns_assertPositionRootSynchronized {u : Unit} :
    Returns (assertPositionRootSynchronized P true (some (positionRoot p))) w u w' ↔
      RootsAgree P p w ∧ w' = w := by
  unfold assertPositionRootSynchronized positionRoot RootsAgree
  simp only [returns_doIf, returns_bind, returns_read, returns_orThrow, returns_view, returns_pure,
    returns_throwIf, id, exists_eq_left, exists_and_left, and_assoc, not_true, false_and, or_false,
    true_and, not_not]
  constructor
  · rintro ⟨localRoot, hlocal, _, _, ⟨root, ⟨c, hroot⟩, rfl, rfl⟩, hagree, rfl⟩
    obtain ⟨-, -, rfl⟩ := returns_currentRoot.mp hroot
    exact ⟨⟨localRoot, hlocal, root, hroot, hagree⟩, rfl⟩
  · rintro ⟨⟨localRoot, hlocal, root, hroot, hagree⟩, rfl⟩
    exact ⟨localRoot, hlocal, _, _, ⟨root, ⟨_, hroot⟩, rfl, rfl⟩, hagree, rfl⟩

/-! ## Commits -/

/-- The only settlement that is added is `settlement`. -/
def AddsOnly (settlement : SettlementRecord) (s s' : ProtocolStore) : Prop :=
  ∀ k x, s'.settlements.get? k = some x → s.settlements.get? k = some x ∨ x = settlement

variable {settlement : SettlementRecord}

instance : Std.Refl (AddsOnly settlement) := ⟨fun _ _ _ h => Or.inl h⟩

instance : IsTrans ProtocolStore (AddsOnly settlement) where
  trans _ _ _ h h' k x hx := (h' k x hx).elim (h k x) Or.inr

theorem adds_of_same {α : Type} {x : StoreScript α}
    (hx : Maintains (Same ProtocolStore.settlements) x) : Maintains (AddsOnly settlement) x :=
  hx.mono fun _ _ h _ _ hx => Or.inl ((show _ = _ from h) ▸ hx)

theorem adds_addSettlement {openings : List PositionLifecycleRecord}
    {residuals : List ResidualOrderRecord} {events : List AccountEventRecord}
    {payloads : List PrivateMatchIntent} :
    Maintains (AddsOnly settlement)
      (addSettlement H now settlement openings residuals events payloads) := by
  have hspend := fun nullifier => @adds_of_same settlement _ _
    (same_spend (fun _ _ => rfl) nullifier)
  have hupdates : Maintains (AddsOnly settlement) (applySettlementOrderUpdates now settlement) :=
    adds_of_same (same_applySettlementOrderUpdates (fun _ _ => rfl) settlement)
  have hopen := fun first opening => @adds_of_same settlement _ _
    (same_openPosition (fun _ _ => rfl) settlement first opening)
  have hresidual := fun residual payload => @adds_of_same settlement _ _
    (same_addResidualOrder (H := H) (fun _ _ => rfl) (fun _ _ _ => rfl) residual payload)
  have hevent := fun event => @adds_of_same settlement _ _
    (same_addAccountEvent (fun _ _ => rfl) event)
  have htrees : Maintains (AddsOnly settlement) (update fun store : ProtocolStore => { store with
      positionCommitments := store.positionCommitments.addAll settlement.newCommitments
      marginCommitments := store.marginCommitments.addAll settlement.marginChangeCommitments } :
      StoreScript Unit) := .update fun _ _ _ hx => Or.inl hx
  unfold addSettlement
  repeat refine .andThen inferInstance fun _ => ?_
  refine .update fun store k x hx => ?_
  rw [OrderedMap.get?_set] at hx
  split_ifs at hx
  · exact Or.inr (Option.some.inj hx).symm
  · exact Or.inl hx

/-- The checks of a transcript leave the store as it is. -/
theorem maintains_validate {R : ProtocolStore → ProtocolStore → Prop} [Std.Refl R]
    [IsTrans ProtocolStore R] (markets : Text → Option MarketConfig)
    (transcript : ExternalBatchSettlementTranscript) :
    Maintains R (validateExternalBatchSettlement H markets transcript) := by
  have hupdate (store : ProtocolStore) (settlement : SettlementRecord) (item : OrderUpdate × ℕ) :
      Maintains R (validateOrderUpdate store settlement item.1 item.2) := by
    unfold validateOrderUpdate
    repeat refine .andThen inferInstance fun _ => ?_
    infer_instance
  have hopening (store : ProtocolStore) (item : PositionLifecycleRecord × ℕ) :
      Maintains R (validatePositionOpening store transcript item.1 item.2) := by
    unfold validatePositionOpening
    infer_instance
  have hresidual (store : ProtocolStore) (item : ResidualOrderRecord × ℕ) :
      Maintains R (validateResidualOrder store transcript item.1 item.2) := by
    unfold validateResidualOrder
    repeat refine .andThen inferInstance fun _ => ?_
    infer_instance
  have hprivate (record : OrderRecord) (payload : PrivateMatchIntent) :
      Maintains R (assertPrivateMatchIntent H record payload) := by
    unfold assertPrivateMatchIntent
    repeat refine .andThen inferInstance fun _ => ?_
    infer_instance
  have hpayload (residual : ResidualOrderRecord) :
      Maintains R (validateResidualPayload H transcript residual) := by
    unfold validateResidualPayload
    infer_instance
  have hopened (opening : PositionLifecycleRecord) (event : AccountEventRecord) :
      Maintains R (assertPositionOpeningAccountEvent H opening event) := by
    unfold assertPositionOpeningAccountEvent
    infer_instance
  have hrested (residual : ResidualOrderRecord) (digest : Text) (event : AccountEventRecord) :
      Maintains R (assertResidualOrderAccountEvent H residual digest event) := by
    unfold assertResidualOrderAccountEvent
    infer_instance
  have hevents (digest : Text) (openings : List PositionLifecycleRecord)
      (residuals : List ResidualOrderRecord) (events : List AccountEventRecord) :
      Maintains R (validateExternalAccountEvents H digest openings residuals events) := by
    unfold validateExternalAccountEvents
    infer_instance
  unfold validateExternalBatchSettlement
  repeat refine .andThen inferInstance fun _ => ?_
  infer_instance

theorem adds_commit (markets : Text → Option MarketConfig)
    (transcript : ExternalBatchSettlementTranscript) (verified : Bool) :
    Maintains (AddsOnly transcript.settlement)
      (commitExternalBatchSettlement H markets now transcript verified) := by
  have hvalidate :=
    maintains_validate (H := H) (R := AddsOnly transcript.settlement) markets transcript
  have hproof := @adds_of_same transcript.settlement _ _
    (same_recordProof (fun _ _ => rfl) transcript.settlement.proof)
  have hadd := @adds_addSettlement H now transcript.settlement transcript.positionOpenings
    transcript.residualOrders transcript.accountEvents transcript.privateMatchIntents
  unfold commitExternalBatchSettlement
  infer_instance

/-! ## What is committed is confirmed -/

/-- The ledger goes on, and no settlement is committed. -/
structure Tamely (w w' : World H) : Prop where
  ledger : ∃ actions, w'.ledger = final step w.ledger actions
  settlements : w'.store.settlements = w.store.settlements

/-- The ledger goes on, and every settlement that is committed is confirmed by it. -/
structure Confirms (b : Address) (w w' : World H) : Prop where
  ledger : ∃ actions, w'.ledger = final step w.ledger actions
  settlements : ∀ k x, w'.store.settlements.get? k = some x →
    w.store.settlements.get? k = some x ∨ SettledOn b w' x.toBatchSettlement

/-- Two runs of the ledger are one. -/
theorem exists_final {c c₁ c' : Chain H} (h : ∃ actions, c₁ = final step c actions)
    (h' : ∃ actions, c' = final step c₁ actions) : ∃ actions, c' = final step c actions := by
  obtain ⟨actions, rfl⟩ := h
  obtain ⟨actions', rfl⟩ := h'
  exact ⟨actions ++ actions', (final_append ..).symm⟩

instance : Std.Refl (Tamely (H := H)) := ⟨fun _ => ⟨⟨[], rfl⟩, rfl⟩⟩

instance : IsTrans (World H) Tamely where
  trans _ _ _ h h' :=
    ⟨exists_final h.ledger h'.ledger, h'.settlements.trans h.settlements⟩

instance : Std.Refl (Confirms (H := H) b) := ⟨fun _ => ⟨⟨[], rfl⟩, fun _ _ h => Or.inl h⟩⟩

instance : IsTrans (World H) (Confirms b) where
  trans w w₁ w' h h' := by
    refine ⟨exists_final h.ledger h'.ledger, fun k x hx => ?_⟩
    rcases h'.settlements k x hx with hold | hconfirmed
    · refine (h.settlements k x hold).imp_right fun hconfirmed => ?_
      obtain ⟨actions, hledger⟩ := h'.ledger
      exact hconfirmed.run hledger
    · exact Or.inr hconfirmed

theorem Tamely.confirms (h : Tamely w w') : Confirms b w w' :=
  ⟨h.ledger, fun _ _ hx => Or.inl (h.settlements ▸ hx)⟩

/-- Nothing that the service calls commits a settlement, and all of it works on the ledger by
transactions. -/
structure Tame (service : BatchExecutorService H) : Prop where
  matcher : ∀ input, Maintains Tamely (service.matcher input)
  settleBatch : ∀ relay ∈ service.onchain, ∀ settlement,
    Maintains Tamely (relay.settleBatch settlement)
  positionRoot : ∀ relay ∈ service.onchain, ∀ x ∈ relay.positionRoot, Maintains Tamely x
  progress : Maintains Tamely service.progress
  refresh : ∀ marketId now, Maintains Tamely (service.refreshMarketOracleIfNeeded marketId now)
  ensure : ∀ batchId marketId, Maintains Tamely (service.ensureForMarket batchId marketId)
  sample : ∀ marketId now, Maintains Tamely (service.sampleFundingPremium marketId now)
  finalize : ∀ settlement, Maintains Tamely (service.finalizeSettlement settlement)
  flush : Maintains Tamely service.flushStore

instance {R : World H → World H → Prop} [Std.Refl R] {α : Type} (contract : Address)
    (x : Contract H α) : Maintains R (view contract x) := ⟨fun w => refl_of R w⟩

/-- What has passed `settleMarket` is settled on the ledger. -/
theorem settleMarket_confirms {service : BatchExecutorService H} {relay : OnchainRelay H}
    (hrequired : service.settlementsOnchainRequired = true)
    (honchain : service.onchain = some relay)
    (hreads : relay.isBatchSettled = some (isBatchSettled b)) (htame : Tame service)
    {marketId : Text} {startedAt : ℕ} {input : RunBatchExecutorInput}
    {result : ExternalBatchSettlementTranscript × Bool}
    (h : Returns (settleMarket P service marketId startedAt input) w result w') :
    SettledOn b w' result.1.settlement.toBatchSettlement := by
  unfold settleMarket runPhase isSettledOnchain at h
  simp only [honchain, hrequired, hreads, Option.bind_some, returns_bind, returns_read,
    returns_mapError, returns_throwIf, returns_branch, returns_pure, id, exists_eq_left,
    exists_and_left, exists_const, and_assoc, true_and, not_not] at h
  obtain ⟨_, _, -, _, _, -, _, _, -, _, _, -, _, _, -, _, _, -, -, -, _, _, -, transcript, _, -,
    _, _, -, _, w₁, -, already, w₂, halready, _, w₃, hrelay, confirmed, w₄, hconfirmed, rfl, -,
    _, w₅, hprogress, rfl, rfl⟩ := h
  have hsettled : SettledOn b w₄ transcript.settlement.toBatchSettlement := by
    rcases hconfirmed with ⟨rfl, -, rfl⟩ | ⟨-, hconfirmed⟩
    · rcases hrelay with ⟨-, -, rfl⟩ | ⟨hfalse, -⟩
      · have hread := returns_of_recover halready (by decide)
        obtain ⟨-, rfl⟩ := returns_isBatchSettled.mp hread
        exact hread
      · exact absurd rfl hfalse
    · have hread := returns_of_recover hconfirmed (by decide)
      obtain ⟨-, rfl⟩ := returns_isBatchSettled.mp hread
      exact hread
  obtain ⟨actions, hledger⟩ := (htame.progress.of_returns hprogress).ledger
  exact hsettled.run hledger

/-- All of `settleMarket` is tame. -/
theorem tame_settleMarket {service : BatchExecutorService H} {relay : OnchainRelay H}
    (honchain : service.onchain = some relay)
    (hreads : relay.isBatchSettled = some (isBatchSettled b)) (htame : Tame service)
    (marketId : Text) (startedAt : ℕ) (input : RunBatchExecutorInput) :
    Maintains Tamely (settleMarket P service marketId startedAt input) := by
  have hrelay : relay ∈ service.onchain := honchain
  have hprogress := htame.progress
  have hroot : Maintains Tamely (assertPositionRootSynchronized P
      service.settlementsOnchainRequired (service.onchain.bind (·.positionRoot))) := by
    rw [honchain, Option.bind_some]
    unfold assertPositionRootSynchronized
    cases hpositionRoot : relay.positionRoot with
    | none => infer_instance
    | some positionRoot =>
      have := htame.positionRoot relay hrelay positionRoot hpositionRoot
      infer_instance
  have hsettled (settlement : SettlementRecord) :
      Maintains Tamely (isSettledOnchain service.onchain settlement) := by
    have hread : Maintains Tamely (isBatchSettled (H := H) b settlement.batchId
        settlement.marketId settlement.settlementDigest) := by
      unfold isBatchSettled
      infer_instance
    unfold isSettledOnchain
    rw [honchain, Option.bind_some, hreads]
    exact hread.recover
  have htry (settlement : SettlementRecord) : Maintains Tamely
      (trySettleOnchain service.settlementsOnchainRequired service.onchain settlement) := by
    have hsettle := htame.settleBatch relay hrelay settlement
    have hsome : Maintains Tamely (do
        let result ← relay.settleBatch settlement
        pure (some result)) := inferInstance
    have hrecover := hsome.recover (a := none)
    unfold trySettleOnchain
    rw [honchain]
    infer_instance
  have hactive (settlement : SettlementRecord) :
      Maintains Tamely (assertSettlementOrdersActive (H := H) settlement) := by
    unfold assertSettlementOrdersActive
    infer_instance
  have hphase {α : Type} {phase : String} {x : WorldScript H α} [hx : Maintains Tamely x] :
      Maintains Tamely (runPhase phase x) := hx.mapError
  have hrefresh := htame.refresh
  have hensure := htame.ensure
  have hflush := htame.flush
  have hsample := htame.sample
  have hmatcher := htame.matcher
  unfold settleMarket
  repeat refine .andThen inferInstance fun _ => ?_
  infer_instance

/-- **What is committed is confirmed.** Whatever a run of a market does before it returns or
throws, the ledger has settled every settlement that it has committed. -/
theorem confirms_runMarket {service : BatchExecutorService H} {relay : OnchainRelay H}
    (hrequired : service.settlementsOnchainRequired = true)
    (honchain : service.onchain = some relay)
    (hreads : relay.isBatchSettled = some (isBatchSettled b)) (htame : Tame service)
    (marketId : Text) (startedAt : ℕ) (input : RunBatchExecutorInput) (committedAt : ℤ) :
    Maintains (Confirms b) (runMarket P service marketId startedAt input committedAt) where
  rel world := by
    unfold runMarket
    have hsettle := tame_settleMarket (P := P) honchain hreads htame marketId startedAt input
    refine rel_after_bind (hsettle.rel world).confirms fun result w₁ hresult => ?_
    have hconfirmed := settleMarket_confirms hrequired honchain hreads htame hresult
    obtain ⟨transcript, proofVerified⟩ := result
    refine rel_after_bind ?_ fun settlement w₂ _ => ?_
    · refine ⟨⟨[], rfl⟩, fun k x hx => ?_⟩
      -- the ledger is the one that has confirmed the settlement
      have hcommit : Maintains (AddsOnly transcript.settlement) (commitExternalBatchSettlement H
          service.markets committedAt transcript
          (proofVerified || !service.settlementsOnchainRequired)) :=
        adds_commit service.markets transcript _
      have hadds := hcommit.rel w₁.store
      refine (hadds k x hx).imp_right fun heq => ?_
      rw [heq]
      exact @SettledOn.run _ _ _ _ _ hconfirmed [] rfl
    · have hprogress := htame.progress
      have hfinalize : Maintains Tamely (runPhase "maker-finalize"
        (service.finalizeSettlement settlement)) := (htame.finalize settlement).mapError
      have hflush : Maintains Tamely (runPhase "maker-finalize" service.flushStore) :=
        htame.flush.mapError
      have htail : Maintains Tamely (do
          service.progress
          runPhase "maker-finalize" (service.finalizeSettlement settlement)
          runPhase "maker-finalize" service.flushStore
          pure settlement) := inferInstance
      exact (htail.rel w₂).confirms

/-! ## Recovery -/

/-- The relay that reads the contract of batch settlement and, if it has its address, that of the
position state. -/
def ledgerRelay (b : Address) (positionState : Option Address)
    (settleBatch : SettlementRecord → WorldScript H OnchainRelayResult) : OnchainRelay H where
  settleBatch := settleBatch
  isBatchSettled := some (isBatchSettled b)
  positionRoot := positionState.map positionRoot

/-- A service with the matcher `m` that has to settle on the ledger. -/
structure Deployed (P : Fr → Fr → Fr) (b : Address) (positionState : Option Address)
    (m : MatcherService) (service : BatchExecutorService H) : Prop where
  required : service.settlementsOnchainRequired = true
  markets : service.markets = m.markets
  matcher : service.matcher = m.gateway P
  onchain : ∃ settleBatch, service.onchain = some (ledgerRelay b positionState settleBatch)

/-- The script returns and leaves the store and what the relay reads alone. -/
def Quiet (x : WorldScript H Unit) : Prop := ∀ w, ∃ w', Returns x w () w' ∧ Calm w w'

/-- Nothing beside the batch changes orders or fails. -/
structure QuietService (service : BatchExecutorService H) : Prop where
  progress : Quiet service.progress
  refresh : ∀ marketId now, Quiet (service.refreshMarketOracleIfNeeded marketId now)
  ensure : ∀ batchId marketId, Quiet (service.ensureForMarket batchId marketId)
  sample : ∀ marketId now, Quiet (service.sampleFundingPremium marketId now)
  finalize : ∀ settlement, Quiet (service.finalizeSettlement settlement)
  flush : Quiet service.flushStore

/-- The request for the transcript of a batch of the open orders. -/
def batchRequest (store : ProtocolStore) (marketId batchId : Text) :
    CreateExternalSettlementInput :=
  ⟨batchId, true, some (activeIntentCommitments store marketId), marketId⟩

/-- The server has made the transcript `T` of a batch, the ledger has settled it, and the server has
stopped. Its orders and the market are as they were, and the matcher makes a transcript of the same
batch that can be committed. -/
structure Interrupted (P : Fr → Fr → Fr) (m : MatcherService) (b : Address) (marketId : Text)
    (T : ExternalBatchSettlementTranscript) (w : World H) : Prop where
  made : ∃ m₀ store₀, m₀.markets = m.markets ∧ SameOrders store₀ w.store ∧
    2 ≤ (activeIntentCommitments store₀ marketId).length ∧
    createSettlementTranscript H P m₀ store₀
      (batchRequest store₀ marketId T.settlement.batchId) = .ok T ∧
    ∀ update ∈ T.settlement.orderUpdates,
      store₀.orderStatus update.intentCommitment = some statusOpen
  settled : SettledOn b w T.settlement.toBatchSettlement
  ready : ∃ T' now store', createSettlementTranscript H P m w.store
      (batchRequest w.store marketId T.settlement.batchId) = .ok T' ∧
    Returns (commitExternalBatchSettlement H m.markets now T' true) w.store T'.settlement store'

/-- The run finds the settlement by its digest and commits it once. -/
def Recovers (P : Fr → Fr → Fr) (service : BatchExecutorService H) (marketId : Text)
    (startedAt : ℕ) (input : RunBatchExecutorInput) (committedAt : ℤ)
    (T : ExternalBatchSettlementTranscript) (w : World H) : Prop :=
  ∃ settlement w',
    Returns (runMarket P service marketId startedAt input committedAt) w settlement w' ∧
    settlement.toBatchSettlement = T.settlement.toBatchSettlement ∧
    w.store.settlements.get? (settlementKey T.settlement) = none ∧
    w'.store.settlements = w.store.settlements.set (settlementKey T.settlement) settlement

theorem addSettlement_settlements {s s' : ProtocolStore}
    {openings : List PositionLifecycleRecord} {residuals : List ResidualOrderRecord}
    {events : List AccountEventRecord} {payloads : List PrivateMatchIntent}
    (h : Returns (addSettlement H now settlement openings residuals events payloads) s () s') :
    s.settlements.get? (settlementKey settlement) = none ∧
      s'.settlements = s.settlements.set (settlementKey settlement) settlement := by
  let Kept : ProtocolStore → ProtocolStore → Prop := Same ProtocolStore.settlements
  have hspend := same_spend (f := ProtocolStore.settlements) fun _ _ => rfl
  have hopening := same_openPosition (f := ProtocolStore.settlements) (fun _ _ => rfl) settlement
  have hresidual := same_addResidualOrder (H := H) (f := ProtocolStore.settlements)
    (fun _ _ => rfl) fun _ _ _ => rfl
  have hevent := same_addAccountEvent (f := ProtocolStore.settlements) fun _ _ => rfl
  unfold addSettlement at h
  simp only [returns_bind, returns_read, returns_throwIf, returns_update, id, exists_eq_left,
    exists_and_left, exists_const, and_assoc] at h
  obtain ⟨hnew, -, _, s₁, hproof, _, s₂, hopenings, _, s₃, hresiduals, _, s₄, hspends, _, s₅,
    hupdates, _, s₆, hopen, _, s₇, hadd, _, s₈, hevents, rfl⟩ := h
  obtain rfl : s₁ = s := Maintains.of_returns (R := Same id) inferInstance hproof
  obtain rfl : s₂ = s₁ := Maintains.of_returns (R := Same id) inferInstance hopenings
  obtain rfl : s₃ = s₂ := Maintains.of_returns (R := Same id) inferInstance hresiduals
  have hspends : Kept _ s₄ := Maintains.of_returns inferInstance hspends
  have hupdates : Kept s₄ s₅ :=
    (same_applySettlementOrderUpdates (fun _ _ => rfl) settlement).of_returns hupdates
  have hopen : Kept s₅ s₆ := Maintains.of_returns inferInstance hopen
  have hadd : Kept s₆ s₇ := Maintains.of_returns inferInstance hadd
  have hevents : Kept s₇ s₈ := Maintains.of_returns inferInstance hevents
  have hkept : Kept _ s₈ :=
    trans_of Kept hspends
      (trans_of Kept hupdates (trans_of Kept hopen (trans_of Kept hadd hevents)))
  refine ⟨Option.not_isSome_iff_eq_none.mp hnew, ?_⟩
  rw [← show s₈.settlements = s₃.settlements from hkept]

theorem commit_settlements {s s' : ProtocolStore} {markets : Text → Option MarketConfig}
    {transcript : ExternalBatchSettlementTranscript} {verified : Bool}
    (h : Returns (commitExternalBatchSettlement H markets now transcript verified) s settlement s') :
    settlement = transcript.settlement ∧
      s.settlements.get? (settlementKey settlement) = none ∧
      s'.settlements = s.settlements.set (settlementKey settlement) settlement := by
  unfold commitExternalBatchSettlement at h
  simp only [returns_bind, returns_read, returns_throwIf, returns_pure, id, exists_eq_left,
    exists_and_left, and_assoc] at h
  obtain ⟨_, s₁, hvalidate, _, s₂, hrecord, -, _, _, s₃, hadd, rfl, rfl⟩ := h
  obtain rfl : s₁ = s := (maintains_validate (R := Same id) markets transcript).of_returns hvalidate
  have hproof := same_recordProof (f := ProtocolStore.settlements) (fun _ _ => rfl)
    transcript.settlement.proof
  have hkept : Same ProtocolStore.settlements s₁ s₂ := Maintains.of_returns inferInstance hrecord
  obtain ⟨hnew, hset⟩ := addSettlement_settlements hadd
  rw [show s₂.settlements = s₁.settlements from hkept] at hnew hset
  exact ⟨rfl, hnew, hset⟩

/-- Whether a transcript is committed does not depend on the time. -/
theorem returns_commit_at {s s' : ProtocolStore} {markets : Text → Option MarketConfig}
    {transcript : ExternalBatchSettlementTranscript} {verified : Bool}
    (h : Returns (commitExternalBatchSettlement H markets now transcript verified) s settlement s')
    (now' : ℤ) : ∃ s'', Returns (commitExternalBatchSettlement H markets now' transcript verified) s
      settlement s'' := by
  unfold commitExternalBatchSettlement at h ⊢
  simp only [returns_bind, returns_pure] at h ⊢
  obtain ⟨_, s₁, hvalidate, _, s₂, hrecord, store, s₃, hread, _, s₄, hproof, _, s₅, hadd, rfl, -⟩ := h
  obtain ⟨_, s₆, hadd'⟩ := (succeeds_addSettlement_at now').mp ⟨_, _, hadd⟩
  exact ⟨s₆, _, s₁, hvalidate, _, s₂, hrecord, store, s₃, hread, _, s₄, hproof, _, s₆, hadd', rfl,
    rfl⟩

theorem returns_gateway {m : MatcherService} {input : CreateExternalSettlementInput}
    {T : ExternalBatchSettlementTranscript} :
    Returns (m.gateway P input) w T w' ↔
      createSettlementTranscript H P m w.store input = .ok T ∧ w' = w := by
  unfold MatcherService.gateway
  simp only [returns_bind, returns_read, returns_ofExcept, id, exists_eq_left, exists_and_left,
    and_assoc]

theorem Quiet.calm {x : WorldScript H Unit} (hx : Quiet x) {u : Unit} (h : Returns x w u w') :
    Calm w w' := by
  obtain ⟨w₁, hreturns, hcalm⟩ := hx w
  have heq := hreturns.symm.trans h
  obtain ⟨-, rfl⟩ := Prod.mk.inj heq
  exact hcalm

theorem returns_isSettledOnchain {onchain : Option (OnchainRelay H)}
    {positionState : Option Address}
    {settleBatch : SettlementRecord → WorldScript H OnchainRelayResult}
    (honchain : onchain = some (ledgerRelay b positionState settleBatch))
    (h : SettledOn b w settlement.toBatchSettlement) :
    Returns (isSettledOnchain onchain settlement) w true w := by
  subst honchain
  exact Returns.recover h false

/-- With the same roots and the same batch the run reaches the check of what is settled. -/
theorem settleMarket_of_interrupted {m : MatcherService} {service : BatchExecutorService H}
    {positionState : Option Address} {marketId : Text} {T : ExternalBatchSettlementTranscript}
    (hdeployed : Deployed P b positionState m service) (hquiet : QuietService service)
    (hinterrupted : Interrupted P m b marketId T w) {startedAt : ℕ} {input : RunBatchExecutorInput}
    (committedAt : ℤ) (hroots : ∀ p ∈ positionState, RootsAgree P p w)
    (hbatch : batchIdForMarket H service.batchIdPrefix w.store marketId startedAt input =
      T.settlement.batchId) :
    ∃ T' store' w', T'.settlement.toBatchSettlement = T.settlement.toBatchSettlement ∧
      Returns (settleMarket P service marketId startedAt input) w (T', true) w' ∧ Calm w w' ∧
      Returns (commitExternalBatchSettlement H m.markets committedAt T' true) w.store T'.settlement
        store' := by
  obtain ⟨settleBatch, honchain⟩ := hdeployed.onchain
  obtain ⟨⟨m₀, store₀, hmarkets, horders, htwo, hmade, hactive⟩, hsettled, T', now, _, hmade',
    hcommit⟩ := hinterrupted
  obtain ⟨store', hcommit⟩ := returns_commit_at hcommit committedAt
  have hactives : activeIntentCommitments w.store marketId =
      activeIntentCommitments store₀ marketId := by
    unfold activeIntentCommitments
    rw [horders.orderLifecycle]
  have hstatus : w.store.orderStatus = store₀.orderStatus := by
    unfold ProtocolStore.orderStatus
    rw [horders.orderLifecycle]
  have hsame : T'.settlement.toBatchSettlement = T.settlement.toBatchSettlement := by
    rw [batchRequest, ← hactives] at hmade
    exact transcripts_agree hmarkets horders hmade hmade'
  -- the phases before the matcher
  obtain ⟨w₁, hprogress₁, hcalm₁⟩ := hquiet.progress w
  obtain ⟨w₂, hrefresh, hcalm₂⟩ := hquiet.refresh marketId startedAt w₁
  obtain ⟨w₃, hensure, hcalm₃⟩ := hquiet.ensure T.settlement.batchId marketId w₂
  obtain ⟨w₄, hflush, hcalm₄⟩ := hquiet.flush w₃
  obtain ⟨w₅, hsample, hcalm₅⟩ := hquiet.sample marketId startedAt w₄
  obtain ⟨w₆, hprogress₆, hcalm₆⟩ := hquiet.progress w₅
  obtain ⟨w₇, hprogress₇, hcalm₇⟩ := hquiet.progress w₆
  obtain ⟨w₈, hprogress₈, hcalm₈⟩ := hquiet.progress w₇
  have hto₅ : Calm w w₅ := trans_of Calm hcalm₁ (trans_of Calm hcalm₂ (trans_of Calm hcalm₃
    (trans_of Calm hcalm₄ hcalm₅)))
  have hto₆ : Calm w w₆ := trans_of Calm hto₅ hcalm₆
  have hto₇ : Calm w w₇ := trans_of Calm hto₆ hcalm₇
  have hto₈ : Calm w w₈ := trans_of Calm hto₇ hcalm₈
  have hstore₅ : w₅.store = w.store := (Prod.mk.inj hto₅).1
  have hstore₆ : w₆.store = w.store := (Prod.mk.inj hto₆).1
  have hstore₇ : w₇.store = w.store := (Prod.mk.inj hto₇).1
  have hstore₈ : w₈.store = w.store := (Prod.mk.inj hto₈).1
  refine ⟨T', store', w₈, hsame, ?_, hto₈, hcommit⟩
  have hroot : Returns (assertPositionRootSynchronized P true
      ((ledgerRelay b positionState settleBatch).positionRoot)) w₁ () w₁ := by
    cases positionState with
    | none => exact returns_pure.mpr ⟨rfl, rfl⟩
    | some p =>
      exact returns_assertPositionRootSynchronized.mpr ⟨(hroots p rfl).calm hcalm₁, rfl⟩
  have hopen : Returns (assertSettlementOrdersActive T'.settlement) w₇ () w₇ := by
    refine returns_bind.mpr ⟨_, _, returns_read.mpr ⟨rfl, rfl⟩, returns_throwIf.mpr ⟨?_, rfl⟩⟩
    rintro ⟨update, hmem, hinactive⟩
    rw [congrArg BatchSettlement.orderUpdates hsame] at hmem
    rw [id, hstore₇, hstatus] at hinactive
    exact hinactive (hactive update hmem)
  have hread : Returns (isSettledOnchain (some (ledgerRelay b positionState settleBatch))
      T'.settlement) w₇ true w₇ := by
    refine returns_isSettledOnchain rfl ?_
    rw [hsame]
    exact hsettled.calm hto₇
  unfold settleMarket runPhase
  simp only [honchain, hdeployed.required, hdeployed.matcher, Option.bind_some, returns_bind,
    returns_read, returns_mapError, returns_throwIf, returns_branch, returns_pure, id,
    exists_eq_left, exists_and_left, exists_const, and_assoc]
  rw [hbatch]
  refine ⟨(), w₁, hprogress₁, (), w₁, hroot, (), w₂, hrefresh, (), w₃, hensure, (), w₄, hflush,
    (), w₅, hsample, ?_, ?_, (), w₆, hprogress₆, T', w₆, ?_, (), w₇, hprogress₇, (), w₇, hopen,
    true, w₇, hread, none, w₇, Or.inl ⟨rfl, rfl, rfl⟩, true, w₇, Or.inl ⟨rfl, rfl, rfl⟩, ?_, ?_,
    (), w₈, hprogress₈, ?_, rfl⟩
  · rw [hstore₅, hactives]
    omega
  · rw [hstore₅, hactives]
    omega
  · rw [hstore₅, returns_gateway, hstore₆]
    exact ⟨hmade', rfl⟩
  · simp
  · simp
  · simp

/-- A run recovers exactly if it has the same roots and names the same batch. -/
theorem recovers_iff {m : MatcherService} {service : BatchExecutorService H}
    {positionState : Option Address} {marketId : Text} {T : ExternalBatchSettlementTranscript}
    (hdeployed : Deployed P b positionState m service) (hquiet : QuietService service)
    (hinterrupted : Interrupted P m b marketId T w) (startedAt : ℕ)
    (input : RunBatchExecutorInput) (committedAt : ℤ) :
    Recovers P service marketId startedAt input committedAt T w ↔
      (∀ p ∈ positionState, RootsAgree P p w) ∧
        batchIdForMarket H service.batchIdPrefix w.store marketId startedAt input =
          T.settlement.batchId := by
  constructor
  · rintro ⟨settlement, w', hrun, hsettlement, -, -⟩
    obtain ⟨settleBatch, honchain⟩ := hdeployed.onchain
    unfold runMarket settleMarket runPhase at hrun
    simp only [honchain, hdeployed.required, hdeployed.matcher, Option.bind_some, returns_bind,
      returns_read, returns_mapError, returns_throwIf, returns_branch, returns_pure, id,
      exists_eq_left, exists_and_left, exists_const, and_assoc] at hrun
    obtain ⟨_, _, ⟨_, w₁, hprogress, _, _, hroot, _, _, -, _, _, -, _, _, -, _, _, -, -, -, _, _, -,
      T', _, hmatcher, _, _, -, _, _, -, _, _, -, _, _, -, _, _, -, -, -, _, _, -, rfl, rfl⟩,
      _, _, hcommit, _, _, -, _, _, -, _, _, -, rfl, -⟩ := hrun
    have hcalm : Calm w₁ w := (hquiet.progress.calm hprogress).symm
    refine ⟨fun p hp => ?_, ?_⟩
    · obtain rfl : positionState = some p := hp
      exact (returns_assertPositionRootSynchronized.mp hroot).1.calm hcalm
    · obtain ⟨_, hcommit, -⟩ := returns_onPart.mp hcommit
      obtain ⟨heq, -⟩ := commit_settlements hcommit
      obtain ⟨hmade, -⟩ := returns_gateway.mp hmatcher
      obtain ⟨-, -, -, hbatch⟩ := transcript_settlement hmade
      rw [← congrArg BatchSettlement.batchId hsettlement, heq]
      exact hbatch.symm
  · rintro ⟨hroots, hbatch⟩
    obtain ⟨T', store', w₈, hsame, hsettle, hcalm₈, hcommit⟩ :=
      settleMarket_of_interrupted hdeployed hquiet hinterrupted committedAt hroots hbatch
    -- the commit and the phases after it
    obtain ⟨-, hnew, hset⟩ := commit_settlements hcommit
    obtain ⟨w₉, hprogress₉, hcalm₉⟩ := hquiet.progress { w₈ with store := store' }
    obtain ⟨w₁₀, hfinalize, hcalm₁₀⟩ := hquiet.finalize T'.settlement w₉
    obtain ⟨w₁₁, hflush₁₁, hcalm₁₁⟩ := hquiet.flush w₁₀
    have hend : Calm { w₈ with store := store' } w₁₁ :=
      trans_of Calm hcalm₉ (trans_of Calm hcalm₁₀ hcalm₁₁)
    have hkey : settlementKey T'.settlement = settlementKey T.settlement := by
      unfold settlementKey
      rw [hsame]
    rw [hkey] at hnew hset
    refine ⟨T'.settlement, w₁₁, ?_, hsame, hnew, ?_⟩
    · unfold runMarket runPhase
      simp only [hdeployed.required, hdeployed.markets, returns_bind, returns_mapError,
        returns_pure]
      refine ⟨_, w₈, hsettle, T'.settlement, { w₈ with store := store' }, ?_, (), w₉, hprogress₉,
        (), w₁₀, hfinalize, (), w₁₁, hflush₁₁, rfl, rfl⟩
      refine returns_onPart.mpr ⟨store', ?_, rfl⟩
      rw [show w₈.store = w.store from (Prod.mk.inj hcalm₈).1]
      exact hcommit
    · rw [show w₁₁.store = store' from (Prod.mk.inj hend).1]
      exact hset

/-- **Recovery of a batch.** The server has stopped after the ledger has settled a batch and before
it has committed the settlement. A run of the market commits it, once, if and only if the relay does
not read the root of positions or finds the root of the server, and the run names the batch as
before. No run commits a settlement that the ledger has not confirmed. -/
theorem batch_recovered_iff (H : Host) (P : Fr → Fr → Fr) (b : Address) (marketId : Text)
    (service : BatchExecutorService H) :
    (∀ (m : MatcherService) (positionState : Option Address)
        (T : ExternalBatchSettlementTranscript) (w : World H) (startedAt : ℕ)
        (input : RunBatchExecutorInput) (committedAt : ℤ),
      Deployed P b positionState m service → QuietService service →
      Interrupted P m b marketId T w →
      (Recovers P service marketId startedAt input committedAt T w ↔
        (∀ p ∈ positionState, RootsAgree P p w) ∧
          batchIdForMarket H service.batchIdPrefix w.store marketId startedAt input =
            T.settlement.batchId)) ∧
    (∀ (relay : OnchainRelay H), service.settlementsOnchainRequired = true →
      service.onchain = some relay → relay.isBatchSettled = some (isBatchSettled b) →
      Tame service →
      ∀ (w : World H) (startedAt : ℕ) (input : RunBatchExecutorInput) (committedAt : ℤ) (k : Text)
        (settlement : SettlementRecord),
      (runMarket P service marketId startedAt input committedAt w).2.store.settlements.get? k =
          some settlement →
        w.store.settlements.get? k = some settlement ∨
          SettledOn b (runMarket P service marketId startedAt input committedAt w).2
            settlement.toBatchSettlement) :=
  ⟨fun _ _ _ _ startedAt input committedAt hdeployed hquiet hinterrupted =>
      recovers_iff hdeployed hquiet hinterrupted startedAt input committedAt,
    fun _ hrequired honchain hreads htame w startedAt input committedAt =>
      ((confirms_runMarket hrequired honchain hreads htame marketId startedAt input
        committedAt).rel w).settlements⟩

/-! ## A server that stops after a settlement -/

section Examples

open SampleHost

/-- A polynomial hash whose accumulator is evaluated at each byte. -/
def polynomialHash (bytes : Bytes) : ℕ → ℕ :=
  bytes.rec id fun b _ rest acc =>
    match (acc * 257 + b.toNat + 1) % 2 ^ 256 with
    | 0 => rest 0
    | n + 1 => rest (n + 1)

/-- A host that hashes the bytes before an opening bracket, and no more than 112. -/
def batchHost : Host :=
  { sampleHost with
    sha256 := fun bytes =>
      BitVec.ofNat 256 (polynomialHash ((bytes.take 112).takeWhile (· ≠ 91)) 0) }

def marketOrder (n : ℕ) (signedSize : ℤ) : PrivateMatchIntent where
  batchId := "ui".toList
  intentCommitment := hexText n
  limitPrice := 100000
  margin := 10
  marketId := "A".toList
  noteChangeCommitment := "0x0".toList
  noteNullifier := hexText (100 + n)
  ownerCommitment := hexText (200 + n)
  signedSize := signedSize
  sourceIntentCommitment := none

def orderProof : ProofRecord where
  circuitId := "intent-validity".toList
  circuitKey := "0x1".toList
  verifierHash := "0x1".toList
  publicInputHash := "0x2".toList
  proofDigest := "0x3".toList
  proofSystem := none
  imageId := none
  journalDigest := none
  sealDigest := none

/-- The record of an order, with the root of the tree without notes. -/
def submittedIntent (order : PrivateMatchIntent) : IntentRecord where
  batchId := order.batchId
  batchDigest := "0x4".toList
  marketId := order.marketId
  marketDigest := "0x5".toList
  marginRoot := (ProtocolStore.empty.marginMembershipRoot pairHash).getD []
  ownerCommitmentField := "0x6".toList
  ownerCommitment := order.ownerCommitment
  intentCommitment := order.intentCommitment
  matchingPayloadCommitment := matchingPayloadCommitment batchHost order
  noteChangeCommitment := order.noteChangeCommitment
  proof := orderProof
  noteNullifier := order.noteNullifier
  submissionSequence := none

/-- The submission of an order. -/
def submitOrder (order : PrivateMatchIntent) : StoreCall :=
  .addIntent 0 (submittedIntent order) (some order)

/-- The store with a long and a short order of the market A. -/
def twoOrders : ProtocolStore :=
  final (acceptStep batchHost pairHash) .empty
    [.recordProof orderProof, submitOrder (marketOrder 1 1000000),
      submitOrder (marketOrder 2 (-1000000))]

/-- The store of `twoOrders`, written out. -/
def openOrders : ProtocolStore :=
  let orders := [marketOrder 1 1000000, marketOrder 2 (-1000000)]
  { ProtocolStore.empty with
    proofs := .empty |>.add (proofKey orderProof)
    intents := orders.foldl (fun intents order =>
      intents.set order.intentCommitment (submittedIntent order)) .empty
    orderLifecycle := orders.foldl (fun lifecycle order =>
      lifecycle.set order.intentCommitment (openLifecycle 0 0 (submittedIntent order).order)) .empty
    privateMatchIntents := orders.foldl (fun payloads order =>
      payloads.set order.intentCommitment order) .empty }

theorem twoOrders_eq : twoOrders = openOrders := by decide +kernel

def marketA : MarketConfig where
  fundingIndex := 0
  initialMarginRate := 1
  maintenanceMarginRate := 1
  marketId := "A".toList
  maxLeverage := 1000

/-- A matcher whose proof is that of the circuit 9 with the verifier 2. -/
def sampleMatcher : MatcherService where
  markets marketId := if marketId = "A".toList then some marketA else none
  now := 0
  createSettlement _ draft := do
    let hash ← orError "public inputs" (batchSettlementPublicInputHash batchHost draft)
    pure
      { circuitId := "batch-match".toList
        circuitKey := hexText 9
        verifierHash := hexText 2
        publicInputHash := hash
        proofDigest := hexText 3
        proofSystem := some "risc0-groth16".toList
        imageId := some (hexText 4)
        journalDigest := some hash
        sealDigest := some (hexText 3) }
  encryptOpening opening _ := pure opening.positionCommitment
  encryptResidual residual _ := pure residual.intentCommitment

def orderBatchId : Text :=
  batchIdForMarket batchHost none twoOrders "A".toList 0 ⟨none, none⟩

/-- The transcript of the batch of the two orders. -/
def twoOrdersTranscript : Except String ExternalBatchSettlementTranscript :=
  createSettlementTranscript batchHost pairHash sampleMatcher twoOrders
    (batchRequest twoOrders "A".toList orderBatchId)

/-- The arguments of the settlement of a record, with a proof of its public inputs. -/
def provenArgs (record : BatchSettlement) : Option SettleArgs := do
  let args ← settleArgs batchHost record ⟨9, 1, 2, 0, 3⟩
  some { args with
    proof := ⟨9, 1, 2, batchHost.sha256 (Pnlx.BatchSettlement.publicInputBytes args), 3⟩ }

def deployTx (target : Address) (call : Call) : Action batchHost :=
  .invoke ⟨[sampleAdmin], 0, target, call⟩

/-- The deployment of the contracts around the batch settlement at 10. -/
def deployBatch : List (Action batchHost) :=
  [deployTx (.contract 2) (.governanceInit sampleAdmin),
    deployTx (.contract 2) (.governanceSetVerifier 9 2 sampleAdmin),
    deployTx (.contract 3) (.proofLedgerInit (.contract 2)),
    deployTx (.contract 4) (.poolInit (.contract 2) (.contract 3) 6 5),
    deployTx (.contract 4) (.poolSetWriter (.contract 10) true),
    deployTx (.contract 5) (.registryInit sampleAdmin (.contract 10)),
    deployTx (.contract 6) (.marketInit (.contract 2)),
    deployTx (.contract 6) (.marketUpsert (marketKey batchHost "A") (sampleMarket "A")),
    deployTx (.contract 7) (.stateInit (.contract 2)),
    deployTx (.contract 7) (.stateSetWriter (.contract 10) true),
    deployTx (.contract 10) (.batchInit (.contract 2) (.contract 3) (.contract 6) (.contract 7)
      (.contract 4) (.contract 5) 9)]

/-- The orders of a batch are submitted, its proof is recorded and it is settled. -/
def settleOrders (args : SettleArgs) : List (Action batchHost) :=
  (args.filledIntents.zip args.matchingPayloadCommitments).map (fun (intent, payload) =>
    deployTx (.contract 5) (.registrySubmit args.batchId args.marketId intent payload)) ++
  [deployTx (.contract 3) (.proofLedgerRecord sampleAdmin args.proof.key),
    .invoke ⟨[], 0, .contract 10, .batchSettle args⟩]

/-- The ledger that has settled the batch of the two orders. -/
def settledLedger : Chain batchHost :=
  final step (Chain.blank ⟨[], [((.contract 20, .other "A"), ⟨1500, 0⟩)]⟩)
    (deployBatch ++ twoOrdersTranscript.toOption.toList.flatMap fun T =>
      (provenArgs T.settlement.toBatchSettlement).toList.flatMap settleOrders)

/-- The world after the crash, where the two orders are open in the store. -/
def crashedWorld : World batchHost := ⟨settledLedger, twoOrders⟩

theorem crashedWorld_store : crashedWorld.store = twoOrders := by rw [crashedWorld]

/-- A service whose relay reads the root of positions at `positionState`. -/
def sampleService (positionState : Option Address) : BatchExecutorService batchHost where
  markets := sampleMatcher.markets
  matcher := sampleMatcher.gateway pairHash
  onchain := some (ledgerRelay (.contract 10) positionState fun _ => pure [])
  batchIdPrefix := none
  settlementsOnchainRequired := true
  progress := pure ()
  refreshMarketOracleIfNeeded _ _ := pure ()
  ensureForMarket _ _ := pure ()
  sampleFundingPremium _ _ := pure ()
  finalizeSettlement _ := pure ()
  flushStore := pure ()

theorem sampleService_deployed (positionState : Option Address) :
    Deployed pairHash (.contract 10) positionState sampleMatcher (sampleService positionState) :=
  ⟨rfl, rfl, rfl, _, rfl⟩

theorem sampleService_quiet (positionState : Option Address) :
    QuietService (sampleService positionState) := by
  have hpure : Quiet (H := batchHost) (pure ()) := fun w => ⟨w, rfl, rfl⟩
  exact ⟨hpure, fun _ _ => hpure, fun _ _ => hpure, fun _ _ => hpure, fun _ => hpure, hpure⟩

/-- The runs of the sample: the batch is settled on the ledger, its transcript can be committed, and
the roots of the positions differ. -/
theorem crashedWorld_facts : twoOrdersTranscript.toOption.any fun T =>
    2 ≤ (activeIntentCommitments twoOrders "A".toList).length ∧
    (∀ update ∈ T.settlement.orderUpdates,
      twoOrders.orderStatus update.intentCommitment = some statusOpen) ∧
    (commitExternalBatchSettlement batchHost sampleMatcher.markets 0 T true twoOrders).1.isOk ∧
    T.settlement.batchId = orderBatchId ∧ T.settlement.marketId = "A".toList ∧
    (isBatchSettled (.contract 10) T.settlement.batchId T.settlement.marketId
      T.settlement.settlementDigest crashedWorld).1 = .ok true ∧
    (twoOrders.positionMembershipRoot pairHash).map toLowerCase ≠
      (crashedWorld.ledger.storage .positionState (.contract 7)).currentRoot.map fun root =>
        toLowerCase (hexText root.toNat) := by
  simp only [crashedWorld, settledLedger, twoOrdersTranscript, orderBatchId, twoOrders_eq]
  decide +kernel

theorem crashedWorld_interrupted : ∃ T,
    Interrupted pairHash sampleMatcher (.contract 10) "A".toList T crashedWorld ∧
    batchIdForMarket batchHost none crashedWorld.store "A".toList 0 ⟨none, none⟩ =
      T.settlement.batchId ∧
    ¬ RootsAgree pairHash (.contract 7) crashedWorld := by
  obtain ⟨T, hT, hfacts⟩ := (Option.any_eq_true _ _).mp crashedWorld_facts
  obtain ⟨htwo, hopen, hcommit, hbatch, hmarket, hsettled, hroots⟩ := of_decide_eq_true hfacts
  have hmade : createSettlementTranscript batchHost pairHash sampleMatcher twoOrders
      (batchRequest twoOrders "A".toList T.settlement.batchId) = .ok T := by
    rw [hbatch]
    change twoOrdersTranscript = .ok T
    cases htranscript : twoOrdersTranscript with
    | error e => rw [htranscript] at hT; cases hT
    | ok made => rw [htranscript] at hT; exact congrArg Except.ok (Option.some.inj hT)
  have hready : ∃ store', Returns
      (commitExternalBatchSettlement batchHost sampleMatcher.markets 0 T true) twoOrders
      T.settlement store' := by
    cases hrun : commitExternalBatchSettlement batchHost sampleMatcher.markets 0 T true twoOrders with
    | mk result store' =>
      rw [hrun] at hcommit
      cases result with
      | error e => cases hcommit
      | ok settlement =>
        obtain ⟨rfl, -⟩ := commit_settlements hrun
        exact ⟨store', hrun⟩
  have hsettledOn : SettledOn (.contract 10) crashedWorld T.settlement.toBatchSettlement := by
    cases hread : isBatchSettled (.contract 10) T.settlement.batchId T.settlement.marketId
        T.settlement.settlementDigest crashedWorld with
    | mk result w' =>
      rw [hread] at hsettled
      obtain rfl : result = .ok true := hsettled
      obtain ⟨-, rfl⟩ := returns_isBatchSettled.mp hread
      exact hread
  obtain ⟨store', hready⟩ := hready
  refine ⟨T, ⟨⟨sampleMatcher, twoOrders, rfl, ⟨rfl, rfl, rfl, rfl⟩, htwo, hmade, hopen⟩, hsettledOn,
    T, 0, store', ?_⟩, ?_, ?_⟩
  · rw [crashedWorld_store]
    exact ⟨hmade, hready⟩
  · rw [crashedWorld_store, hbatch, orderBatchId]
  · intro hagree
    refine hroots ?_
    rw [← crashedWorld_store]
    exact hagree.roots_eq

theorem sampleService_tame (positionState : Option Address) :
    Tame (sampleService positionState) where
  matcher input := by
    unfold sampleService MatcherService.gateway
    infer_instance
  settleBatch relay hrelay settlement := by
    obtain rfl := Option.some.inj hrelay
    unfold ledgerRelay
    infer_instance
  positionRoot relay hrelay x hx := by
    obtain rfl := Option.some.inj hrelay
    unfold ledgerRelay at hx
    obtain ⟨p, -, rfl⟩ := Option.map_eq_some_iff.mp hx
    unfold positionRoot
    infer_instance
  progress := Maintains.pure ()
  refresh _ _ := Maintains.pure ()
  ensure _ _ := Maintains.pure ()
  sample _ _ := Maintains.pure ()
  finalize _ := Maintains.pure ()
  flush := Maintains.pure ()

/-- **A crash after a settlement is not recovered from.** The settlement has appended the positions
on the ledger, so the roots differ, and every later run of the market throws before it looks for the
settlement. -/
theorem crashedWorld_not_recovered : ∃ T,
    Deployed pairHash (.contract 10) (some (.contract 7)) sampleMatcher
      (sampleService (some (.contract 7))) ∧
    QuietService (sampleService (some (.contract 7))) ∧
    Interrupted pairHash sampleMatcher (.contract 10) "A".toList T crashedWorld ∧
    ∀ (startedAt : ℕ) (input : RunBatchExecutorInput) (committedAt : ℤ),
      ¬ Recovers pairHash (sampleService (some (.contract 7))) "A".toList startedAt input
        committedAt T crashedWorld := by
  obtain ⟨T, hinterrupted, -, hroots⟩ := crashedWorld_interrupted
  have hdeployed := sampleService_deployed (some (.contract 7))
  have hquiet := sampleService_quiet (some (.contract 7))
  refine ⟨T, hdeployed, hquiet, hinterrupted,
    fun startedAt input committedAt hrecovers => ?_⟩
  have hagree :=
    ((recovers_iff hdeployed hquiet hinterrupted startedAt input committedAt).mp hrecovers).1
  exact hroots (hagree _ rfl)

/-- Without the address of the position state the run recovers, and has committed what is
confirmed. -/
theorem batch_recovered_sample : ∃ T,
    Recovers pairHash (sampleService none) "A".toList 0 ⟨none, none⟩ 0 T crashedWorld ∧
    ∀ k settlement,
      (runMarket pairHash (sampleService none) "A".toList 0 ⟨none, none⟩ 0
        crashedWorld).2.store.settlements.get? k = some settlement →
      crashedWorld.store.settlements.get? k = some settlement ∨
        SettledOn (.contract 10) (runMarket pairHash (sampleService none) "A".toList 0
          ⟨none, none⟩ 0 crashedWorld).2 settlement.toBatchSettlement := by
  obtain ⟨T, hinterrupted, hbatch, -⟩ := crashedWorld_interrupted
  obtain ⟨hrecovers, hconfirmed⟩ := batch_recovered_iff batchHost pairHash (.contract 10) "A".toList
    (sampleService none)
  refine ⟨T, ?_, hconfirmed _ rfl rfl rfl (sampleService_tame none) crashedWorld 0 ⟨none, none⟩ 0⟩
  refine (hrecovers sampleMatcher none T crashedWorld 0 ⟨none, none⟩ 0 (sampleService_deployed none)
    (sampleService_quiet none) hinterrupted).mpr ⟨fun p hp => absurd hp (Option.not_mem_none p), ?_⟩
  exact hbatch

end Examples

end Pnlx.Server
