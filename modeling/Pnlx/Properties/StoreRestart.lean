import Mathlib.Logic.Relation
import Pnlx.Properties.MembershipRoots
import Pnlx.Properties.SnapshotRoundTrip
import Pnlx.Server.StoreRecords

/-!
# The store after a restart

What an operation of the store does, whether it returns or throws, are writes of records into its
tables. So the tables of a running server are those that a restart reads back, and the store that is
loaded is the one that the operations have left.

`store_restart`: every run of calls is a run of writes, and a restart gives its store back. The
volume of a settlement, which `addSettlement` writes into a table of its own, is a write that the
store does not model.
-/

namespace Pnlx.Server

open BatchMatch (Text)
open Script
open Runs

variable {H : Host} {P : Fr → Fr → Fr} {s s' s'' : ProtocolStore} {tables tables' : StoreTables}
  {now : ℤ}

/-! ## Stores and tables -/

/-- Tables that come from others by writes of operations. -/
def Written : StoreTables → StoreTables → Prop :=
  Relation.ReflTransGen fun tables tables' =>
    ∃ storeWrite : StoreWrite, storeWrite.Typed tables ∧ storeWrite.apply tables = tables'

theorem Reachable.written {restarts : StoreTables → StoreTables → Prop}
    (h : Reachable restarts tables) (hwritten : Written tables tables') :
    Reachable restarts tables' := by
  induction hwritten with
  | refl => exact h
  | tail _ hstep ih =>
    obtain ⟨storeWrite, htyped, rfl⟩ := hstep
    exact .write _ storeWrite ih htyped

/-- The tables are those of the store, but for absent properties. -/
structure Holds (tables : StoreTables) (store : ProtocolStore) : Prop where
  maps : ∀ name, (tables.maps name).mapValues JsValue.strip =
    ((store.tables tables).maps name).mapValues JsValue.strip
  sets : ∀ name, tables.sets name = (store.tables tables).sets name

theorem Holds.strip_eq (h : Holds tables s) : tables.strip = (s.tables tables).strip := by
  have hmaps : tables.strip.maps = (s.tables tables).strip.maps := funext h.maps
  have hsets : tables.strip.sets = (s.tables tables).strip.sets := funext h.sets
  unfold StoreTables.strip at hmaps hsets ⊢
  exact congrArg₂ StoreTables.mk hmaps hsets

/-- Tables that hold a store read as the store when the absent properties are gone. -/
theorem Holds.protocolStore (h : Holds tables s) : tables.strip.protocolStore = some s := by
  rw [h.strip_eq, protocolStore_tables]

theorem holds_empty : Holds .empty .empty where
  maps name := by cases name <;> rfl
  sets name := by cases name <;> rfl

theorem StoreTables.Kept.mapValues_strip_strip (h : tables.Kept) (name : MapName) :
    ((tables.maps name).mapValues JsValue.strip).mapValues JsValue.strip =
      (tables.maps name).mapValues JsValue.strip := by
  refine OrderedMap.ext_entries ?_
  show ((tables.maps name).entries.map _).map _ = (tables.maps name).entries.map _
  rw [List.map_map]
  exact List.map_congr_left fun entry hentry =>
    congrArg (Prod.mk entry.1) (JsValue.strip_strip (h.plain name entry hentry))

/-- Tables without absent properties hold the same store. -/
theorem Holds.strip (hkept : tables.Kept) (h : Holds tables s) : Holds tables.strip s where
  maps name := by
    refine (hkept.mapValues_strip_strip name).trans ?_
    have hmap := h.maps name
    cases name <;> first | exact hmap | exact (hkept.mapValues_strip_strip _).symm
  sets name := by
    have hset := h.sets name
    cases name <;> exact hset

/-! ## Writes -/

/-- Whatever tables hold the first store, writes lead to tables that hold the second. -/
def Shown (s s' : ProtocolStore) : Prop :=
  ∀ tables, Holds tables s → ∃ tables', Written tables tables' ∧ Holds tables' s'

instance : Std.Refl Shown := ⟨fun _ tables h => ⟨tables, .refl, h⟩⟩

theorem Shown.trans (h : Shown s s') (h' : Shown s' s'') : Shown s s'' := by
  intro tables hholds
  obtain ⟨tables', hwritten, hholds'⟩ := h tables hholds
  obtain ⟨tables'', hwritten', hholds''⟩ := h' tables' hholds'
  exact ⟨tables'', hwritten.trans hwritten', hholds''⟩

instance : IsTrans ProtocolStore Shown := ⟨fun _ _ _ => Shown.trans⟩

/-- A record is written into one map. -/
theorem shown_put (name : MapName) {key : Text} {value : JsValue}
    (htyped : ∀ tables, (StoreWrite.put name key value).Typed tables)
    (hmap : ∀ rest rest', (s'.tables rest').maps name = ((s.tables rest).maps name).set key value)
    (hother : ∀ rest rest' : StoreTables, ∀ other, other ≠ name →
      rest'.maps other = rest.maps other →
        (s'.tables rest').maps other = (s.tables rest).maps other)
    (hsets : ∀ rest rest', (s'.tables rest').sets = (s.tables rest).sets) : Shown s s' := by
  intro tables h
  refine ⟨_, .single ⟨.put name key value, htyped tables, rfl⟩, fun other => ?_, fun other => ?_⟩
  · show ((tables.setMap name ((tables.maps name).set key value)).maps other).mapValues _ = _
    by_cases hne : other = name
    · subst hne
      rw [StoreTables.maps_setMap_self, hmap tables, OrderedMap.mapValues_set,
        OrderedMap.mapValues_set, h.maps]
    · have hsame : (tables.setMap name ((tables.maps name).set key value)).maps other =
          tables.maps other := StoreTables.maps_setMap_of_ne hne
      have hkept : (s'.tables ((StoreWrite.put name key value).apply tables)).maps other =
          (s.tables tables).maps other := hother tables _ other hne hsame
      rw [hsame, hkept, h.maps]
  · rw [hsets tables]
    exact h.sets other

/-- A value is added to one set. -/
theorem shown_add (name : SetName) {value : Text}
    (hset : ∀ rest rest', (s'.tables rest').sets name = ((s.tables rest).sets name).add value)
    (hother : ∀ rest rest' other, other ≠ name →
      (s'.tables rest').sets other = (s.tables rest).sets other)
    (hmaps : ∀ rest rest' : StoreTables, ∀ other, rest'.maps other = rest.maps other →
      (s'.tables rest').maps other = (s.tables rest).maps other) : Shown s s' := by
  intro tables h
  refine ⟨_, .single ⟨.add name value, trivial, rfl⟩, fun other => ?_, fun other => ?_⟩
  · have hkept : (s'.tables ((StoreWrite.add name value).apply tables)).maps other =
        (s.tables tables).maps other := hmaps tables _ other rfl
    rw [hkept]
    exact h.maps other
  · show Function.update tables.sets name ((tables.sets name).add value) other = _
    by_cases hne : other = name
    · subst hne
      rw [Function.update_self, hset tables, h.sets]
    · rw [Function.update_of_ne hne, hother tables _ other hne, h.sets]

/-! ## Records -/

section Records

/-- A record of a type without defaults. -/
theorem typedRecord_write {α : Type} (codec : Codec α) {name : MapName}
    (hdefaults : recordDefaults name = []) (a : α) : TypedRecord name (codec.write a) := by
  refine ⟨codec.plain a, fun property hproperty => ?_⟩
  rw [hdefaults] at hproperty
  exact absurd hproperty List.not_mem_nil

/-- A property that is written is there. -/
theorem present_write {α β : Type} {properties : Properties α} {build : α → β} {parts : β → α}
    {hparts : ∀ b, build (parts b) = b} {hdistinct : properties.Distinct} {b : β} {name : String}
    {value : JsValue} (i : ℕ) (hwritten : (properties.write (parts b))[i]? = some (name, value))
    (hpresent : value.Present) :
    (((Codec.record properties build parts hparts hdistinct).write b).get name).Present := by
  have hget := Properties.get_entries hdistinct (List.mem_of_getElem? hwritten)
  exact (congrArg JsValue.Present hget).mpr hpresent

theorem typedRecord_intent (record : IntentRecord) :
    TypedRecord .intents (Codec.intentRecord.write record) := by
  refine ⟨Codec.intentRecord.plain record, fun property hproperty => ?_⟩
  simp only [recordDefaults, List.mem_cons, List.not_mem_nil, or_false] at hproperty
  rcases hproperty with rfl | rfl | rfl | rfl
  · exact present_write 1 rfl trivial
  · exact present_write 3 rfl trivial
  · exact present_write 9 rfl trivial
  · exact present_write 5 rfl trivial

theorem typedRecord_privateMatchIntent (record : PrivateMatchIntent) :
    TypedRecord .privateMatchIntents (Codec.privateMatchIntent.write record) := by
  refine ⟨Codec.privateMatchIntent.plain record, fun property hproperty => ?_⟩
  obtain rfl := List.mem_singleton.mp hproperty
  exact present_write 5 rfl trivial

theorem typedRecord_settlement (record : SettlementRecord) :
    TypedRecord .settlements (Codec.batchSettlement.write record) := by
  refine ⟨Codec.batchSettlement.plain record, fun property hproperty => ?_⟩
  simp only [recordDefaults, List.mem_cons, List.not_mem_nil, or_false] at hproperty
  rcases hproperty with rfl | rfl | rfl | rfl | rfl
  · exact present_write 2 rfl trivial
  · exact present_write 5 rfl trivial
  · exact present_write 9 rfl trivial
  · exact present_write 21 rfl trivial
  · exact present_write 3 rfl trivial

theorem shown_accountEvents (s : ProtocolStore) (key : Text) (record : AccountEventRecord) :
    Shown s { s with accountEvents := s.accountEvents.set key record } :=
  shown_put .accountEvents
    (fun _ => ⟨nofun, nofun, typedRecord_write Codec.accountEventRecord rfl record⟩)
    (fun _ _ => OrderedMap.mapValues_set _ _ _ _)
    (fun _ _ other hne hrest => by cases other <;> first | rfl | exact hrest | exact absurd rfl hne)
    fun _ _ => rfl

theorem shown_conditionalCloses (s : ProtocolStore) (key : Text) (record : ConditionalOrderRecord) :
    Shown s { s with conditionalCloses := s.conditionalCloses.set key record } :=
  shown_put .conditionalCloses
    (fun _ => ⟨nofun, nofun, typedRecord_write Codec.conditionalOrderRecord rfl record⟩)
    (fun _ _ => OrderedMap.mapValues_set _ _ _ _)
    (fun _ _ other hne hrest => by cases other <;> first | rfl | exact hrest | exact absurd rfl hne)
    fun _ _ => rfl

theorem shown_intents (s : ProtocolStore) (key : Text) (record : IntentRecord) :
    Shown s { s with intents := s.intents.set key record } :=
  shown_put .intents (fun _ => ⟨nofun, nofun, typedRecord_intent record⟩)
    (fun _ _ => OrderedMap.mapValues_set _ _ _ _)
    (fun _ _ other hne hrest => by cases other <;> first | rfl | exact hrest | exact absurd rfl hne)
    fun _ _ => rfl

theorem shown_liquidations (s : ProtocolStore) (key : Text) (record : LiquidationRecord) :
    Shown s { s with liquidations := s.liquidations.set key record } :=
  shown_put .liquidations
    (fun _ => ⟨nofun, nofun, typedRecord_write Codec.liquidationRecord rfl record⟩)
    (fun _ _ => OrderedMap.mapValues_set _ _ _ _)
    (fun _ _ other hne hrest => by cases other <;> first | rfl | exact hrest | exact absurd rfl hne)
    fun _ _ => rfl

theorem shown_orderLifecycle (s : ProtocolStore) (key : Text) (record : OrderLifecycleRecord) :
    Shown s { s with orderLifecycle := s.orderLifecycle.set key record } :=
  shown_put .orderLifecycle
    (fun _ => ⟨nofun, nofun, typedRecord_write Codec.orderLifecycleRecord rfl record⟩)
    (fun _ _ => OrderedMap.mapValues_set _ _ _ _)
    (fun _ _ other hne hrest => by cases other <;> first | rfl | exact hrest | exact absurd rfl hne)
    fun _ _ => rfl

theorem shown_positionCloses (s : ProtocolStore) (key : Text) (record : PositionCloseRecord) :
    Shown s { s with positionCloses := s.positionCloses.set key record } :=
  shown_put .positionCloses
    (fun _ => ⟨nofun, nofun, typedRecord_write Codec.positionCloseRecord rfl record⟩)
    (fun _ _ => OrderedMap.mapValues_set _ _ _ _)
    (fun _ _ other hne hrest => by cases other <;> first | rfl | exact hrest | exact absurd rfl hne)
    fun _ _ => rfl

theorem shown_positionLifecycle (s : ProtocolStore) (key : Text)
    (record : PositionLifecycleRecord) :
    Shown s { s with positionLifecycle := s.positionLifecycle.set key record } :=
  shown_put .positionLifecycle
    (fun _ => ⟨nofun, nofun, typedRecord_write Codec.positionLifecycleRecord rfl record⟩)
    (fun _ _ => OrderedMap.mapValues_set _ _ _ _)
    (fun _ _ other hne hrest => by cases other <;> first | rfl | exact hrest | exact absurd rfl hne)
    fun _ _ => rfl

theorem shown_privateMatchIntents (s : ProtocolStore) (key : Text) (record : PrivateMatchIntent) :
    Shown s { s with privateMatchIntents := s.privateMatchIntents.set key record } :=
  shown_put .privateMatchIntents (fun _ => ⟨nofun, nofun, typedRecord_privateMatchIntent record⟩)
    (fun _ _ => OrderedMap.mapValues_set _ _ _ _)
    (fun _ _ other hne hrest => by cases other <;> first | rfl | exact hrest | exact absurd rfl hne)
    fun _ _ => rfl

theorem shown_residualOrders (s : ProtocolStore) (key : Text) (record : ResidualOrderRecord) :
    Shown s { s with residualOrders := s.residualOrders.set key record } :=
  shown_put .residualOrders
    (fun _ => ⟨nofun, nofun, typedRecord_write Codec.residualOrderRecord rfl record⟩)
    (fun _ _ => OrderedMap.mapValues_set _ _ _ _)
    (fun _ _ other hne hrest => by cases other <;> first | rfl | exact hrest | exact absurd rfl hne)
    fun _ _ => rfl

theorem shown_settlements (s : ProtocolStore) (key : Text) (record : SettlementRecord) :
    Shown s { s with settlements := s.settlements.set key record } :=
  shown_put .settlements (fun _ => ⟨nofun, nofun, typedRecord_settlement record⟩)
    (fun _ _ => OrderedMap.mapValues_set _ _ _ _)
    (fun _ _ other hne hrest => by cases other <;> first | rfl | exact hrest | exact absurd rfl hne)
    fun _ _ => rfl

theorem shown_withdrawals (s : ProtocolStore) (key : Text) (record : WithdrawalRecord) :
    Shown s { s with withdrawals := s.withdrawals.set key record } :=
  shown_put .withdrawals
    (fun _ => ⟨nofun, nofun, typedRecord_write Codec.withdrawalRecord rfl record⟩)
    (fun _ _ => OrderedMap.mapValues_set _ _ _ _)
    (fun _ _ other hne hrest => by cases other <;> first | rfl | exact hrest | exact absurd rfl hne)
    fun _ _ => rfl

theorem shown_marginCommitments (s : ProtocolStore) (value : Text) :
    Shown s { s with marginCommitments := s.marginCommitments.add value } :=
  shown_add .marginCommitments (fun _ _ => rfl)
    (fun _ _ other hne => by cases other <;> first | rfl | exact absurd rfl hne)
    fun _ _ other hrest => by cases other <;> first | rfl | exact hrest

theorem shown_positionCommitments (s : ProtocolStore) (value : Text) :
    Shown s { s with positionCommitments := s.positionCommitments.add value } :=
  shown_add .positionCommitments (fun _ _ => rfl)
    (fun _ _ other hne => by cases other <;> first | rfl | exact absurd rfl hne)
    fun _ _ other hrest => by cases other <;> first | rfl | exact hrest

theorem shown_proofs (s : ProtocolStore) (value : Text) :
    Shown s { s with proofs := s.proofs.add value } :=
  shown_add .proofs (fun _ _ => rfl)
    (fun _ _ other hne => by cases other <;> first | rfl | exact absurd rfl hne)
    fun _ _ other hrest => by cases other <;> first | rfl | exact hrest

theorem shown_spentNullifiers (s : ProtocolStore) (value : Text) :
    Shown s { s with spentNullifiers := s.spentNullifiers.add value } :=
  shown_add .spentNullifiers (fun _ _ => rfl)
    (fun _ _ other hne => by cases other <;> first | rfl | exact absurd rfl hne)
    fun _ _ other hrest => by cases other <;> first | rfl | exact hrest

end Records

/-! ## Operations -/

section Operations

instance (proof : ProofRecord) : Maintains Shown (recordProof proof) :=
  .update fun _ => shown_proofs _ _

instance (nullifier : Text) : Maintains Shown (spend nullifier) := by
  unfold spend
  repeat refine .andThen inferInstance fun _ => ?_
  exact .update fun _ => shown_spentNullifiers _ _

instance (commitment : Text) : Maintains Shown (addMarginCommitment commitment) := by
  unfold addMarginCommitment
  repeat refine .andThen inferInstance fun _ => ?_
  exact .update fun _ => shown_marginCommitments _ _

instance (record : WithdrawalRecord) : Maintains Shown (addWithdrawal record) := by
  have hchange : Maintains Shown (update fun store : ProtocolStore =>
      { store with marginCommitments := store.marginCommitments.add record.changeCommitment } :
        StoreScript Unit) := .update fun _ => shown_marginCommitments _ _
  unfold addWithdrawal
  repeat refine .andThen inferInstance fun _ => ?_
  exact .update fun _ => shown_withdrawals _ _ _

instance (record : OrderRecord) (payload : Option PrivateMatchIntent) :
    Maintains Shown (keepPrivateMatchIntent H record payload) := by
  unfold keepPrivateMatchIntent assertPrivateMatchIntent
  cases payload with
  | none => infer_instance
  | some payload =>
    simp only [bind_assoc]
    repeat refine .andThen inferInstance fun _ => ?_
    exact .update fun _ => shown_privateMatchIntents _ _ _

instance (record : IntentRecord) (payload : Option PrivateMatchIntent) :
    Maintains Shown (addIntent H P now record payload) := by
  unfold addIntent
  repeat refine .andThen inferInstance fun _ => ?_
  exact .update fun _ => (shown_intents _ _ _).trans (shown_orderLifecycle _ _ _)

instance (intentCommitment : Text) (txHash : Option Text) :
    Maintains Shown (cancelOrder now intentCommitment txHash) := by
  unfold cancelOrder
  repeat refine .andThen inferInstance fun _ => ?_
  exact .update fun _ => shown_orderLifecycle _ _ _

instance (record : ResidualOrderRecord) (payload : Option PrivateMatchIntent) :
    Maintains Shown (addResidualOrder H record payload) := by
  unfold addResidualOrder
  repeat refine .andThen inferInstance fun _ => ?_
  exact .update fun _ => (shown_residualOrders _ _ _).trans (shown_orderLifecycle _ _ _)

instance (orderUpdate : OrderUpdate) : Maintains Shown (applyOrderUpdate now orderUpdate) := by
  unfold applyOrderUpdate
  repeat refine .andThen inferInstance fun _ => ?_
  exact .update fun _ => shown_orderLifecycle _ _ _

instance (settlement : SettlementRecord) :
    Maintains Shown (applySettlementOrderUpdates now settlement) := by
  unfold applySettlementOrderUpdates; infer_instance

instance (settlement : SettlementRecord) (firstPositionIndex : ℕ)
    (opening : PositionLifecycleRecord) :
    Maintains Shown (openPosition settlement firstPositionIndex opening) := by
  unfold openPosition addPositionOpening
  repeat refine .andThen inferInstance fun _ => ?_
  exact .update fun _ => shown_positionLifecycle _ _ _

instance (record : AccountEventRecord) : Maintains Shown (addAccountEvent record) := by
  unfold addAccountEvent
  repeat refine .andThen inferInstance fun _ => ?_
  exact .update fun _ => shown_accountEvents _ _ _

/-- The additions of a loop. -/
theorem shown_foldl {add : ProtocolStore → Text → ProtocolStore} (hadd : ∀ s x, Shown s (add s x))
    (xs : List Text) (s : ProtocolStore) : Shown s (xs.foldl add s) := by
  induction xs generalizing s with
  | nil => exact refl_of Shown s
  | cons x xs ih => exact (hadd s x).trans (ih (add s x))

theorem shown_addMargins (s : ProtocolStore) (commitments : List Text) :
    Shown s { s with marginCommitments := s.marginCommitments.addAll commitments } := by
  have hloop : commitments.foldl
      (fun s x => { s with marginCommitments := s.marginCommitments.add x }) s =
        { s with marginCommitments := s.marginCommitments.addAll commitments } :=
    List.foldl_hom (fun margins => { s with marginCommitments := margins }) fun _ _ => rfl
  rw [← hloop]
  exact shown_foldl shown_marginCommitments commitments s

theorem shown_addPositions (s : ProtocolStore) (commitments : List Text) :
    Shown s { s with positionCommitments := s.positionCommitments.addAll commitments } := by
  have hloop : commitments.foldl
      (fun s x => { s with positionCommitments := s.positionCommitments.add x }) s =
        { s with positionCommitments := s.positionCommitments.addAll commitments } :=
    List.foldl_hom (fun positions => { s with positionCommitments := positions }) fun _ _ => rfl
  rw [← hloop]
  exact shown_foldl shown_positionCommitments commitments s

instance (settlement : SettlementRecord) (openings : List PositionLifecycleRecord)
    (residuals : List ResidualOrderRecord) (events : List AccountEventRecord)
    (payloads : List PrivateMatchIntent) :
    Maintains Shown (addSettlement H now settlement openings residuals events payloads) := by
  unfold addSettlement
  repeat refine .andThen inferInstance fun _ => ?_
  refine .andThen (.update fun _ => (shown_addPositions _ _).trans (shown_addMargins _ _))
    fun _ => ?_
  repeat refine .andThen inferInstance fun _ => ?_
  exact .update fun _ => shown_settlements _ _ _

instance (commitment nullifier : Text) (mark : PositionLifecycleRecord → PositionLifecycleRecord) :
    Maintains Shown (markPosition commitment nullifier mark) := by
  refine .update fun store => ?_
  cases store.findPosition commitment nullifier with
  | none => exact refl_of Shown store
  | some position => exact shown_positionLifecycle _ _ _

instance (record : LiquidationRecord) : Maintains Shown (addLiquidation record) := by
  unfold addLiquidation markPositionLiquidated
  repeat refine .andThen inferInstance fun _ => ?_
  exact .update fun _ => shown_liquidations _ _ _

instance (record : ConditionalOrderRecord) : Maintains Shown (addConditionalClose record) := by
  unfold addConditionalClose
  repeat refine .andThen inferInstance fun _ => ?_
  exact .update fun _ => shown_conditionalCloses _ _ _

theorem addPositionCloseRecord_shown (record : PositionCloseRecord) :
    Maintains Shown (addPositionCloseRecord P record) := by
  unfold addPositionCloseRecord markPositionClosed
  repeat refine .andThen inferInstance fun _ => ?_
  refine .andThen
    (.update fun _ => (shown_positionCommitments _ _).trans (shown_marginCommitments _ _))
    fun _ => ?_
  repeat refine .andThen inferInstance fun _ => ?_
  exact .update fun _ => shown_positionCloses _ _ _

/-- **What a call does are writes**, also when it throws. -/
theorem maintains_shown (call : StoreCall) : Maintains Shown (call.script H P) := by
  cases call with
  | addPositionClose record =>
    exact .andThen inferInstance fun _ => .andThen inferInstance fun _ =>
      addPositionCloseRecord_shown record
  | addManualPositionClose record => exact addPositionCloseRecord_shown record
  | addPairedPositionCloses trader maker conditional =>
    unfold StoreCall.script addPairedPositionCloses
    repeat refine .andThen inferInstance fun _ => ?_
    exact .andThen (addPositionCloseRecord_shown trader) fun _ => addPositionCloseRecord_shown maker
  | _ =>
    unfold StoreCall.script
    infer_instance

end Operations

/-! ## Runs -/

/-- A run of calls is a run of writes. -/
theorem shown_final (calls : List StoreCall) (s : ProtocolStore) :
    Shown s (final (callStep H P) s calls) := by
  induction calls generalizing s with
  | nil => exact refl_of Shown s
  | cons call calls ih =>
    have hstep : callStep H P s call = .ok ((call.script H P).after s) := rfl
    rw [final_cons_ok hstep]
    exact ((maintains_shown call).rel s).trans (ih _)

/-- **A restart gives the store of the operations back.** From tables that a server can have and
that hold a store, every run of calls leads by writes to tables that hold the store after it. The
tables that a restart loads hold the same store, and their records are those of the store. -/
theorem store_restart (H H' : Host) (P : Fr → Fr → Fr) :
    Holds .empty .empty ∧ ∀ tables store, Reachable (MongoRestart H) tables → Holds tables store →
      (∀ calls, ∃ tables', Written tables tables' ∧ Reachable (MongoRestart H) tables' ∧
        Holds tables' (final (callStep H' P) store calls)) ∧
      ∀ loaded, MongoRestart H tables loaded → Reachable (MongoRestart H) loaded ∧
        Holds loaded store ∧ loaded.protocolStore = some store := by
  refine ⟨holds_empty, fun tables store hreachable hholds => ?_⟩
  constructor
  · intro calls
    obtain ⟨tables', hwritten, hholds'⟩ := shown_final calls store tables hholds
    exact ⟨tables', hwritten, hreachable.written hwritten, hholds'⟩
  · intro loaded hload
    have hkept : tables.Kept := (hreachable.tidy fun _ _ h => MongoRestart.tidy h).toKept
    have hnext := Reachable.restart tables loaded hreachable hload
    obtain ⟨documentId, snapshotId, version, other, records, hperm, hloaded⟩ := hload
    rw [loadRecords_eq hkept hperm] at hloaded
    obtain rfl := Except.ok.inj hloaded
    exact ⟨hnext, hholds.strip hkept, hholds.protocolStore⟩

end Pnlx.Server
