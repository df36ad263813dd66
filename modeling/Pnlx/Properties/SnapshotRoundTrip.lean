import Pnlx.SampleHost
import Pnlx.Server.FieldMerkle
import Pnlx.Server.NormalizedSnapshot
import Pnlx.Server.StoreWrites

/-!
# A restart from the database

A server saves the records of a snapshot and their counts. After a restart it reads the records of
each collection, rebuilds the snapshot and loads it.

`mongo_round_trip`: the loaded store is the old one without absent properties. Records with one
missing, twice there or out of place are refused, and the loaded store is saved as the old one was.
-/

namespace Pnlx.Server

open BatchMatch (Text)
open JsValue (Plain Present)

/-- The records of a collection that a server saves. -/
def savedRecords (H : Host) (documentId snapshotId : Text) (version : ℕ) (store : StoreTables)
    (field : SnapshotField) : List NormalizedSnapshotRecord :=
  normalizedSnapshotRecords H documentId snapshotId version field
    (snapshotEntries (snapshotProtocolStore store) field)

/-- The store that a server loads from the records that it has read. -/
def loadRecords (store : StoreTables) (records : SnapshotField → List NormalizedSnapshotRecord)
    (expectedCounts : SnapshotField → Option ℕ) : Except String StoreTables :=
  match normalizedSnapshotFromRecords records expectedCounts with
  | .error e => .error e
  | .ok snapshot =>
    match applyProtocolStoreSnapshot store snapshot with
    | none => .error "TypeError"
    | some loaded => .ok loaded

/-- What a server can have loaded after a restart. -/
def MongoRestart (H : Host) (store loaded : StoreTables) : Prop :=
  ∃ documentId snapshotId version other records,
    (∀ field, (records field).Perm (savedRecords H documentId snapshotId version store field)) ∧
    loadRecords other records (normalizedSnapshotCounts (snapshotProtocolStore store)) = .ok loaded

def StoreTables.marginMembershipRoot (poseidon2Hash : Fr → Fr → Fr) (store : StoreTables) :
    Option Text :=
  fieldMerkleRoot poseidon2Hash (store.sets .marginCommitments).elems fieldMerkleDepth

def StoreTables.positionMembershipRoot (poseidon2Hash : Fr → Fr → Fr) (store : StoreTables) :
    Option Text :=
  positionMerkleRoot poseidon2Hash (store.sets .positionCommitments).elems positionMerkleDepth

variable {H : Host} {store other : StoreTables} {documentId snapshotId : Text} {version : ℕ}
  {field : SnapshotField} {records : SnapshotField → List NormalizedSnapshotRecord}

/-- The records of a snapshot give the store without absent properties. -/
theorem loadRecords_eq (hstore : store.Kept)
    (hperm : ∀ field,
      (records field).Perm (savedRecords H documentId snapshotId version store field)) :
    loadRecords other records (normalizedSnapshotCounts (snapshotProtocolStore store)) =
      .ok store.strip := by
  have happly : applyProtocolStoreSnapshot other
      (store.strip.snapshotOf (normalizedSnapshotFields.map (·.1))) = some store.strip :=
    applyProtocolStoreSnapshot_of_get hstore.strip fun field =>
      get_snapshotOf (mem_normalizedSnapshotFields field)
  unfold loadRecords
  rw [normalizedSnapshotFromRecords_eq hstore hperm]
  simp only [happly]

theorem MongoRestart.tidy {loaded : StoreTables} (hstore : store.Tidy)
    (h : MongoRestart H store loaded) : loaded.Tidy := by
  obtain ⟨documentId, snapshotId, version, other, records, hperm, hload⟩ := h
  rw [loadRecords_eq hstore.toKept hperm] at hload
  exact Except.ok.inj hload ▸ hstore.strip

/-- Damaged records are refused. -/
theorem loadRecords_of_damaged {damaged : List NormalizedSnapshotRecord}
    (hdamaged : Damaged (savedRecords H documentId snapshotId version store field) damaged)
    (hperm : (records field).Perm damaged) : ∃ e, loadRecords other records
      (normalizedSnapshotCounts (snapshotProtocolStore store)) = .error e := by
  unfold loadRecords
  cases hsnapshot : normalizedSnapshotFromRecords records
      (normalizedSnapshotCounts (snapshotProtocolStore store)) with
  | error e => exact ⟨e, rfl⟩
  | ok snapshot =>
    obtain ⟨n, hcount, hplaces⟩ := perm_range_of_normalizedSnapshot hsnapshot field
    obtain rfl : (snapshotEntries (snapshotProtocolStore store) field).length = n :=
      Option.some.inj hcount
    refine absurd ?_ hdamaged.not_perm
    rw [savedRecords, ordinals_normalizedSnapshotRecords]
    exact (hperm.map _).symm.trans hplaces

/-! ## The snapshot of the loaded store -/

theorem snapshotProtocolStore_strip (hstore : store.Kept) :
    snapshotProtocolStore store.strip = (snapshotProtocolStore store).strip :=
  (StoreTables.snapshotOf_strip hstore protocolSnapshotFields).symm

/-- The record of an entry does not show the absent properties. -/
theorem normalizedSnapshotRecord_strip (entry : JsValue) (ordinal : ℕ) :
    normalizedSnapshotRecord H documentId snapshotId version field entry.strip ordinal =
      normalizedSnapshotRecord H documentId snapshotId version field entry ordinal := by
  have hpayload : JsValue.jsonStringify [] entry.strip = JsValue.jsonStringify [] entry := by
    unfold JsValue.jsonStringify
    rw [JsValue.tree_strip]
  have hkey (payload : Text) : snapshotRecordKey H entry.strip payload =
      snapshotRecordKey H entry payload := by
    cases entry with
    | array items =>
      match items with
      | [] => rfl
      | [key] | [key, _] | key :: _ :: _ :: _ => cases key <;> rfl
    | _ => rfl
  unfold normalizedSnapshotRecord
  simp only [hpayload, hkey]

/-- The loaded store is saved as the old one was. -/
theorem savedRecords_strip (hstore : store.Kept) :
    savedRecords H documentId snapshotId version store.strip field =
      savedRecords H documentId snapshotId version store field := by
  unfold savedRecords normalizedSnapshotRecords
  rw [snapshotEntries_snapshot, snapshotEntries_snapshot, StoreTables.snapshotItems_strip hstore,
    List.zipIdx_map, List.map_map]
  exact List.map_congr_left fun entry _ => normalizedSnapshotRecord_strip entry.1 entry.2

theorem normalizedSnapshotCounts_strip (hstore : store.Kept) :
    normalizedSnapshotCounts (snapshotProtocolStore store.strip) =
      normalizedSnapshotCounts (snapshotProtocolStore store) := by
  funext field
  unfold normalizedSnapshotCounts
  rw [snapshotEntries_snapshot, snapshotEntries_snapshot, StoreTables.snapshotItems_strip hstore,
    List.length_map]

/-! ## The round trip -/

/-- **A restart gives the store back.** From the records of its snapshot, in any order and whatever
was there before, the store is loaded without absent properties, with the same membership roots.
Records of a collection with one missing, twice there or out of place are refused. The loaded store
has the same snapshot, without absent properties, and the same records. -/
theorem mongo_round_trip (poseidon2Hash : Fr → Fr → Fr) (hstore : Reachable (MongoRestart H) store)
    (documentId snapshotId : Text) (version : ℕ) :
    (∀ (other : StoreTables) (records : SnapshotField → List NormalizedSnapshotRecord),
      (∀ field, (records field).Perm (savedRecords H documentId snapshotId version store field)) →
      ∃ loaded, loadRecords other records
          (normalizedSnapshotCounts (snapshotProtocolStore store)) = .ok loaded ∧
        loaded = store.strip ∧
        loaded.marginMembershipRoot poseidon2Hash = store.marginMembershipRoot poseidon2Hash ∧
        loaded.positionMembershipRoot poseidon2Hash = store.positionMembershipRoot poseidon2Hash ∧
        snapshotProtocolStore loaded = (snapshotProtocolStore store).strip ∧
        normalizedSnapshotCounts (snapshotProtocolStore loaded) =
          normalizedSnapshotCounts (snapshotProtocolStore store) ∧
        ∀ field, savedRecords H documentId snapshotId version loaded field =
          savedRecords H documentId snapshotId version store field) ∧
    ∀ (other : StoreTables) (records : SnapshotField → List NormalizedSnapshotRecord)
      (field : SnapshotField) (damaged : List NormalizedSnapshotRecord),
      Damaged (savedRecords H documentId snapshotId version store field) damaged →
      (records field).Perm damaged →
      ∃ e, loadRecords other records
        (normalizedSnapshotCounts (snapshotProtocolStore store)) = .error e := by
  have hkept : store.Kept := (hstore.tidy fun _ _ h => MongoRestart.tidy h).toKept
  refine ⟨fun other records hperm => ?_, fun other records field damaged hdamaged hperm =>
    loadRecords_of_damaged hdamaged hperm⟩
  exact ⟨store.strip, loadRecords_eq hkept hperm, rfl, rfl, rfl, snapshotProtocolStore_strip hkept,
    normalizedSnapshotCounts_strip hkept, fun field => savedRecords_strip hkept⟩

theorem mongo_round_trip_sample :
    ∃ loaded, loadRecords .empty
        (fun field => (savedRecords sampleHost "d".toList "s".toList 1 sampleTables field).reverse)
        (normalizedSnapshotCounts (snapshotProtocolStore sampleTables)) = .ok loaded ∧
      loaded = sampleTables.strip := by
  obtain ⟨loaded, hload, hstrip, -⟩ := (mongo_round_trip (H := sampleHost) (fun x _ => x)
    (reachable_sampleTables _) "d".toList "s".toList 1).1 .empty _ fun field => List.reverse_perm _
  exact ⟨loaded, hload, hstrip⟩

end Pnlx.Server
