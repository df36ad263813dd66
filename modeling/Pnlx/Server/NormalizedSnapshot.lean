import Pnlx.Server.Snapshot

/-!
# Snapshots as records of a database

A snapshot is kept as one record for each entry of a collection, which holds the entry as JSON and
its place. A checkpoint holds the number of records of each collection. Records are read in any
order, sorted by their places and refused unless the places are the numbers below the count.

`normalizedSnapshotFromRecords_eq`: the records of a snapshot give the snapshot without absent
properties. `perm_range_of_normalizedSnapshot`: no other places are accepted.
-/

namespace Pnlx.Server

open BatchMatch (Text decimalSigned hexText wordDigits)
open JsValue (jsonStringify jsonParse)

/-- `NORMALIZED_SNAPSHOT_FIELDS`: the collections with the suffixes of their names. -/
def normalizedSnapshotFields : List (SnapshotField × String) :=
  [(.map .accountEvents, "account_events"),
    (.map .accountEncryptionKeys, "account_keys"),
    (.map .batchExecutionRuns, "batch_runs"),
    (.map .conditionalCloses, "conditional_closes"),
    (.map .conditionalOrders, "conditional_orders"),
    (.map .disclosures, "disclosures"),
    (.map .fundingUpdates, "funding_updates"),
    (.map .fundingPremiumSamples, "funding_premium_samples"),
    (.map .intents, "intents"),
    (.map .liquidationAutomationJobs, "liquidation_jobs"),
    (.map .liquidations, "liquidations"),
    (.set .marginCommitments, "margin_commitments"),
    (.map .markets, "markets"),
    (.map .marketSettlementVolumes, "market_volumes"),
    (.map .orderLifecycle, "orders"),
    (.map .pendingAssetDeposits, "pending_deposits"),
    (.map .positionCloses, "position_closes"),
    (.set .positionCommitments, "position_commitments"),
    (.map .positionLifecycle, "positions"),
    (.map .privateMatchIntents, "private_match_intents"),
    (.set .proofs, "proofs"),
    (.map .residualOrders, "residual_orders"),
    (.map .settlements, "settlements"),
    (.set .spentNullifiers, "spent_nullifiers"),
    (.map .withdrawals, "withdrawals")]

theorem mem_normalizedSnapshotFields (field : SnapshotField) :
    field ∈ normalizedSnapshotFields.map (·.1) := by
  rcases field with (_ | _) | (_ | _) <;> decide

structure NormalizedSnapshotRecord where
  id : Text
  documentId : Text
  ordinal : ℤ
  payload : Text
  recordKey : Text
  snapshotId : Text
  version : ℕ
  deriving DecidableEq

/-- `sha256Hex`, without the two leading characters. -/
def sha256Digits (H : Host) (value : Text) : Text :=
  wordDigits (H.sha256 (utf8 (String.ofList value))).toNat

def snapshotRecordKey (H : Host) (entry : JsValue) (payload : Text) : Text :=
  match entry with
  | .string value => value
  | .array [.string key, _] => key
  | .array [.number key, _] => decimalSigned key
  | _ => '0' :: 'x' :: sha256Digits H payload

def snapshotRecordId (H : Host) (documentId snapshotId field : Text) (ordinal : ℤ)
    (recordKey : Text) : Text :=
  sha256Digits H (jsonStringify [] (.array [.string documentId, .string snapshotId, .string field,
    .number ordinal, .string recordKey]))

/-- The record of an entry. -/
def normalizedSnapshotRecord (H : Host) (documentId snapshotId : Text) (version : ℕ)
    (field : SnapshotField) (entry : JsValue) (ordinal : ℕ) : NormalizedSnapshotRecord :=
  let payload := jsonStringify [] entry
  let recordKey := snapshotRecordKey H entry payload
  { id := snapshotRecordId H documentId snapshotId field.name.toList ordinal recordKey
    documentId := documentId
    ordinal := ordinal
    payload := payload
    recordKey := recordKey
    snapshotId := snapshotId
    version := version }

def normalizedSnapshotRecords (H : Host) (documentId snapshotId : Text) (version : ℕ)
    (field : SnapshotField) (entries : List JsValue) : List NormalizedSnapshotRecord :=
  entries.zipIdx.map fun entry =>
    normalizedSnapshotRecord H documentId snapshotId version field entry.1 entry.2

/-- `snapshot[field] ?? []`. -/
def snapshotEntries (snapshot : JsValue) (field : SnapshotField) : List JsValue :=
  (itemsOf ((snapshot.get field.name).orElse (.array []))).getD []

/-- `normalizedSnapshotCounts`. The length of an array is a safe integer. -/
def normalizedSnapshotCounts (snapshot : JsValue) (field : SnapshotField) : Option ℕ :=
  some (snapshotEntries snapshot field).length

/-- One round of the loop of `normalizedSnapshotFromRecords`: a property of the snapshot. A count
that is absent or no safe integer is `none`. -/
def readCollection (records : List NormalizedSnapshotRecord) (expected : Option ℕ)
    (field : SnapshotField) : Except String (Text × JsValue) :=
  let values := records.insertionSort (·.ordinal ≤ ·.ordinal)
  match expected with
  | none => .error ("normalized protocol snapshot is missing count for " ++ field.name)
  | some expected =>
    if values.length ≠ expected then
      .error ("normalized protocol snapshot count mismatch for " ++ field.name ++ ": expected " ++
        toString expected ++ ", received " ++ toString values.length)
    else if values.map (·.ordinal) ≠ (List.range values.length).map Int.ofNat then
      .error ("normalized protocol snapshot ordinal mismatch for " ++ field.name)
    else match values.mapM fun record => jsonParse record.payload with
      | none => .error "SyntaxError"
      | some items => .ok (field.name.toList, .array items)

def normalizedSnapshotFromRecords (records : SnapshotField → List NormalizedSnapshotRecord)
    (expectedCounts : SnapshotField → Option ℕ) : Except String JsValue :=
  ((normalizedSnapshotFields.map (·.1)).mapM fun field =>
    readCollection (records field) (expectedCounts field) field).map .object

/-! ## Records read back -/

variable {H : Host} {documentId snapshotId : Text} {version : ℕ} {field : SnapshotField}

theorem length_normalizedSnapshotRecords (entries : List JsValue) :
    (normalizedSnapshotRecords H documentId snapshotId version field entries).length =
      entries.length := by
  rw [normalizedSnapshotRecords, List.length_map, List.length_zipIdx]

theorem ordinals_normalizedSnapshotRecords (entries : List JsValue) :
    (normalizedSnapshotRecords H documentId snapshotId version field entries).map (·.ordinal) =
      (List.range entries.length).map Int.ofNat := by
  rw [normalizedSnapshotRecords, List.map_map]
  show entries.zipIdx.map (Int.ofNat ∘ Prod.snd) = _
  rw [← List.map_map, List.zipIdx_map_snd, List.range_eq_range']

theorem payloads_normalizedSnapshotRecords (entries : List JsValue) :
    (normalizedSnapshotRecords H documentId snapshotId version field entries).map (·.payload) =
      entries.map (jsonStringify []) := by
  rw [normalizedSnapshotRecords, List.map_map]
  show entries.zipIdx.map (jsonStringify [] ∘ Prod.fst) = _
  rw [← List.map_map, List.zipIdx_map_fst]

theorem pairwise_normalizedSnapshotRecords (entries : List JsValue) :
    (normalizedSnapshotRecords H documentId snapshotId version field entries).Pairwise
      (·.ordinal < ·.ordinal) := by
  rw [← List.pairwise_map (f := NormalizedSnapshotRecord.ordinal) (R := (· < ·)),
    ordinals_normalizedSnapshotRecords, List.pairwise_map]
  exact List.pairwise_lt_range.imp fun h => Int.ofNat_lt.mpr h

/-- Sorting brings the records of a collection back into their order. -/
theorem insertionSort_of_perm {records sorted : List NormalizedSnapshotRecord}
    (hperm : records.Perm sorted) (hsorted : sorted.Pairwise (·.ordinal < ·.ordinal)) :
    records.insertionSort (·.ordinal ≤ ·.ordinal) = sorted := by
  have hall := (List.perm_insertionSort
    (fun a b : NormalizedSnapshotRecord => a.ordinal ≤ b.ordinal) records).trans hperm
  have hnodup : (sorted.map (·.ordinal)).Nodup := by
    rw [List.Nodup, List.pairwise_map]
    exact hsorted.imp ne_of_lt
  refine hall.eq_of_pairwise (fun a b ha hb hab hba => ?_)
    (List.pairwise_insertionSort _ records) (hsorted.imp le_of_lt)
  exact List.inj_on_of_nodup_map hnodup (hall.subset ha) hb (le_antisymm hab hba)

theorem mapM_jsonParse {entries : List JsValue} (hplain : ∀ entry ∈ entries, entry.Plain) :
    (entries.map (jsonStringify [])).mapM jsonParse = some (entries.map JsValue.strip) := by
  induction entries with
  | nil => rfl
  | cons entry entries ih =>
    rw [List.map_cons, List.mapM_cons, ih fun other hother => hplain other (.tail _ hother),
      JsValue.jsonParse_jsonStringify (fun c hc => absurd hc List.not_mem_nil)
        (hplain entry List.mem_cons_self)]
    rfl

/-- The records of a collection give its array without absent properties. -/
theorem readCollection_eq {entries : List JsValue} {records : List NormalizedSnapshotRecord}
    (hplain : ∀ entry ∈ entries, entry.Plain)
    (hperm : records.Perm
      (normalizedSnapshotRecords H documentId snapshotId version field entries)) :
    readCollection records (some entries.length) field =
      .ok (field.name.toList, .array (entries.map JsValue.strip)) := by
  have hsort := insertionSort_of_perm hperm (pairwise_normalizedSnapshotRecords entries)
  have hparse : (normalizedSnapshotRecords H documentId snapshotId version field entries).mapM
      (fun record => jsonParse record.payload) = some (entries.map JsValue.strip) := by
    rw [← mapM_jsonParse hplain, ← payloads_normalizedSnapshotRecords, List.mapM_map]
    rfl
  unfold readCollection
  simp only [hsort, length_normalizedSnapshotRecords, ordinals_normalizedSnapshotRecords, ne_eq,
    not_true_eq_false, if_false, hparse]

theorem mapM_ok {α β ε : Type} {f : α → Except ε β} {g : α → β} {l : List α}
    (h : ∀ a ∈ l, f a = .ok (g a)) : l.mapM f = .ok (l.map g) := by
  induction l with
  | nil => rfl
  | cons a l ih =>
    rw [List.mapM_cons, h a List.mem_cons_self, ih fun b hb => h b (List.mem_cons_of_mem _ hb)]
    rfl

theorem ok_of_mapM {α β ε : Type} {f : α → Except ε β} {l : List α} {bs : List β}
    (h : l.mapM f = .ok bs) : ∀ a ∈ l, ∃ b, f a = .ok b := by
  induction l generalizing bs with
  | nil => exact fun a ha => absurd ha List.not_mem_nil
  | cons a l ih =>
    rw [List.mapM_cons] at h
    cases hfirst : f a with
    | error e => rw [hfirst] at h; cases h
    | ok b =>
      rw [hfirst] at h
      cases hrest : l.mapM f with
      | error e => rw [hrest] at h; cases h
      | ok rest =>
        intro other hother
        rcases List.mem_cons.mp hother with rfl | hother
        · exact ⟨b, hfirst⟩
        · exact ih hrest other hother

theorem snapshotEntries_snapshot (store : StoreTables) (field : SnapshotField) :
    snapshotEntries (snapshotProtocolStore store) field = store.snapshotItems field := by
  unfold snapshotEntries snapshotProtocolStore
  rw [get_snapshotOf (mem_protocolSnapshotFields field)]
  rfl

/-- **The records of a snapshot give the snapshot** without absent properties, in whatever order
they are read. -/
theorem normalizedSnapshotFromRecords_eq {store : StoreTables} (hstore : store.Kept)
    {records : SnapshotField → List NormalizedSnapshotRecord}
    (hperm : ∀ field, (records field).Perm (normalizedSnapshotRecords H documentId snapshotId
      version field (snapshotEntries (snapshotProtocolStore store) field))) :
    normalizedSnapshotFromRecords records (normalizedSnapshotCounts (snapshotProtocolStore store)) =
      .ok (store.strip.snapshotOf (normalizedSnapshotFields.map (·.1))) := by
  have hread : ∀ field ∈ normalizedSnapshotFields.map (·.1),
      readCollection (records field) (normalizedSnapshotCounts (snapshotProtocolStore store) field)
        field = .ok (field.name.toList, .array (store.strip.snapshotItems field)) := by
    intro field _
    rw [StoreTables.snapshotItems_strip hstore, ← snapshotEntries_snapshot]
    refine readCollection_eq (fun entry hentry => ?_) (hperm field)
    rw [snapshotEntries_snapshot] at hentry
    exact StoreTables.plain_snapshotItems hstore field hentry
  unfold normalizedSnapshotFromRecords
  rw [mapM_ok hread]
  rfl

/-- **No other places are accepted.** -/
theorem perm_range_of_normalizedSnapshot {records : SnapshotField → List NormalizedSnapshotRecord}
    {counts : SnapshotField → Option ℕ} {snapshot : JsValue}
    (h : normalizedSnapshotFromRecords records counts = .ok snapshot) (field : SnapshotField) :
    ∃ n, counts field = some n ∧
      ((records field).map (·.ordinal)).Perm ((List.range n).map Int.ofNat) := by
  unfold normalizedSnapshotFromRecords at h
  cases hall : (normalizedSnapshotFields.map (·.1)).mapM fun field =>
      readCollection (records field) (counts field) field with
  | error e => rw [hall] at h; cases h
  | ok properties =>
    obtain ⟨property, hproperty⟩ := ok_of_mapM hall field (mem_normalizedSnapshotFields field)
    unfold readCollection at hproperty
    cases hcount : counts field with
    | none => rw [hcount] at hproperty; cases hproperty
    | some n =>
      rw [hcount] at hproperty
      dsimp only at hproperty
      split_ifs at hproperty with hlength hordinals
      rw [not_not] at hlength hordinals
      have hsort := List.perm_insertionSort
        (fun a b : NormalizedSnapshotRecord => a.ordinal ≤ b.ordinal) (records field)
      refine ⟨n, rfl, (hsort.map (·.ordinal)).symm.trans ?_⟩
      rw [hordinals, hlength]

/-- The records of a collection with one record missing, twice there or out of place. -/
inductive Damaged : List NormalizedSnapshotRecord → List NormalizedSnapshotRecord → Prop
  | missing (before after : List NormalizedSnapshotRecord) (record : NormalizedSnapshotRecord) :
    Damaged (before ++ record :: after) (before ++ after)
  | duplicated (before after : List NormalizedSnapshotRecord) (record : NormalizedSnapshotRecord) :
    Damaged (before ++ record :: after) (before ++ record :: record :: after)
  | outOfPlace (before after : List NormalizedSnapshotRecord)
    (record other : NormalizedSnapshotRecord) : other.ordinal ≠ record.ordinal →
    Damaged (before ++ record :: after) (before ++ other :: after)

/-- The places of damaged records are other places. -/
theorem Damaged.not_perm {records damaged : List NormalizedSnapshotRecord}
    (h : Damaged records damaged) :
    ¬ (damaged.map (·.ordinal)).Perm (records.map (·.ordinal)) := by
  intro hperm
  cases h with
  | missing before after record =>
    have hlength := hperm.length_eq
    simp only [List.length_map, List.length_append, List.length_cons] at hlength
    omega
  | duplicated before after record =>
    have hlength := hperm.length_eq
    simp only [List.length_map, List.length_append, List.length_cons] at hlength
    omega
  | outOfPlace before after record other hne =>
    have hcount := hperm.count_eq other.ordinal
    simp only [List.map_append, List.map_cons, List.count_append, List.count_cons, beq_self_eq_true,
      if_true, beq_iff_eq, Ne.symm hne, if_false] at hcount
    omega

end Pnlx.Server
