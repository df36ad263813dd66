import Pnlx.Lib.Newest
import Pnlx.Lib.Ordered
import Pnlx.Server.JsValues

/-!
# Snapshots of the store

The collections of the store are taken here by their names, and their records are JavaScript values
with all their properties. A snapshot lists the entries of each collection. Loading one clears the
store, writes the entries in their order, fills in what older records lack and computes the volumes
that older stores did not keep.

`applyProtocolStoreSnapshot_snapshot`: loading the snapshot of a store that is as its operations
leave it gives the store, whatever was there before.
-/

namespace Pnlx.Server

open BatchMatch (Text)
open JsValue (Plain strip)

/-! ## Collections -/

/-- The maps of `ProtocolStore`. -/
inductive MapName where
  | accountEvents
  | accountEncryptionKeys
  | batchExecutionRuns
  | conditionalCloses
  | conditionalOrders
  | disclosures
  | fundingUpdates
  | fundingPremiumSamples
  | intents
  | liquidationAutomationJobs
  | liquidations
  | markets
  | marketSettlementVolumes
  | orderLifecycle
  | pendingAssetDeposits
  | positionCloses
  | positionLifecycle
  | privateMatchIntents
  | residualOrders
  | settlements
  | withdrawals
  deriving DecidableEq

/-- The sets of `ProtocolStore`. -/
inductive SetName where
  | marginCommitments
  | positionCommitments
  | proofs
  | spentNullifiers
  deriving DecidableEq

/-- A property of `ProtocolStoreSnapshot`. -/
inductive SnapshotField where
  | map (name : MapName)
  | set (name : SetName)
  deriving DecidableEq

def SnapshotField.name : SnapshotField → String
  | map .accountEvents => "accountEvents"
  | map .accountEncryptionKeys => "accountEncryptionKeys"
  | map .batchExecutionRuns => "batchExecutionRuns"
  | map .conditionalCloses => "conditionalCloses"
  | map .conditionalOrders => "conditionalOrders"
  | map .disclosures => "disclosures"
  | map .fundingUpdates => "fundingUpdates"
  | map .fundingPremiumSamples => "fundingPremiumSamples"
  | map .intents => "intents"
  | map .liquidationAutomationJobs => "liquidationAutomationJobs"
  | map .liquidations => "liquidations"
  | map .markets => "markets"
  | map .marketSettlementVolumes => "marketSettlementVolumes"
  | map .orderLifecycle => "orderLifecycle"
  | map .pendingAssetDeposits => "pendingAssetDeposits"
  | map .positionCloses => "positionCloses"
  | map .positionLifecycle => "positionLifecycle"
  | map .privateMatchIntents => "privateMatchIntents"
  | map .residualOrders => "residualOrders"
  | map .settlements => "settlements"
  | map .withdrawals => "withdrawals"
  | set .marginCommitments => "marginCommitments"
  | set .positionCommitments => "positionCommitments"
  | set .proofs => "proofs"
  | set .spentNullifiers => "spentNullifiers"

/-- The collections of a `ProtocolStore` with the full records. -/
structure StoreTables where
  maps : MapName → OrderedMap Text JsValue
  sets : SetName → OrderedSet Text

namespace StoreTables

def empty : StoreTables := ⟨fun _ => .empty, fun _ => .empty⟩

def setMap (store : StoreTables) (name : MapName) (m : OrderedMap Text JsValue) : StoreTables :=
  { store with maps := Function.update store.maps name m }

def setSet (store : StoreTables) (name : SetName) (s : OrderedSet Text) : StoreTables :=
  { store with sets := Function.update store.sets name s }

/-- `store[field].clear()`. -/
def clear (store : StoreTables) : SnapshotField → StoreTables
  | .map name => store.setMap name .empty
  | .set name => store.setSet name .empty

end StoreTables

/-! ## Retention -/

/-- `record.marketId` of a sample. -/
def sampleMarketId (entry : Text × JsValue) : Text :=
  match entry.2.get "marketId" with
  | .string marketId => marketId
  | _ => []

def fundingPremiumSampleRetention : ℕ := 120

/-- The newest samples of each market. -/
def retainedFundingPremiumSamples (entries : List (Text × JsValue)) : List (Text × JsValue) :=
  let retained := Newest.keep sampleMarketId fundingPremiumSampleRetention entries.reverse fun _ => 0
  entries.filter (·.1 ∈ retained.map (·.1))

def batchExecutionRunRetention : ℕ := 1000

/-- `entries.slice(-BATCH_EXECUTION_RUN_RETENTION)`. -/
def retainedBatchExecutionRuns (entries : List (Text × JsValue)) : List (Text × JsValue) :=
  entries.drop (entries.length - batchExecutionRunRetention)

/-- The entries of a map that a snapshot and a load keep. -/
def retainedEntries : MapName → List (Text × JsValue) → List (Text × JsValue)
  | .fundingPremiumSamples => retainedFundingPremiumSamples
  | .batchExecutionRuns => retainedBatchExecutionRuns
  | _ => id

/-! ## Snapshot -/

/-- An entry of `map.entries()`. -/
def entryValue (entry : Text × JsValue) : JsValue := .array [.string entry.1, entry.2]

/-- The array of a collection in a snapshot. -/
def StoreTables.snapshotItems (store : StoreTables) : SnapshotField → List JsValue
  | .map name => (retainedEntries name (store.maps name).entries).map entryValue
  | .set name => (store.sets name).elems.map .string

/-- The properties of the object that `snapshotProtocolStore` returns. -/
def protocolSnapshotFields : List SnapshotField :=
  [.map .accountEvents, .map .accountEncryptionKeys, .map .conditionalCloses,
    .map .conditionalOrders, .map .disclosures, .map .fundingUpdates, .map .fundingPremiumSamples,
    .map .liquidationAutomationJobs, .map .batchExecutionRuns, .map .intents, .map .liquidations,
    .set .marginCommitments, .map .markets, .map .marketSettlementVolumes, .map .orderLifecycle,
    .map .pendingAssetDeposits, .map .positionCloses, .set .positionCommitments,
    .map .positionLifecycle, .map .privateMatchIntents, .set .proofs, .map .residualOrders,
    .map .settlements, .set .spentNullifiers, .map .withdrawals]

/-- An object with the arrays of some collections. -/
def StoreTables.snapshotOf (store : StoreTables) (fields : List SnapshotField) : JsValue :=
  .object (fields.map fun field => (field.name.toList, .array (store.snapshotItems field)))

def snapshotProtocolStore (store : StoreTables) : JsValue := store.snapshotOf protocolSnapshotFields

/-! ## Load -/

def itemsOf : JsValue → Option (List JsValue)
  | .array items => some items
  | _ => none

def textOf : JsValue → Option Text
  | .string value => some value
  | _ => none

/-- `const [key, value] = entry`. -/
def entryOf : JsValue → Option (Text × JsValue)
  | .array [.string key, value] => some (key, value)
  | _ => none

def zeroHex : JsValue := .string "0x0".toList

/-- What a load writes for the properties that an older record lacks. -/
def recordDefaults : MapName → List (String × JsValue)
  | .intents => [("batchDigest", zeroHex), ("marketDigest", zeroHex),
      ("noteChangeCommitment", zeroHex), ("ownerCommitmentField", zeroHex)]
  | .privateMatchIntents => [("noteChangeCommitment", zeroHex)]
  | .settlements => [("matchTranscriptDigest", zeroHex), ("marginChangeCommitments", .array []),
      ("residualMargins", .array []), ("orderUpdates", .array []), ("settlementDigest", zeroHex)]
  | _ => []

/-- `{ ...value, property: value.property ?? default, … }`. -/
def withDefaults (defaults : List (String × JsValue)) (value : JsValue) : JsValue :=
  defaults.foldl
    (fun record property => record.assign property.1 ((value.get property.1).orElse property.2))
    value

/-- `snapshot[field]`, or `snapshot[field] ?? []` for a collection that older snapshots lack. -/
def loadItems (optional : List SnapshotField) (snapshot : JsValue) (field : SnapshotField) :
    Option (List JsValue) :=
  itemsOf (if field ∈ optional then (snapshot.get field.name).orElse (.array [])
    else snapshot.get field.name)

/-- The loop over one array of a snapshot. -/
def StoreTables.load (optional : List SnapshotField) (snapshot : JsValue) (store : StoreTables) :
    SnapshotField → Option StoreTables
  | .map name => do
    let items ← loadItems optional snapshot (.map name)
    let entries ← items.mapM entryOf
    some (store.setMap name ((store.maps name).setAll
      ((retainedEntries name entries).map fun entry =>
        (entry.1, withDefaults (recordDefaults name) entry.2))))
  | .set name => do
    let items ← loadItems optional snapshot (.set name)
    let values ← items.mapM textOf
    some (store.setSet name ((store.sets name).addAll values))

/-- The digest of the settlement of a run that says when and with what volume it settled. -/
def settledDigest (run : JsValue) : Option Text :=
  match run.get "status", run.get "settlementDigest" with
  | .string status, .string digest =>
    if status = "settled".toList ∧ ¬ (run.get "aggregateVolume").isUndefined ∧
      ¬ (run.get "completedAt").isUndefined ∧ digest ≠ [] then some digest else none
  | _, _ => none

/-- `aggregateVolume / 2n`. -/
def halfOf : JsValue → Option JsValue
  | .bigint value => some (.bigint (value.tdiv 2))
  | _ => none

/-- One round of `backfillMarketSettlementVolumes`. -/
def backfillVolume (volumes : OrderedMap Text JsValue) (run : JsValue) :
    Option (OrderedMap Text JsValue) :=
  match settledDigest run with
  | some digest =>
    if digest ∈ volumes.keys then some volumes
    else (halfOf (run.get "aggregateVolume")).map fun matchedVolume => volumes.set digest <|
      .object [("marketId".toList, run.get "marketId"), ("matchedVolume".toList, matchedVolume),
        ("settledAt".toList, run.get "completedAt"), ("settlementDigest".toList, .string digest)]
  | none => some volumes

def backfillMarketSettlementVolumes (store : StoreTables) : Option StoreTables :=
  ((store.maps .batchExecutionRuns).values.foldlM backfillVolume
    (store.maps .marketSettlementVolumes)).map (store.setMap .marketSettlementVolumes)

/-- The collections that `applyProtocolStoreSnapshot` clears. -/
def clearedFields : List SnapshotField :=
  [.set .marginCommitments, .set .positionCommitments, .set .spentNullifiers, .map .intents,
    .map .residualOrders, .map .orderLifecycle, .map .positionLifecycle, .map .markets,
    .map .settlements, .map .marketSettlementVolumes, .map .liquidations, .map .conditionalOrders,
    .map .conditionalCloses, .map .positionCloses, .map .disclosures, .map .fundingUpdates,
    .map .fundingPremiumSamples, .map .liquidationAutomationJobs, .map .batchExecutionRuns,
    .map .withdrawals, .set .proofs, .map .accountEvents, .map .accountEncryptionKeys,
    .map .pendingAssetDeposits, .map .privateMatchIntents]

/-- The collections that it loads before the volumes are filled in. -/
def loadedFields : List SnapshotField :=
  [.map .accountEvents, .map .accountEncryptionKeys, .map .pendingAssetDeposits,
    .set .marginCommitments, .set .positionCommitments, .set .spentNullifiers, .map .intents,
    .map .residualOrders, .map .privateMatchIntents, .map .orderLifecycle, .map .positionLifecycle,
    .map .markets, .map .marketSettlementVolumes, .map .settlements, .map .liquidations,
    .map .conditionalOrders, .map .conditionalCloses, .map .positionCloses, .map .disclosures,
    .map .fundingUpdates, .map .fundingPremiumSamples, .map .liquidationAutomationJobs,
    .map .batchExecutionRuns]

/-- The collections that it loads afterwards. -/
def loadedLastFields : List SnapshotField := [.map .withdrawals, .set .proofs]

/-- A load that clears and fills the collections of some lists. -/
def StoreTables.loadAll (optional cleared loaded loadedLast : List SnapshotField)
    (store : StoreTables) (snapshot : JsValue) : Option StoreTables := do
  let store ← loaded.foldlM (StoreTables.load optional snapshot)
    (cleared.foldl StoreTables.clear store)
  let store ← backfillMarketSettlementVolumes store
  loadedLast.foldlM (StoreTables.load optional snapshot) store

def applyProtocolStoreSnapshot (store : StoreTables) (snapshot : JsValue) : Option StoreTables :=
  store.loadAll protocolSnapshotFields clearedFields loadedFields loadedLastFields snapshot

/-! ## Stores as the operations leave them -/

/-- A value that is neither `undefined` nor `null`. -/
def JsValue.Present : JsValue → Prop
  | .undefined | .null => False
  | _ => True

/-- A store that a load does not change: its records can be written, they have the properties that
a load would fill in, no map holds more than is retained, and the volume of each settled run is
known. -/
structure StoreTables.Kept (store : StoreTables) : Prop where
  plain : ∀ name, ∀ entry ∈ (store.maps name).entries, entry.2.Plain
  full : ∀ name, ∀ entry ∈ (store.maps name).entries, ∀ property ∈ recordDefaults name,
    (entry.2.get property.1).Present
  retained : ∀ name, retainedEntries name (store.maps name).entries = (store.maps name).entries
  volumes : ∀ run ∈ (store.maps .batchExecutionRuns).values, ∀ digest ∈ settledDigest run,
    digest ∈ (store.maps .marketSettlementVolumes).keys

theorem JsValue.Present.orElse {value : JsValue} (h : value.Present) (other : JsValue) :
    value.orElse other = value := by
  cases value <;> first | rfl | exact h.elim

/-- A property that is assigned its own value leaves the value as it is. -/
theorem JsValue.assign_get {value : JsValue} (h : value.Plain) {key : String}
    (hpresent : (value.get key).Present) : value.assign key (value.get key) = value := by
  cases value with
  | object properties =>
    obtain ⟨hkeys, -, -⟩ := h
    have hsome : (properties.find? (·.1 = key.toList)).isSome = true := by
      cases hfind : properties.find? (·.1 = key.toList) with
      | none =>
        rw [JsValue.get_object, hfind] at hpresent
        exact hpresent.elim
      | some entry => rfl
    obtain ⟨found, hfound⟩ := Option.isSome_iff_exists.mp hsome
    have hget : (JsValue.object properties).get key = found.2 := by
      rw [JsValue.get_object, hfound]
      rfl
    rw [JsValue.assign_object, if_pos hsome, hget]
    refine congrArg JsValue.object ((List.map_congr_left fun entry hentry => ?_).trans
      (List.map_id _))
    split_ifs with hkey
    · have hname : found.1 = key.toList := by simpa using List.find?_some hfound
      have he : entry = found := List.inj_on_of_nodup_map hkeys hentry
        (List.mem_of_find?_eq_some hfound) (hkey.trans hname.symm)
      rw [he]
      rfl
    · rfl
  | _ => rfl

theorem withDefaults_eq_self {defaults : List (String × JsValue)} {value : JsValue}
    (h : value.Plain) (hfull : ∀ property ∈ defaults, (value.get property.1).Present) :
    withDefaults defaults value = value := by
  unfold withDefaults
  induction defaults with
  | nil => rfl
  | cons property defaults ih =>
    have hpresent := hfull property List.mem_cons_self
    rw [List.foldl_cons, hpresent.orElse, JsValue.assign_get h hpresent]
    exact ih fun other hother => hfull other (List.mem_cons_of_mem _ hother)

/-! ## Retention -/

theorem retainedFundingPremiumSamples_eq {entries : List (Text × JsValue)}
    (hnodup : (entries.map (·.1)).Nodup) : retainedFundingPremiumSamples entries =
      Newest.newest sampleMarketId fundingPremiumSampleRetention entries :=
  (List.filter_congr fun _ _ => decide_eq_decide.mpr Iff.rfl).trans (Newest.filter_keep hnodup)

theorem retainedBatchExecutionRuns_eq_self_iff {entries : List (Text × JsValue)} :
    retainedBatchExecutionRuns entries = entries ↔
      entries.length ≤ batchExecutionRunRetention := by
  unfold retainedBatchExecutionRuns
  constructor
  · intro h
    have hlength := congrArg List.length h
    rw [List.length_drop] at hlength
    unfold batchExecutionRunRetention at hlength ⊢
    omega
  · intro h
    rw [Nat.sub_eq_zero_of_le h, List.drop_zero]

/-! ## Snapshots read back -/

theorem mapM_entryOf (entries : List (Text × JsValue)) :
    (entries.map entryValue).mapM entryOf = some entries := by
  induction entries with
  | nil => rfl
  | cons entry entries ih =>
    rw [List.map_cons, List.mapM_cons, ih]
    rfl

theorem mapM_textOf (values : List Text) :
    (values.map JsValue.string).mapM textOf = some values := by
  induction values with
  | nil => rfl
  | cons value values ih =>
    rw [List.map_cons, List.mapM_cons, ih]
    rfl

theorem mem_clearedFields (field : SnapshotField) : field ∈ clearedFields := by
  rcases field with (_ | _) | (_ | _) <;> decide

theorem SnapshotField.name_injective : Function.Injective SnapshotField.name := by
  have hnodup : (clearedFields.map SnapshotField.name).Nodup := by decide +kernel
  exact fun field other h =>
    List.inj_on_of_nodup_map hnodup (mem_clearedFields field) (mem_clearedFields other) h

variable {store target : StoreTables} {optional fields : List SnapshotField} {snapshot : JsValue}
  {field : SnapshotField}

/-- The array of a collection in an object with the arrays of some collections. -/
theorem get_snapshotOf (hfield : field ∈ fields) :
    (store.snapshotOf fields).get field.name = .array (store.snapshotItems field) := by
  have hfind : (fields.map fun field => (field.name.toList,
      JsValue.array (store.snapshotItems field))).find? (·.1 = field.name.toList) =
        some (field.name.toList, JsValue.array (store.snapshotItems field)) := by
    rw [List.find?_map]
    have hmem : fields.find? (fun other => other.name.toList = field.name.toList) = some field := by
      induction fields with
      | nil => exact absurd hfield List.not_mem_nil
      | cons other fields ih =>
        by_cases h : other.name.toList = field.name.toList
        · rw [List.find?_cons_of_pos (by simpa using h)]
          exact congrArg some (SnapshotField.name_injective (String.toList_injective h))
        · rw [List.find?_cons_of_neg (by simpa using h)]
          exact ih ((List.mem_cons.mp hfield).resolve_left fun he => h (he ▸ rfl))
    exact congrArg (Option.map _) hmem
  rw [StoreTables.snapshotOf, JsValue.get_object, hfind]
  rfl

namespace StoreTables

/-- The collection of a store is empty. -/
def EmptyAt (store : StoreTables) : SnapshotField → Prop
  | .map name => store.maps name = .empty
  | .set name => store.sets name = .empty

/-- A collection taken from another store. -/
def restore (target store : StoreTables) : SnapshotField → StoreTables
  | .map name => store.setMap name (target.maps name)
  | .set name => store.setSet name (target.sets name)

/-- An empty collection is filled from its array. -/
theorem load_eq_restore (htarget : target.Kept) (hempty : store.EmptyAt field)
    (hget : snapshot.get field.name = .array (target.snapshotItems field)) :
    store.load optional snapshot field = some (target.restore store field) := by
  have hitems : loadItems optional snapshot field = some (target.snapshotItems field) := by
    unfold loadItems
    rw [hget]
    split_ifs <;> rfl
  cases field with
  | map name =>
    have hmap : (target.maps name).entries.map (fun entry =>
        (entry.1, withDefaults (recordDefaults name) entry.2)) = (target.maps name).entries := by
      refine (List.map_congr_left fun entry hentry => ?_).trans (List.map_id _)
      rw [withDefaults_eq_self (htarget.plain name entry hentry) (htarget.full name entry hentry)]
      rfl
    have hstore : store.maps name = .empty := hempty
    simp only [load, hitems, snapshotItems, mapM_entryOf, Option.bind_eq_bind, Option.bind_some,
      htarget.retained name, hmap, hstore, OrderedMap.setAll_empty_entries, restore]
  | set name =>
    have hstore : store.sets name = .empty := hempty
    simp only [load, hitems, snapshotItems, mapM_textOf, Option.bind_eq_bind, Option.bind_some,
      hstore, OrderedSet.addAll_empty_elems, restore]

theorem maps_foldl_restore (fields : List SnapshotField) (store : StoreTables) (name : MapName) :
    (fields.foldl target.restore store).maps name =
      if .map name ∈ fields then target.maps name else store.maps name := by
  induction fields generalizing store with
  | nil => rfl
  | cons field fields ih =>
    rw [List.foldl_cons, ih]
    cases field with
    | map other =>
      by_cases h : name = other
      · subst h
        simp [restore, setMap]
      · simp [restore, setMap, h]
    | set other => simp [restore, setSet]

theorem sets_foldl_restore (fields : List SnapshotField) (store : StoreTables) (name : SetName) :
    (fields.foldl target.restore store).sets name =
      if .set name ∈ fields then target.sets name else store.sets name := by
  induction fields generalizing store with
  | nil => rfl
  | cons field fields ih =>
    rw [List.foldl_cons, ih]
    cases field with
    | set other =>
      by_cases h : name = other
      · subst h
        simp [restore, setSet]
      · simp [restore, setSet, h]
    | map other => simp [restore, setMap]

/-- Clearing is filling from an empty store. -/
theorem clear_eq_restore : clear = empty.restore := by
  funext store field
  cases field <;> rfl

theorem emptyAt_restore {other : SnapshotField} (hne : other ≠ field) (h : store.EmptyAt other) :
    (target.restore store field).EmptyAt other := by
  cases other <;> cases field <;>
    simp_all [EmptyAt, restore, setMap, setSet, Function.update_of_ne]

/-- Empty collections are filled from their arrays one after the other. -/
theorem foldlM_load (htarget : target.Kept) (hnodup : fields.Nodup)
    (hempty : ∀ field ∈ fields, store.EmptyAt field)
    (hget : ∀ field ∈ fields, snapshot.get field.name = .array (target.snapshotItems field)) :
    fields.foldlM (load optional snapshot) store = some (fields.foldl target.restore store) := by
  induction fields generalizing store with
  | nil => rfl
  | cons field fields ih =>
    rw [List.nodup_cons] at hnodup
    rw [List.foldlM_cons, List.foldl_cons, load_eq_restore htarget (hempty field List.mem_cons_self)
      (hget field List.mem_cons_self), Option.bind_eq_bind, Option.bind_some]
    refine ih hnodup.2 (fun other hother => ?_) fun other hother =>
      hget other (List.mem_cons_of_mem _ hother)
    exact emptyAt_restore (fun he => hnodup.1 (he ▸ hother))
      (hempty other (List.mem_cons_of_mem _ hother))

/-- The volumes of a store that knows them all stay as they are. -/
theorem backfillMarketSettlementVolumes_of_kept {store : StoreTables}
    (h : ∀ run ∈ (store.maps .batchExecutionRuns).values, ∀ digest ∈ settledDigest run,
      digest ∈ (store.maps .marketSettlementVolumes).keys) :
    backfillMarketSettlementVolumes store = some store := by
  have hfold : (store.maps .batchExecutionRuns).values.foldlM backfillVolume
      (store.maps .marketSettlementVolumes) = some (store.maps .marketSettlementVolumes) := by
    generalize (store.maps .batchExecutionRuns).values = runs at h
    induction runs with
    | nil => rfl
    | cons run runs ih =>
      have hrun : backfillVolume (store.maps .marketSettlementVolumes) run =
          some (store.maps .marketSettlementVolumes) := by
        unfold backfillVolume
        cases hdigest : settledDigest run with
        | none => rfl
        | some digest => exact if_pos (h run List.mem_cons_self digest hdigest)
      rw [List.foldlM_cons, hrun, Option.bind_eq_bind, Option.bind_some]
      exact ih fun other hother => h other (List.mem_cons_of_mem _ hother)
  unfold backfillMarketSettlementVolumes
  rw [hfold, Option.map_some]
  exact congrArg (fun maps => some (⟨maps, store.sets⟩ : StoreTables)) (Function.update_eq_self ..)

/-- **A load takes the collections that it reads from the snapshot** and leaves the others as the
clearing leaves them. -/
theorem loadAll_eq {cleared loaded loadedLast : List SnapshotField} (htarget : target.Kept)
    (hnodup : (loaded ++ loadedLast).Nodup)
    (hempty : ∀ field ∈ loaded ++ loadedLast, (cleared.foldl clear store).EmptyAt field)
    (hget : ∀ field ∈ loaded ++ loadedLast,
      snapshot.get field.name = .array (target.snapshotItems field))
    (hruns : .map .batchExecutionRuns ∈ loaded)
    (hvolumes : .map .marketSettlementVolumes ∈ loaded) :
    store.loadAll optional cleared loaded loadedLast snapshot =
      some ((loaded ++ loadedLast).foldl target.restore (cleared.foldl clear store)) := by
  rw [List.nodup_append] at hnodup
  obtain ⟨hloaded, hlast, hdisjoint⟩ := hnodup
  unfold loadAll
  have hfirst := @foldlM_load _ _ optional _ _ htarget hloaded
    (fun field hfield => hempty field (List.mem_append_left _ hfield))
    (fun field hfield => hget field (List.mem_append_left _ hfield))
  rw [hfirst, Option.bind_eq_bind, Option.bind_some, backfillMarketSettlementVolumes_of_kept,
    Option.bind_some, List.foldl_append]
  · refine foldlM_load htarget hlast (fun field hfield => ?_) fun field hfield =>
      hget field (List.mem_append_right _ hfield)
    -- the collections of the second list are none of the first
    have hnew : field ∉ loaded := fun hmem => hdisjoint field hmem field hfield rfl
    have hstart := hempty field (List.mem_append_right _ hfield)
    cases field with
    | map name => exact (maps_foldl_restore loaded _ name).trans ((if_neg hnew).trans hstart)
    | set name => exact (sets_foldl_restore loaded _ name).trans ((if_neg hnew).trans hstart)
  · rw [maps_foldl_restore, maps_foldl_restore, if_pos hruns, if_pos hvolumes]
    exact htarget.volumes

theorem emptyAt_foldl_clear {cleared : List SnapshotField} (hfield : field ∈ cleared) :
    (cleared.foldl clear store).EmptyAt field := by
  rw [clear_eq_restore]
  cases field with
  | map name => exact (maps_foldl_restore cleared _ name).trans (if_pos hfield)
  | set name => exact (sets_foldl_restore cleared _ name).trans (if_pos hfield)

end StoreTables

theorem mem_protocolSnapshotFields (field : SnapshotField) : field ∈ protocolSnapshotFields := by
  rcases field with (_ | _) | (_ | _) <;> decide

theorem mem_loadedFields (field : SnapshotField) : field ∈ loadedFields ++ loadedLastFields := by
  rcases field with (_ | _) | (_ | _) <;> decide

theorem nodup_loadedFields : (loadedFields ++ loadedLastFields).Nodup := by decide +kernel

/-- **Loading the snapshot of a store gives the store**, whatever was there before. -/
theorem applyProtocolStoreSnapshot_of_get (htarget : target.Kept)
    (hget : ∀ field, snapshot.get field.name = .array (target.snapshotItems field)) :
    applyProtocolStoreSnapshot store snapshot = some target := by
  unfold applyProtocolStoreSnapshot
  rw [StoreTables.loadAll_eq htarget nodup_loadedFields
    (fun field _ => StoreTables.emptyAt_foldl_clear (mem_clearedFields field))
    (fun field _ => hget field) (by decide) (by decide)]
  refine congrArg some ?_
  have hmaps (name : MapName) := @StoreTables.maps_foldl_restore target
    (loadedFields ++ loadedLastFields) (clearedFields.foldl StoreTables.clear store) name
  have hsets (name : SetName) := @StoreTables.sets_foldl_restore target
    (loadedFields ++ loadedLastFields) (clearedFields.foldl StoreTables.clear store) name
  simp only [mem_loadedFields, if_true] at hmaps hsets
  generalize (loadedFields ++ loadedLastFields).foldl target.restore _ = loaded at hmaps hsets
  cases loaded
  cases target
  obtain rfl := funext hmaps
  obtain rfl := funext hsets
  rfl

/-! ## Absent properties -/

/-- The store without the properties that have no value. -/
def StoreTables.strip (store : StoreTables) : StoreTables where
  maps name := (store.maps name).mapValues JsValue.strip
  sets := store.sets

theorem sampleMarket_strip {entry : Text × JsValue} (h : entry.2.Plain) :
    sampleMarketId (entry.1, entry.2.strip) = sampleMarketId entry := by
  unfold sampleMarketId
  rw [JsValue.get_strip h]
  cases entry.2.get "marketId" <;> rfl

theorem settledDigest_strip {run : JsValue} (h : run.Plain) :
    settledDigest run.strip = settledDigest run := by
  unfold settledDigest
  simp only [JsValue.get_strip h, JsValue.isUndefined_strip]
  cases run.get "status" <;> cases run.get "settlementDigest" <;> rfl

theorem JsValue.Present.strip {value : JsValue} (h : value.Present) : value.strip.Present := by
  cases value <;> exact h

theorem retainedEntries_strip {name : MapName} {entries : List (Text × JsValue)}
    (hnodup : (entries.map (·.1)).Nodup) (hplain : ∀ entry ∈ entries, entry.2.Plain) :
    retainedEntries name (entries.map fun entry => (entry.1, entry.2.strip)) =
      (retainedEntries name entries).map fun entry => (entry.1, entry.2.strip) := by
  have hkeys : ((entries.map fun entry => (entry.1, entry.2.strip)).map (·.1)).Nodup := by
    rw [List.map_map]
    exact hnodup
  cases name with
  | fundingPremiumSamples =>
    show retainedFundingPremiumSamples _ = (retainedFundingPremiumSamples _).map _
    rw [retainedFundingPremiumSamples_eq hkeys, retainedFundingPremiumSamples_eq hnodup]
    exact Newest.newest_map _ fun entry hentry => sampleMarket_strip (hplain entry hentry)
  | batchExecutionRuns =>
    rw [show retainedEntries .batchExecutionRuns = retainedBatchExecutionRuns from rfl]
    unfold retainedBatchExecutionRuns
    rw [List.length_map, List.map_drop]
  | _ => rfl

namespace StoreTables

/-- A store that a load does not change stays one without the absent properties. -/
theorem Kept.strip {store : StoreTables} (h : store.Kept) : store.strip.Kept where
  plain name entry hentry := by
    obtain ⟨original, horiginal, rfl⟩ := List.mem_map.mp hentry
    exact JsValue.plain_strip (h.plain name original horiginal)
  full name entry hentry property hproperty := by
    obtain ⟨original, horiginal, rfl⟩ := List.mem_map.mp hentry
    rw [JsValue.get_strip (h.plain name original horiginal)]
    exact (h.full name original horiginal property hproperty).strip
  retained name := by
    show retainedEntries name ((store.maps name).entries.map _) = _
    rw [retainedEntries_strip (store.maps name).nodup (h.plain name), h.retained name]
    rfl
  volumes run hrun digest hdigest := by
    have hkeys : (store.strip.maps .marketSettlementVolumes).keys =
        (store.maps .marketSettlementVolumes).keys := List.map_map ..
    obtain ⟨entry, hentry, rfl⟩ := List.mem_map.mp hrun
    obtain ⟨original, horiginal, rfl⟩ := List.mem_map.mp hentry
    rw [settledDigest_strip (h.plain _ original horiginal)] at hdigest
    rw [hkeys]
    exact h.volumes _ (List.mem_map.mpr ⟨original, horiginal, rfl⟩) digest hdigest

theorem snapshotItems_strip {store : StoreTables} (h : store.Kept) (field : SnapshotField) :
    store.strip.snapshotItems field = (store.snapshotItems field).map JsValue.strip := by
  cases field with
  | map name =>
    show (retainedEntries name ((store.maps name).entries.map _)).map entryValue =
      ((retainedEntries name (store.maps name).entries).map entryValue).map JsValue.strip
    rw [retainedEntries_strip (store.maps name).nodup (h.plain name), List.map_map, List.map_map]
    rfl
  | set name =>
    show _ = ((store.sets name).elems.map JsValue.string).map JsValue.strip
    rw [List.map_map]
    rfl

theorem plain_snapshotItems {store : StoreTables} (h : store.Kept) (field : SnapshotField)
    {item : JsValue} (hitem : item ∈ store.snapshotItems field) : item.Plain := by
  cases field with
  | map name =>
    obtain ⟨entry, hentry, rfl⟩ := List.mem_map.mp hitem
    rw [h.retained name] at hentry
    exact ⟨trivial, h.plain name entry hentry, trivial⟩
  | set name =>
    obtain ⟨value, -, rfl⟩ := List.mem_map.mp hitem
    trivial

theorem snapshotOf_strip {store : StoreTables} (h : store.Kept) (fields : List SnapshotField) :
    (store.snapshotOf fields).strip = store.strip.snapshotOf fields := by
  have hitems (items : List JsValue) : JsValue.stripItems items = items.map JsValue.strip := by
    induction items with
    | nil => rfl
    | cons item items ih => rw [JsValue.stripItems, ih, List.map_cons]
  unfold snapshotOf
  rw [JsValue.strip]
  refine congrArg JsValue.object ?_
  induction fields with
  | nil => rfl
  | cons field fields ih =>
    rw [List.map_cons, JsValue.stripProperties, ih, if_neg (by simp [JsValue.isUndefined]),
      JsValue.strip, hitems, ← snapshotItems_strip h, List.map_cons]

/-- A snapshot can be written. -/
theorem plain_snapshotOf {store : StoreTables} (h : store.Kept) {fields : List SnapshotField}
    (hnodup : fields.Nodup) : (store.snapshotOf fields).Plain := by
  have hkeys : ((fields.map fun field =>
      (field.name.toList, JsValue.array (store.snapshotItems field))).map (·.1)) =
        fields.map fun field => field.name.toList := List.map_map ..
  have hitems (field : SnapshotField) : JsValue.PlainItems (store.snapshotItems field) := by
    have hall := fun item => @plain_snapshotItems _ h field item
    generalize store.snapshotItems field = items at hall
    induction items with
    | nil => trivial
    | cons item items ih =>
      exact ⟨hall item List.mem_cons_self, ih fun other hother => hall other (.tail _ hother)⟩
  refine ⟨?_, ?_, ?_⟩
  · rw [hkeys]
    exact hnodup.map fun a b hab => SnapshotField.name_injective (String.toList_injective hab)
  · rw [hkeys, List.mem_map]
    rintro ⟨field, -, hfield⟩
    rcases field with (_ | _) | (_ | _) <;> exact absurd hfield (by decide)
  · clear hnodup hkeys
    induction fields with
    | nil => trivial
    | cons field fields ih => exact ⟨Or.inr (hitems field), ih⟩

end StoreTables

end Pnlx.Server
