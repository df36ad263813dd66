import Pnlx.Server.Snapshot

/-!
# What the store can hold

Every operation of `ProtocolStore` writes records into its maps and values into its sets. The
samples of the funding premium and the runs of the batch executor are cut after each write, and
nothing else is ever removed. A run is recorded as settled after its settlement, whose volume
`addSettlement` has written.

`Reachable.kept`: such a store is as a load leaves it.
-/

namespace Pnlx.Server

open BatchMatch (Text decimalSigned)
open JsValue (Plain Present)

/-! ## Writes -/

/-- `trimFundingPremiumSamples`. -/
def trimFundingPremiumSamples (samples : OrderedMap Text JsValue) : OrderedMap Text JsValue :=
  let retained := (retainedFundingPremiumSamples samples.entries).map (·.1)
  samples.filter (·.1 ∈ retained)

/-- The entries that are left when the oldest run is deleted until there are few enough. -/
def trimRuns : List (Text × JsValue) → List (Text × JsValue)
  | [] => []
  | oldest :: runs =>
    if batchExecutionRunRetention < (oldest :: runs).length ∧ oldest.1 ≠ [] then trimRuns runs
    else oldest :: runs

theorem trimRuns_sublist (runs : List (Text × JsValue)) : (trimRuns runs).Sublist runs := by
  induction runs with
  | nil => exact List.Sublist.slnil
  | cons oldest runs ih =>
    rw [trimRuns]
    split_ifs
    · exact ih.cons oldest
    · exact List.Sublist.refl _

def trimBatchExecutionRuns (runs : OrderedMap Text JsValue) : OrderedMap Text JsValue :=
  runs.cut (trimRuns runs.entries) (trimRuns_sublist runs.entries)

/-- `` `${record.marketId}:${record.sampledAt}` ``. -/
def sampleKey (record : JsValue) : Text :=
  match record.get "marketId", record.get "sampledAt" with
  | .string marketId, .number sampledAt => marketId ++ ':' :: decimalSigned sampledAt
  | _, _ => []

/-- `record.runId`. -/
def runKey (record : JsValue) : Text :=
  match record.get "runId" with
  | .string runId => runId
  | _ => []

/-- An update that an operation of the store makes. -/
inductive StoreWrite where
  | put (name : MapName) (key : Text) (value : JsValue)
  | add (name : SetName) (value : Text)
  | addFundingPremiumSamples (records : List JsValue)
  | upsertBatchExecutionRun (record : JsValue)

def StoreWrite.apply (store : StoreTables) : StoreWrite → StoreTables
  | put name key value => store.setMap name ((store.maps name).set key value)
  | add name value => store.setSet name ((store.sets name).add value)
  | addFundingPremiumSamples records => store.setMap .fundingPremiumSamples
      (trimFundingPremiumSamples ((store.maps .fundingPremiumSamples).setAll
        (records.map fun record => (sampleKey record, record))))
  | upsertBatchExecutionRun record => store.setMap .batchExecutionRuns
      (trimBatchExecutionRuns ((store.maps .batchExecutionRuns).set (runKey record) record))

/-- A record with the properties that its type requires. -/
def TypedRecord (name : MapName) (value : JsValue) : Prop :=
  value.Plain ∧ ∀ property ∈ recordDefaults name, (value.get property.1).Present

/-- A write with typed records. The volume of a settled run is known. -/
def StoreWrite.Typed (store : StoreTables) : StoreWrite → Prop
  | put name _ value =>
    name ≠ .fundingPremiumSamples ∧ name ≠ .batchExecutionRuns ∧ TypedRecord name value
  | add _ _ => True
  | addFundingPremiumSamples records => ∀ record ∈ records, record.Plain
  | upsertBatchExecutionRun record => record.Plain ∧ runKey record ≠ [] ∧
      ∀ digest ∈ settledDigest record, digest ∈ (store.maps .marketSettlementVolumes).keys

/-- The stores that a server can have. After a restart it has the store that was read back. -/
inductive Reachable (restarts : StoreTables → StoreTables → Prop) : StoreTables → Prop
  | empty : Reachable restarts .empty
  | write (store : StoreTables) (storeWrite : StoreWrite) : Reachable restarts store →
    storeWrite.Typed store → Reachable restarts (storeWrite.apply store)
  | restart (store loaded : StoreTables) : Reachable restarts store → restarts store loaded →
    Reachable restarts loaded

/-! ## Retention -/

theorem entries_trimFundingPremiumSamples (samples : OrderedMap Text JsValue) :
    (trimFundingPremiumSamples samples).entries =
      retainedFundingPremiumSamples samples.entries := by
  rw [retainedFundingPremiumSamples_eq samples.nodup]
  refine Eq.trans ?_ (Newest.filter_mem_of_sublist
    (@Newest.newest_sublist _ _ _ sampleMarketId fundingPremiumSampleRetention samples.entries)
    samples.nodup)
  refine List.filter_congr fun entry _ => decide_eq_decide.mpr ?_
  rw [retainedFundingPremiumSamples_eq samples.nodup]

theorem length_trimRuns {runs : List (Text × JsValue)} (hkeys : ∀ run ∈ runs, run.1 ≠ []) :
    (trimRuns runs).length ≤ batchExecutionRunRetention := by
  induction runs with
  | nil => exact Nat.zero_le _
  | cons oldest runs ih =>
    rw [trimRuns]
    split_ifs with hmany
    · exact ih fun run hrun => hkeys run (List.mem_cons_of_mem _ hrun)
    · by_contra hlength
      exact hmany ⟨not_le.mp hlength, hkeys oldest List.mem_cons_self⟩

/-! ## The invariant -/

/-- A store that a load does not change and whose runs have keys. -/
structure StoreTables.Tidy (store : StoreTables) : Prop extends store.Kept where
  keyed : ∀ run ∈ (store.maps .batchExecutionRuns).entries, run.1 ≠ []

namespace StoreTables

theorem tidy_empty : empty.Tidy where
  plain _ _ hentry := absurd hentry List.not_mem_nil
  full _ _ hentry := absurd hentry List.not_mem_nil
  retained name := by cases name <;> rfl
  volumes _ hrun := absurd hrun List.not_mem_nil
  keyed _ hrun := absurd hrun List.not_mem_nil

theorem maps_setMap_self (store : StoreTables) (name : MapName) (m : OrderedMap Text JsValue) :
    (store.setMap name m).maps name = m := Function.update_self ..

theorem maps_setMap_of_ne {store : StoreTables} {name other : MapName}
    {m : OrderedMap Text JsValue} (h : other ≠ name) :
    (store.setMap name m).maps other = store.maps other := Function.update_of_ne h ..

theorem Tidy.strip {store : StoreTables} (h : store.Tidy) : store.strip.Tidy where
  toKept := h.toKept.strip
  keyed run hrun := by
    obtain ⟨original, horiginal, rfl⟩ := List.mem_map.mp hrun
    exact h.keyed original horiginal

/-- A map is replaced by one with typed records that is cut where the map is cut. -/
theorem Tidy.setMap {store : StoreTables} (h : store.Tidy) {name : MapName}
    {m : OrderedMap Text JsValue} (htyped : ∀ entry ∈ m.entries, TypedRecord name entry.2)
    (hretained : retainedEntries name m.entries = m.entries)
    (hruns : name = .batchExecutionRuns → ∀ run ∈ m.entries, run.1 ≠ [] ∧
      ∀ digest ∈ settledDigest run.2, digest ∈ (store.maps .marketSettlementVolumes).keys)
    (hvolumes : name = .marketSettlementVolumes →
      ∀ digest ∈ (store.maps .marketSettlementVolumes).keys, digest ∈ m.keys) :
    (store.setMap name m).Tidy where
  plain other entry hentry := by
    by_cases hother : other = name
    · subst hother
      rw [maps_setMap_self] at hentry
      exact (htyped entry hentry).1
    · rw [maps_setMap_of_ne hother] at hentry
      exact h.plain other entry hentry
  full other entry hentry := by
    by_cases hother : other = name
    · subst hother
      rw [maps_setMap_self] at hentry
      exact (htyped entry hentry).2
    · rw [maps_setMap_of_ne hother] at hentry
      exact h.full other entry hentry
  retained other := by
    by_cases hother : other = name
    · subst hother
      rw [maps_setMap_self, hretained]
    · rw [maps_setMap_of_ne hother, h.retained other]
  volumes run hrun digest hdigest := by
    have hold : digest ∈ (store.maps .marketSettlementVolumes).keys := by
      obtain ⟨entry, hentry, rfl⟩ := List.mem_map.mp hrun
      by_cases hname : MapName.batchExecutionRuns = name
      · subst hname
        rw [maps_setMap_self] at hentry
        exact (hruns rfl entry hentry).2 digest hdigest
      · rw [maps_setMap_of_ne hname] at hentry
        exact h.volumes _ (List.mem_map.mpr ⟨entry, hentry, rfl⟩) digest hdigest
    by_cases hname : MapName.marketSettlementVolumes = name
    · subst hname
      rw [maps_setMap_self]
      exact hvolumes rfl digest hold
    · rw [maps_setMap_of_ne hname]
      exact hold
  keyed run hrun := by
    by_cases hname : MapName.batchExecutionRuns = name
    · subst hname
      rw [maps_setMap_self] at hrun
      exact (hruns rfl run hrun).1
    · rw [maps_setMap_of_ne hname] at hrun
      exact h.keyed run hrun

/-- **Every write keeps the store tidy.** -/
theorem Tidy.apply {store : StoreTables} (h : store.Tidy) {storeWrite : StoreWrite}
    (htyped : storeWrite.Typed store) : (storeWrite.apply store).Tidy := by
  have hold (name : MapName) (entry : Text × JsValue) (hentry : entry ∈ (store.maps name).entries) :
      TypedRecord name entry.2 := ⟨h.plain name entry hentry, h.full name entry hentry⟩
  cases storeWrite with
  | put name key value =>
    obtain ⟨hsamples, hruns, hvalue⟩ := htyped
    refine h.setMap (fun entry hentry => ?_) ?_ (fun hname => absurd hname hruns)
      fun hname digest hdigest => ?_
    · rcases OrderedMap.mem_entries_set hentry with hentry | rfl
      · exact hold name entry hentry
      · exact hvalue
    · cases name <;> first | exact absurd rfl hsamples | exact absurd rfl hruns | rfl
    · subst hname
      exact OrderedMap.mem_keys_set hdigest
  | add name value =>
    exact { plain := h.plain, full := h.full, retained := h.retained, volumes := h.volumes,
            keyed := h.keyed }
  | addFundingPremiumSamples records =>
    refine h.setMap (fun entry hentry => ?_) ?_ nofun nofun
    · rcases OrderedMap.mem_entries_setAll (List.mem_of_mem_filter hentry) with hentry | hentry
      · exact hold .fundingPremiumSamples entry hentry
      · obtain ⟨record, hrecord, rfl⟩ := List.mem_map.mp hentry
        exact ⟨htyped record hrecord, fun property hproperty => absurd hproperty List.not_mem_nil⟩
    · -- a second cut changes nothing
      have hnodup := (trimFundingPremiumSamples ((store.maps .fundingPremiumSamples).setAll
        (records.map fun record => (sampleKey record, record)))).nodup
      show retainedFundingPremiumSamples _ = _
      rw [retainedFundingPremiumSamples_eq hnodup, entries_trimFundingPremiumSamples,
        retainedFundingPremiumSamples_eq (OrderedMap.nodup _), Newest.newest_newest]
  | upsertBatchExecutionRun record =>
    obtain ⟨hplain, hkey, hvolume⟩ := htyped
    have hentries : ∀ entry ∈ ((store.maps .batchExecutionRuns).set (runKey record) record).entries,
        entry.2.Plain ∧ entry.1 ≠ [] ∧ ∀ digest ∈ settledDigest entry.2,
          digest ∈ (store.maps .marketSettlementVolumes).keys := by
      intro entry hentry
      rcases OrderedMap.mem_entries_set hentry with hentry | rfl
      · exact ⟨h.plain _ entry hentry, h.keyed entry hentry,
          h.volumes _ (List.mem_map.mpr ⟨entry, hentry, rfl⟩)⟩
      · exact ⟨hplain, hkey, hvolume⟩
    refine h.setMap (fun entry hentry => ?_) ?_ (fun _ entry hentry => ?_) nofun
    · exact ⟨(hentries entry ((trimRuns_sublist _).subset hentry)).1,
        fun property hproperty => absurd hproperty List.not_mem_nil⟩
    · exact retainedBatchExecutionRuns_eq_self_iff.mpr
        (length_trimRuns fun run hrun => (hentries run hrun).2.1)
    · exact (hentries entry ((trimRuns_sublist _).subset hentry)).2

end StoreTables

/-- **A store that a server can have is as a load leaves it.** -/
theorem Reachable.tidy {restarts : StoreTables → StoreTables → Prop}
    (hrestarts : ∀ store loaded, store.Tidy → restarts store loaded → loaded.Tidy)
    {store : StoreTables} (h : Reachable restarts store) : store.Tidy := by
  induction h with
  | empty => exact StoreTables.tidy_empty
  | write store storeWrite _ htyped ih => exact ih.apply htyped
  | restart store loaded _ hloaded ih => exact hrestarts store loaded ih hloaded

/-! ## A sample -/

/-- An intent that has not been submitted. -/
def sampleIntentValue : JsValue := .object
  [("batchDigest".toList, .string "0x1".toList), ("marketDigest".toList, .string "0x2".toList),
    ("noteChangeCommitment".toList, zeroHex), ("ownerCommitmentField".toList, .string "0x3".toList),
    ("margin".toList, .bigint (-5)), ("submissionTxHash".toList, .undefined)]

def sampleTables : StoreTables :=
  (StoreWrite.put .intents "0x4".toList sampleIntentValue).apply
    ((StoreWrite.add .marginCommitments "0x5".toList).apply .empty)

theorem typed_sampleIntentValue : TypedRecord .intents sampleIntentValue := by
  refine ⟨⟨by decide +kernel, by decide +kernel, ?_⟩, ?_⟩
  · exact ⟨.inr trivial, .inr trivial, .inr trivial, .inr trivial, .inr trivial, .inl rfl, trivial⟩
  · intro property hproperty
    simp only [recordDefaults, List.mem_cons, List.not_mem_nil, or_false] at hproperty
    rcases hproperty with rfl | rfl | rfl | rfl <;> exact trivial

theorem reachable_sampleTables (restarts : StoreTables → StoreTables → Prop) :
    Reachable restarts sampleTables :=
  .write _ _ (.write _ _ .empty trivial) ⟨nofun, nofun, typed_sampleIntentValue⟩

end Pnlx.Server
