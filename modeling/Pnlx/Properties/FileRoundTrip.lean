import Pnlx.Server.FileStore
import Pnlx.Server.StoreWrites

/-!
# A restart from a file

`save` and `load` leave out the samples of the funding premium, which `snapshotProtocolStore`
lists.

`file_round_trip_iff`: saving a store and loading the file gives the store back exactly when it has
no samples. The loaded store always writes the same file.
-/

namespace Pnlx.Server

open BatchMatch (Text)
open JsValue (jsonStringify jsonParse)

/-- Two stores have the same collection. -/
def StoreTables.SameAt (store loaded : StoreTables) : SnapshotField → Prop
  | .map name => loaded.maps name = store.maps name
  | .set name => loaded.sets name = store.sets name

/-- What a server can have loaded after a restart. -/
def FileRestart (store loaded : StoreTables) : Prop := fileLoad (fileSave store) = some loaded

/-- The store without its samples. -/
def StoreTables.withoutSamples (store : StoreTables) : StoreTables :=
  store.setMap .fundingPremiumSamples .empty

variable {store : StoreTables}

theorem mem_fileSavedFields {field : SnapshotField} (h : field ≠ .map .fundingPremiumSamples) :
    field ∈ fileSavedFields ∧ field ∈ fileLoadedFields ++ fileLoadedLastFields := by
  rcases field with (_ | _) | (_ | _) <;> first | exact absurd rfl h | decide

theorem samples_notMem_fileFields : .map .fundingPremiumSamples ∉ fileSavedFields ∧
    .map .fundingPremiumSamples ∉ fileLoadedFields ++ fileLoadedLastFields := by decide

/-- **The file gives the store without its samples** and without absent properties. -/
theorem fileLoad_fileSave (hstore : store.Kept) :
    fileLoad (fileSave store) = some store.strip.withoutSamples := by
  have hparse : jsonParse (fileSave store) = some (store.strip.snapshotOf fileSavedFields) := by
    rw [← StoreTables.snapshotOf_strip hstore]
    exact JsValue.jsonParse_jsonStringify
      (List.forall_mem_cons.mpr ⟨by decide, List.forall_mem_singleton.mpr (by decide)⟩)
      (StoreTables.plain_snapshotOf hstore (by decide))
  have hall : ∀ field ∈ fileLoadedFields ++ fileLoadedLastFields,
      field ∈ fileSavedFields ∧ field ∈ fileClearedFields := by decide
  unfold fileLoad
  rw [hparse, Option.bind_some, StoreTables.loadAll_eq hstore.strip (by decide)
    (fun field hfield => StoreTables.emptyAt_foldl_clear (hall field hfield).2)
    (fun field hfield => get_snapshotOf (hall field hfield).1) (by decide) (by decide)]
  refine congrArg some ?_
  have hmaps (name : MapName) := @StoreTables.maps_foldl_restore store.strip
    (fileLoadedFields ++ fileLoadedLastFields)
    (fileClearedFields.foldl StoreTables.clear .empty) name
  have hsets (name : SetName) := @StoreTables.sets_foldl_restore store.strip
    (fileLoadedFields ++ fileLoadedLastFields)
    (fileClearedFields.foldl StoreTables.clear .empty) name
  have hempty : (fileClearedFields.foldl StoreTables.clear .empty).maps .fundingPremiumSamples =
      .empty := by rw [StoreTables.clear_eq_restore, StoreTables.maps_foldl_restore]; rfl
  generalize (fileLoadedFields ++ fileLoadedLastFields).foldl store.strip.restore _ = loaded
    at hmaps hsets
  cases loaded
  unfold StoreTables.withoutSamples StoreTables.setMap
  rw [StoreTables.mk.injEq]
  refine ⟨funext fun name => ?_, funext fun name => ?_⟩
  · refine (hmaps name).trans ?_
    by_cases hname : name = .fundingPremiumSamples
    · subst hname
      rw [if_neg samples_notMem_fileFields.2, hempty, Function.update_self]
    · rw [if_pos (mem_fileSavedFields fun he => hname (SnapshotField.map.inj he)).2,
        Function.update_of_ne hname]
  · exact (hsets name).trans (if_pos (mem_fileSavedFields (by simp)).2)

/-- The file does not show the samples. -/
theorem fileSave_withoutSamples (store : StoreTables) :
    fileSave store.withoutSamples = fileSave store := by
  have hitems : ∀ field ∈ fileSavedFields,
      store.withoutSamples.snapshotItems field = store.snapshotItems field := by
    intro field hfield
    cases field with
    | map name =>
      have hname : name ≠ .fundingPremiumSamples := fun he =>
        samples_notMem_fileFields.1 (he ▸ hfield)
      unfold StoreTables.withoutSamples
      rw [StoreTables.snapshotItems, StoreTables.snapshotItems,
        StoreTables.maps_setMap_of_ne hname]
    | set name => rfl
  unfold fileSave StoreTables.snapshotOf
  refine congrArg (jsonStringify [' ', ' ']) (congrArg JsValue.object ?_)
  exact List.map_congr_left fun field hfield => by rw [hitems field hfield]

theorem fileSave_strip (hstore : store.Kept) : fileSave store.strip = fileSave store := by
  unfold fileSave jsonStringify
  rw [← StoreTables.snapshotOf_strip hstore, JsValue.tree_strip]

theorem StoreTables.Tidy.withoutSamples (hstore : store.Tidy) : store.withoutSamples.Tidy :=
  hstore.setMap (fun _ hentry => absurd hentry List.not_mem_nil) rfl nofun nofun

theorem FileRestart.tidy {loaded : StoreTables} (hstore : store.Tidy)
    (h : FileRestart store loaded) : loaded.Tidy := by
  unfold FileRestart at h
  rw [fileLoad_fileSave hstore.toKept] at h
  exact Option.some.inj h ▸ hstore.strip.withoutSamples

/-- Only a store without samples comes back with its samples. -/
theorem samples_eq_empty (hstore : store.Kept) {loaded : StoreTables}
    (hloaded : fileLoad (fileSave store) = some loaded)
    (hsame : store.strip.SameAt loaded (.map .fundingPremiumSamples)) :
    store.maps .fundingPremiumSamples = .empty := by
  rw [fileLoad_fileSave hstore] at hloaded
  obtain rfl := Option.some.inj hloaded
  have hsamples : (store.strip.maps .fundingPremiumSamples).entries = [] := by
    rw [← show _ = store.strip.maps .fundingPremiumSamples from hsame]
    unfold StoreTables.withoutSamples
    rw [StoreTables.maps_setMap_self]
    rfl
  exact OrderedMap.ext_entries (List.map_eq_nil_iff.mp hsamples)

/-- **A restart gives back a store without samples, and only such a store.** The file of every store
can be loaded, every collection but the samples comes back without absent properties, and the
loaded store writes the same file. The samples come back exactly when there are none. -/
theorem file_round_trip_iff (hstore : Reachable FileRestart store) :
    (∃ loaded, fileLoad (fileSave store) = some loaded ∧
      (∀ field ∈ protocolSnapshotFields, store.strip.SameAt loaded field) ∧
      fileSave loaded = fileSave store) ↔
    store.maps .fundingPremiumSamples = .empty := by
  have hkept : store.Kept := (hstore.tidy fun _ _ h => FileRestart.tidy h).toKept
  constructor
  · rintro ⟨loaded, hloaded, hsame, -⟩
    exact samples_eq_empty hkept hloaded (hsame _ (mem_protocolSnapshotFields _))
  · intro hempty
    refine ⟨_, fileLoad_fileSave hkept, fun field _ => ?_, ?_⟩
    · cases field with
      | map name =>
        by_cases hname : name = .fundingPremiumSamples
        · subst hname
          refine (StoreTables.maps_setMap_self ..).trans (OrderedMap.ext_entries ?_)
          show _ = (store.maps .fundingPremiumSamples).entries.map _
          rw [hempty]
          rfl
        · exact StoreTables.maps_setMap_of_ne hname
      | set name => rfl
    · rw [fileSave_withoutSamples, fileSave_strip hkept]

theorem file_round_trip_sample :
    (∃ loaded, fileLoad (fileSave sampleTables) = some loaded ∧
      (∀ field ∈ protocolSnapshotFields, sampleTables.strip.SameAt loaded field) ∧
      fileSave loaded = fileSave sampleTables) ↔
    sampleTables.maps .fundingPremiumSamples = .empty :=
  file_round_trip_iff (reachable_sampleTables _)

/-! ## A store with a sample -/

def samplePremium : JsValue :=
  .object [("marketId".toList, .string "m".toList), ("sampledAt".toList, .number 7)]

def sampledTables : StoreTables :=
  (StoreWrite.addFundingPremiumSamples [samplePremium]).apply .empty

theorem reachable_sampledTables (restarts : StoreTables → StoreTables → Prop) :
    Reachable restarts sampledTables := by
  refine .write _ _ .empty fun record hrecord => ?_
  obtain rfl := List.mem_singleton.mp hrecord
  exact ⟨by decide, by decide, by simp [JsValue.PlainProperties, JsValue.Plain]⟩

theorem sampledTables_lost : Reachable FileRestart sampledTables ∧
    ¬ ∃ loaded, fileLoad (fileSave sampledTables) = some loaded ∧
      (∀ field ∈ protocolSnapshotFields, sampledTables.strip.SameAt loaded field) ∧
      fileSave loaded = fileSave sampledTables := by
  refine ⟨reachable_sampledTables _, fun ⟨loaded, hloaded, hsame, _⟩ => ?_⟩
  have hkept := ((reachable_sampledTables _).tidy fun _ _ h => FileRestart.tidy h).toKept
  have hempty := samples_eq_empty hkept hloaded (hsame _ (mem_protocolSnapshotFields _))
  have hkeys : (sampledTables.maps .fundingPremiumSamples).keys = ["m:7".toList] := by decide +kernel
  rw [hempty] at hkeys
  exact absurd hkeys (List.cons_ne_nil _ _).symm

end Pnlx.Server
