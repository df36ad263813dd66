import Pnlx.Lib.Runs
import Pnlx.Server.Snapshot

/-!
# Checkpoints in the database

Server processes share one checkpoint document. A save inserts the records of a snapshot, replaces
the checkpoint if it still has the version that the process has built on, and deletes the records of
old snapshots, or those of its own when it fails. A process whose save has failed saves no more.

A request may be carried out without the process learning of it, or after the process has been told
that it failed. A deletion may meet the records one by one at any later time.
-/

namespace Pnlx.Server

open BatchMatch (Text)

/-! ## The database -/

/-- `ProtocolCheckpointDocument`. A checkpoint of the old format has no snapshot. -/
structure CheckpointDocument where
  version : Option ℕ
  snapshotId : Option Text
  counts : SnapshotField → ℕ

/-- A record of a snapshot in the collection of its field. -/
structure StoredRecord where
  field : SnapshotField
  ordinal : ℕ
  snapshotId : Text
  version : ℕ
  deriving DecidableEq

/-- A deletion of records: `deleteNormalizedSnapshot` or `pruneNormalizedSnapshots`. -/
inductive Deletion where
  | ofSnapshot (snapshotId : Text)
  | below (minimumVersion : ℤ)
  deriving DecidableEq

/-- The filter of a deletion. -/
def Deletion.Matches (record : StoredRecord) : Deletion → Prop
  | ofSnapshot snapshotId => record.snapshotId = snapshotId
  | below minimumVersion => record.version < minimumVersion

instance (record : StoredRecord) (deletion : Deletion) : Decidable (deletion.Matches record) := by
  cases deletion <;> unfold Deletion.Matches <;> infer_instance

/-- `parseVersion` of the checkpoint that is loaded. Without one the version is zero. -/
def versionOf (checkpoint : Option CheckpointDocument) : ℕ := (checkpoint.bind (·.version)).getD 0

/-! ## The processes -/

/-- A save: the snapshot that is written. -/
structure SnapshotSave where
  snapshotId : Text
  counts : SnapshotField → ℕ

/-- The request by which a save is committed. -/
inductive CommitKind where
  | update
  | insert
  deriving DecidableEq

/-- Where a process is in `saveSnapshot`. A process that has failed may have left a commit that the
database has yet to carry out. -/
inductive SavePhase where
  | idle
  | writing (save : SnapshotSave)
  | backingUp (save : SnapshotSave)
  | committing (save : SnapshotSave) (kind : CommitKind)
  | failed (pending : Option (SnapshotSave × CommitKind))

/-- A `MongoProtocolStore`. It has built on `base`, the checkpoint that it has loaded or committed
last. -/
structure SavingProcess where
  version : ℕ
  base : Option CheckpointDocument
  legacy : Bool
  phase : SavePhase

/-- The database with its requests and the processes. -/
structure CheckpointWorld where
  checkpoint : Option CheckpointDocument
  records : List StoredRecord
  inFlight : List StoredRecord
  deletions : List Deletion
  usedIds : List Text
  processes : ℕ → Option SavingProcess

namespace CheckpointWorld

def setProcess (w : CheckpointWorld) (p : ℕ) (process : SavingProcess) : CheckpointWorld :=
  { w with processes := Function.update w.processes p (some process) }

end CheckpointWorld

/-- The record of a snapshot at a place. -/
def snapshotRecordAt (snapshotId : Text) (version : ℕ) (field : SnapshotField) (ordinal : ℕ) :
    StoredRecord where
  field := field
  ordinal := ordinal
  snapshotId := snapshotId
  version := version

/-- The records that `writeNormalizedSnapshot` inserts. -/
def savedAs (save : SnapshotSave) (version : ℕ) : List StoredRecord :=
  protocolSnapshotFields.flatMap fun field =>
    (List.range (save.counts field)).map (snapshotRecordAt save.snapshotId version field)

/-! ## Steps -/

/-- What becomes of a commit: it is carried out and answered, carried out and answered with an error,
not carried out, or answered with an error and perhaps carried out later. -/
inductive Reply where
  | answered
  | lost
  | refused
  | late
  deriving DecidableEq

inductive CheckpointAct where
  | connect (p : ℕ)
  | beginSave (p : ℕ) (snapshotId : Text) (counts : SnapshotField → ℕ)
  | storeRecord (record : StoredRecord)
  | written (p : ℕ)
  | writeFailed (p : ℕ)
  | backedUp (p : ℕ) (ok : Bool)
  | commit (p : ℕ) (reply : Reply)
  | commitLate (p : ℕ)
  | delete (deletion : Deletion) (record : StoredRecord)

/-- The checkpoint that a save commits. -/
def committedDocument (save : SnapshotSave) (nextVersion : ℕ) : CheckpointDocument where
  version := some nextVersion
  snapshotId := some save.snapshotId
  counts := save.counts

/-- A commit finds what it replaces: `protocolCheckpointFilter` matches the checkpoint, or there is
none when one is inserted. -/
def CommitKind.Applies (checkpoint : Option CheckpointDocument) (expectedVersion : ℕ) :
    CommitKind → Prop
  | update => ∃ document ∈ checkpoint, document.version.getD 0 = expectedVersion
  | insert => checkpoint = none

instance (checkpoint : Option CheckpointDocument) (expectedVersion : ℕ) (kind : CommitKind) :
    Decidable (kind.Applies checkpoint expectedVersion) :=
  match kind, checkpoint with
  | .update, none => isFalse fun ⟨_, h, _⟩ => by cases h
  | .update, some document =>
    decidable_of_iff (document.version.getD 0 = expectedVersion)
      ⟨fun h => ⟨document, rfl, h⟩, fun ⟨_, hd, h⟩ => Option.some.inj hd ▸ h⟩
  | .insert, none => isTrue rfl
  | .insert, some _ => isFalse fun h => by cases h

def normalizedSnapshotRetention : ℕ := 10

/-- The deletion that a commit of a version asks for. -/
def prune (currentVersion : ℕ) : List Deletion :=
  let minimumVersion : ℤ := currentVersion - normalizedSnapshotRetention + 1
  if minimumVersion ≤ 1 then [] else [.below minimumVersion]

namespace CheckpointWorld

/-- A process fails and deletes the records of its save. -/
def fail (w : CheckpointWorld) (p : ℕ) (process : SavingProcess) (save : SnapshotSave)
    (pending : Option (SnapshotSave × CommitKind)) : CheckpointWorld :=
  { w.setProcess p { process with phase := .failed pending } with
    deletions := .ofSnapshot save.snapshotId :: w.deletions }

/-- The commit of a save is carried out. -/
def replace (w : CheckpointWorld) (process : SavingProcess) (save : SnapshotSave) :
    CheckpointWorld :=
  { w with checkpoint := some (committedDocument save (process.version + 1)) }

/-- The commit of a save has been answered: the process goes on from it and deletes what is old. -/
def finish (w : CheckpointWorld) (p : ℕ) (process : SavingProcess) (save : SnapshotSave) :
    CheckpointWorld :=
  { w.setProcess p
      { version := process.version + 1
        base := some (committedDocument save (process.version + 1))
        legacy := false
        phase := .idle } with
    deletions := prune (process.version + 1) ++ w.deletions }

/-- A commit that finds nothing to replace. A first one goes on to insert the checkpoint. -/
def miss (w : CheckpointWorld) (p : ℕ) (process : SavingProcess) (save : SnapshotSave)
    (kind : CommitKind) : CheckpointWorld :=
  if kind = .update ∧ process.version = 0 then
    w.setProcess p { process with phase := .committing save .insert }
  else w.fail p process save none

/-- `commitProtocolCheckpoint`, one request at a time. -/
def commit (w : CheckpointWorld) (p : ℕ) (process : SavingProcess) (save : SnapshotSave)
    (kind : CommitKind) : Reply → CheckpointWorld
  | .answered =>
    if kind.Applies w.checkpoint process.version then
      (w.replace process save).finish p process save
    else w.miss p process save kind
  | .lost =>
    if kind.Applies w.checkpoint process.version then
      (w.replace process save).fail p process save none
    else w.fail p process save none
  | .refused => w.fail p process save none
  | .late => w.fail p process save (some (save, kind))

/-- One step of a process or of the database. -/
def step (w : CheckpointWorld) : CheckpointAct → Except String CheckpointWorld
  | .connect p =>
    match w.processes p with
    | some _ => .error "process is connected"
    | none => .ok (w.setProcess p
        { version := versionOf w.checkpoint
          base := w.checkpoint
          legacy := w.checkpoint.isSome ∧ (w.checkpoint.bind (·.snapshotId)).isNone
          phase := .idle })
  | .beginSave p snapshotId counts =>
    match w.processes p with
    | none => .error "process is not connected"
    | some process =>
      match process.phase with
      | .idle =>
        if snapshotId ∈ w.usedIds then .error "identifier is in use"
        else .ok { w.setProcess p { process with phase := .writing ⟨snapshotId, counts⟩ } with
          inFlight := savedAs ⟨snapshotId, counts⟩ (process.version + 1) ++ w.inFlight
          usedIds := snapshotId :: w.usedIds }
      | _ => .error "process is not idle"
  | .storeRecord record =>
    if record ∈ w.inFlight then
      .ok { w with inFlight := w.inFlight.erase record, records := record :: w.records }
    else .error "record is not in flight"
  | .written p =>
    match w.processes p with
    | none => .error "process is not connected"
    | some process =>
      match process.phase with
      | .writing save =>
        if (savedAs save (process.version + 1)).any (· ∈ w.inFlight) then
          .error "records are in flight"
        else .ok (w.setProcess p { process with
          phase := if process.legacy then .backingUp save else .committing save .update })
      | _ => .error "process is not writing"
  | .writeFailed p =>
    match w.processes p with
    | none => .error "process is not connected"
    | some process =>
      match process.phase with
      | .writing _ => .ok (w.setProcess p { process with phase := .failed none })
      | _ => .error "process is not writing"
  | .backedUp p ok =>
    match w.processes p with
    | none => .error "process is not connected"
    | some process =>
      match process.phase with
      | .backingUp save =>
        .ok (if ok then w.setProcess p { process with phase := .committing save .update }
          else w.fail p process save none)
      | _ => .error "process is not backing up"
  | .commit p reply =>
    match w.processes p with
    | none => .error "process is not connected"
    | some process =>
      match process.phase with
      | .committing save kind => .ok (w.commit p process save kind reply)
      | _ => .error "process is not committing"
  | .commitLate p =>
    match w.processes p with
    | none => .error "process is not connected"
    | some process =>
      match process.phase with
      | .failed (some (save, kind)) =>
        .ok ((if kind.Applies w.checkpoint process.version then w.replace process save
          else w).setProcess p { process with phase := .failed none })
      | _ => .error "no commit is pending"
  | .delete deletion record =>
    if deletion ∈ w.deletions ∧ deletion.Matches record then
      .ok { w with records := w.records.erase record }
    else .error "no such deletion"

/-! ## What a step does -/

/-- The steps of a process and of the database, one by one. A step of a process `p` is given with
what `p` is before it. -/
inductive Moves (w : CheckpointWorld) : CheckpointAct → CheckpointWorld → Prop
  | connect (p : ℕ) (legacy : Bool) : w.processes p = none → Moves w (.connect p) (w.setProcess p
      { version := versionOf w.checkpoint, base := w.checkpoint, legacy, phase := .idle })
  | beginSave (p : ℕ) (process : SavingProcess) (save : SnapshotSave) :
    w.processes p = some process → process.phase = .idle → save.snapshotId ∉ w.usedIds →
    Moves w (.beginSave p save.snapshotId save.counts)
      { w.setProcess p { process with phase := .writing save } with
        inFlight := savedAs save (process.version + 1) ++ w.inFlight
        usedIds := save.snapshotId :: w.usedIds }
  | storeRecord (record : StoredRecord) : record ∈ w.inFlight → Moves w (.storeRecord record)
      { w with inFlight := w.inFlight.erase record, records := record :: w.records }
  | written (p : ℕ) (process : SavingProcess) (save : SnapshotSave) (phase : SavePhase) :
    w.processes p = some process → process.phase = .writing save →
    (∀ record ∈ savedAs save (process.version + 1), record ∉ w.inFlight) →
    phase = .backingUp save ∨ phase = .committing save .update →
    Moves w (.written p) (w.setProcess p { process with phase := phase })
  | writeFailed (p : ℕ) (process : SavingProcess) (save : SnapshotSave) :
    w.processes p = some process → process.phase = .writing save →
    Moves w (.writeFailed p) (w.setProcess p { process with phase := .failed none })
  | backedUp (p : ℕ) (process : SavingProcess) (save : SnapshotSave) :
    w.processes p = some process → process.phase = .backingUp save →
    Moves w (.backedUp p true)
      (w.setProcess p { process with phase := .committing save .update })
  | backupFailed (p : ℕ) (process : SavingProcess) (save : SnapshotSave) :
    w.processes p = some process → process.phase = .backingUp save →
    Moves w (.backedUp p false) (w.fail p process save none)
  | committed (p : ℕ) (process : SavingProcess) (save : SnapshotSave) (kind : CommitKind) :
    w.processes p = some process → process.phase = .committing save kind →
    kind.Applies w.checkpoint process.version →
    Moves w (.commit p .answered) ((w.replace process save).finish p process save)
  | lost (p : ℕ) (process : SavingProcess) (save : SnapshotSave) (kind : CommitKind) :
    w.processes p = some process → process.phase = .committing save kind →
    kind.Applies w.checkpoint process.version →
    Moves w (.commit p .lost) ((w.replace process save).fail p process save none)
  | missed (p : ℕ) (process : SavingProcess) (save : SnapshotSave) (reply : Reply) :
    w.processes p = some process → process.phase = .committing save .update →
    Moves w (.commit p reply)
      (w.setProcess p { process with phase := .committing save .insert })
  | refused (p : ℕ) (process : SavingProcess) (save : SnapshotSave) (kind : CommitKind)
    (reply : Reply) (pending : Option (SnapshotSave × CommitKind)) :
    w.processes p = some process → process.phase = .committing save kind →
    Moves w (.commit p reply) (w.fail p process save pending)
  | late (p : ℕ) (process : SavingProcess) (save : SnapshotSave) (kind : CommitKind) :
    w.processes p = some process → process.phase = .failed (some (save, kind)) →
    kind.Applies w.checkpoint process.version →
    Moves w (.commitLate p)
      ((w.replace process save).setProcess p { process with phase := .failed none })
  | lateMissed (p : ℕ) (process : SavingProcess) (save : SnapshotSave) (kind : CommitKind) :
    w.processes p = some process → process.phase = .failed (some (save, kind)) →
    Moves w (.commitLate p) (w.setProcess p { process with phase := .failed none })
  | delete (deletion : Deletion) (record : StoredRecord) : deletion ∈ w.deletions →
    deletion.Matches record →
    Moves w (.delete deletion record) { w with records := w.records.erase record }

/-- **Every step is one of these.** -/
theorem moves_of_step {w w' : CheckpointWorld} {act : CheckpointAct} (h : w.step act = .ok w') :
    w.Moves act w' := by
  cases act with
  | connect p =>
    unfold step at h
    cases hp : w.processes p with
    | some process => simp [hp] at h
    | none =>
      simp only [hp, Except.ok.injEq] at h
      subst h
      exact .connect p _ hp
  | beginSave p snapshotId counts =>
    unfold step at h
    cases hp : w.processes p with
    | none => simp [hp] at h
    | some process =>
      cases hphase : process.phase <;> simp only [hp, hphase, reduceCtorEq] at h
      split_ifs at h with hused
      obtain rfl := Except.ok.inj h
      exact .beginSave p process ⟨snapshotId, counts⟩ hp hphase hused
  | storeRecord record =>
    unfold step at h
    dsimp only at h
    split_ifs at h with hrecord
    obtain rfl := Except.ok.inj h
    exact .storeRecord record hrecord
  | written p =>
    unfold step at h
    cases hp : w.processes p with
    | none => simp [hp] at h
    | some process =>
      cases hphase : process.phase <;> simp only [hp, hphase, reduceCtorEq] at h
      next save =>
      have hnone (hflight : ¬ ((savedAs save (process.version + 1)).any (· ∈ w.inFlight)) = true) :
          ∀ record ∈ savedAs save (process.version + 1), record ∉ w.inFlight := fun record hrecord
        hin => hflight (List.any_eq_true.mpr ⟨record, hrecord, decide_eq_true hin⟩)
      split_ifs at h with hflight hlegacy
      · obtain rfl := Except.ok.inj h
        exact .written p process save _ hp hphase (hnone hflight) (Or.inl rfl)
      · obtain rfl := Except.ok.inj h
        exact .written p process save _ hp hphase (hnone hflight) (Or.inr rfl)
  | writeFailed p =>
    unfold step at h
    cases hp : w.processes p with
    | none => simp [hp] at h
    | some process =>
      cases hphase : process.phase <;> simp only [hp, hphase, reduceCtorEq] at h
      obtain rfl := Except.ok.inj h
      exact .writeFailed p process _ hp hphase
  | backedUp p ok =>
    unfold step at h
    cases hp : w.processes p with
    | none => simp [hp] at h
    | some process =>
      cases hphase : process.phase <;> simp only [hp, hphase, reduceCtorEq] at h
      obtain rfl := Except.ok.inj h
      cases ok with
      | true => exact .backedUp p process _ hp hphase
      | false => exact .backupFailed p process _ hp hphase
  | commit p reply =>
    unfold step at h
    cases hp : w.processes p with
    | none => simp [hp] at h
    | some process =>
      cases hphase : process.phase <;> simp only [hp, hphase, reduceCtorEq] at h
      next save kind =>
      obtain rfl := Except.ok.inj h
      cases reply with
      | answered =>
        unfold commit miss
        dsimp only
        split_ifs with happlies hfirst
        · exact .committed p process save kind hp hphase happlies
        · exact .missed p process save _ hp (hfirst.1 ▸ hphase)
        · exact .refused p process save kind _ none hp hphase
      | lost =>
        unfold commit
        dsimp only
        split_ifs with happlies
        · exact .lost p process save kind hp hphase happlies
        · exact .refused p process save kind _ none hp hphase
      | refused => exact .refused p process save kind _ none hp hphase
      | late => exact .refused p process save kind _ (some (save, kind)) hp hphase
  | commitLate p =>
    unfold step at h
    cases hp : w.processes p with
    | none => simp [hp] at h
    | some process =>
      cases hphase : process.phase <;> simp only [hp, hphase, reduceCtorEq] at h
      next pending =>
      cases pending with
      | none => cases h
      | some pending =>
        obtain ⟨save, kind⟩ := pending
        dsimp only at h
        split_ifs at h with happlies
        · obtain rfl := Except.ok.inj h
          exact .late p process save kind hp hphase happlies
        · obtain rfl := Except.ok.inj h
          exact .lateMissed p process save kind hp hphase
  | delete deletion record =>
    unfold step at h
    dsimp only at h
    split_ifs at h with hmatch
    obtain rfl := Except.ok.inj h
    exact .delete deletion record hmatch.1 hmatch.2

/-! ## Durability -/

/-- The checkpoint names a snapshot all of whose records are present, if it names one. -/
def Durable (w : CheckpointWorld) : Prop :=
  ∀ document ∈ w.checkpoint, ∀ snapshotId ∈ document.snapshotId, ∀ field,
    ∀ ordinal < document.counts field,
      snapshotRecordAt snapshotId (versionOf w.checkpoint) field ordinal ∈ w.records

/-- A database before any process has connected. -/
structure Initial (w : CheckpointWorld) : Prop where
  durable : w.Durable
  used : ∀ document ∈ w.checkpoint, ∀ snapshotId ∈ document.snapshotId, snapshotId ∈ w.usedIds
  deletions : w.deletions = []
  inFlight : w.inFlight = []
  processes : ∀ p, w.processes p = none

end CheckpointWorld

end Pnlx.Server
