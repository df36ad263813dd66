import Pnlx.Server.Checkpoints

/-!
# The checkpoint in the database

Any number of processes save to the same database, with every interleaving of their requests and
every failure.

`checkpoint_durability`: in every run a checkpoint is only replaced by one with a greater version, by
a process that has built on it. If no commit that is carried out is answered with an error, the
checkpoint always names a snapshot all of whose records are present.

`lostReply_not_durable`: a process that is told that its commit failed deletes the records that the
committed checkpoint names.
-/

namespace Pnlx.Server

open BatchMatch (Text)

/-- The save that a process may still commit. -/
def SavePhase.save : SavePhase → Option SnapshotSave
  | writing save | backingUp save | committing save _ => some save
  | idle | failed _ => none

theorem mem_savedAs {save : SnapshotSave} {version : ℕ} {record : StoredRecord} :
    record ∈ savedAs save version ↔
      record.snapshotId = save.snapshotId ∧ record.version = version ∧
        record.ordinal < save.counts record.field := by
  unfold savedAs
  simp only [List.mem_flatMap, List.mem_map, List.mem_range]
  constructor
  · rintro ⟨field, -, ordinal, hordinal, rfl⟩
    exact ⟨rfl, rfl, hordinal⟩
  · rintro ⟨hid, hversion, hordinal⟩
    refine ⟨record.field, mem_protocolSnapshotFields _, record.ordinal, hordinal, ?_⟩
    cases record
    cases hid
    cases hversion
    rfl

namespace CheckpointWorld

variable {w w' : CheckpointWorld} {act : CheckpointAct} {p q : ℕ}
  {process process' : SavingProcess} {save : SnapshotSave} {kind : CommitKind}

theorem processes_setProcess : (w.setProcess p process).processes q =
    if q = p then some process else w.processes q := by
  unfold setProcess
  by_cases h : q = p
  · subst h
    rw [if_pos rfl]
    exact Function.update_self ..
  · rw [if_neg h]
    exact Function.update_of_ne h ..

/-- A process after a step that changes one: the changed one, or another. -/
theorem of_setProcess (h : (w.setProcess p process).processes q = some process') :
    q = p ∧ process' = process ∨ q ≠ p ∧ w.processes q = some process' := by
  rw [processes_setProcess] at h
  split_ifs at h with hq
  · exact Or.inl ⟨hq, (Option.some.inj h).symm⟩
  · exact Or.inr ⟨hq, h⟩

/-! ## Versions -/

/-- Every process knows the version of what it has built on, which is the checkpoint unless the
checkpoint is newer. -/
def Built (w : CheckpointWorld) : Prop :=
  ∀ p process, w.processes p = some process → versionOf process.base = process.version ∧
    process.version ≤ versionOf w.checkpoint ∧
    (process.version = versionOf w.checkpoint → process.base = w.checkpoint)

/-- A commit replaces the checkpoint that its process has built on. -/
theorem Built.applies (h : w.Built) (hp : w.processes p = some process)
    (happlies : kind.Applies w.checkpoint process.version) :
    process.version = versionOf w.checkpoint ∧ process.base = w.checkpoint := by
  obtain ⟨-, hle, heq⟩ := h p process hp
  have hversion : process.version = versionOf w.checkpoint := by
    cases kind with
    | update =>
      obtain ⟨document, hdocument, hversion⟩ := happlies
      rw [Option.mem_def.mp hdocument]
      exact hversion.symm
    | insert =>
      have hnone : w.checkpoint = none := happlies
      rw [hnone] at hle ⊢
      exact Nat.le_zero.mp hle
  exact ⟨hversion, heq hversion⟩

/-- A process that changes only its phase. -/
theorem Built.setPhase (h : w.Built) (hp : w.processes p = some process) (phase : SavePhase) :
    (w.setProcess p { process with phase := phase }).Built := by
  intro q process' hq
  rcases of_setProcess hq with ⟨-, rfl⟩ | ⟨-, hq⟩
  · exact h p process hp
  · exact h q process' hq

/-- The checkpoint is replaced by one with the next version. -/
theorem Built.replace (h : w.Built) (hp : w.processes p = some process)
    (happlies : kind.Applies w.checkpoint process.version) (save : SnapshotSave) :
    (w.replace process save).Built := by
  obtain ⟨hversion, -⟩ := h.applies hp happlies
  intro q process' hq
  obtain ⟨hbase, hle, -⟩ := h q process' hq
  have hnew : versionOf (w.replace process save).checkpoint = process.version + 1 := rfl
  refine ⟨hbase, by omega, fun heq => ?_⟩
  rw [hnew] at heq
  omega

/-- **Every step keeps what the processes have built on.** -/
theorem Built.moves (h : w.Built) (hmoves : w.Moves act w') : w'.Built := by
  cases hmoves with
  | connect p legacy hp =>
    intro q process' hq
    rcases of_setProcess hq with ⟨-, rfl⟩ | ⟨-, hq⟩
    · exact ⟨rfl, le_rfl, fun _ => rfl⟩
    · exact h q process' hq
  | beginSave p process save hp => exact h.setPhase hp _
  | storeRecord record => exact h
  | written p process save phase hp => exact h.setPhase hp _
  | writeFailed p process save hp => exact h.setPhase hp _
  | backedUp p process save hp => exact h.setPhase hp _
  | backupFailed p process save hp => exact h.setPhase hp _
  | committed p process save kind hp hphase happlies =>
    intro q process' hq
    rcases of_setProcess hq with ⟨-, rfl⟩ | ⟨-, hq⟩
    · exact ⟨rfl, le_rfl, fun _ => rfl⟩
    · exact h.replace hp happlies save q process' hq
  | lost p process save kind hp hphase happlies =>
    exact (h.replace hp happlies save).setPhase hp _
  | missed p process save reply hp => exact h.setPhase hp _
  | refused p process save kind reply pending hp => exact h.setPhase hp _
  | late p process save kind hp hphase happlies =>
    exact (h.replace hp happlies save).setPhase hp _
  | lateMissed p process save kind hp => exact h.setPhase hp _
  | delete => exact h

/-- The process of a commit. -/
def CommitOf (act : CheckpointAct) (p : ℕ) : Prop :=
  (∃ reply, act = .commit p reply) ∨ act = .commitLate p

/-- **A checkpoint is only replaced by one with a greater version**, and by a process that has built
on it. -/
theorem replaced_of_moves (h : w.Built) (hmoves : w.Moves act w')
    (hne : w'.checkpoint ≠ w.checkpoint) :
    versionOf w.checkpoint < versionOf w'.checkpoint ∧ ∃ p process, CommitOf act p ∧
      w.processes p = some process ∧ process.version = versionOf w.checkpoint ∧
      process.base = w.checkpoint := by
  cases hmoves with
  | committed p process save kind hp hphase happlies =>
    obtain ⟨hversion, hbase⟩ := h.applies hp happlies
    exact ⟨hversion ▸ Nat.lt_succ_self _, p, process, Or.inl ⟨_, rfl⟩, hp, hversion, hbase⟩
  | lost p process save kind hp hphase happlies =>
    obtain ⟨hversion, hbase⟩ := h.applies hp happlies
    exact ⟨hversion ▸ Nat.lt_succ_self _, p, process, Or.inl ⟨_, rfl⟩, hp, hversion, hbase⟩
  | late p process save kind hp hphase happlies =>
    obtain ⟨hversion, hbase⟩ := h.applies hp happlies
    exact ⟨hversion ▸ Nat.lt_succ_self _, p, process, Or.inr rfl, hp, hversion, hbase⟩
  | _ => exact absurd rfl hne

/-! ## Records -/

/-- The checkpoint names a snapshot. -/
def Names (w : CheckpointWorld) (snapshotId : Text) : Prop :=
  ∃ document ∈ w.checkpoint, document.snapshotId = some snapshotId

/-- What holds of a save that may still be committed: its identifier is its own, nothing deletes its
records by it, and each record is stored, on its way, or deleted as too old. -/
structure Pending (w : CheckpointWorld) (process : SavingProcess) (save : SnapshotSave) : Prop where
  used : save.snapshotId ∈ w.usedIds
  unnamed : ¬ w.Names save.snapshotId
  kept : .ofSnapshot save.snapshotId ∉ w.deletions
  saved : ∀ record ∈ savedAs save (process.version + 1), record ∈ w.records ∨
    (process.phase = .writing save ∧ record ∈ w.inFlight) ∨
    ∃ m, .below m ∈ w.deletions ∧ (record.version : ℤ) < m

/-- No deletion meets the records of the checkpoint, and every save may still be committed. -/
structure Guarded (w : CheckpointWorld) : Prop where
  durable : w.Durable
  pruned : ∀ m : ℤ, .below m ∈ w.deletions → m ≤ versionOf w.checkpoint
  deleted : ∀ snapshotId, .ofSnapshot snapshotId ∈ w.deletions →
    snapshotId ∈ w.usedIds ∧ ¬ w.Names snapshotId
  named : ∀ snapshotId, w.Names snapshotId → snapshotId ∈ w.usedIds
  pending : ∀ p process save, w.processes p = some process → process.phase.save = some save →
    w.Pending process save
  apart : ∀ p q process process' save save', w.processes p = some process →
    w.processes q = some process' → process.phase.save = some save →
    process'.phase.save = some save' → save.snapshotId = save'.snapshotId → p = q

/-- A process changes to one that saves nothing, or saves the same with all records arrived. -/
theorem Guarded.setProcess (h : w.Guarded) (process : SavingProcess) {next : SavingProcess}
    (hnext : ∀ save ∈ next.phase.save, w.processes p = some process ∧
      process.phase.save = some save ∧ next.version = process.version ∧
      (process.phase = .writing save →
        ∀ record ∈ savedAs save (process.version + 1), record ∉ w.inFlight)) :
    (w.setProcess p next).Guarded where
  durable := h.durable
  pruned := h.pruned
  deleted := h.deleted
  named := h.named
  pending q process' save hq hsave := by
    rcases of_setProcess hq with ⟨-, rfl⟩ | ⟨-, hq⟩
    · obtain ⟨hp, hphase, hversion, hflight⟩ := hnext save hsave
      obtain ⟨hused, hunnamed, hkept, hsaved⟩ := h.pending p process save hp hphase
      refine ⟨hused, hunnamed, hkept, fun record hrecord => ?_⟩
      rw [hversion] at hrecord
      rcases hsaved record hrecord with hstored | ⟨hwriting, hin⟩ | hold
      · exact Or.inl hstored
      · exact absurd hin (hflight hwriting record hrecord)
      · exact Or.inr (Or.inr hold)
    · obtain ⟨hused, hunnamed, hkept, hsaved⟩ := h.pending q process' save hq hsave
      exact ⟨hused, hunnamed, hkept, hsaved⟩
  apart q r process₁ process₂ save₁ save₂ hq hr hsave₁ hsave₂ hid := by
    rcases of_setProcess hq with ⟨rfl, rfl⟩ | ⟨-, hq'⟩ <;>
      rcases of_setProcess hr with ⟨rfl, rfl⟩ | ⟨-, hr'⟩
    · rfl
    · obtain ⟨hp, hphase, -⟩ := hnext save₁ hsave₁
      exact h.apart _ _ _ _ _ _ hp hr' hphase hsave₂ hid
    · obtain ⟨hp, hphase, -⟩ := hnext save₂ hsave₂
      exact h.apart _ _ _ _ _ _ hq' hp hsave₁ hphase hid
    · exact h.apart _ _ _ _ _ _ hq' hr' hsave₁ hsave₂ hid

/-- A process gives its save up. -/
theorem Guarded.giveUp (h : w.Guarded) {next : SavingProcess} (hnext : next.phase.save = none) :
    (w.setProcess p next).Guarded :=
  h.setProcess next fun save hsave => by rw [hnext] at hsave; cases hsave

/-- A process that is past the writing keeps its save. -/
theorem Guarded.goOn (h : w.Guarded) (hp : w.processes p = some process) {phase : SavePhase}
    (hphase : phase.save = process.phase.save) (hwriting : ∀ save, process.phase ≠ .writing save) :
    (w.setProcess p { process with phase := phase }).Guarded :=
  h.setProcess process fun save hsave =>
    ⟨hp, hphase ▸ hsave, rfl, fun hphase => absurd hphase (hwriting save)⟩

/-- A process fails and deletes the records of its save. -/
theorem Guarded.fail (h : w.Guarded) (hp : w.processes p = some process)
    (hsave : process.phase.save = some save) (pending : Option (SnapshotSave × CommitKind)) :
    (w.fail p process save pending).Guarded := by
  obtain ⟨hused, hunnamed, -, -⟩ := h.pending p process save hp hsave
  have hrest : (w.setProcess p { process with phase := .failed pending }).Guarded := h.giveUp rfl
  refine ⟨hrest.durable, fun m hm => ?_, fun id hid => ?_, hrest.named, fun q other save' hq hsave' =>
    ?_, hrest.apart⟩
  · rcases List.mem_cons.mp hm with hm | hm
    · cases hm
    · exact hrest.pruned m hm
  · rcases List.mem_cons.mp hid with hid | hid
    · cases hid
      exact ⟨hused, hunnamed⟩
    · exact hrest.deleted id hid
  · obtain ⟨hused', hunnamed', hkept', hsaved'⟩ := hrest.pending q other save' hq hsave'
    refine ⟨hused', hunnamed', fun hmem => ?_, fun record hrecord => ?_⟩
    · rcases List.mem_cons.mp hmem with he | hmem
      · -- the identifier belongs to the failed process, which saves nothing
        rcases of_setProcess hq with ⟨-, rfl⟩ | ⟨hne, hq⟩
        · cases hsave'
        · exact hne (h.apart q p _ _ _ _ hq hp hsave' hsave (Deletion.ofSnapshot.inj he))
      · exact hkept' hmem
    · rcases hsaved' record hrecord with hstored | hin | ⟨m, hm, hold⟩
      · exact Or.inl hstored
      · exact Or.inr (Or.inl hin)
      · exact Or.inr (Or.inr ⟨m, List.mem_cons_of_mem _ hm, hold⟩)

theorem mem_prune {version : ℕ} {deletion : Deletion} (h : deletion ∈ prune version) :
    ∃ m : ℤ, deletion = .below m ∧ m ≤ version := by
  unfold prune at h
  dsimp only at h
  split_ifs at h
  · exact absurd h List.not_mem_nil
  · refine ⟨_, List.mem_singleton.mp h, ?_⟩
    unfold normalizedSnapshotRetention
    omega

/-- **A commit that is answered** names a snapshot whose records are all there. -/
theorem Guarded.commit (h : w.Guarded) (hbuilt : w.Built) (hp : w.processes p = some process)
    (hphase : process.phase = .committing save kind)
    (happlies : kind.Applies w.checkpoint process.version) :
    ((w.replace process save).finish p process save).Guarded := by
  obtain ⟨hversion, -⟩ := hbuilt.applies hp happlies
  have hsave : process.phase.save = some save := by rw [hphase]; rfl
  obtain ⟨hused, hunnamed, hkept, hsaved⟩ := h.pending p process save hp hsave
  have hnames {id : Text} : ((w.replace process save).finish p process save).Names id ↔
      id = save.snapshotId := by
    constructor
    · rintro ⟨document, hdocument, hid⟩
      obtain rfl := Option.some.inj hdocument
      exact (Option.some.inj hid).symm
    · rintro rfl
      exact ⟨_, rfl, rfl⟩
  refine ⟨?_, fun m hm => ?_, fun id hid => ?_, fun id hid => ?_, fun q other save' hq hsave' => ?_,
    fun q r process₁ process₂ save₁ save₂ hq hr hsave₁ hsave₂ hid => ?_⟩
  · intro document hdocument id hid field ordinal hordinal
    obtain rfl := Option.some.inj hdocument
    obtain rfl := Option.some.inj hid
    -- a deletion of old records is for versions up to the replaced one
    have hrecord : snapshotRecordAt save.snapshotId (process.version + 1) field ordinal ∈
        savedAs save (process.version + 1) := mem_savedAs.mpr ⟨rfl, rfl, hordinal⟩
    rcases hsaved _ hrecord with hstored | ⟨hwriting, -⟩ | ⟨m, hm, hold⟩
    · exact hstored
    · rw [hphase] at hwriting
      cases hwriting
    · have hle := h.pruned m hm
      rw [← hversion] at hle
      have hlt : ((process.version + 1 : ℕ) : ℤ) < m := hold
      omega
  · show m ≤ ((process.version + 1 : ℕ) : ℤ)
    rcases List.mem_append.mp hm with hm | hm
    · obtain ⟨m', he, hle⟩ := mem_prune hm
      cases he
      exact hle
    · have hle := h.pruned m hm
      rw [← hversion] at hle
      omega
  · rcases List.mem_append.mp hid with hid | hid
    · obtain ⟨m, he, -⟩ := mem_prune hid
      cases he
    · refine ⟨(h.deleted id hid).1, fun hname => hkept ?_⟩
      rw [← hnames.mp hname]
      exact hid
  · rw [hnames.mp hid]
    exact hused
  · rcases of_setProcess hq with ⟨-, rfl⟩ | ⟨hne, hq⟩
    · cases hsave'
    · obtain ⟨hused', hunnamed', hkept', hsaved'⟩ := h.pending q other save' hq hsave'
      refine ⟨hused', fun hname => hne ?_, fun hmem => ?_, fun record hrecord => ?_⟩
      · exact h.apart q p _ _ _ _ hq hp hsave' hsave (hnames.mp hname)
      · rcases List.mem_append.mp hmem with hmem | hmem
        · obtain ⟨m, he, -⟩ := mem_prune hmem
          cases he
        · exact hkept' hmem
      · rcases hsaved' record hrecord with hstored | hin | ⟨m, hm, hold⟩
        · exact Or.inl hstored
        · exact Or.inr (Or.inl hin)
        · exact Or.inr (Or.inr ⟨m, List.mem_append_right _ hm, hold⟩)
  · rcases of_setProcess hq with ⟨-, rfl⟩ | ⟨-, hq⟩
    · cases hsave₁
    · rcases of_setProcess hr with ⟨-, rfl⟩ | ⟨-, hr⟩
      · cases hsave₂
      · exact h.apart _ _ _ _ _ _ hq hr hsave₁ hsave₂ hid

/-- A save begins under an identifier that nothing uses. -/
theorem Guarded.beginSave (h : w.Guarded) (process : SavingProcess) (hfresh : save.snapshotId ∉ w.usedIds) :
    Guarded { w.setProcess p { process with phase := .writing save } with
      inFlight := savedAs save (process.version + 1) ++ w.inFlight
      usedIds := save.snapshotId :: w.usedIds } := by
  refine ⟨h.durable, h.pruned, fun id hid => ?_, fun id hid => ?_, fun q other save' hq hsave' => ?_,
    fun q r process₁ process₂ save₁ save₂ hq hr hsave₁ hsave₂ hid => ?_⟩
  · exact ⟨List.mem_cons_of_mem _ (h.deleted id hid).1, (h.deleted id hid).2⟩
  · exact List.mem_cons_of_mem _ (h.named id hid)
  · rcases of_setProcess hq with ⟨-, rfl⟩ | ⟨-, hq⟩
    · cases hsave'
      refine ⟨List.mem_cons_self, fun hname => hfresh (h.named _ hname),
        fun hmem => hfresh (h.deleted _ hmem).1, fun record hrecord => ?_⟩
      exact Or.inr (Or.inl ⟨rfl, List.mem_append_left _ hrecord⟩)
    · obtain ⟨hused', hunnamed', hkept', hsaved'⟩ := h.pending q other save' hq hsave'
      refine ⟨List.mem_cons_of_mem _ hused', hunnamed', hkept', fun record hrecord => ?_⟩
      rcases hsaved' record hrecord with hstored | ⟨hwriting, hin⟩ | hold
      · exact Or.inl hstored
      · exact Or.inr (Or.inl ⟨hwriting, List.mem_append_right _ hin⟩)
      · exact Or.inr (Or.inr hold)
  · rcases of_setProcess hq with ⟨rfl, rfl⟩ | ⟨-, hq'⟩ <;>
      rcases of_setProcess hr with ⟨rfl, rfl⟩ | ⟨-, hr'⟩
    · rfl
    · cases hsave₁
      exact absurd (hid ▸ (h.pending _ _ _ hr' hsave₂).used) hfresh
    · cases hsave₂
      exact absurd (hid ▸ (h.pending _ _ _ hq' hsave₁).used) hfresh
    · exact h.apart _ _ _ _ _ _ hq' hr' hsave₁ hsave₂ hid

/-- A record arrives. -/
theorem Guarded.storeRecord (h : w.Guarded) (record : StoredRecord) :
    Guarded { w with inFlight := w.inFlight.erase record, records := record :: w.records } := by
  refine ⟨fun document hdocument id hid field ordinal hordinal => List.mem_cons_of_mem _
    (h.durable document hdocument id hid field ordinal hordinal), h.pruned, h.deleted, h.named,
    fun q other save' hq hsave' => ?_, h.apart⟩
  obtain ⟨hused', hunnamed', hkept', hsaved'⟩ := h.pending q other save' hq hsave'
  refine ⟨hused', hunnamed', hkept', fun other hother => ?_⟩
  rcases hsaved' other hother with hstored | ⟨hwriting, hin⟩ | hold
  · exact Or.inl (List.mem_cons_of_mem _ hstored)
  · by_cases he : other = record
    · exact Or.inl (he ▸ List.mem_cons_self)
    · exact Or.inr (Or.inl ⟨hwriting, (List.mem_erase_of_ne he).mpr hin⟩)
  · exact Or.inr (Or.inr hold)

/-- A deletion meets a record. -/
theorem Guarded.delete (h : w.Guarded) {deletion : Deletion} {record : StoredRecord}
    (hdeletion : deletion ∈ w.deletions) (hmatch : deletion.Matches record) :
    Guarded { w with records := w.records.erase record } := by
  refine ⟨fun document hdocument id hid field ordinal hordinal => ?_, h.pruned, h.deleted, h.named,
    fun q other save' hq hsave' => ?_, h.apart⟩
  · have hstored := h.durable document hdocument id hid field ordinal hordinal
    refine (List.mem_erase_of_ne fun he => ?_).mpr hstored
    rw [← he] at hmatch
    cases deletion with
    | ofSnapshot other =>
      obtain rfl : id = other := hmatch
      exact (h.deleted id hdeletion).2 ⟨document, hdocument, hid⟩
    | below m =>
      have hlt : (versionOf w.checkpoint : ℤ) < m := hmatch
      have hle := h.pruned m hdeletion
      omega
  · obtain ⟨hused', hunnamed', hkept', hsaved'⟩ := h.pending q other save' hq hsave'
    refine ⟨hused', hunnamed', hkept', fun other hother => ?_⟩
    rcases hsaved' other hother with hstored | hin | hold
    · by_cases he : other = record
      · subst he
        cases deletion with
        | ofSnapshot id =>
          have hid : other.snapshotId = id := hmatch
          rw [(mem_savedAs.mp hother).1] at hid
          exact absurd (hid ▸ hdeletion) hkept'
        | below m => exact Or.inr (Or.inr ⟨m, hdeletion, hmatch⟩)
      · exact Or.inl ((List.mem_erase_of_ne he).mpr hstored)
    · exact Or.inr (Or.inl hin)
    · exact Or.inr (Or.inr hold)

/-- A commit that is carried out without an answer. -/
def LosesReply (w : CheckpointWorld) (act : CheckpointAct) : Prop :=
  ∃ p process save kind, w.processes p = some process ∧
    (act = .commit p .lost ∧ process.phase = .committing save kind ∨
      act = .commitLate p ∧ process.phase = .failed (some (save, kind))) ∧
    kind.Applies w.checkpoint process.version

/-- **Every step but a commit without an answer keeps the records of the checkpoint.** -/
theorem Guarded.moves (h : w.Guarded) (hbuilt : w.Built) (hmoves : w.Moves act w')
    (hreply : ¬ w.LosesReply act) : w'.Guarded := by
  cases hmoves with
  | connect p legacy hp => exact h.giveUp rfl
  | beginSave p process save hp hphase hfresh => exact h.beginSave process hfresh
  | storeRecord record => exact h.storeRecord record
  | written p process save phase hp hphase hflight hnext =>
    have hsave : phase.save = some save := by rcases hnext with rfl | rfl <;> rfl
    refine h.setProcess process fun save' hsave' => ?_
    obtain rfl : save = save' := Option.some.inj (hsave.symm.trans hsave')
    exact ⟨hp, by rw [hphase]; rfl, rfl, fun _ => hflight⟩
  | writeFailed p process save hp => exact h.giveUp rfl
  | backedUp p process save hp hphase =>
    exact h.goOn hp (by rw [hphase]; rfl) fun _ he => by rw [hphase] at he; cases he
  | backupFailed p process save hp hphase => exact h.fail hp (by rw [hphase]; rfl) none
  | committed p process save kind hp hphase happlies => exact h.commit hbuilt hp hphase happlies
  | lost p process save kind hp hphase happlies =>
    exact absurd ⟨p, process, save, kind, hp, Or.inl ⟨rfl, hphase⟩, happlies⟩ hreply
  | missed p process save reply hp hphase =>
    exact h.goOn hp (by rw [hphase]; rfl) fun _ he => by rw [hphase] at he; cases he
  | refused p process save kind reply pending hp hphase =>
    exact h.fail hp (by rw [hphase]; rfl) pending
  | late p process save kind hp hphase happlies =>
    exact absurd ⟨p, process, save, kind, hp, Or.inr ⟨rfl, hphase⟩, happlies⟩ hreply
  | lateMissed p process save kind hp => exact h.giveUp rfl
  | delete deletion record hdeletion hmatch => exact h.delete hdeletion hmatch

theorem Initial.built (h : w.Initial) : w.Built := by
  intro p process hp
  rw [h.processes p] at hp
  cases hp

theorem Initial.guarded (h : w.Initial) : w.Guarded where
  durable := h.durable
  pruned m hm := by
    rw [h.deletions] at hm
    exact absurd hm List.not_mem_nil
  deleted id hid := by
    rw [h.deletions] at hid
    exact absurd hid List.not_mem_nil
  named id := fun ⟨document, hdocument, hid⟩ => h.used document hdocument id hid
  pending p process save hp := by
    rw [h.processes p] at hp
    cases hp
  apart p q process process' save save' hp := by
    rw [h.processes p] at hp
    cases hp

/-! ## Runs -/

/-- **Checkpoint durability.** In every run of processes on a database a checkpoint is only replaced
by one with a greater version, by a process that has built on it. In every run in which no commit is
carried out without an answer, the checkpoint names a snapshot all of whose records are present,
before and after every step. -/
theorem checkpoint_durability (hw : w.Initial) (acts : List CheckpointAct) :
    (∀ x ∈ Runs.accepted step w acts, x.post.checkpoint ≠ x.pre.checkpoint →
      versionOf x.pre.checkpoint < versionOf x.post.checkpoint ∧
        ∃ p process, CommitOf x.act p ∧ x.pre.processes p = some process ∧
          process.version = versionOf x.pre.checkpoint ∧ process.base = x.pre.checkpoint) ∧
    ((∀ x ∈ Runs.accepted step w acts, ¬ x.pre.LosesReply x.act) →
      ∀ x ∈ Runs.accepted step w acts, x.pre.Durable ∧ x.post.Durable) := by
  have hbuilt : ∀ x ∈ Runs.accepted step w acts, x.pre.Built ∧ x.post.Built :=
    @Runs.around_of_accepted _ _ _ step (fun _ => True) Built
      (fun x _ hstep hinv => hinv.moves (moves_of_step hstep)) w acts hw.built fun _ _ => trivial
  refine ⟨fun x hx hne => ?_, fun hreply x hx => ?_⟩
  · exact replaced_of_moves (hbuilt x hx).1 (moves_of_step (Runs.accepted_ok x hx).1) hne
  · have hguarded := @Runs.around_of_accepted _ _ _ step (fun x => ¬ x.pre.LosesReply x.act)
      (fun w => w.Built ∧ w.Guarded) (fun x hx hstep hinv =>
        ⟨hinv.1.moves (moves_of_step hstep), hinv.2.moves hinv.1 (moves_of_step hstep) hx⟩)
      w acts ⟨hw.built, hw.guarded⟩ hreply x hx
    exact ⟨hguarded.1.2.durable, hguarded.2.2.durable⟩

/-! ## A save of one record -/

/-- A new database. -/
def newDatabase : CheckpointWorld where
  checkpoint := none
  records := []
  inFlight := []
  deletions := []
  usedIds := []
  processes _ := none

theorem initial_newDatabase : newDatabase.Initial where
  durable _ hdocument := by cases hdocument
  used _ hdocument := by cases hdocument
  deletions := rfl
  inFlight := rfl
  processes _ := rfl

def oneProof (field : SnapshotField) : ℕ := if field = .set .proofs then 1 else 0

def proofRecord : StoredRecord := snapshotRecordAt ['a'] 1 (.set .proofs) 0

/-- A process saves a snapshot of one record. Its first commit inserts the checkpoint. -/
def saveOne (reply : Reply) : List CheckpointAct :=
  [.connect 0, .beginSave 0 ['a'] oneProof, .storeRecord proofRecord, .written 0,
    .commit 0 .answered, .commit 0 reply, .delete (.ofSnapshot ['a']) proofRecord]

theorem checkpoint_durability_saveOne :
    (∀ x ∈ Runs.accepted step newDatabase (saveOne .answered), x.pre.Durable ∧ x.post.Durable) ∧
      (Runs.final step newDatabase (saveOne .answered)).checkpoint.isSome = true := by
  refine ⟨(checkpoint_durability initial_newDatabase (saveOne .answered)).2 ?_, by decide +kernel⟩
  rintro x hx ⟨p, process, save, kind, -, hact | hact, -⟩
  all_goals
    have hmem := (Runs.accepted_ok x hx).2
    rw [hact.1] at hmem
    simp [saveOne] at hmem

/-- **The records of a committed checkpoint are deleted** when the reply to the commit is lost. -/
theorem lostReply_not_durable : newDatabase.Initial ∧
    (Runs.final step newDatabase (saveOne .lost)).checkpoint.isSome = true ∧
    ¬ (Runs.final step newDatabase (saveOne .lost)).Durable := by
  refine ⟨initial_newDatabase, by decide +kernel, fun hdurable => ?_⟩
  have hrecord := hdurable (committedDocument ⟨['a'], oneProof⟩ 1) rfl ['a'] rfl (.set .proofs) 0
    (by decide)
  have hrecords : (Runs.final step newDatabase (saveOne .lost)).records = [] := by decide +kernel
  rw [hrecords] at hrecord
  exact absurd hrecord List.not_mem_nil

end CheckpointWorld

end Pnlx.Server
