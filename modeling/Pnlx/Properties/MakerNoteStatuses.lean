import Pnlx.Properties.MakerRegistration
import Pnlx.SampleHost
import Pnlx.Server.MakerLiquidity

/-!
# The statuses of maker notes

Runs of the maker-liquidity service, claims, drains and withdrawals share the notes, with every
interleaving of their requests, and each may end between two of them.

`never_back_iff`: no note goes back exactly when no write of a whole note comes late. A write comes
late when it meets a note that has been spent, drained or withdrawn, or one that is claimed by an
open intent. A release of a claim that its run has read, for an intent that its run has seen in the
store, is not late: the run has cancelled the intent before.
-/

namespace Pnlx.Server

open BatchMatch (Text)
open Interleaving

/-! ## Statuses -/

/-- The note is no longer offered. -/
def MakerNoteStatus.Gone (status : MakerNoteStatus) : Prop :=
  status = .draining ∨ status = .withdrawing ∨ status = .spent

/-- The note is claimed by the intent. -/
def MakerNote.LockedBy (note : MakerNote) (intent : Text) : Prop :=
  note.status = .locked ∧ note.lockedByIntentCommitment = some intent

theorem MakerNote.LockedBy.not_gone {note : MakerNote} {intent : Text} (h : note.LockedBy intent) :
    ¬ note.status.Gone := by
  rw [h.1]
  rintro (h | h | h) <;> cases h

namespace LiquidityState

/-- Documents are kept under the commitments of their notes. -/
def Keyed (s : LiquidityState) : Prop :=
  ∀ c note, s.db.notes.get? c = some note → note.commitment = c

def GoneAt (s : LiquidityState) (c : Text) : Prop :=
  ∃ note, s.db.notes.get? c = some note ∧ note.status.Gone

def ClaimedAt (s : LiquidityState) (c intent : Text) : Prop :=
  ∃ note, s.db.notes.get? c = some note ∧ note.LockedBy intent

def SpentAt (s : LiquidityState) (c : Text) : Prop :=
  ∃ note, s.db.notes.get? c = some note ∧ note.status = .spent

/-- No note goes back in a step. -/
structure Forward (s s' : LiquidityState) : Prop where
  gone : ∀ c, s.GoneAt c → s'.GoneAt c
  claimed : ∀ c intent, s.ClaimedAt c intent → s.store.IntentOpen intent →
    s'.ClaimedAt c intent ∨ s'.SpentAt c

end LiquidityState

/-! ## Requests -/

abbrev LiquidityLog := List (LiquidityRequest × LiquidityState)

/-- The run has read the note as claimed by the intent. -/
def ReadClaim (log : LiquidityLog) (c intent : Text) : Prop :=
  ∃ order s, (.readNotes order, s) ∈ log ∧ s.ClaimedAt c intent

/-- The request looks at the store. -/
def Looks (req : LiquidityRequest) : Prop := req = .readStore ∨ ∃ now notes, req = .reap now notes

/-- The run has seen the intent in the store. -/
def SeenIntent (log : LiquidityLog) (intent : Text) : Prop :=
  ∃ req s, (req, s) ∈ log ∧ Looks req ∧ (s.store.intents.get? intent).isSome

/-- A write of a whole note comes late. -/
def WritesLate (log : LiquidityLog) : LiquidityRequest → LiquidityState → Prop
  | .release note, s => s.GoneAt note.commitment ∨ ∃ intent,
    s.ClaimedAt note.commitment intent ∧ s.store.IntentOpen intent ∧
      ¬ (ReadClaim log note.commitment intent ∧ SeenIntent log intent)
  | .save note, s => note.status ≠ .spent ∧ (s.GoneAt note.commitment ∨ ∃ intent,
    s.ClaimedAt note.commitment intent ∧ s.store.IntentOpen intent ∧ ¬ note.LockedBy intent)
  | _, _ => False

/-- What the routines ensure before a request. -/
def LiquidityPre (log : LiquidityLog) : LiquidityRequest → LiquidityState → Prop
  | .release note, s => note.status = .available ∧ ∀ intent, ReadClaim log note.commitment intent →
    SeenIntent log intent → ¬ s.store.IntentOpen intent
  | .save note, _ =>
    note.status = .spent ∨ note.status = .available ∨ ∃ intent, note.LockedBy intent
  | .transition _ source target, _ =>
    (source = .available ∨ source = .draining) ∧ target = .withdrawing
  | _, _ => True

/-- The orders that a settlement opens are new. -/
def OpensNew (_ : LiquidityLog) : LiquidityRequest → LiquidityState → Prop
  | .call call, s => ∀ k ∈ call.opens, s.store.intents.get? k = none
  | _, _ => True

variable {H : Host} {P : Fr → Fr → Fr} {s s' : LiquidityState} {log : LiquidityLog}
  {req : LiquidityRequest} {c intent : Text}

/-! ## The store -/

theorem bookGrown_reapMakerIntent (now : Text → ℤ) (note : MakerNote) :
    Script.Maintains (BookGrown []) (reapMakerIntent now note) := by
  have hcancel (t : ℤ) (k : Text) : Script.Maintains (BookGrown []) (cancelOrder t k none) :=
    (maintains_cancelOrder t k none).mono fun _ _ h => h.grown
  unfold reapMakerIntent
  refine .andThen inferInstance fun store => ?_
  split
  · split_ifs
    · infer_instance
    · exact .andThen inferInstance fun _ => inferInstance
  · infer_instance

theorem bookGrown_reap (now : Text → ℤ) (notes : List MakerNote) :
    Script.Maintains (BookGrown []) (reapOrphanedMakerIntents now notes) := by
  induction notes with
  | nil => exact inferInstanceAs (Script.Maintains (BookGrown []) (pure []))
  | cons note notes ih =>
    exact .andThen (bookGrown_reapMakerIntent now note) fun _ => .andThen ih fun _ => inferInstance

/-- What a request leaves of the book. -/
theorem bookGrown_perform (hok : OpensNew log req s) : ∃ opens,
    (∀ k ∈ opens, s.store.intents.get? k = none) ∧
      BookGrown opens s.store (performLiquidity H P req s).1.store := by
  cases req with
  | reap now notes =>
    exact ⟨[], fun _ h => absurd h List.not_mem_nil, (bookGrown_reap now notes).rel s.store⟩
  | call call => exact ⟨call.opens, hok, bookGrown_after call⟩
  | _ => exact ⟨[], fun _ h => absurd h List.not_mem_nil, refl_of (BookGrown []) _⟩

/-! ## The notes -/

/-- A note does not go back. -/
structure NoteKept (note note' : MakerNote) : Prop where
  commitment : note'.commitment = note.commitment
  gone : note.status.Gone → note'.status.Gone
  claimed : ∀ intent, note.LockedBy intent → note'.LockedBy intent ∨ note'.status = .spent

theorem NoteKept.refl (note : MakerNote) : NoteKept note note :=
  ⟨rfl, id, fun _ h => Or.inl h⟩

/-- An available note may get any status. -/
theorem NoteKept.of_available {note note' : MakerNote} (h : note.status = .available)
    (hcommitment : note'.commitment = note.commitment) : NoteKept note note' := by
  refine ⟨hcommitment, fun hgone => ?_, fun intent hlocked => ?_⟩
  · rw [h] at hgone
    rcases hgone with hgone | hgone | hgone <;> cases hgone
  · cases h.symm.trans hlocked.1

/-- A note that is no longer offered may get another such status. -/
theorem NoteKept.of_gone {note note' : MakerNote} (h : note.status.Gone) (h' : note'.status.Gone)
    (hcommitment : note'.commitment = note.commitment) : NoteKept note note' :=
  ⟨hcommitment, fun _ => h', fun _ hlocked => absurd h hlocked.not_gone⟩

/-- The documents are the same, and no note goes back. -/
def NotesKept (documents documents' : OrderedMap Text MakerNote) : Prop :=
  ∀ c, Option.Rel NoteKept (documents.get? c) (documents'.get? c)

variable {documents documents' : OrderedMap Text MakerNote} {filter : MakerNote → Bool}
  {update : MakerNote → MakerNote}

theorem rel_refl (o : Option MakerNote) : Option.Rel NoteKept o o := by
  cases o with
  | none => exact .none
  | some note => exact .some (.refl note)

theorem NotesKept.refl (documents : OrderedMap Text MakerNote) : NotesKept documents documents :=
  fun c => rel_refl (documents.get? c)

theorem NotesKept.exists_after (h : NotesKept documents documents') {note : MakerNote}
    (hnote : documents.get? c = some note) :
    ∃ note', documents'.get? c = some note' ∧ NoteKept note note' := by
  have hrel := h c
  rw [hnote] at hrel
  cases hafter : documents'.get? c with
  | none =>
    rw [hafter] at hrel
    cases hrel
  | some note' =>
    rw [hafter] at hrel
    cases hrel with
    | some hkept => exact ⟨note', rfl, hkept⟩

theorem NotesKept.exists_before (h : NotesKept documents documents') {note' : MakerNote}
    (hnote : documents'.get? c = some note') :
    ∃ note, documents.get? c = some note ∧ NoteKept note note' := by
  have hrel := h c
  rw [hnote] at hrel
  cases hbefore : documents.get? c with
  | none =>
    rw [hbefore] at hrel
    cases hrel
  | some note =>
    rw [hbefore] at hrel
    cases hrel with
    | some hkept => exact ⟨note, rfl, hkept⟩

theorem notesKept_updateOne (h : ∀ note, filter note = true → NoteKept note (update note)) :
    NotesKept documents (updateOne documents c filter update).1 := by
  rcases updateOne_cases documents c filter update with ⟨old, hold, hfilter, he⟩ | ⟨-, he⟩
  · rw [he]
    intro c'
    by_cases hc : c' = c
    · subst hc
      rw [hold, OrderedMap.get?_set_self]
      exact .some (h old hfilter)
    · rw [OrderedMap.get?_set_of_ne hc]
      exact rel_refl _
  · rw [he]
    exact .refl documents

theorem notesKept_updateMany (h : ∀ note, filter note = true → NoteKept note (update note)) :
    NotesKept documents (updateMany documents filter update) := by
  intro c
  rw [get?_updateMany]
  cases documents.get? c with
  | none => exact .none
  | some note =>
    refine .some ?_
    show NoteKept note (if filter note = true then update note else note)
    split_ifs with hfilter
    · exact h note hfilter
    · exact .refl note

theorem notesKept_performBacking (req : BackingRequest) (db : MakerDatabase) :
    NotesKept db.notes (performBacking req db).1.notes := by
  cases req with
  | tagNote tag =>
    exact notesKept_updateOne fun note h => .of_available (of_decide_eq_true h).1 rfl
  | drainNotes id =>
    exact notesKept_updateMany fun note h => .of_available (of_decide_eq_true h).2 rfl
  | claimNote commitment intentCommitment sourceIntentCommitment vaultAllocationId =>
    exact notesKept_updateOne fun note h => .of_available (of_decide_eq_true h).1 rfl
  | _ => exact .refl db.notes

theorem notesKept_transition {source target : MakerNoteStatus}
    (h : (source = .available ∨ source = .draining) ∧ target = .withdrawing) :
    NotesKept documents (updateOne documents c (fun note => note.status = source) fun note =>
      { note with status := target }).1 := by
  obtain ⟨hsource, rfl⟩ := h
  refine notesKept_updateOne fun note hstatus => ?_
  have hstatus := of_decide_eq_true hstatus
  rcases hsource with rfl | rfl
  · exact .of_available hstatus rfl
  · exact .of_gone (Or.inl hstatus) (Or.inr (Or.inl rfl)) rfl

theorem notesKept_recordRecovery {amount : ℕ} :
    NotesKept documents (updateOne documents c
      (fun note => note.status = .withdrawing ∧ note.amount = amount) fun note =>
        { note with status := .spent }).1 :=
  notesKept_updateOne fun _ h =>
    .of_gone (Or.inr (Or.inl (of_decide_eq_true h).1)) (Or.inr (Or.inr rfl)) rfl

/-! ## Written notes -/

theorem get?_writeNote (clears : Bool) (note : MakerNote)
    (documents : OrderedMap Text MakerNote) : ∃ note', note'.status = note.status ∧
      note'.commitment = note.commitment ∧
      (∀ intent, note.lockedByIntentCommitment = some intent → clears = false →
        note'.lockedByIntentCommitment = some intent) ∧
      ∀ c, (writeNote clears note documents).get? c =
        if c = note.commitment then some note' else documents.get? c := by
  refine ⟨_, ?_, ?_, ?_, fun c => OrderedMap.get?_set ..⟩
  all_goals cases documents.get? note.commitment with
    | none => simp +contextual
    | some old => simp +contextual [mergedNote]

/-! ## What a request does -/

theorem NotesKept.forward (h : NotesKept s.db.notes s'.db.notes) : s.Forward s' := by
  refine ⟨fun c hgone => ?_, fun c intent hclaimed _ => ?_⟩
  · obtain ⟨note, hnote, hstatus⟩ := hgone
    obtain ⟨note', hnote', hkept⟩ := h.exists_after hnote
    exact ⟨note', hnote', hkept.gone hstatus⟩
  · obtain ⟨note, hnote, hlocked⟩ := hclaimed
    obtain ⟨note', hnote', hkept⟩ := h.exists_after hnote
    exact (hkept.claimed intent hlocked).imp (fun h => ⟨note', hnote', h⟩)
      fun h => ⟨note', hnote', h⟩

section Write

variable {clears : Bool} {note : MakerNote}

/-- A write that meets no note that it may not change. -/
theorem forward_write (hs' : s'.db.notes = writeNote clears note s.db.notes)
    (hgone : s.GoneAt note.commitment → note.status = .spent)
    (hclaimed : ∀ intent, s.ClaimedAt note.commitment intent → s.store.IntentOpen intent →
      note.status = .spent ∨ clears = false ∧ note.LockedBy intent) : s.Forward s' := by
  obtain ⟨written, hstatus, -, hlock, hget⟩ := get?_writeNote clears note s.db.notes
  rw [← hs'] at hget
  have hself : s'.db.notes.get? note.commitment = some written := by rw [hget, if_pos rfl]
  refine ⟨fun c h => ?_, fun c intent h hopen => ?_⟩
  · by_cases hc : c = note.commitment
    · subst hc
      exact ⟨written, hself, Or.inr (Or.inr (hstatus.trans (hgone h)))⟩
    · obtain ⟨old, hold, hstatus⟩ := h
      exact ⟨old, by rw [hget, if_neg hc, hold], hstatus⟩
  · by_cases hc : c = note.commitment
    · subst hc
      rcases hclaimed intent h hopen with hspent | ⟨hclears, hlocked⟩
      · exact Or.inr ⟨written, hself, hstatus.trans hspent⟩
      · exact Or.inl ⟨written, hself, hstatus.trans hlocked.1, hlock intent hlocked.2 hclears⟩
    · obtain ⟨old, hold, hlocked⟩ := h
      exact Or.inl ⟨old, by rw [hget, if_neg hc, hold], hlocked⟩

/-- A write that meets a note that it may not change. -/
theorem not_forward_write (hs' : s'.db.notes = writeNote clears note s.db.notes)
    (hnote : note.status = .available ∨ clears = false ∧ ∃ intent, note.LockedBy intent)
    (h : s.GoneAt note.commitment ∨ ∃ intent, s.ClaimedAt note.commitment intent ∧
      s.store.IntentOpen intent ∧ ¬ note.LockedBy intent) : ¬ s.Forward s' := by
  obtain ⟨written, hstatus, -, hlock, hget⟩ := get?_writeNote clears note s.db.notes
  rw [← hs'] at hget
  have hself {other : MakerNote} (hother : s'.db.notes.get? note.commitment = some other) :
      other = written := by
    rw [hget, if_pos rfl] at hother
    exact (Option.some.inj hother).symm
  intro hforward
  rcases h with hgone | ⟨intent, hclaimed, hopen, hother⟩
  · obtain ⟨note', hnote', hgone'⟩ := hforward.gone _ hgone
    rw [hself hnote', hstatus] at hgone'
    rcases hnote with hnote | ⟨-, intent, hlocked⟩
    · rw [hnote] at hgone'
      rcases hgone' with hgone' | hgone' | hgone' <;> cases hgone'
    · exact hlocked.not_gone hgone'
  · rcases hforward.claimed _ intent hclaimed hopen with
      ⟨note', hnote', hlocked⟩ | ⟨note', hnote', hspent⟩
    · rw [hself hnote'] at hlocked
      rcases hnote with hnote | ⟨hclears, intent', hlocked'⟩
      · cases hnote.symm.trans (hstatus.symm.trans hlocked.1)
      · have hsame := (hlock intent' hlocked'.2 hclears).symm.trans hlocked.2
        obtain rfl := Option.some.inj hsame
        exact hother hlocked'
    · rw [hself hnote'] at hspent
      rcases hnote with hnote | ⟨-, intent', hlocked'⟩
      · cases hnote.symm.trans (hstatus.symm.trans hspent)
      · cases hlocked'.1.symm.trans (hstatus.symm.trans hspent)

end Write

/-- A request that is not late moves no note back. -/
theorem forward_perform (hpre : LiquidityPre log req s) (hlate : ¬ WritesLate log req s) :
    s.Forward (performLiquidity H P req s).1 := by
  cases req with
  | backing req => exact (notesKept_performBacking req s.db).forward
  | transition commitment source target => exact (notesKept_transition hpre).forward
  | recordRecovery commitment amount => exact notesKept_recordRecovery.forward
  | release note =>
    refine forward_write rfl (fun h => absurd (Or.inl h) hlate) fun intent hclaimed hopen => ?_
    by_cases hread : ReadClaim log note.commitment intent ∧ SeenIntent log intent
    · exact absurd hopen (hpre.2 intent hread.1 hread.2)
    · exact absurd (Or.inr ⟨intent, hclaimed, hopen, hread⟩) hlate
  | save note =>
    by_cases hspent : note.status = .spent
    · exact forward_write rfl (fun _ => hspent) fun _ _ _ => Or.inl hspent
    · refine forward_write rfl (fun h => absurd ⟨hspent, Or.inl h⟩ hlate)
        fun intent hclaimed hopen => Or.inr ⟨rfl, ?_⟩
      by_contra hlocked
      exact hlate ⟨hspent, Or.inr ⟨intent, hclaimed, hopen, hlocked⟩⟩
  | _ => exact @NotesKept.forward s _ (NotesKept.refl s.db.notes)

/-- A late write moves its note back. -/
theorem not_forward_of_late (hpre : LiquidityPre log req s) (hlate : WritesLate log req s) :
    ¬ s.Forward (performLiquidity H P req s).1 := by
  cases req with
  | release note =>
    refine @not_forward_write s _ true note rfl (Or.inl hpre.1) (hlate.imp_right ?_)
    rintro ⟨intent, hclaimed, hopen, -⟩
    refine ⟨intent, hclaimed, hopen, fun hlocked => ?_⟩
    cases hpre.1.symm.trans hlocked.1
  | save note =>
    refine @not_forward_write s _ false note rfl ?_ hlate.2
    rcases hpre with hspent | havailable | hlocked
    · exact absurd hspent hlate.1
    · exact Or.inl havailable
    · exact Or.inr ⟨rfl, hlocked⟩
  | _ => exact hlate.elim

theorem keyed_perform (h : s.Keyed) (hpre : LiquidityPre log req s) :
    (performLiquidity H P req s).1.Keyed := by
  have hkept {s' : LiquidityState} (hnotes : NotesKept s.db.notes s'.db.notes) : s'.Keyed := by
    intro c note' hnote'
    obtain ⟨note, hnote, hkept⟩ := hnotes.exists_before hnote'
    exact hkept.commitment.trans (h c note hnote)
  have hwrite {s' : LiquidityState} {clears : Bool} {note : MakerNote}
      (hs' : s'.db.notes = writeNote clears note s.db.notes) : s'.Keyed := by
    intro c note' hnote'
    obtain ⟨written, -, hcommitment, -, hget⟩ := get?_writeNote clears note s.db.notes
    rw [hs', hget] at hnote'
    split_ifs at hnote' with hc
    · rw [← Option.some.inj hnote', hcommitment, hc]
    · exact h c note' hnote'
  cases req with
  | backing req => exact hkept (notesKept_performBacking req s.db)
  | transition commitment source target => exact hkept (notesKept_transition hpre)
  | recordRecovery commitment amount => exact hkept notesKept_recordRecovery
  | release note => exact hwrite rfl
  | save note => exact hwrite rfl
  | _ => exact @hkept _ (NotesKept.refl s.db.notes)

/-! ## What a run knows while others run -/

section Routines

abbrev LiquidityStable (H : Host) (P : Fr → Fr → Fr) (I : LiquidityState → Prop) : Prop :=
  Stable (performLiquidity H P) LiquidityPre OpensNew I

abbrev LiquidityKeeps (H : Host) (P : Fr → Fr → Fr) {α : Type} (routine : LiquidityRoutine α)
    (log : LiquidityLog) (I : LiquidityState → Prop)
    (Q : α → LiquidityLog → LiquidityState → Prop) : Prop :=
  Interleaving.Keeps (performLiquidity H P) LiquidityPre OpensNew routine log I Q

theorem stable_keyed : LiquidityStable H P LiquidityState.Keyed :=
  fun _ _ _ hpre _ h => keyed_perform h hpre

theorem stable_exclusive : LiquidityStable H P fun s => s.store.Exclusive := by
  intro log req s _ hok h
  obtain ⟨opens, hfresh, hgrown⟩ := bookGrown_perform hok
  exact hgrown.exclusive hfresh h

theorem stable_known (intent : Text) :
    LiquidityStable H P fun s => (s.store.intents.get? intent).isSome := by
  intro log req s _ hok h
  obtain ⟨opens, -, hgrown⟩ := bookGrown_perform hok
  obtain ⟨record, hrecord⟩ := Option.isSome_iff_exists.mp h
  exact Option.isSome_iff_exists.mpr ⟨record, hgrown.kept intent record hrecord⟩

/-- The intent is in the store, and its order is not open. -/
def ClosedIntent (intent : Text) (store : ProtocolStore) : Prop :=
  (store.intents.get? intent).isSome ∧ store.orderStatus intent ≠ some statusOpen

theorem ClosedIntent.grown {opens : List Text} {store store' : ProtocolStore}
    (h : ClosedIntent intent store) (hgrown : BookGrown opens store store')
    (hfresh : ∀ k ∈ opens, store.intents.get? k = none) : ClosedIntent intent store' := by
  obtain ⟨record, hrecord⟩ := Option.isSome_iff_exists.mp h.1
  refine ⟨Option.isSome_iff_exists.mpr ⟨record, hgrown.kept intent record hrecord⟩, fun hopen => ?_⟩
  rcases hgrown.closed intent h.1 hopen with hbefore | hmem
  · exact h.2 hbefore
  · cases (hfresh intent hmem).symm.trans hrecord

theorem stable_closedIntent (intent : Text) :
    LiquidityStable H P fun s => ClosedIntent intent s.store := by
  intro log req s _ hok h
  obtain ⟨opens, hfresh, hgrown⟩ := bookGrown_perform hok
  exact h.grown hgrown hfresh

/-! ## Routines without a precondition -/

theorem keeps_saveAll {I : LiquidityState → Prop} {notes : List MakerNote}
    (h : ∀ note ∈ notes, ∀ log s, LiquidityPre log (.save note) s) :
    LiquidityKeeps H P (saveAll notes) log I fun _ _ _ => True := by
  induction notes generalizing log I with
  | nil => exact fun _ _ => trivial
  | cons note notes ih =>
    exact keeps_ask_free (h note List.mem_cons_self log) fun _ _ =>
      ih fun other hmem => h other (List.mem_cons_of_mem _ hmem)

theorem keeps_indexMakerMarginCommitments {I : LiquidityState → Prop} (notes : List MakerNote) :
    LiquidityKeeps H P (indexMakerMarginCommitments notes) log I fun _ _ _ => True := by
  induction notes generalizing log I with
  | nil => exact fun _ _ => trivial
  | cons note notes ih =>
    unfold indexMakerMarginCommitments
    split_ifs
    · exact ih
    · exact keeps_ask_free (fun _ => trivial) fun _ _ => ih

theorem lockedBy_of_mem_lockMakerNote {notes : List MakerNote} {source : Text} {note : MakerNote}
    (h : note ∈ (lockMakerNote notes c intent source).filter fun other => other.commitment = c) :
    note.LockedBy intent := by
  obtain ⟨hmem, hcommitment⟩ := List.mem_filter.mp h
  obtain ⟨old, -, rfl⟩ := List.mem_map.mp hmem
  split_ifs at hcommitment ⊢ with hc
  · exact ⟨rfl, rfl⟩
  · exact absurd (of_decide_eq_true hcommitment) hc

theorem keeps_offerNotes {source : Text} {continues : List MakerNote → LiquidityRoutine Unit}
    (hcontinues : ∀ notes log I, LiquidityKeeps H P (continues notes) log I fun _ _ _ => True)
    (allocations : List (MakerOffer × MakerNote)) (notes : List MakerNote)
    (I : LiquidityState → Prop) :
    LiquidityKeeps H P (offerNotes source continues allocations notes) log I
      fun _ _ _ => True := by
  induction allocations generalizing notes log I with
  | nil => exact hcontinues notes log I
  | cons allocation allocations ih =>
    unfold offerNotes
    refine keeps_bind (keeps_embed (fun _ _ _ => trivial) _) fun claimed log => ?_
    split_ifs
    · refine keeps_ask_free (fun _ => trivial) fun added _ => ?_
      refine @keeps_ofExcept_bind _ _ _ _ _ _ _ _ _ _ _ _ added _ fun _ _ => ?_
      refine keeps_bind (keeps_saveAll fun note hmem log s => Or.inr (Or.inr ?_)) fun _ log =>
        ih _ _
      exact ⟨_, lockedBy_of_mem_lockMakerNote hmem⟩
    · exact ih notes _

theorem keeps_offerClients (clients : List ClientOffer) (notes : List MakerNote)
    (I : LiquidityState → Prop) :
    LiquidityKeeps H P (offerClients clients notes) log I fun _ _ _ => True := by
  induction clients generalizing notes log I with
  | nil => exact fun _ _ => trivial
  | cons client clients ih =>
    unfold offerClients
    split_ifs
    · exact ih notes I
    · exact keeps_offerNotes (fun notes log I => ih notes I) _ notes I

theorem keeps_withdrawEach {I : LiquidityState → Prop} (notes : List MakerNote) :
    LiquidityKeeps H P (withdrawEach notes) log I fun _ _ _ => True := by
  induction notes generalizing log I with
  | nil => exact fun _ _ => trivial
  | cons note notes ih =>
    have hrecover {log : LiquidityLog} {I : LiquidityState → Prop} : LiquidityKeeps H P (do
        let recovered : Bool ←
          Routine.ask (LiquidityRequest.recordRecovery note.commitment note.amount)
        Routine.throwIf (recovered = false) "maker note changed before recovery could be recorded"
        withdrawEach notes) log I fun _ _ _ => True :=
      keeps_ask_free (fun _ => trivial) fun _ _ => keeps_throwIf_bind fun _ => ih
    unfold withdrawEach
    split_ifs with hstatus
    · exact keeps_ask_free (fun _ => ⟨hstatus, rfl⟩) fun _ _ => keeps_throwIf_bind fun _ => hrecover
    · exact hrecover

/-! ## Releases -/

theorem ReadClaim.of_append (h : ReadClaim (log ++ [(req, s)]) c intent)
    (hreq : ∀ order, req ≠ .readNotes order) : ReadClaim log c intent := by
  obtain ⟨order, s', hmem, hclaimed⟩ := h
  rcases List.mem_append.mp hmem with hmem | hmem
  · exact ⟨order, s', hmem, hclaimed⟩
  · cases List.mem_singleton.mp hmem
    exact absurd rfl (hreq order)

theorem SeenIntent.of_append (h : SeenIntent (log ++ [(req, s)]) intent) :
    SeenIntent log intent ∨ Looks req ∧ (s.store.intents.get? intent).isSome := by
  obtain ⟨req', s', hmem, hlook, hseen⟩ := h
  rcases List.mem_append.mp hmem with hmem | hmem
  · exact Or.inl ⟨req', s', hmem, hlook, hseen⟩
  · cases List.mem_singleton.mp hmem
    exact Or.inr ⟨hlook, hseen⟩

theorem not_looks_release {note : MakerNote} : ¬ Looks (.release note) := by
  rintro (h | ⟨now, notes, h⟩) <;> cases h

/-- Nothing more has been read or seen. -/
structure SameReads (log log' : LiquidityLog) : Prop where
  read : ∀ c intent, ReadClaim log' c intent → ReadClaim log c intent
  seen : ∀ intent, SeenIntent log' intent → SeenIntent log intent

theorem sameReads_release {note : MakerNote} : SameReads log (log ++ [(.release note, s)]) :=
  ⟨fun _ _ h => h.of_append fun _ => nofun, fun _ h => h.of_append.resolve_right fun h =>
    not_looks_release h.1⟩

theorem keeps_releaseAll {I : LiquidityState → Prop} (hI : LiquidityStable H P I)
    {notes : List MakerNote} (h : ∀ note ∈ notes, note.status = .available ∧ ∀ s, I s →
      ∀ intent, ReadClaim log note.commitment intent → SeenIntent log intent →
        ¬ s.store.IntentOpen intent) :
    LiquidityKeeps H P (releaseAll notes) log I fun _ log' s => I s ∧ SameReads log log' := by
  induction notes generalizing log with
  | nil => exact fun s hs => ⟨hs, fun _ _ h => h, fun _ h => h⟩
  | cons note notes ih =>
    intro s hs
    have hnote := h note List.mem_cons_self
    have hpre : LiquidityPre log (.release note) s := ⟨hnote.1, hnote.2 s hs⟩
    refine ⟨hpre, fun _ => ⟨I, hI, hI log (.release note) s hpre trivial hs, ?_⟩⟩
    have hsame : SameReads log (log ++ [(.release note, s)]) := sameReads_release
    have hrest := @ih (log ++ [(.release note, s)]) fun other hmem =>
      ⟨(h other (List.mem_cons_of_mem _ hmem)).1, fun s' hs' intent hread hseen =>
        (h other (List.mem_cons_of_mem _ hmem)).2 s' hs' intent (hsame.read _ _ hread)
          (hsame.seen _ hseen)⟩
    exact hrest.mono fun _ log' s' hs' => ⟨hs'.1,
      fun c intent hread => hsame.read c intent (hs'.2.read c intent hread),
      fun intent hseen => hsame.seen intent (hs'.2.seen intent hseen)⟩

/-! ## Stale locks -/

theorem mem_changedNotes_map {f : MakerNote → MakerNote} {notes : List MakerNote}
    {note' : MakerNote} (h : note' ∈ changedNotes notes (notes.map f)) :
    ∃ note ∈ notes, note ≠ f note ∧ note' = f note := by
  have hzip : notes.zip (notes.map f) = notes.map fun note => (note, f note) := by
    simpa only [List.map_id, id] using @List.zip_map' _ _ _ id f notes
  unfold changedNotes at h
  rw [hzip] at h
  obtain ⟨pair, hmem, rfl⟩ := List.mem_map.mp h
  obtain ⟨hpair, hne⟩ := List.mem_filter.mp hmem
  obtain ⟨note, hnote, rfl⟩ := List.mem_map.mp hpair
  exact ⟨note, hnote, of_decide_eq_true hne, rfl⟩

/-- The notes that `unlockStaleMakerLocks` releases. -/
theorem stale_of_mem_unlocked {notes : List MakerNote} {intents : OrderedMap Text IntentRecord}
    {note' : MakerNote} (h : note' ∈ changedNotes notes (unlockStaleMakerLocks notes intents)) :
    ∃ note ∈ notes, isStaleLock intents note = true ∧ note' = released note := by
  obtain ⟨note, hmem, hne, rfl⟩ := mem_changedNotes_map h
  split_ifs at hne ⊢ with hstale
  · exact ⟨note, hmem, hstale, rfl⟩
  · exact absurd rfl hne

theorem mem_of_locked_unlocked {notes : List MakerNote} {intents : OrderedMap Text IntentRecord}
    {note : MakerNote} (h : note ∈ unlockStaleMakerLocks notes intents)
    (hlocked : note.status = .locked) : note ∈ notes := by
  obtain ⟨old, hmem, rfl⟩ := List.mem_map.mp h
  split_ifs at hlocked ⊢ with hstale
  · cases hlocked
  · exact hmem

theorem not_seen_of_stale {intents : OrderedMap Text IntentRecord} {note : MakerNote}
    (h : isStaleLock intents note = true) (hlock : note.lockedByIntentCommitment = some intent) :
    intents.get? intent = none := by
  obtain ⟨-, -, hany⟩ := of_decide_eq_true h
  rw [Option.any_eq_true] at hany
  obtain ⟨found, hfound, hnone⟩ := hany
  rw [given, hlock] at hfound
  obtain rfl : intent = found := Option.some.inj (Option.filter_eq_some_iff.mp hfound).1
  exact Option.isNone_iff_eq_none.mp hnone

/-! ## Orphaned intents -/

theorem orderStatus_of_cancelOrder {store store' : ProtocolStore} {now : ℤ} {k : Text}
    {txHash : Option Text} {u : Unit}
    (h : Script.Returns (cancelOrder now k txHash) store u store') :
    store'.orderStatus k = some statusCancelled := by
  unfold cancelOrder at h
  simp only [Script.returns_bind, Script.returns_read, Script.returns_throwIf,
    Script.returns_update, Script.returns_orThrow, id, exists_eq_left, exists_and_left,
    exists_const, and_assoc] at h
  obtain ⟨existing, -, -, -, -, rfl⟩ := h
  rw [orderStatus_set, Function.update_self]

/-- What `reapOrphanedMakerIntents` does to a note: it stays, or it is released, and its intent is
no longer open if it is in the store. -/
theorem returns_reapMakerIntent {now : Text → ℤ} {note note' : MakerNote}
    {store store' : ProtocolStore}
    (h : Script.Returns (reapMakerIntent now note) store note' store') : note' = note ∨
      note.status = .locked ∧ note' = released note ∧ ∀ intent,
        note.lockedByIntentCommitment = some intent → (store.intents.get? intent).isSome →
          ClosedIntent intent store' := by
  have hgrown : BookGrown [] store store' := (bookGrown_reapMakerIntent now note).of_returns h
  unfold reapMakerIntent at h
  obtain ⟨_, _, hread, hbody⟩ := Script.returns_bind.mp h
  obtain ⟨rfl, rfl⟩ := Script.returns_read.mp hread
  clear h
  rcases hintent : given note.lockedByIntentCommitment with _ | intent
  · rw [hintent] at hbody
    exact Or.inl (Script.returns_pure.mp hbody).1
  rcases hsource : given note.sourceIntentCommitment with _ | source
  · rw [hintent, hsource] at hbody
    exact Or.inl (Script.returns_pure.mp hbody).1
  rw [hintent, hsource] at hbody
  dsimp only at hbody
  split_ifs at hbody with hkeep
  · exact Or.inl (Script.returns_pure.mp hbody).1
  · obtain ⟨_, s₁, hcancel, hpure⟩ := Script.returns_bind.mp hbody
    obtain ⟨rfl, rfl⟩ := Script.returns_pure.mp hpure
    rw [not_or, not_not] at hkeep
    refine Or.inr ⟨hkeep.1, rfl, fun intent' hlock hseen => ?_⟩
    obtain rfl : intent' = intent := by
      rw [given, hlock] at hintent
      exact Option.some.inj (Option.filter_eq_some_iff.mp hintent).1
    obtain ⟨record, hrecord⟩ := Option.isSome_iff_exists.mp hseen
    refine ⟨Option.isSome_iff_exists.mpr ⟨record, hgrown.kept _ record hrecord⟩, fun hopen => ?_⟩
    rcases Script.returns_doIf.mp hcancel with ⟨-, hcancel⟩ | ⟨hnot, rfl⟩
    · rw [orderStatus_of_cancelOrder hcancel] at hopen
      exact absurd hopen (by decide)
    · refine hnot ⟨?_, ?_⟩
      · cases hget : store'.orderLifecycle.get? intent' with
        | none =>
          rw [ProtocolStore.orderStatus, hget] at hopen
          cases hopen
        | some order => rfl
      · unfold ProtocolStore.hasStatus
        rw [hopen]
        decide

/-- The notes that `reapOrphanedMakerIntents` releases. -/
theorem returns_reapOrphanedMakerIntents {now : Text → ℤ} {notes next : List MakerNote}
    {store store' : ProtocolStore}
    (h : Script.Returns (reapOrphanedMakerIntents now notes) store next store') :
    ∀ note' ∈ changedNotes notes next, ∃ note ∈ notes, note.status = .locked ∧
      note' = released note ∧ ∀ intent, note.lockedByIntentCommitment = some intent →
        (store.intents.get? intent).isSome → ClosedIntent intent store' := by
  induction notes generalizing next store with
  | nil => exact fun note' hmem => absurd hmem List.not_mem_nil
  | cons note notes ih =>
    obtain ⟨note₁, store₁, hnote, h⟩ := Script.returns_bind.mp h
    obtain ⟨rest, store₂, hrest, h⟩ := Script.returns_bind.mp h
    obtain ⟨rfl, rfl⟩ := Script.returns_pure.mp h
    have hfirst : BookGrown [] store store₁ := (bookGrown_reapMakerIntent now note).of_returns hnote
    have hlater : BookGrown [] store₁ store' := (bookGrown_reap now notes).of_returns hrest
    intro note' hmem
    unfold changedNotes at hmem
    rw [List.zip_cons_cons, List.filter_cons] at hmem
    have htail : note' ∈ changedNotes notes rest → ∃ old ∈ note :: notes, old.status = .locked ∧
        note' = released old ∧ ∀ intent, old.lockedByIntentCommitment = some intent →
          (store.intents.get? intent).isSome → ClosedIntent intent store' := by
      intro hmem
      obtain ⟨old, hold, hlocked, hnote', hclosed⟩ := ih hrest note' hmem
      refine ⟨old, List.mem_cons_of_mem _ hold, hlocked, hnote', fun intent hlock hseen => ?_⟩
      obtain ⟨record, hrecord⟩ := Option.isSome_iff_exists.mp hseen
      exact hclosed intent hlock
        (Option.isSome_iff_exists.mpr ⟨record, hfirst.kept intent record hrecord⟩)
    split_ifs at hmem with hne
    · rcases List.mem_cons.mp hmem with rfl | hmem
      · rcases returns_reapMakerIntent hnote with hsame | ⟨hlocked, hnote', hclosed⟩
        · exact absurd hsame.symm (of_decide_eq_true hne)
        · exact ⟨note, List.mem_cons_self, hlocked, hnote', fun intent hlock hseen =>
            (hclosed intent hlock hseen).grown hlater fun _ h => absurd h List.not_mem_nil⟩
      · exact htail hmem
    · exact htail hmem

/-! ## Runs of the service -/

/-- **A release of a note whose intent has been seen finds the intent closed.** -/
theorem keeps_ensureForMarket (order : Arrangement) (now : Text → ℤ) (clients : List ClientOffer) :
    LiquidityKeeps H P (ensureForMarket order now clients) [] LiquidityState.Keyed
      fun _ _ _ => True := by
  refine keeps_ask fun s₀ hkeyed =>
    ⟨trivial, fun _ => ⟨fun _ => True, stable_true, trivial, ?_⟩⟩
  refine keeps_ask fun s₁ _ => ⟨trivial, fun _ => ⟨fun s => ∀ intent,
    (s₁.store.intents.get? intent).isSome → (s.store.intents.get? intent).isSome, ?_,
    fun _ h => h, ?_⟩⟩
  · exact fun log req s hpre hok h intent hseen =>
      stable_known intent log req s hpre hok (h intent hseen)
  set unlocked := unlockStaleMakerLocks (order.arrange s₀.db.notes.values) s₁.store.intents
  -- the note that the run has read is the one that was claimed
  have hclaim {note : MakerNote} {intent : Text} (hmem : note ∈ order.arrange s₀.db.notes.values)
      (hclaimed : s₀.ClaimedAt note.commitment intent) :
      note.lockedByIntentCommitment = some intent := by
    obtain ⟨c, hnote⟩ := OrderedMap.mem_values.mp ((order.perm _).mem_iff.mp hmem)
    obtain ⟨old, hold, hlocked⟩ := hclaimed
    rw [hkeyed c note hnote, hnote] at hold
    exact Option.some.inj hold ▸ hlocked.2
  have hread {c intent : Text}
      (h : ReadClaim [(.readNotes order, s₀), (.readStore, s₁)] c intent) :
      s₀.ClaimedAt c intent := by
    obtain ⟨_, s, hmem, hclaimed⟩ :=
      @ReadClaim.of_append s₁ [(.readNotes order, s₀)] _ c intent h fun _ => nofun
    cases List.mem_singleton.mp hmem
    exact hclaimed
  have hseen {intent : Text} (h : SeenIntent [(.readNotes order, s₀), (.readStore, s₁)] intent) :
      (s₁.store.intents.get? intent).isSome := by
    rcases @SeenIntent.of_append s₁ [(.readNotes order, s₀)] _ intent h with
      ⟨req, s, hmem, hlook, -⟩ | h
    · cases List.mem_singleton.mp hmem
      rcases hlook with hlook | ⟨_, _, hlook⟩ <;> cases hlook
    · exact h.2
  refine keeps_bind (keeps_releaseAll ?_ fun note' hmem => ?_) fun _ log => ?_
  · exact fun log req s hpre hok h intent hseen =>
      stable_known intent log req s hpre hok (h intent hseen)
  · obtain ⟨note, hnote, hstale, rfl⟩ := stale_of_mem_unlocked hmem
    refine ⟨rfl, fun s _ intent hclaimed hknown => ?_⟩
    have hnone : s₁.store.intents.get? intent = none :=
      not_seen_of_stale hstale (hclaim hnote (hread hclaimed))
    have hsome := hseen hknown
    rw [hnone] at hsome
    cases hsome
  refine keeps_ask fun s₂ hs₂ => ⟨trivial, fun _ => ⟨fun s => ∀ next,
    (performLiquidity H P (.reap now unlocked) s₂).2 = .ok next →
      ∀ note' ∈ changedNotes unlocked next, ∀ intent, s₀.ClaimedAt note'.commitment intent →
        (s₂.store.intents.get? intent).isSome → ClosedIntent intent s.store, ?_, ?_, ?_⟩⟩
  · exact fun log req s hpre hok h next hnext note' hmem intent hclaimed hknown =>
      stable_closedIntent intent log req s hpre hok (h next hnext note' hmem intent hclaimed hknown)
  · intro next hnext note' hmem intent hclaimed hknown
    obtain ⟨note, hnote, hlocked, rfl, hclosed⟩ :=
      returns_reapOrphanedMakerIntents (Prod.ext hnext rfl) note' hmem
    have hlock := hclaim (mem_of_locked_unlocked hnote hlocked) hclaimed
    exact hclosed intent hlock hknown
  · refine keeps_ofExcept_bind fun next hnext => keeps_bind (keeps_releaseAll ?_
      fun note' hmem => ⟨?_, fun s hs intent hclaimed hknown => ?_⟩) fun _ log => ?_
    · exact fun log req s hpre hok h next hnext note' hmem intent hclaimed hknown =>
        stable_closedIntent intent log req s hpre hok
          (h next hnext note' hmem intent hclaimed hknown)
    · obtain ⟨note, -, -, rfl, -⟩ :=
        returns_reapOrphanedMakerIntents (Prod.ext hnext rfl) note' hmem
      rfl
    · have hbefore := hread (hs₂.2.read _ _ (hclaimed.of_append fun _ => nofun))
      have hstored : (s₂.store.intents.get? intent).isSome := by
        rcases hknown.of_append with hknown | hknown
        · exact hs₂.1 intent (hseen (hs₂.2.seen intent hknown))
        · exact hknown.2
      exact fun hopen => (hs next hnext note' hmem intent hbefore hstored).2 hopen.2
    · exact keeps_bind (keeps_indexMakerMarginCommitments next) fun _ _ => keeps_offerClients _ _ _

theorem available_of_buildMakerChangeNote {note change : MakerNote} {margin : ℤ} {source : Text}
    (h : buildMakerChangeNote H P note margin source = .ok (some change)) :
    change.status = .available := by
  unfold buildMakerChangeNote at h
  dsimp only at h
  split_ifs at h
  · cases h
  · split at h
    · rw [← Option.some.inj (Except.ok.inj h)]
    · cases h

theorem status_of_finalizedNotes {payloads : OrderedMap Text PrivateMatchIntent}
    {filled : List Text} {notes next writes : List MakerNote}
    (h : finalizedNotes H P payloads filled notes next = .ok writes) :
    ∀ note ∈ writes, note.status = .spent ∨ note.status = .available := by
  induction notes generalizing next writes with
  | nil =>
    obtain rfl := Except.ok.inj h
    exact fun note hmem => absurd hmem List.not_mem_nil
  | cons note notes ih =>
    unfold finalizedNotes at h
    rcases hfilled : (given note.lockedByIntentCommitment).filter (· ∈ filled) with _ | intent
    · rw [hfilled] at h
      exact ih h
    rw [hfilled] at h
    obtain ⟨change, hchange, h⟩ := Script.except_bind_eq_ok.mp h
    obtain ⟨rest, hrest, h⟩ := Script.except_bind_eq_ok.mp h
    obtain rfl := Except.ok.inj h
    intro note' hmem
    rcases List.mem_cons.mp hmem with rfl | hmem
    · exact Or.inl rfl
    rcases List.mem_append.mp hmem with hmem | hmem
    · refine Or.inr ?_
      have hmem : change = some note' :=
        (Option.filter_eq_some_iff.mp (Option.mem_toList.mp hmem)).1
      subst hmem
      unfold settledChange at hchange
      split at hchange
      · exact available_of_buildMakerChangeNote hchange
      · cases hchange
    · exact ih hrest note' hmem

theorem keeps_finalizeSettlement (order : Arrangement) (filled : List Text) :
    LiquidityKeeps H P (finalizeSettlement H P order filled) [] LiquidityState.Keyed
      fun _ _ _ => True := by
  refine keeps_ask_free (fun _ => trivial) fun notes s₀ => keeps_ask_free (fun _ => trivial)
    fun store s₁ => @keeps_ofExcept_bind _ _ _ _ _ _ _ _ _ _ _ _ _ _ fun writes hwrites => ?_
  exact keeps_saveAll fun note hmem log s =>
    (status_of_finalizedNotes hwrites note hmem).imp_right Or.inl

theorem keeps_liquidityRoutine (call : LiquidityCall) :
    LiquidityKeeps H P (call.routine H P) [] LiquidityState.Keyed fun _ _ _ => True := by
  cases call with
  | ensure order now clients => exact keeps_ensureForMarket order now clients
  | finalize order filled => exact keeps_finalizeSettlement order filled
  | backing call => exact keeps_embed (fun _ _ _ => trivial) _
  | withdraw order commitments =>
    exact keeps_ask_free (fun _ => trivial) fun _ _ => keeps_withdrawEach _
  | server call =>
    refine keeps_ask_free (fun _ => trivial) fun result s => ?_
    cases result with
    | ok u => exact fun _ _ => trivial
    | error e => trivial

end Routines

/-! ## Runs -/

namespace LiquidityWorld

/-- Notes and a store on which no call is running. -/
structure Initial (w : LiquidityWorld) : Prop where
  keyed : w.state.Keyed
  exclusive : w.state.store.Exclusive
  threads : ∀ p, w.threads p = none

variable (H P) in
/-- A note that is no longer offered never is again, a note that an open intent has claimed is not
released, and no two open intents use the same note. -/
structure NeverBack (w : LiquidityWorld) (acts : List (Act LiquidityCall)) : Prop where
  gone : ∀ before between after, acts = before ++ between ++ after → ∀ c,
    (Runs.final (liquidityStep H P) w before).state.GoneAt c →
      (Runs.final (liquidityStep H P) w (before ++ between)).state.GoneAt c
  claimed : ∀ x ∈ Runs.accepted (liquidityStep H P) w acts, ∀ c intent,
    x.pre.state.ClaimedAt c intent → x.pre.state.store.IntentOpen intent →
      x.post.state.ClaimedAt c intent ∨ x.post.state.SpentAt c
  exclusive : ∀ x ∈ Runs.accepted (liquidityStep H P) w acts, x.post.state.store.Exclusive

/-- A step writes a whole note late. -/
def Late (x : Runs.Step LiquidityWorld (Act LiquidityCall)) : Prop :=
  ∃ log req, x.pre.Requests x.act log req ∧ WritesLate log req x.pre.state

/-- The settlements of a step open new orders only. -/
def Orderly (x : Runs.Step LiquidityWorld (Act LiquidityCall)) : Prop :=
  ∀ log req, x.pre.Requests x.act log req → OpensNew log req x.pre.state

variable {w : LiquidityWorld} {acts : List (Act LiquidityCall)}

theorem requests_of_run (hw : w.Initial)
    (hacts : ∀ x ∈ Runs.accepted (liquidityStep H P) w acts, Orderly x) :
    ∀ x ∈ Runs.accepted (liquidityStep H P) w acts, x.post.state.store.Exclusive ∧
      ∀ log req, x.pre.Requests x.act log req → LiquidityPre log req x.pre.state ∧
        x.post.state = (performLiquidity H P req x.pre.state).1 := by
  intro x hx
  have h := World.requests_of_keeps (stable_keyed.and stable_exclusive)
    (fun call => (keeps_liquidityRoutine call).weaken fun _ h => h.1) ⟨hw.keyed, hw.exclusive⟩
    hw.threads hacts x hx
  exact ⟨h.2.1.2, h.2.2⟩

/-- A step that is not late moves no note back. -/
theorem forward_of_not_late {x : Runs.Step LiquidityWorld (Act LiquidityCall)}
    (hstep : liquidityStep H P x.pre x.act = .ok x.post)
    (hrequests : ∀ log req, x.pre.Requests x.act log req → LiquidityPre log req x.pre.state ∧
      x.post.state = (performLiquidity H P req x.pre.state).1) (hlate : ¬ Late x) :
    x.pre.state.Forward x.post.state := by
  by_cases hsame : x.post.state = x.pre.state
  · rw [hsame]
    exact (NotesKept.refl _).forward
  · obtain ⟨log, req, hreq, -⟩ := World.state_of_moves (World.moves_of_step hstep) hsame
    obtain ⟨hpre, hpost⟩ := hrequests log req hreq
    rw [hpost]
    exact forward_perform hpre fun hcomes => hlate ⟨log, req, hreq, hcomes⟩

/-- **Maker notes never go back** in a run exactly when no step of it writes a whole note late. -/
theorem never_back_iff (hw : w.Initial)
    (hacts : ∀ x ∈ Runs.accepted (liquidityStep H P) w acts, Orderly x) :
    NeverBack H P w acts ↔ ∀ x ∈ Runs.accepted (liquidityStep H P) w acts, ¬ Late x := by
  have hrun := requests_of_run hw hacts
  constructor
  · rintro hback x hx ⟨log, req, hreq, hlate⟩
    obtain ⟨hpre, hpost⟩ := (hrun x hx).2 log req hreq
    have hforward : x.pre.state.Forward x.post.state := by
      refine ⟨fun c hgone => ?_, hback.claimed x hx⟩
      obtain ⟨before, after, has, hbefore, hafter⟩ := Runs.exists_split hx
      have h := hback.gone before [x.act] after has c
      rw [hbefore, hafter] at h
      exact h hgone
    rw [hpost] at hforward
    exact not_forward_of_late hpre hlate hforward
  · intro hlate
    have hforward : ∀ x ∈ Runs.accepted (liquidityStep H P) w acts,
        x.pre.state.Forward x.post.state := fun x hx =>
      forward_of_not_late (Runs.accepted_ok x hx).1 (hrun x hx).2 (hlate x hx)
    refine ⟨fun before between after has c hgone => ?_, fun x hx => (hforward x hx).claimed,
      fun x hx => (hrun x hx).1⟩
    rw [Runs.final_append]
    by_contra hlost
    obtain ⟨x, hx, hpre, hpost⟩ := @Runs.exists_flip _ _ _ (liquidityStep H P)
      (fun w => ¬ w.state.GoneAt c) _ between (not_not.mpr hgone) hlost
    have hmem : x ∈ Runs.accepted (liquidityStep H P) w acts := by
      rw [has, Runs.accepted_append, Runs.accepted_append]
      exact List.mem_append_left _ (List.mem_append_right _ hx)
    exact hpost ((hforward x hmem).gone c (not_not.mp hpre))

/-! ## A drained note that is released -/

/-- The step makes no call of the store. -/
def isQuiet (x : Runs.Step LiquidityWorld (Act LiquidityCall)) : Bool :=
  match x.act with
  | .next p => (x.pre.threads p).all fun thread =>
    match thread.rest with
    | .request (.call _) _ => false
    | _ => true
  | _ => true

theorem orderly_of_isQuiet {x : Runs.Step LiquidityWorld (Act LiquidityCall)}
    (h : isQuiet x = true) : Orderly x := by
  rintro log req ⟨p, thread, hact, hthread, -, resume, hrest⟩
  unfold isQuiet at h
  rw [hact] at h
  dsimp only at h
  rw [hthread, Option.all_some, hrest] at h
  cases req with
  | call call => cases h
  | _ => trivial

/-- A vault note that has been claimed for an order that is gone, by an intent that has not been
submitted. -/
def orphanedNote : MakerNote :=
  { BackingWorld.sampleMakerNote with
    status := .locked
    lockedByIntentCommitment := some ['x']
    sourceIntentCommitment := some ['o']
    vaultAllocationId := some BackingWorld.sampleAllocationId }

def sampleLiquidity : LiquidityWorld where
  state :=
    { db :=
        { allocations :=
            OrderedMap.empty.set BackingWorld.sampleAllocationId BackingWorld.sampleAllocation
          notes := OrderedMap.empty.set ['n'] orphanedNote }
      store := .empty }
  threads _ := none

theorem initial_sampleLiquidity : sampleLiquidity.Initial where
  keyed := by
    intro c note hnote
    unfold sampleLiquidity at hnote
    rw [OrderedMap.get?_set] at hnote
    split_ifs at hnote with hc
    · rw [hc, ← Option.some.inj hnote]
      rfl
    · cases hnote
  exclusive := ⟨fun _ _ h => (nomatch h), fun _ _ _ _ h => (nomatch h)⟩
  threads _ := rfl

/-- Two runs of the service plan to release the note. The first does, and the note is drained. -/
def drainedBetween : List (Act LiquidityCall) :=
  [.start 0 (.ensure ⟨id, fun _ => .refl _⟩ (fun _ => 0) []), .next 0, .next 0, .next 0,
    .start 1 (.ensure ⟨id, fun _ => .refl _⟩ (fun _ => 0) []), .next 1, .next 1, .next 1, .next 0,
    .start 2 (.backing (.drain BackingWorld.sampleAllocationId)), .next 2, .next 2, .next 2]

theorem never_back_drainedBetween :
    NeverBack sampleHost (fun x y => x + y) sampleLiquidity drainedBetween ↔
      ∀ x ∈ Runs.accepted (liquidityStep sampleHost fun x y => x + y) sampleLiquidity
        drainedBetween, ¬ Late x :=
  never_back_iff initial_sampleLiquidity fun x hx => orderly_of_isQuiet
    (List.all_eq_true.mp (by decide +kernel : (Runs.accepted (liquidityStep sampleHost
      fun x y => x + y) sampleLiquidity drainedBetween).all isQuiet = true) x hx)

/-- **A drained note is offered again** when the second run releases it. -/
theorem drained_note_released : sampleLiquidity.Initial ∧
    (∀ x ∈ Runs.accepted (liquidityStep sampleHost fun x y => x + y) sampleLiquidity
      (drainedBetween ++ [.next 1]), Orderly x) ∧
    ¬ NeverBack sampleHost (fun x y => x + y) sampleLiquidity (drainedBetween ++ [.next 1]) := by
  refine ⟨initial_sampleLiquidity, fun x hx => orderly_of_isQuiet (List.all_eq_true.mp
    (by decide +kernel : (Runs.accepted (liquidityStep sampleHost fun x y => x + y)
      sampleLiquidity (drainedBetween ++ [.next 1])).all isQuiet = true) x hx), fun hback => ?_⟩
  have hdrained : ((Runs.final (liquidityStep sampleHost fun x y => x + y) sampleLiquidity
      drainedBetween).state.db.notes.get? ['n']).map (·.status) = some .draining := by
    decide +kernel
  have hreleased : ((Runs.final (liquidityStep sampleHost fun x y => x + y) sampleLiquidity
      (drainedBetween ++ [.next 1])).state.db.notes.get? ['n']).map (·.status) =
        some .available := by
    decide +kernel
  obtain ⟨note, hget, hstatus⟩ := Option.map_eq_some_iff.mp hdrained
  obtain ⟨note', hget', hgone⟩ := hback.gone drainedBetween [.next 1] [] (List.append_nil _).symm
    ['n'] ⟨note, hget, Or.inl hstatus⟩
  rw [hget', Option.map_some] at hreleased
  rw [Option.some.inj hreleased] at hgone
  rcases hgone with hgone | hgone | hgone <;> cases hgone

end LiquidityWorld

end Pnlx.Server
