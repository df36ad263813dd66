import Pnlx.Client.MarginNotes

/-!
# Wallet notes and orders

A wallet is reconciled with a list of orders out of the table of the server, which may be partial.

`reconcile_iff`: the notes stay in step with the orders of the table exactly when no locked note is
misled, that is, unless the list shows the nullifier of a note only on cancelled orders and leaves
out the intent that the note is locked by and an order of the table that is not cancelled.
`reconcile_reconcile`: reconciling again with the same list changes nothing.
-/

namespace Pnlx.Client

open BatchMatch (Text)
open Server (given)

variable {table orders : List ReconciledPrivateMarginOrder} {notes : List StoredPrivateMarginNote}
  {order other : ReconciledPrivateMarginOrder} {note : StoredPrivateMarginNote} {key : Text}

/-! ## Orders -/

namespace ReconciledPrivateMarginOrder

def Cancelled (order : ReconciledPrivateMarginOrder) : Prop := order.status = .cancelled

/-- An order that the matcher may still fill. -/
def Live (order : ReconciledPrivateMarginOrder) : Prop :=
  order.status = .open ∨ order.status = .partiallyFilled

def Filled (order : ReconciledPrivateMarginOrder) : Prop :=
  order.status = .filled ∨ order.status = .partiallyFilled

/-- The order is of the intent. -/
def Of (order : ReconciledPrivateMarginOrder) (key : Text) : Prop :=
  intentCommitmentKey order.intentCommitment = key

/-- The order uses the nullifier of a note. -/
def Uses (order : ReconciledPrivateMarginOrder) (note : StoredPrivateMarginNote) : Prop :=
  order.nullifierKey = some (noteNullifierKey note.noteNullifier)

end ReconciledPrivateMarginOrder

/-- A table of orders as a server has it: an intent has one order, the order of a residual's source
is there, and it is not cancelled. -/
structure TrueTable (table : List ReconciledPrivateMarginOrder) : Prop where
  unique : ∀ order ∈ table, ∀ other ∈ table, ∀ key, order.Of key → other.Of key → order = other
  source : ∀ residual ∈ table, ∀ key ∈ residual.sourceKey,
    ∃ order ∈ table, order.Of key ∧ ¬ order.Cancelled

/-- An order of the intent was filled at least in part: it has such a status, or it has a
residual. -/
def PartlyFilled (table : List ReconciledPrivateMarginOrder) (key : Text) : Prop :=
  (∃ order ∈ table, order.Of key ∧ order.Filled) ∨ ∃ residual ∈ table, residual.sourceKey = some key

/-- The intent was cancelled without a fill. -/
def CancelledUnfilled (table : List ReconciledPrivateMarginOrder) (key : Text) : Prop :=
  (∃ order ∈ table, order.Of key ∧ order.Cancelled) ∧ ¬ PartlyFilled table key

/-! ## Notes -/

namespace StoredPrivateMarginNote

/-- The note is locked by the intent. -/
def LockedBy (note : StoredPrivateMarginNote) (key : Text) : Prop :=
  note.status = .locked ∧ note.lockKey = some key

/-- The note is the change that waits for the intent. -/
def WaitsFor (note : StoredPrivateMarginNote) (key : Text) : Prop :=
  note.status = .pending ∧ note.lockKey = some key

end StoredPrivateMarginNote

/-- What the server and the wallet promise of the locked notes: the order of the intent that a note
is locked by uses its nullifier, as no order does that is not cancelled, and an intent locks one
note. -/
structure InStep (table : List ReconciledPrivateMarginOrder)
    (notes : List StoredPrivateMarginNote) : Prop where
  uses : ∀ note ∈ notes, ∀ key, note.LockedBy key → ∀ order ∈ table, order.Of key →
    order.Uses note
  latest : ∀ note ∈ notes, ∀ key, note.LockedBy key → (∃ order ∈ table, order.Of key) →
    ∀ other ∈ table, other.Uses note → ¬ other.Of key → other.Cancelled
  single : ∀ note ∈ notes, ∀ other ∈ notes, ∀ key, note.LockedBy key → other.LockedBy key →
    noteNullifierKey note.noteNullifier = noteNullifierKey other.noteNullifier

/-- The intent that a change note waits for was cancelled without a fill. An intent that the table
does not have is found by the nullifier of the note that it locks. -/
def BelongsToCancelled (table : List ReconciledPrivateMarginOrder)
    (notes : List StoredPrivateMarginNote) (key : Text) : Prop :=
  CancelledUnfilled table key ∨ (¬ ∃ order ∈ table, order.Of key) ∧
    ∃ note ∈ notes, note.LockedBy key ∧ (∃ order ∈ table, order.Uses note) ∧
      ∀ order ∈ table, order.Uses note → order.Cancelled

/-- The intent that a change note waits for was filled at least in part. -/
def BelongsToFilled (table : List ReconciledPrivateMarginOrder)
    (notes : List StoredPrivateMarginNote) (key : Text) : Prop :=
  PartlyFilled table key ∨ (¬ ∃ order ∈ table, order.Of key) ∧
    ∃ note ∈ notes, note.LockedBy key ∧ ∃ order ∈ table, order.Uses note ∧ order.Filled

/-- What `after` makes of the notes is in step with the orders of the table. -/
structure Reconciles (table : List ReconciledPrivateMarginOrder)
    (notes : List StoredPrivateMarginNote)
    (after : StoredPrivateMarginNote → StoredPrivateMarginNote) : Prop where
  released : ∀ note ∈ notes, note.status = .locked → (after note).status = .available →
    ¬ ∃ order ∈ table, order.Live ∧ order.Uses note
  spent : ∀ note ∈ notes, note.status = .locked → (after note).status = .spent →
    ∃ key ∈ note.lockKey,
      PartlyFilled table key ∨ ∃ order ∈ table, order.Uses note ∧ order.Filled
  changeSpent : ∀ change ∈ notes, change.status = .pending → (after change).status = .spent →
    ∃ key ∈ change.lockKey, BelongsToCancelled table notes key
  changeReleased : ∀ change ∈ notes, change.status = .pending →
    (after change).status = .available → ∃ key ∈ change.lockKey, BelongsToFilled table notes key

/-- A locked note whose intent the list leaves out, and whose nullifier the list shows on cancelled
orders only, while the table has an order with the nullifier that is not cancelled: one that is
live, or one that was filled and for whose intent a change note waits. -/
def Misled (table orders : List ReconciledPrivateMarginOrder) (notes : List StoredPrivateMarginNote)
    (note : StoredPrivateMarginNote) : Prop :=
  ∃ key, note.LockedBy key ∧ ¬ Known orders key ∧ (∃ order ∈ orders, order.Uses note) ∧
    (∀ order ∈ orders, order.Uses note → order.Cancelled) ∧
    ∃ order ∈ table, order.Uses note ∧ ¬ order.Cancelled ∧
      (order.Live ∨ ∃ change ∈ notes, change.WaitsFor key)

/-! ## One note -/

theorem reconcileNote_of_none {statuses : OrderStatuses} (h : note.lockKey = none) :
    reconcileNote statuses note = note := by
  simp only [reconcileNote, h]

theorem reconcileNote_of_some {statuses : OrderStatuses} (h : note.lockKey = some key) :
    reconcileNote statuses note = settleNote (statuses key) note := by
  simp only [reconcileNote, h]

/-- A status that a note does not react to. -/
def Quiet (status : Option ReconciledOrderStatus) : Prop := status = none ∨ status = some .open

theorem settleNote_of_quiet {status : Option ReconciledOrderStatus} (h : Quiet status)
    (note : StoredPrivateMarginNote) : settleNote status note = note := by
  rcases h with rfl | rfl <;> simp [settleNote]

/-- A note that is neither locked nor pending stays as it is. -/
theorem settleNote_of_status (status : Option ReconciledOrderStatus)
    (hlocked : note.status ≠ .locked) (hpending : note.status ≠ .pending) :
    settleNote status note = note := by
  rcases status with _ | (_ | _ | _ | _) <;> cases hstatus : note.status <;>
    simp_all [settleNote]

/-- A note that has reacted is released from its lock or neither locked nor pending. -/
theorem settleNote_of_not_quiet {status : Option ReconciledOrderStatus} (h : ¬ Quiet status)
    (note : StoredPrivateMarginNote) : (settleNote status note).lockKey = none ∨
      ((settleNote status note).status ≠ .locked ∧ (settleNote status note).status ≠ .pending) := by
  rcases status with _ | (_ | _ | _ | _)
  · exact absurd (Or.inl rfl) h
  · exact absurd (Or.inr rfl) h
  all_goals
    cases hstatus : note.status <;>
      simp [settleNote, hstatus, StoredPrivateMarginNote.lockKey, given]

/-- A settled note is released from its lock or keeps it. -/
theorem lockKey_settleNote (status : Option ReconciledOrderStatus)
    (note : StoredPrivateMarginNote) :
    (settleNote status note).lockKey = none ∨ (settleNote status note).lockKey = note.lockKey := by
  by_cases hquiet : Quiet status
  · exact Or.inr (congrArg _ (settleNote_of_quiet hquiet note))
  · rcases status with _ | (_ | _ | _ | _) <;> cases hstatus : note.status <;>
      simp [settleNote, hstatus, StoredPrivateMarginNote.lockKey, given]

/-! ## Reconciling again -/

/-- Whom a note is locked by and what it would say of the intent does not change, unless the note
reacts. -/
theorem fallbackFor_reconcileNote {statuses : OrderStatuses} (hquiet : Quiet (statuses key))
    (note : StoredPrivateMarginNote) :
    fallbackFor orders key (reconcileNote statuses note) = fallbackFor orders key note := by
  cases hlock : note.lockKey with
  | none => rw [reconcileNote_of_none hlock]
  | some other =>
    rw [reconcileNote_of_some hlock]
    by_cases hkey : other = key
    · subst hkey
      rw [settleNote_of_quiet hquiet]
    · have hnone (n : StoredPrivateMarginNote) (h : n.lockKey = none ∨ n.lockKey = some other) :
          fallbackFor orders key n = none := by
        refine if_neg fun hlocked => ?_
        rcases h with h | h
        · exact absurd (h.symm.trans hlocked.2) nofun
        · exact hkey (Option.some.inj (h.symm.trans hlocked.2))
      rw [hnone note (Or.inr hlock)]
      exact hnone _ (hlock ▸ lockKey_settleNote _ note)

/-- An intent to which no note reacts keeps its status. -/
theorem reconciledOrderStatuses_again
    (hquiet : Quiet (reconciledOrderStatuses orders notes key)) :
    reconciledOrderStatuses orders (reconcilePrivateMarginNotes orders notes) key =
      reconciledOrderStatuses orders notes key := by
  rw [reconciledOrderStatuses_eq orders (reconcilePrivateMarginNotes orders notes),
    reconciledOrderStatuses_eq orders notes, reconcilePrivateMarginNotes, List.findSome?_map]
  congr 2
  funext note
  exact fallbackFor_reconcileNote hquiet note

/-- **Reconciling again with the same list changes nothing.** -/
theorem reconcile_reconcile (orders : List ReconciledPrivateMarginOrder)
    (notes : List StoredPrivateMarginNote) :
    reconcilePrivateMarginNotes orders (reconcilePrivateMarginNotes orders notes) =
      reconcilePrivateMarginNotes orders notes := by
  rw [reconcilePrivateMarginNotes]
  refine (List.map_congr_left (g := id) fun settled hsettled => ?_).trans (List.map_id _)
  obtain ⟨note, -, rfl⟩ := List.mem_map.mp hsettled
  rw [id]
  cases hlock : note.lockKey with
  | none => rw [reconcileNote_of_none hlock, reconcileNote_of_none hlock]
  | some key =>
    rw [reconcileNote_of_some hlock]
    by_cases hquiet : Quiet (reconciledOrderStatuses orders notes key)
    · rw [settleNote_of_quiet hquiet, reconcileNote_of_some hlock,
        reconciledOrderStatuses_again hquiet, settleNote_of_quiet hquiet]
    · cases hagain : (settleNote (reconciledOrderStatuses orders notes key) note).lockKey with
      | none => exact reconcileNote_of_none hagain
      | some other =>
        rw [reconcileNote_of_some hagain]
        rcases settleNote_of_not_quiet hquiet note with hnone | ⟨hlocked, hpending⟩
        · exact absurd (hagain.symm.trans hnone) nofun
        · exact settleNote_of_status _ hlocked hpending

/-! ## The status of an intent -/

theorem mem_statusesByNullifier {status : ReconciledOrderStatus} :
    status ∈ statusesByNullifier orders (noteNullifierKey note.noteNullifier) ↔
      ∃ order ∈ orders, order.Uses note ∧ order.status = status := by
  simp [statusesByNullifier, ReconciledPrivateMarginOrder.Uses, and_assoc]

/-- A nullifier stands for a cancelled intent if it has orders and all of them are cancelled. -/
theorem fallback_eq_cancelled :
    fallbackStatusForNullifier (statusesByNullifier orders (noteNullifierKey note.noteNullifier)) =
        some .cancelled ↔
      (∃ order ∈ orders, order.Uses note) ∧
        ∀ order ∈ orders, order.Uses note → order.Cancelled := by
  unfold fallbackStatusForNullifier
  constructor
  · intro h
    split_ifs at h with hlive hfilled hcancelled
    · cases h
    · cases h
    · obtain ⟨order, horder, huses, -⟩ := mem_statusesByNullifier.mp hcancelled
      refine ⟨⟨order, horder, huses⟩, fun other hother huses => ?_⟩
      have hmem := mem_statusesByNullifier.mpr ⟨other, hother, huses, rfl⟩
      cases hstatus : other.status with
      | «open» => exact absurd (Or.inl (hstatus ▸ hmem)) hlive
      | partiallyFilled => exact absurd (Or.inr (hstatus ▸ hmem)) hlive
      | filled => exact absurd (hstatus ▸ hmem) hfilled
      | cancelled => exact hstatus
  · rintro ⟨⟨order, horder, huses⟩, hall⟩
    have hnone (status : ReconciledOrderStatus) (h : status ≠ .cancelled) :
        status ∉ statusesByNullifier orders (noteNullifierKey note.noteNullifier) := by
      intro hmem
      obtain ⟨other, hother, huses, hstatus⟩ := mem_statusesByNullifier.mp hmem
      exact h (hstatus ▸ hall other hother huses)
    rw [if_neg (not_or.mpr ⟨hnone .open (by decide), hnone .partiallyFilled (by decide)⟩),
      if_neg (hnone .filled (by decide)),
      if_pos (mem_statusesByNullifier.mpr ⟨order, horder, huses, hall order horder huses⟩)]

theorem exists_of_fallback_filled {status : ReconciledOrderStatus}
    (h : fallbackStatusForNullifier
      (statusesByNullifier orders (noteNullifierKey note.noteNullifier)) = some status)
    (hfilled : status = .filled ∨ status = .partiallyFilled) :
    ∃ order ∈ orders, order.Uses note ∧ order.Filled := by
  unfold fallbackStatusForNullifier at h
  split_ifs at h with hlive hused hcancelled <;> obtain rfl := Option.some.inj h
  · rcases hfilled with h | h <;> cases h
  · obtain ⟨order, horder, huses, hstatus⟩ := mem_statusesByNullifier.mp hused
    exact ⟨order, horder, huses, Or.inl hstatus⟩
  · rcases hfilled with h | h <;> cases h

/-- The status of an intent is told by an order, or a note that is locked by it gives it. -/
theorem status_cases {status : ReconciledOrderStatus}
    (h : reconciledOrderStatuses orders notes key = some status) :
    (∃ order ∈ orders, order.Tells key status) ∨ ¬ Known orders key ∧
      ∃ note ∈ notes, note.LockedBy key ∧ fallbackStatusForNullifier
        (statusesByNullifier orders (noteNullifierKey note.noteNullifier)) = some status := by
  rw [reconciledOrderStatuses_eq] at h
  cases htold : toldStatuses orders key with
  | some told =>
    rw [htold, Option.some_or] at h
    exact Or.inl (exists_of_toldStatuses (htold.trans h))
  | none =>
    rw [htold, Option.none_or] at h
    obtain ⟨note, hnote, hfall⟩ := List.exists_of_findSome?_eq_some h
    unfold fallbackFor at hfall
    split_ifs at hfall with hlocked
    exact Or.inr ⟨toldStatuses_eq_none.mp htold, note, hnote, hlocked, hfall⟩

/-! ## In step with the orders -/

/-- A note that gets another status has an intent with a status, and reacts to it. -/
theorem exists_of_reconcileNote {statuses : OrderStatuses} {after : PrivateMarginNoteStatus}
    (h : (reconcileNote statuses note).status = after) (hne : note.status ≠ after) :
    ∃ key ∈ note.lockKey, ∃ status, statuses key = some status ∧
      (settleNote (some status) note).status = after := by
  cases hlock : note.lockKey with
  | none =>
    rw [reconcileNote_of_none hlock] at h
    exact absurd h hne
  | some key =>
    rw [reconcileNote_of_some hlock] at h
    cases hstatus : statuses key with
    | none =>
      rw [hstatus, settleNote_of_quiet (Or.inl rfl)] at h
      exact absurd h hne
    | some status => exact ⟨key, rfl, status, hstatus, hstatus ▸ h⟩

theorem InStep.uses_iff (hin : InStep table notes) {note other : StoredPrivateMarginNote}
    (hnote : note ∈ notes) (hother : other ∈ notes) (hlocked : note.LockedBy key)
    (hlocked' : other.LockedBy key) : order.Uses note ↔ order.Uses other := by
  rw [ReconciledPrivateMarginOrder.Uses, ReconciledPrivateMarginOrder.Uses,
    hin.single note hnote other hother key hlocked hlocked']

/-- A cancelled order that tells its own status is of the intent. -/
theorem ReconciledPrivateMarginOrder.Tells.cancelled (h : order.Tells key .cancelled) :
    order.Of key ∧ order.Cancelled :=
  h.resolve_right nofun

theorem TrueTable.cancelled_iff (hT : TrueTable table) (horder : order ∈ table)
    (hother : other ∈ table) (hof : order.Of key) (hof' : other.Of key) :
    order.Cancelled ↔ other.Cancelled := by
  rw [hT.unique order horder other hother key hof hof']

theorem not_cancelled_of_live (h : order.Live) : ¬ order.Cancelled := by
  intro hc
  rcases h with h | h <;> exact absurd (hc.symm.trans h) (by decide)

theorem not_cancelled_of_filled (h : order.Filled) : ¬ order.Cancelled := by
  intro hc
  rcases h with h | h <;> exact absurd (hc.symm.trans h) (by decide)

/-- A cancelled order of an intent says that the intent was not filled. -/
theorem TrueTable.cancelledUnfilled (hT : TrueTable table) (horder : order ∈ table)
    (hof : order.Of key) (hc : order.Cancelled) : CancelledUnfilled table key := by
  refine ⟨⟨order, horder, hof, hc⟩, ?_⟩
  rintro (⟨other, hother, hof', hfilled⟩ | ⟨residual, hresidual, hsource⟩)
  · exact not_cancelled_of_filled hfilled ((hT.cancelled_iff horder hother hof hof').mp hc)
  · obtain ⟨source, hmem, hof', hnot⟩ := hT.source residual hresidual key hsource
    exact hnot ((hT.cancelled_iff horder hmem hof hof').mp hc)

/-- An intent with a cancelled status has a cancelled order, or is locked on a note that the list
shows on cancelled orders only. -/
theorem cancelled_cases (h : reconciledOrderStatuses orders notes key = some .cancelled) :
    (∃ order ∈ orders, order.Of key ∧ order.Cancelled) ∨ ¬ Known orders key ∧
      ∃ note ∈ notes, note.LockedBy key ∧ (∃ order ∈ orders, order.Uses note) ∧
        ∀ order ∈ orders, order.Uses note → order.Cancelled := by
  rcases status_cases h with ⟨order, horder, htells⟩ | ⟨hknown, note, hnote, hlocked, hfall⟩
  · exact Or.inl ⟨order, horder, htells.cancelled⟩
  · exact Or.inr ⟨hknown, note, hnote, hlocked, fallback_eq_cancelled.mp hfall⟩

/-- An intent with a filled status was filled, or is locked on a note that the list shows on a
filled order. -/
theorem filled_cases {status : ReconciledOrderStatus}
    (h : reconciledOrderStatuses orders notes key = some status)
    (hfilled : status = .filled ∨ status = .partiallyFilled) :
    PartlyFilled orders key ∨ ¬ Known orders key ∧
      ∃ note ∈ notes, note.LockedBy key ∧ ∃ order ∈ orders, order.Uses note ∧ order.Filled := by
  rcases status_cases h with ⟨order, horder, htells⟩ | ⟨hknown, note, hnote, hlocked, hfall⟩
  · rcases htells with ⟨hof, rfl⟩ | ⟨hsource, -⟩
    · exact Or.inl (Or.inl ⟨order, horder, hof, hfilled⟩)
    · exact Or.inl (Or.inr ⟨order, horder, hsource⟩)
  · exact Or.inr ⟨hknown, note, hnote, hlocked, exists_of_fallback_filled hfall hfilled⟩

theorem PartlyFilled.mono (horders : ∀ order ∈ orders, order ∈ table)
    (h : PartlyFilled orders key) : PartlyFilled table key :=
  h.imp (fun ⟨order, horder, h⟩ => ⟨order, horders order horder, h⟩)
    fun ⟨residual, hresidual, h⟩ => ⟨residual, horders residual hresidual, h⟩

/-- A misled note gets the status of a cancelled intent. -/
theorem Misled.status (hin : InStep table notes) (hnote : note ∈ notes)
    (hlocked : note.LockedBy key) (hknown : ¬ Known orders key)
    (huses : ∃ order ∈ orders, order.Uses note)
    (hall : ∀ order ∈ orders, order.Uses note → order.Cancelled) :
    reconciledOrderStatuses orders notes key = some .cancelled := by
  have hfall (other : StoredPrivateMarginNote) (hother : other ∈ notes)
      (hlocked' : other.LockedBy key) : fallbackFor orders key other = some .cancelled := by
    refine (if_pos hlocked').trans ?_
    rw [← hin.single note hnote other hother key hlocked hlocked']
    exact fallback_eq_cancelled.mpr ⟨huses, hall⟩
  rw [reconciledOrderStatuses_eq, toldStatuses_eq_none.mpr hknown, Option.none_or]
  cases hfind : notes.findSome? (fallbackFor orders key) with
  | none =>
    rw [List.findSome?_eq_none_iff] at hfind
    exact absurd ((hfall note hnote hlocked).symm.trans (hfind note hnote)) nofun
  | some status =>
    obtain ⟨other, hother, hstatus⟩ := List.exists_of_findSome?_eq_some hfind
    have hlocked' : other.LockedBy key := by
      unfold fallbackFor at hstatus
      split_ifs at hstatus with hlocked'
      exact hlocked'
    rw [← hstatus, hfall other hother hlocked']

/-- If no note is misled, reconciling keeps the notes in step with the orders. -/
theorem reconciles (hT : TrueTable table) (hin : InStep table notes)
    (horders : ∀ order ∈ orders, order ∈ table)
    (hnot : ∀ note ∈ notes, ¬ Misled table orders notes note) :
    Reconciles table notes (reconcileNote (reconciledOrderStatuses orders notes)) where
  released := by
    rintro note hnote hlocked hafter ⟨live, hlive, hislive, huses⟩
    obtain ⟨key, hkey, status, hstatus, hsettled⟩ :=
      exists_of_reconcileNote hafter (by rw [hlocked]; decide)
    obtain rfl : status = .cancelled := by
      cases status <;> simp_all [settleNote]
    have hlockedBy : note.LockedBy key := ⟨hlocked, hkey⟩
    have hc := not_cancelled_of_live hislive
    rcases cancelled_cases hstatus with ⟨order, horder, hof, hcancelled⟩ | ⟨hknown, other, hother,
      hlockedBy', hused, hall⟩
    · by_cases hof' : live.Of key
      · exact hc ((hT.cancelled_iff (horders order horder) hlive hof hof').mp hcancelled)
      · exact hc (hin.latest note hnote key hlockedBy ⟨order, horders order horder, hof⟩ live hlive
          huses hof')
    · have hiff (order : ReconciledPrivateMarginOrder) : order.Uses other ↔ order.Uses note :=
        hin.uses_iff hother hnote hlockedBy' hlockedBy
      simp only [hiff] at hused hall
      exact hnot note hnote
        ⟨key, hlockedBy, hknown, hused, hall, live, hlive, huses, hc, Or.inl hislive⟩
  spent := by
    intro note hnote hlocked hafter
    obtain ⟨key, hkey, status, hstatus, hsettled⟩ :=
      exists_of_reconcileNote hafter (by rw [hlocked]; decide)
    have hfilled : status = .filled ∨ status = .partiallyFilled := by
      cases status <;> simp_all [settleNote]
    refine ⟨key, hkey, ?_⟩
    rcases filled_cases hstatus hfilled with hpartly | ⟨-, other, hother, hlocked', order, horder,
      huses, hfilled⟩
    · exact Or.inl (hpartly.mono horders)
    · exact Or.inr ⟨order, horders order horder,
        (hin.uses_iff hother hnote hlocked' ⟨hlocked, hkey⟩).mp huses, hfilled⟩
  changeSpent := by
    intro change hchange hpending hafter
    obtain ⟨key, hkey, status, hstatus, hsettled⟩ :=
      exists_of_reconcileNote hafter (by rw [hpending]; decide)
    obtain rfl : status = .cancelled := by
      cases status <;> simp_all [settleNote]
    refine ⟨key, hkey, ?_⟩
    rcases cancelled_cases hstatus with ⟨order, horder, hof, hcancelled⟩ | ⟨hknown, note, hnote,
      hlocked, hused, hall⟩
    · exact Or.inl (hT.cancelledUnfilled (horders order horder) hof hcancelled)
    · have htable : ∀ order ∈ table, order.Uses note → order.Cancelled := by
        intro order horder huses
        by_contra hc
        exact hnot note hnote ⟨key, hlocked, hknown, hused, hall, order, horder, huses, hc,
          Or.inr ⟨change, hchange, hpending, hkey⟩⟩
      by_cases hof : ∃ order ∈ table, order.Of key
      · obtain ⟨order, horder, hof⟩ := hof
        have huses := hin.uses note hnote key hlocked order horder hof
        exact Or.inl (hT.cancelledUnfilled horder hof (htable order horder huses))
      · obtain ⟨order, horder, huses⟩ := hused
        exact Or.inr ⟨hof, note, hnote, hlocked, ⟨order, horders order horder, huses⟩, htable⟩
  changeReleased := by
    intro change hchange hpending hafter
    obtain ⟨key, hkey, status, hstatus, hsettled⟩ :=
      exists_of_reconcileNote hafter (by rw [hpending]; decide)
    have hfilled : status = .filled ∨ status = .partiallyFilled := by
      cases status <;> simp_all [settleNote]
    refine ⟨key, hkey, ?_⟩
    rcases filled_cases hstatus hfilled with hpartly | ⟨hknown, note, hnote, hlocked, order,
      horder, huses, hfilled⟩
    · exact Or.inl (hpartly.mono horders)
    · by_cases hof : ∃ order ∈ table, order.Of key
      · have hother : ¬ order.Of key := fun hof => hknown ⟨order, horder, _, Or.inl ⟨hof, rfl⟩⟩
        exact absurd (hin.latest note hnote key hlocked hof order (horders order horder) huses
          hother) (not_cancelled_of_filled hfilled)
      · exact Or.inr ⟨hof, note, hnote, hlocked, order, horders order horder, huses, hfilled⟩

/-- What a misled note or its change becomes is not in step with the orders. -/
theorem not_reconciles (hT : TrueTable table) (hin : InStep table notes) (hnote : note ∈ notes)
    (h : Misled table orders notes note) :
    ¬ Reconciles table notes (reconcileNote (reconciledOrderStatuses orders notes)) := by
  intro hrec
  obtain ⟨key, hlocked, hknown, hused, hall, order, horder, huses, hc, hwhy⟩ := h
  have hstatus := Misled.status hin hnote hlocked hknown hused hall
  rcases hwhy with hlive | ⟨change, hchange, hpending, hkey⟩
  · refine hrec.released note hnote hlocked.1 ?_ ⟨order, horder, hlive, huses⟩
    rw [reconcileNote_of_some hlocked.2, hstatus]
    simp [settleNote, hlocked.1]
  · obtain ⟨key', hkey', hbelongs⟩ := hrec.changeSpent change hchange hpending (by
      rw [reconcileNote_of_some hkey, hstatus]
      simp [settleNote, hpending])
    obtain rfl : key' = key := Option.some.inj (hkey'.symm.trans hkey)
    rcases hbelongs with ⟨⟨own, hown, hof, hcancelled⟩, -⟩ | ⟨-, other, hother, hlocked', -,
      hall'⟩
    · by_cases hof' : order.Of key'
      · exact hc ((hT.cancelled_iff hown horder hof hof').mp hcancelled)
      · exact hc (hin.latest note hnote key' hlocked ⟨own, hown, hof⟩ order horder huses hof')
    · exact hc (hall' order horder ((hin.uses_iff hnote hother hlocked hlocked').mp huses))

/-- **Wallet notes stay in step with the orders** exactly when the list misleads no locked note. -/
theorem reconcile_iff (hT : TrueTable table) (hin : InStep table notes)
    (horders : ∀ order ∈ orders, order ∈ table) :
    (Reconciles table notes (reconcileNote (reconciledOrderStatuses orders notes)) ∧
        reconcilePrivateMarginNotes orders (reconcilePrivateMarginNotes orders notes) =
          reconcilePrivateMarginNotes orders notes) ↔
      ∀ note ∈ notes, ¬ Misled table orders notes note := by
  constructor
  · rintro ⟨hrec, -⟩ note hnote hmisled
    exact not_reconciles hT hin hnote hmisled hrec
  · exact fun hnot => ⟨reconciles hT hin horders hnot, reconcile_reconcile orders notes⟩

/-! ## A note that is locked again -/

/-- A note was locked by an intent that was cancelled, and by another one since then. -/
def firstOrder : ReconciledPrivateMarginOrder := ⟨['a'], some ['n'], none, .cancelled⟩

def secondOrder : ReconciledPrivateMarginOrder := ⟨['b'], some ['n'], none, .open⟩

def relockedNote : StoredPrivateMarginNote := ⟨['m'], ['n'], .locked, some ['b']⟩

def waitingChange : StoredPrivateMarginNote := ⟨['c'], ['k'], .pending, some ['b']⟩

theorem relocked_trueTable : TrueTable [firstOrder, secondOrder] where
  unique := by
    intro order horder other hother key hof hof'
    have h := hof.trans hof'.symm
    simp only [List.mem_cons, List.not_mem_nil, or_false] at horder hother
    rcases horder with rfl | rfl <;> rcases hother with rfl | rfl <;>
      first | rfl | exact absurd h (by decide)
  source := by
    intro residual hresidual key hkey
    simp only [List.mem_cons, List.not_mem_nil, or_false] at hresidual
    rcases hresidual with rfl | rfl <;> cases hkey

theorem relocked_lockedBy {note : StoredPrivateMarginNote}
    (hnote : note ∈ [relockedNote, waitingChange]) (h : note.LockedBy key) :
    note = relockedNote ∧ key = ['b'] := by
  simp only [List.mem_cons, List.not_mem_nil, or_false] at hnote
  rcases hnote with rfl | rfl
  · exact ⟨rfl, (Option.some.inj h.2).symm.trans (by decide)⟩
  · exact absurd h.1 (by decide)

theorem relocked_inStep :
    InStep [firstOrder, secondOrder] [relockedNote, waitingChange] where
  uses := by
    intro note hnote key hlocked order horder hof
    obtain ⟨rfl, rfl⟩ := relocked_lockedBy hnote hlocked
    simp only [List.mem_cons, List.not_mem_nil, or_false] at horder
    rcases horder with rfl | rfl
    · exact absurd hof (by unfold ReconciledPrivateMarginOrder.Of; decide)
    · unfold ReconciledPrivateMarginOrder.Uses
      decide
  latest := by
    intro note hnote key hlocked _ other hother _ hof
    obtain ⟨rfl, rfl⟩ := relocked_lockedBy hnote hlocked
    simp only [List.mem_cons, List.not_mem_nil, or_false] at hother
    rcases hother with rfl | rfl
    · rfl
    · exact absurd (by unfold ReconciledPrivateMarginOrder.Of; decide) hof
  single := by
    intro note hnote other hother key hlocked hlocked'
    rw [(relocked_lockedBy hnote hlocked).1, (relocked_lockedBy hother hlocked').1]

/-- A complete list misleads no note. -/
theorem reconcile_iff_complete :
    (Reconciles [firstOrder, secondOrder] [relockedNote, waitingChange]
        (reconcileNote (reconciledOrderStatuses [secondOrder, firstOrder]
          [relockedNote, waitingChange])) ∧
      reconcilePrivateMarginNotes [secondOrder, firstOrder]
          (reconcilePrivateMarginNotes [secondOrder, firstOrder] [relockedNote, waitingChange]) =
        reconcilePrivateMarginNotes [secondOrder, firstOrder] [relockedNote, waitingChange]) ↔
      ∀ note ∈ [relockedNote, waitingChange],
        ¬ Misled [firstOrder, secondOrder] [secondOrder, firstOrder] [relockedNote, waitingChange]
          note :=
  reconcile_iff relocked_trueTable relocked_inStep (by simp)

/-- A list with the cancelled order alone releases a note that an open order uses. -/
theorem cancelled_alone_releases :
    TrueTable [firstOrder, secondOrder] ∧
      InStep [firstOrder, secondOrder] [relockedNote, waitingChange] ∧
      ¬ Reconciles [firstOrder, secondOrder] [relockedNote, waitingChange]
        (reconcileNote (reconciledOrderStatuses [firstOrder] [relockedNote, waitingChange])) := by
  refine ⟨relocked_trueTable, relocked_inStep, fun h => ?_⟩
  refine h.released relockedNote (by simp) rfl (by decide) ⟨secondOrder, by simp, Or.inl rfl, ?_⟩
  unfold ReconciledPrivateMarginOrder.Uses
  decide

end Pnlx.Client
