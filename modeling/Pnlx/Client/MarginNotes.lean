import Pnlx.Server.Texts

/-!
# The margin notes of a wallet

A wallet keeps its notes with a status and the intent that each is locked by, and brings them in
step with the orders that the server reports: `reconcilePrivateMarginNotes`. The status of an intent
is taken from the orders that name it, and otherwise from the orders with the nullifier of a note
that is locked by it. Amounts, digests and times are left out, since nothing here reads them.

`reconciledOrderStatuses_eq` says which status an intent gets.
-/

namespace Pnlx.Client

open BatchMatch (Text)
open Server (given)

inductive PrivateMarginNoteStatus where
  | available
  | locked
  | pending
  | claiming
  | spent
  deriving DecidableEq

inductive ReconciledOrderStatus where
  | open
  | filled
  | partiallyFilled
  | cancelled
  deriving DecidableEq

structure ReconciledPrivateMarginOrder where
  intentCommitment : Text
  noteNullifier : Option Text
  sourceIntentCommitment : Option Text
  status : ReconciledOrderStatus
  deriving DecidableEq

structure StoredPrivateMarginNote where
  commitment : Text
  noteNullifier : Text
  status : PrivateMarginNoteStatus
  lockedByIntentCommitment : Option Text
  deriving DecidableEq

/-- `toLowerCase` of a hexadecimal text. -/
def intentCommitmentKey (intentCommitment : Text) : Text := intentCommitment.map Char.toLower

def noteNullifierKey (noteNullifier : Text) : Text := noteNullifier.map Char.toLower

/-- The key of the intent that a note is locked by. -/
def StoredPrivateMarginNote.lockKey (note : StoredPrivateMarginNote) : Option Text :=
  (given note.lockedByIntentCommitment).map intentCommitmentKey

/-- The key of the nullifier that an order uses. -/
def ReconciledPrivateMarginOrder.nullifierKey (order : ReconciledPrivateMarginOrder) :
    Option Text := (given order.noteNullifier).map noteNullifierKey

/-- The key of the intent whose residual an order is. -/
def ReconciledPrivateMarginOrder.sourceKey (order : ReconciledPrivateMarginOrder) : Option Text :=
  ((given order.sourceIntentCommitment).map intentCommitmentKey).filter
    (· ≠ intentCommitmentKey order.intentCommitment)

def reconciliationStatusPriority : ReconciledOrderStatus → ℕ
  | .cancelled | .filled => 3
  | .partiallyFilled => 2
  | .open => 1

/-- A `Map` from keys to statuses. -/
abbrev OrderStatuses := Text → Option ReconciledOrderStatus

/-- `setReconciledOrderStatus` for a key. -/
def setReconciledOrderStatus (statuses : OrderStatuses) (key : Text)
    (status : ReconciledOrderStatus) : OrderStatuses :=
  if (statuses key).all fun current =>
      reconciliationStatusPriority current ≤ reconciliationStatusPriority status then
    Function.update statuses key (some status)
  else statuses

/-- One round of the loop over the orders, for the statuses of the intents. -/
def recordOrder (statuses : OrderStatuses) (order : ReconciledPrivateMarginOrder) :
    OrderStatuses :=
  let statuses := setReconciledOrderStatus statuses (intentCommitmentKey order.intentCommitment)
    order.status
  match order.sourceKey with
  | some source => setReconciledOrderStatus statuses source .partiallyFilled
  | none => statuses

/-- `statusesByNullifier.get(key)`: the statuses of the orders with a nullifier. -/
def statusesByNullifier (orders : List ReconciledPrivateMarginOrder) (key : Text) :
    List ReconciledOrderStatus :=
  (orders.filter (·.nullifierKey = some key)).map (·.status)

def fallbackStatusForNullifier (statuses : List ReconciledOrderStatus) :
    Option ReconciledOrderStatus :=
  if .open ∈ statuses ∨ .partiallyFilled ∈ statuses then some .open
  else if .filled ∈ statuses then some .filled
  else if .cancelled ∈ statuses then some .cancelled
  else none

/-- One round of the loop over the notes. -/
def fallBack (orders : List ReconciledPrivateMarginOrder) (statuses : OrderStatuses)
    (note : StoredPrivateMarginNote) : OrderStatuses :=
  match note.lockKey with
  | none => statuses
  | some key =>
    if note.status ≠ .locked ∨ (statuses key).isSome then statuses
    else match fallbackStatusForNullifier
        (statusesByNullifier orders (noteNullifierKey note.noteNullifier)) with
      | some status => setReconciledOrderStatus statuses key status
      | none => statuses

def reconciledOrderStatuses (orders : List ReconciledPrivateMarginOrder)
    (notes : List StoredPrivateMarginNote) : OrderStatuses :=
  notes.foldl (fallBack orders) (orders.foldl recordOrder fun _ => none)

/-- What the status of its intent makes of a note. -/
def settleNote (status : Option ReconciledOrderStatus) (note : StoredPrivateMarginNote) :
    StoredPrivateMarginNote :=
  match status, note.status with
  | some .filled, .locked | some .partiallyFilled, .locked => { note with status := .spent }
  | some .filled, .pending | some .partiallyFilled, .pending =>
    { note with lockedByIntentCommitment := none, status := .available }
  | some .cancelled, .locked => { note with lockedByIntentCommitment := none, status := .available }
  | some .cancelled, .pending => { note with status := .spent }
  | _, _ => note

/-- What becomes of a note. -/
def reconcileNote (statuses : OrderStatuses) (note : StoredPrivateMarginNote) :
    StoredPrivateMarginNote :=
  match note.lockKey with
  | none => note
  | some key => settleNote (statuses key) note

def reconcilePrivateMarginNotes (orders : List ReconciledPrivateMarginOrder)
    (notes : List StoredPrivateMarginNote) : List StoredPrivateMarginNote :=
  notes.map (reconcileNote (reconciledOrderStatuses orders notes))

/-! ## Which status an intent gets -/

variable {orders : List ReconciledPrivateMarginOrder} {notes : List StoredPrivateMarginNote}
  {statuses : OrderStatuses} {order : ReconciledPrivateMarginOrder} {key : Text}

/-- An order says something of an intent: it is of the intent, or it is a residual of it. -/
def ReconciledPrivateMarginOrder.Tells (order : ReconciledPrivateMarginOrder) (key : Text)
    (status : ReconciledOrderStatus) : Prop :=
  intentCommitmentKey order.intentCommitment = key ∧ order.status = status ∨
    order.sourceKey = some key ∧ status = .partiallyFilled

/-- Some order says something of an intent. -/
def Known (orders : List ReconciledPrivateMarginOrder) (key : Text) : Prop :=
  ∃ order ∈ orders, ∃ status, order.Tells key status

theorem setReconciledOrderStatus_eq_some {other : Text} {status s : ReconciledOrderStatus}
    (h : setReconciledOrderStatus statuses other s key = some status) :
    key = other ∧ status = s ∨ statuses key = some status := by
  unfold setReconciledOrderStatus at h
  split_ifs at h
  · by_cases hkey : key = other
    · subst hkey
      rw [Function.update_self] at h
      exact Or.inl ⟨rfl, (Option.some.inj h).symm⟩
    · rw [Function.update_of_ne hkey] at h
      exact Or.inr h
  · exact Or.inr h

theorem isSome_setReconciledOrderStatus {other : Text} {s : ReconciledOrderStatus} :
    (setReconciledOrderStatus statuses other s key).isSome ↔
      (statuses key).isSome ∨ key = other := by
  unfold setReconciledOrderStatus
  by_cases hkey : key = other
  · subst hkey
    split_ifs with hall
    · simp
    · cases hstatus : statuses key with
      | none => rw [hstatus] at hall; exact absurd rfl hall
      | some current => simp
  · split_ifs
    · rw [Function.update_of_ne hkey, or_iff_left hkey]
    · rw [or_iff_left hkey]

theorem recordOrder_eq_some {status : ReconciledOrderStatus}
    (h : recordOrder statuses order key = some status) :
    order.Tells key status ∨ statuses key = some status := by
  unfold recordOrder at h
  have hfirst {h : setReconciledOrderStatus statuses (intentCommitmentKey order.intentCommitment)
      order.status key = some status} : order.Tells key status ∨ statuses key = some status :=
    (setReconciledOrderStatus_eq_some h).imp (fun he => Or.inl ⟨he.1.symm, he.2.symm⟩) id
  cases hsource : order.sourceKey with
  | none =>
    rw [hsource] at h
    exact hfirst (h := h)
  | some source =>
    rw [hsource] at h
    rcases setReconciledOrderStatus_eq_some h with ⟨rfl, hstatus⟩ | h
    · exact Or.inl (Or.inr ⟨hsource, hstatus⟩)
    · exact hfirst (h := h)

theorem isSome_recordOrder : (recordOrder statuses order key).isSome ↔
    (statuses key).isSome ∨ ∃ status, order.Tells key status := by
  unfold recordOrder ReconciledPrivateMarginOrder.Tells
  cases hsource : order.sourceKey with
  | none =>
    simp only [isSome_setReconciledOrderStatus]
    refine or_congr_right ⟨fun h => ⟨_, Or.inl ⟨h.symm, rfl⟩⟩, ?_⟩
    rintro ⟨status, ⟨h, -⟩ | ⟨h, -⟩⟩
    · exact h.symm
    · cases h
  | some source =>
    simp only [isSome_setReconciledOrderStatus, or_assoc, Option.some.injEq]
    refine or_congr_right ⟨?_, ?_⟩
    · rintro (rfl | rfl)
      · exact ⟨_, Or.inl ⟨rfl, rfl⟩⟩
      · exact ⟨_, Or.inr ⟨rfl, rfl⟩⟩
    · rintro ⟨status, ⟨rfl, -⟩ | ⟨rfl, -⟩⟩
      · exact Or.inl rfl
      · exact Or.inr rfl

/-- The statuses that the orders tell. -/
def toldStatuses (orders : List ReconciledPrivateMarginOrder) : OrderStatuses :=
  orders.foldl recordOrder fun _ => none

theorem foldl_recordOrder_eq_some {status : ReconciledOrderStatus}
    (h : orders.foldl recordOrder statuses key = some status) :
    (∃ order ∈ orders, order.Tells key status) ∨ statuses key = some status := by
  induction orders generalizing statuses with
  | nil => exact Or.inr h
  | cons order orders ih =>
    rcases ih h with ⟨other, hother, htells⟩ | h
    · exact Or.inl ⟨other, List.mem_cons_of_mem _ hother, htells⟩
    · exact (recordOrder_eq_some h).imp (fun htells => ⟨order, List.mem_cons_self, htells⟩) id

theorem isSome_foldl_recordOrder : (orders.foldl recordOrder statuses key).isSome ↔
    (statuses key).isSome ∨ Known orders key := by
  induction orders generalizing statuses with
  | nil => simp [Known]
  | cons order orders ih =>
    rw [List.foldl_cons, ih, isSome_recordOrder, or_assoc]
    simp [Known]

/-- A status that the orders tell is told by one of them. -/
theorem exists_of_toldStatuses {status : ReconciledOrderStatus}
    (h : toldStatuses orders key = some status) : ∃ order ∈ orders, order.Tells key status :=
  (foldl_recordOrder_eq_some h).resolve_right nofun

theorem toldStatuses_eq_none : toldStatuses orders key = none ↔ ¬ Known orders key := by
  rw [← Option.not_isSome_iff_eq_none, not_iff_not]
  exact isSome_foldl_recordOrder.trans (or_iff_right (by simp))

/-- The status that a note would give the intent that it is locked by. -/
def fallbackFor (orders : List ReconciledPrivateMarginOrder) (key : Text)
    (note : StoredPrivateMarginNote) : Option ReconciledOrderStatus :=
  if note.status = .locked ∧ note.lockKey = some key then
    fallbackStatusForNullifier (statusesByNullifier orders (noteNullifierKey note.noteNullifier))
  else none

theorem fallBack_apply (statuses : OrderStatuses) (note : StoredPrivateMarginNote) (key : Text) :
    fallBack orders statuses note key = (statuses key).or (fallbackFor orders key note) := by
  cases hlock : note.lockKey with
  | none => simp [fallBack, fallbackFor, hlock]
  | some other =>
    simp only [fallBack, fallbackFor, hlock, Option.some.injEq]
    by_cases hskip : note.status ≠ .locked ∨ (statuses other).isSome
    · rw [if_pos hskip]
      rcases hskip with hstatus | hsome
      · rw [if_neg fun h => hstatus h.1, Option.or_none]
      · split_ifs with hkey
        · rw [Option.or_of_isSome (hkey.2 ▸ hsome)]
        · exact Option.or_none.symm
    · rw [if_neg hskip]
      obtain ⟨hlocked, hnone⟩ := not_or.mp hskip
      rw [not_not] at hlocked
      rw [Option.not_isSome_iff_eq_none] at hnone
      cases fallbackStatusForNullifier
          (statusesByNullifier orders (noteNullifierKey note.noteNullifier)) with
      | none => rw [ite_self, Option.or_none]
      | some status =>
        simp only [setReconciledOrderStatus, hnone, Option.all_none, if_true, hlocked, true_and]
        by_cases hkey : other = key
        · subst hkey
          rw [Function.update_self, hnone, if_pos rfl]
          rfl
        · rw [Function.update_of_ne (Ne.symm hkey), if_neg hkey, Option.or_none]

/-- **The status of an intent**: what the orders tell, or the first status that a note locked by it
gives. -/
theorem reconciledOrderStatuses_eq (orders : List ReconciledPrivateMarginOrder)
    (notes : List StoredPrivateMarginNote) (key : Text) :
    reconciledOrderStatuses orders notes key =
      (toldStatuses orders key).or (notes.findSome? (fallbackFor orders key)) := by
  have hfold (statuses : OrderStatuses) : notes.foldl (fallBack orders) statuses key =
      (statuses key).or (notes.findSome? (fallbackFor orders key)) := by
    induction notes generalizing statuses with
    | nil => simp
    | cons note notes ih =>
      rw [List.foldl_cons, ih, fallBack_apply, Option.or_assoc, List.findSome?_cons]
      cases fallbackFor orders key note <;> rfl
  exact hfold _

end Pnlx.Client
