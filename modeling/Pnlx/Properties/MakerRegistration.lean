import Pnlx.Server.VaultMakerBacking

/-!
# Registration of vault maker notes

Any number of calls run on the maker's documents, with every interleaving of their requests, and
each may end between two of them.

`registration_consistent_iff`: allocations and notes agree in every state of a run exactly when no
step of it is late. A note is tagged late for an allocation that is closed, and an allocation is
closed late when a note has been tagged for it since its notes were counted.
-/

namespace Pnlx.Server

open BatchMatch (Text)
open Interleaving

namespace MakerDatabase

variable {db : MakerDatabase} {req : BackingRequest} {id c : Text}

/-! ## Consistency -/

/-- The amount of a note. -/
def amountOf (db : MakerDatabase) (commitment : Text) : ℕ :=
  ((db.notes.get? commitment).map (·.amount)).getD 0

/-- An allocation has registered the amounts of its notes, and no more than its own amount. -/
def Registered (db : MakerDatabase) : Prop :=
  ∀ id allocation, db.allocations.get? id = some allocation →
    allocation.registeredAmount = (allocation.noteCommitments.map db.amountOf).sum ∧
      allocation.registeredAmount ≤ allocation.amount

/-- A note without a parent that is tagged with an allocation is one of its notes. -/
def Tagged (db : MakerDatabase) : Prop :=
  ∀ c note, db.notes.get? c = some note → note.vaultParentCommitment = none →
    ∀ id ∈ note.vaultAllocationId, ∃ allocation, db.allocations.get? id = some allocation ∧
      c ∈ allocation.noteCommitments

/-- A closed allocation has no active note. -/
def Emptied (db : MakerDatabase) : Prop :=
  ∀ id allocation, db.allocations.get? id = some allocation → allocation.status = .closed →
    ∀ c note, db.notes.get? c = some note → belongsTo id note = false

structure Consistent (db : MakerDatabase) : Prop where
  registered : db.Registered
  tagged : db.Tagged
  emptied : db.Emptied

/-! ## What a request does -/

/-- What a request makes of a note. -/
structure NoteChange (req : BackingRequest) (c : Text) (note note' : MakerNote) : Prop where
  amount : note'.amount = note.amount
  parent : note'.vaultParentCommitment = note.vaultParentCommitment
  active : isActive note'.status = isActive note.status
  allocation : note'.vaultAllocationId = note.vaultAllocationId ∨
    ∃ tag, req = .tagNote tag ∧ tag.commitment = c ∧ taggable tag note = true ∧
      note'.vaultAllocationId = some tag.id

theorem NoteChange.refl (req : BackingRequest) (c : Text) (note : MakerNote) :
    NoteChange req c note note := ⟨rfl, rfl, rfl, Or.inl rfl⟩

/-- What a request makes of an allocation. -/
structure AllocationChange (req : BackingRequest) (id : Text)
    (allocation allocation' : VaultMakerAllocation) : Prop where
  amount : allocation'.amount = allocation.amount
  notes : allocation'.noteCommitments = allocation.noteCommitments ∧
      allocation'.registeredAmount = allocation.registeredAmount ∨
    ∃ registeredAmount c nextAmount, req = .reserve id registeredAmount c nextAmount ∧
      reservable registeredAmount c allocation = true ∧
      allocation' = reserved c nextAmount allocation
  closed : allocation.status = .closed → allocation'.status = .closed
  closing : allocation'.status = .closed → allocation.status = .closed ∨
    req = .closeAllocation id ∧ isOpen allocation = true

theorem AllocationChange.refl (req : BackingRequest) (id : Text)
    (allocation : VaultMakerAllocation) : AllocationChange req id allocation allocation :=
  ⟨rfl, Or.inl ⟨rfl, rfl⟩, fun h => h, Or.inl⟩

theorem noteChange_drain {note : MakerNote} (h : drainable id note = true) :
    NoteChange req c note { note with status := .draining } := by
  have hstatus : note.status = .available := (of_decide_eq_true h).2
  exact ⟨rfl, rfl, by rw [hstatus]; rfl, Or.inl rfl⟩

theorem noteChange_claim {vaultAllocationId : Option Text} {intent source : Text} {note : MakerNote}
    (h : claimable vaultAllocationId note = true) :
    NoteChange req c note (claimedBy intent source note) := by
  have hstatus : note.status = .available := (of_decide_eq_true h).1
  exact ⟨rfl, rfl, by rw [hstatus]; rfl, Or.inl rfl⟩

/-- **A note after a request.** -/
theorem note_of_perform {note' : MakerNote}
    (h : (performBacking req db).1.notes.get? c = some note') :
    ∃ note, db.notes.get? c = some note ∧ NoteChange req c note note' := by
  cases req with
  | tagNote tag =>
    rcases get?_updateOne h with h | ⟨rfl, note, hnote, htaggable, rfl⟩
    · exact ⟨note', h, .refl _ _ _⟩
    · exact ⟨note, hnote, rfl, rfl, rfl, Or.inr ⟨tag, rfl, rfl, htaggable, rfl⟩⟩
  | drainNotes id =>
    obtain ⟨note, hnote, rfl⟩ := Option.map_eq_some_iff.mp (get?_updateMany.symm.trans h)
    refine ⟨note, hnote, ?_⟩
    split_ifs with hdrain
    · exact noteChange_drain hdrain
    · exact .refl _ _ _
  | claimNote commitment intent source vaultAllocationId =>
    rcases get?_updateOne h with h | ⟨rfl, note, hnote, hclaimable, rfl⟩
    · exact ⟨note', h, .refl _ _ _⟩
    · exact ⟨note, hnote, noteChange_claim hclaimable⟩
  | _ => exact ⟨note', h, .refl _ _ _⟩

/-- **An allocation after a request.** -/
theorem allocation_of_perform {allocation' : VaultMakerAllocation}
    (h : (performBacking req db).1.allocations.get? id = some allocation') :
    ∃ allocation, db.allocations.get? id = some allocation ∧
      AllocationChange req id allocation allocation' := by
  cases req with
  | reserve id' registeredAmount c nextAmount =>
    rcases get?_updateOne h with h | ⟨rfl, allocation, hallocation, hreservable, rfl⟩
    · exact ⟨allocation', h, .refl _ _ _⟩
    · exact ⟨allocation, hallocation, rfl, Or.inr ⟨_, _, _, rfl, hreservable, rfl⟩, fun h => h,
        Or.inl⟩
  | drainAllocation id' =>
    rcases get?_updateOne h with h | ⟨rfl, allocation, hallocation, hstatus, rfl⟩
    · exact ⟨allocation', h, .refl _ _ _⟩
    · refine ⟨allocation, hallocation, rfl, Or.inl ⟨rfl, rfl⟩, fun h => ?_, fun h => by cases h⟩
      exact absurd (h.symm.trans (of_decide_eq_true hstatus)) (by decide)
  | closeAllocation id' =>
    rcases get?_updateOne h with h | ⟨rfl, allocation, hallocation, hopen, rfl⟩
    · exact ⟨allocation', h, .refl _ _ _⟩
    · exact ⟨allocation, hallocation, rfl, Or.inl ⟨rfl, rfl⟩, fun _ => rfl,
        fun _ => Or.inr ⟨rfl, hopen⟩⟩
  | _ => exact ⟨allocation', h, .refl _ _ _⟩

theorem exists_note_of_perform (req : BackingRequest) {note : MakerNote}
    (h : db.notes.get? c = some note) :
    ∃ note', (performBacking req db).1.notes.get? c = some note' ∧ NoteChange req c note note' := by
  have hsome : ((performBacking req db).1.notes.get? c).isSome := by
    have hget : (db.notes.get? c).isSome := h ▸ rfl
    cases req with
    | tagNote tag => exact isSome_updateOne hget
    | drainNotes id =>
      show ((updateMany ..).get? c).isSome
      rw [get?_updateMany, Option.isSome_map]
      exact hget
    | claimNote => exact isSome_updateOne hget
    | _ => exact hget
  obtain ⟨note', hnote'⟩ := Option.isSome_iff_exists.mp hsome
  obtain ⟨old, hold, hchange⟩ := note_of_perform hnote'
  obtain rfl := Option.some.inj (h.symm.trans hold)
  exact ⟨note', hnote', hchange⟩

theorem exists_allocation_of_perform (req : BackingRequest) {allocation : VaultMakerAllocation}
    (h : db.allocations.get? id = some allocation) :
    ∃ allocation', (performBacking req db).1.allocations.get? id = some allocation' ∧
      AllocationChange req id allocation allocation' := by
  have hsome : ((performBacking req db).1.allocations.get? id).isSome := by
    have hget : (db.allocations.get? id).isSome := h ▸ rfl
    cases req with
    | reserve => exact isSome_updateOne hget
    | drainAllocation => exact isSome_updateOne hget
    | closeAllocation => exact isSome_updateOne hget
    | _ => exact hget
  obtain ⟨allocation', hallocation'⟩ := Option.isSome_iff_exists.mp hsome
  obtain ⟨old, hold, hchange⟩ := allocation_of_perform hallocation'
  obtain rfl := Option.some.inj (h.symm.trans hold)
  exact ⟨allocation', hallocation', hchange⟩

/-- The amount of a note never changes. -/
theorem amountOf_perform : (performBacking req db).1.amountOf c = db.amountOf c := by
  unfold amountOf
  cases h : db.notes.get? c with
  | none =>
    cases h' : (performBacking req db).1.notes.get? c with
    | none => rfl
    | some note' =>
      obtain ⟨note, hnote, -⟩ := note_of_perform h'
      exact absurd (h.symm.trans hnote) nofun
  | some note =>
    obtain ⟨note', hnote', hchange⟩ := exists_note_of_perform req h
    rw [hnote']
    exact hchange.amount

/-! ## Preconditions -/

/-- The requests of a call so far, with the databases that they met. -/
abbrev BackingLog := List (BackingRequest × MakerDatabase)

variable {log : BackingLog}

/-- A note that was tagged with the allocation when its notes were counted is not active, and one
that has been tagged since then is. -/
def CountedAt (counted : MakerDatabase) (id : Text) (db : MakerDatabase) : Prop :=
  ∀ c note, db.notes.get? c = some note → note.vaultAllocationId = some id →
    (isActive note.status = true ↔ ∀ note', counted.notes.get? c = some note' →
      note'.vaultAllocationId ≠ some id)

/-- What holds before each request of a call, whose requests so far are `log`. -/
def Precondition (log : BackingLog) : BackingRequest → MakerDatabase → Prop
  | .reserve id registeredAmount c nextAmount, db => ∀ allocation,
    db.allocations.get? id = some allocation →
      nextAmount ≤ allocation.amount ∧ nextAmount = registeredAmount + db.amountOf c
  | .tagNote tag, db => ∃ allocation, db.allocations.get? tag.id = some allocation ∧
    tag.commitment ∈ allocation.noteCommitments
  | .closeAllocation id, db =>
    ∃ counted, log = [(.countActive id, counted)] ∧ CountedAt counted id db
  | _, _ => True

/-- No step of a run is left out. -/
def Always (_ : BackingLog) (_ : BackingRequest) (_ : MakerDatabase) : Prop := True

abbrev BackingStable (P : MakerDatabase → Prop) : Prop :=
  Stable performBacking Precondition Always P

theorem stable_registered : BackingStable Registered := by
  intro log req db hpre _ h id allocation' hallocation'
  obtain ⟨allocation, hallocation, hchange⟩ := allocation_of_perform hallocation'
  obtain ⟨hsum, hle⟩ := h id allocation hallocation
  have hamounts : (performBacking req db).1.amountOf = db.amountOf :=
    funext fun c => amountOf_perform
  rw [hamounts]
  rcases hchange.notes with ⟨hnotes, hregistered⟩ | ⟨reg, c, next, rfl, hreservable, rfl⟩
  · rw [hnotes, hregistered, hchange.amount]
    exact ⟨hsum, hle⟩
  · obtain ⟨hnext, hadd⟩ := hpre allocation hallocation
    have hreg : allocation.registeredAmount = reg := (of_decide_eq_true hreservable).1
    refine ⟨?_, hnext⟩
    show next = ((allocation.noteCommitments ++ [c]).map db.amountOf).sum
    rw [List.map_append, List.sum_append, ← hsum, hreg, hadd]
    simp

/-- An allocation keeps its notes. -/
theorem stable_mem (id c : Text) : BackingStable fun db =>
    ∃ allocation, db.allocations.get? id = some allocation ∧ c ∈ allocation.noteCommitments := by
  rintro log req db - - ⟨allocation, hallocation, hmem⟩
  obtain ⟨allocation', hallocation', hchange⟩ := exists_allocation_of_perform req hallocation
  refine ⟨allocation', hallocation', ?_⟩
  rcases hchange.notes with ⟨hnotes, -⟩ | ⟨reg, other, next, -, -, rfl⟩
  · exact hnotes ▸ hmem
  · exact List.mem_append_left _ hmem

theorem stable_tagged : BackingStable Tagged := by
  intro log req db hpre hok h c note' hnote' hparent id hid
  obtain ⟨note, hnote, hchange⟩ := note_of_perform hnote'
  refine stable_mem id c log req db hpre hok ?_
  rcases hchange.allocation with hsame | ⟨tag, rfl, rfl, -, htag⟩
  · exact h c note hnote (hchange.parent ▸ hparent) id (hsame ▸ hid)
  · obtain rfl : tag.id = id := Option.some.inj (htag.symm.trans hid)
    exact hpre

/-- An allocation keeps its amount. -/
theorem stable_amount (id : Text) (amount : ℕ) : BackingStable fun db =>
    ∀ allocation, db.allocations.get? id = some allocation → allocation.amount = amount := by
  intro log req db _ _ h allocation' hallocation'
  obtain ⟨allocation, hallocation, hchange⟩ := allocation_of_perform hallocation'
  rw [hchange.amount, h allocation hallocation]

theorem stable_amountOf (c : Text) (amount : ℕ) :
    BackingStable fun db => db.amountOf c = amount := by
  intro log req db _ _ h
  rw [amountOf_perform, h]

/-- A note that is tagged with an allocation stays so. -/
theorem stable_tag (id c : Text) : BackingStable fun db =>
    ∃ note, db.notes.get? c = some note ∧ note.vaultAllocationId = some id := by
  rintro log req db - - ⟨note, hnote, hid⟩
  obtain ⟨note', hnote', hchange⟩ := exists_note_of_perform req hnote
  refine ⟨note', hnote', ?_⟩
  rcases hchange.allocation with hsame | ⟨tag, -, -, htaggable, htag⟩
  · rw [hsame, hid]
  · have hall := (of_decide_eq_true htaggable).2.2.2.2.2.2
    rw [hid] at hall
    rw [htag, of_decide_eq_true hall]

/-- What is known of the notes of an allocation since they were counted. -/
theorem stable_countedAt (counted : MakerDatabase) (id : Text) : BackingStable fun db =>
    (∀ c note, counted.notes.get? c = some note → note.vaultAllocationId = some id →
      ∃ note', db.notes.get? c = some note' ∧ note'.vaultAllocationId = some id) ∧
    CountedAt counted id db := by
  rintro log req db hpre hok ⟨hkept, hcounted⟩
  refine ⟨fun c note hnote hid => stable_tag id c log req db hpre hok (hkept c note hnote hid),
    fun c note' hnote' hid => ?_⟩
  obtain ⟨note, hnote, hchange⟩ := note_of_perform hnote'
  rw [hchange.active]
  by_cases hbefore : note.vaultAllocationId = some id
  · exact hcounted c note hnote hbefore
  · rcases hchange.allocation with hsame | ⟨tag, -, -, htaggable, -⟩
    · exact absurd (hsame ▸ hid) hbefore
    · -- the note is tagged now, so it was not when the notes were counted
      have hstatus : note.status = .available := (of_decide_eq_true htaggable).1
      refine iff_of_true (hstatus ▸ rfl) fun old hold hold' => ?_
      obtain ⟨now, hnow, hnowid⟩ := hkept c old hold hold'
      obtain rfl := Option.some.inj (hnote.symm.trans hnow)
      exact hbefore hnowid

/-! ## Calls -/

abbrev BackingKeeps {α : Type} (routine : BackingRoutine α) (log : BackingLog)
    (P : MakerDatabase → Prop) (Q : α → BackingLog → MakerDatabase → Prop) : Prop :=
  Interleaving.Keeps performBacking Precondition Always routine log P Q

theorem keeps_close (P : MakerDatabase → Prop) :
    BackingKeeps (closeVaultMakerAllocation id) [] P fun _ _ _ => True := by
  intro counted _
  refine ⟨trivial, fun _ => ⟨fun db => counted.notes.values.countP (belongsTo id) = 0 →
    (∀ c note, counted.notes.get? c = some note → note.vaultAllocationId = some id →
      ∃ note', db.notes.get? c = some note' ∧ note'.vaultAllocationId = some id) ∧
    CountedAt counted id db, ?_, ?_, keeps_throwIf_bind fun hcount => ?_⟩⟩
  · exact fun log req db hpre hok h hcount =>
      stable_countedAt counted id log req db hpre hok (h hcount)
  · intro hcount
    refine ⟨fun c note hnote hid => ⟨note, hnote, hid⟩, fun c note hnote hid => ?_⟩
    have hmem : note ∈ counted.notes.values := OrderedMap.mem_values.mpr ⟨c, hnote⟩
    have hnot : ¬ belongsTo id note = true := List.countP_eq_zero.mp hcount note hmem
    refine iff_of_false (fun hactive => hnot (decide_eq_true ⟨hid, hactive⟩)) fun h => ?_
    exact h note hnote hid
  · intro db hdb
    have hzero : counted.notes.values.countP (belongsTo id) = 0 := not_not.mp hcount
    exact ⟨⟨counted, rfl, (hdb hzero).2⟩, fun _ =>
      ⟨fun _ => True, stable_true, trivial, keeps_throwIf fun _ _ _ => trivial⟩⟩

theorem keeps_drain (P : MakerDatabase → Prop) :
    BackingKeeps (beginVaultMakerDrain id) [] P fun _ _ _ => True :=
  keeps_ask_free (fun _ => trivial) fun _ _ => keeps_throwIf_bind fun _ =>
    keeps_ask_free (fun _ => trivial) fun _ _ => keeps_ask_free (fun _ => trivial) fun _ _ _ _ =>
      trivial

theorem keeps_claim (P : MakerDatabase → Prop) (commitment intent source : Text)
    (vaultAllocationId : Option Text) :
    BackingKeeps (claimMakerNote commitment intent source vaultAllocationId) [] P
      fun _ _ _ => True := by
  unfold claimMakerNote
  cases given vaultAllocationId with
  | none => exact keeps_ask_free (fun _ => trivial) fun _ _ _ _ => trivial
  | some id =>
    refine keeps_ask_free (fun _ => trivial) fun found db => ?_
    dsimp only [Routine.bind]
    by_cases hfound : Option.isNone found = true
    · rw [if_pos hfound]
      exact fun _ _ => trivial
    · rw [if_neg hfound]
      exact keeps_ask_free (fun _ => trivial) fun _ _ _ _ => trivial

/-- A reservation that finds its allocation puts the note in it. -/
theorem mem_of_reserve {registeredAmount nextAmount : ℕ}
    (h : (performBacking (.reserve id registeredAmount c nextAmount) db).2 = true) :
    ∃ allocation, (performBacking (.reserve id registeredAmount c nextAmount) db).1.allocations.get?
      id = some allocation ∧ c ∈ allocation.noteCommitments := by
  rcases updateOne_cases db.allocations id (reservable registeredAmount c) (reserved c nextAmount)
    with ⟨allocation, -, -, he⟩ | ⟨-, he⟩
  · refine ⟨reserved c nextAmount allocation, ?_, List.mem_append_right _ List.mem_cons_self⟩
    show (updateOne ..).1.get? id = _
    rw [he, OrderedMap.get?_set_self]
  · have hfalse : (updateOne ..).2 = true := h
    rw [he] at hfalse
    cases hfalse

/-- **A note that has been reserved is one of the notes of its allocation.** -/
theorem keeps_reserveNote (input : RegisterInput) (id : Text) (noteAmount attempts : ℕ) :
    BackingKeeps (reserveNote input id noteAmount attempts) log
      (fun db => db.amountOf input.commitment = noteAmount)
      fun _ _ db => ∃ allocation, db.allocations.get? id = some allocation ∧
        input.commitment ∈ allocation.noteCommitments := by
  induction attempts generalizing log with
  | zero => trivial
  | succ attempts ih =>
    intro db hamount
    refine ⟨trivial, fun _ => ⟨fun db' => db'.amountOf input.commitment = noteAmount ∧
      ∀ current, db.allocations.get? id = some current →
        (∀ allocation, db'.allocations.get? id = some allocation →
          allocation.amount = current.amount) ∧
        (input.commitment ∈ current.noteCommitments → ∃ allocation,
          db'.allocations.get? id = some allocation ∧
            input.commitment ∈ allocation.noteCommitments), ?_, ?_, ?_⟩⟩
    · rintro log req db' hpre hok ⟨h, h'⟩
      refine ⟨stable_amountOf _ _ log req db' hpre hok h,
        fun current hcurrent => ⟨?_, fun hmem => ?_⟩⟩
      · exact stable_amount id _ log req db' hpre hok (h' current hcurrent).1
      · exact stable_mem id _ log req db' hpre hok ((h' current hcurrent).2 hmem)
    · refine ⟨hamount, fun current hcurrent => ⟨fun allocation hallocation => ?_, fun hmem => ?_⟩⟩
      · rw [Option.some.inj (hallocation.symm.trans hcurrent)]
      · exact ⟨current, hcurrent, hmem⟩
    · refine keeps_orThrow_bind fun current hcurrent => ?_
      have hget : db.allocations.get? id = some current := (Option.filter_eq_some_iff.mp hcurrent).1
      split_ifs with hmem
      · exact fun db' h => (h.2 current hget).2 hmem
      · refine keeps_throwIf_bind fun hle => fun db' h =>
          ⟨fun allocation hallocation => ?_, fun _ => ?_⟩
        · rw [(h.2 current hget).1 allocation hallocation, h.1]
          exact ⟨not_lt.mp hle, rfl⟩
        · cases hupdated : (performBacking (.reserve id current.registeredAmount input.commitment
              (current.registeredAmount + noteAmount)) db').2 with
          | true =>
            refine ⟨_, stable_mem id input.commitment, mem_of_reserve hupdated, ?_⟩
            dsimp only [Routine.bind]
            rw [if_pos rfl]
            exact fun _ hmem => hmem
          | false =>
            refine ⟨_, stable_amountOf input.commitment noteAmount, amountOf_perform.trans h.1, ?_⟩
            dsimp only [Routine.bind]
            rw [if_neg Bool.false_ne_true]
            exact ih

/-- **A note is tagged only after it has been reserved.** -/
theorem keeps_register (P : MakerDatabase → Prop) (input : RegisterInput) :
    BackingKeeps (registerVaultMakerNote input) [] P fun _ _ _ => True := by
  refine keeps_ofExcept_bind fun id _ => keeps_ofExcept_bind fun noteAmount _ =>
    keeps_ofExcept_bind fun depositTxHash _ => ?_
  intro db _
  refine ⟨trivial, fun _ => ⟨fun db' => ∀ note, db.notes.get? input.commitment = some note →
    db'.amountOf input.commitment = note.amount, ?_, ?_, ?_⟩⟩
  · exact fun log req db' hpre hok h note hnote =>
      stable_amountOf _ _ log req db' hpre hok (h note hnote)
  · intro note hnote
    show ((db.notes.get? input.commitment).map (·.amount)).getD 0 = note.amount
    rw [hnote]
    rfl
  · refine keeps_orThrow_bind fun note hnote => keeps_ofExcept_bind fun hash _ =>
      keeps_throwIf_bind fun _ => keeps_throwIf_bind fun _ => ?_
    obtain ⟨hget, hmatches⟩ := Option.filter_eq_some_iff.mp hnote
    have hamount : note.amount = noteAmount := (of_decide_eq_true hmatches).2.2.2.1
    refine keeps_bind ((keeps_reserveNote input id noteAmount 5).weaken fun db' h =>
      (h note hget).trans hamount) fun _ log => ?_
    refine fun db' hmem => ⟨hmem, fun _ => ⟨fun _ => True, stable_true, trivial, ?_⟩⟩
    refine keeps_throwIf_bind fun _ => keeps_ask_free (fun _ => trivial) fun registered _ => ?_
    cases registered with
    | none => trivial
    | some allocation => exact fun _ _ => trivial

theorem keeps_routine (P : MakerDatabase → Prop) (call : BackingCall) :
    BackingKeeps call.routine [] P fun _ _ _ => True := by
  cases call with
  | register input => exact keeps_bind (keeps_register P input) fun _ _ _ _ => trivial
  | drain id => exact keeps_drain P
  | close id => exact keeps_close P
  | claim commitment intent source vaultAllocationId =>
    exact keeps_bind (keeps_claim P commitment intent source vaultAllocationId)
      fun _ _ _ _ => trivial

/-! ## Late requests -/

/-- The request comes late: it tags a note for a closed allocation, or it closes an allocation for
which a note has been tagged since its notes were counted. -/
def ComesLate (log : BackingLog) : BackingRequest → MakerDatabase → Prop
  | .tagNote tag, db =>
    (∃ allocation, db.allocations.get? tag.id = some allocation ∧ allocation.status = .closed) ∧
      ∃ note, db.notes.get? tag.commitment = some note ∧ taggable tag note = true
  | .closeAllocation id, db =>
    (∃ allocation, db.allocations.get? id = some allocation ∧ isOpen allocation = true) ∧
      ∃ c note, db.notes.get? c = some note ∧ note.vaultAllocationId = some id ∧
        ∀ entry ∈ log, ∀ note', entry.2.notes.get? c = some note' →
          note'.vaultAllocationId ≠ some id
  | _, _ => False

/-- A request that is not late leaves closed allocations without active notes. -/
theorem Emptied.perform (h : db.Emptied) (hpre : Precondition log req db)
    (hlate : ¬ ComesLate log req db) : (performBacking req db).1.Emptied := by
  intro id allocation' hallocation' hclosed c note' hnote'
  obtain ⟨allocation, hallocation, hchange⟩ := allocation_of_perform hallocation'
  obtain ⟨note, hnote, hnoteChange⟩ := note_of_perform hnote'
  refine decide_eq_false ?_
  rintro ⟨hid, hactive⟩
  rw [hnoteChange.active] at hactive
  rcases hchange.closing hclosed with hbefore | ⟨rfl, hopen⟩
  · rcases hnoteChange.allocation with hsame | ⟨tag, rfl, rfl, htaggable, htag⟩
    · have hnot := of_decide_eq_false (h id allocation hallocation hbefore c note hnote)
      exact hnot ⟨hsame ▸ hid, hactive⟩
    · obtain rfl : tag.id = id := Option.some.inj (htag.symm.trans hid)
      exact hlate ⟨⟨allocation, hallocation, hbefore⟩, note, hnote, htaggable⟩
  · obtain ⟨counted, rfl, hcounted⟩ := hpre
    have hid' : note.vaultAllocationId = some id := by
      rcases hnoteChange.allocation with hsame | ⟨tag, hreq, -⟩
      · exact hsame ▸ hid
      · cases hreq
    refine hlate ⟨⟨allocation, hallocation, hopen⟩, c, note, hnote, hid', ?_⟩
    intro entry hmem
    rw [List.mem_singleton.mp hmem]
    exact (hcounted c note hnote hid').mp hactive

/-- A late request leaves a closed allocation with an active note. -/
theorem not_emptied_of_late (hpre : Precondition log req db) (hlate : ComesLate log req db) :
    ¬ (performBacking req db).1.Emptied := by
  intro h
  cases req with
  | tagNote tag =>
    obtain ⟨⟨allocation, hallocation, hclosed⟩, note, hnote, htaggable⟩ := hlate
    have hafter : (performBacking (.tagNote tag) db).1.notes.get? tag.commitment =
        some (tagged tag.id note) := by
      show (updateOne ..).1.get? _ = _
      rw [updateOne, hnote, Option.filter_some_pos htaggable, OrderedMap.get?_set_self]
    have hnot := of_decide_eq_false (h tag.id allocation hallocation hclosed _ _ hafter)
    have hstatus : note.status = .available := (of_decide_eq_true htaggable).1
    exact hnot ⟨rfl, by show isActive note.status = true; rw [hstatus]; rfl⟩
  | closeAllocation id =>
    obtain ⟨⟨allocation, hallocation, hopen⟩, c, note, hnote, hid, hfresh⟩ := hlate
    obtain ⟨counted, rfl, hcounted⟩ := hpre
    have hafter : (performBacking (.closeAllocation id) db).1.allocations.get? id =
        some { allocation with status := .closed, remainingPrincipal := some 0 } := by
      show (updateOne ..).1.get? _ = _
      rw [updateOne, hallocation, Option.filter_some_pos hopen, OrderedMap.get?_set_self]
    have hactive := (hcounted c note hnote hid).mpr (hfresh _ List.mem_cons_self)
    exact of_decide_eq_false (h id _ hafter rfl c note hnote) ⟨hid, hactive⟩
  | _ => exact hlate

end MakerDatabase

open MakerDatabase

/-! ## Runs -/

namespace BackingWorld

/-- A database on which no call is running. -/
structure Initial (w : BackingWorld) : Prop where
  consistent : w.state.Consistent
  threads : ∀ p, w.threads p = none

/-- A step comes late. -/
def Late (x : Runs.Step BackingWorld (Act BackingCall)) : Prop :=
  ∃ log req, x.pre.Requests x.act log req ∧ ComesLate log req x.pre.state

variable {w : BackingWorld}

/-- Allocations and their own notes agree in every run, and every request is made under its
precondition. -/
theorem requests_of_run (hw : w.Initial) (acts : List (Act BackingCall)) :
    ∀ x ∈ Runs.accepted backingStep w acts,
      (x.post.state.Registered ∧ x.post.state.Tagged) ∧ ∀ log req, x.pre.Requests x.act log req →
        Precondition log req x.pre.state ∧ x.post.state = (performBacking req x.pre.state).1 := by
  intro x hx
  have h := World.requests_of_keeps (stable_registered.and stable_tagged)
    (fun call => keeps_routine _ call) ⟨hw.consistent.registered, hw.consistent.tagged⟩ hw.threads
    (fun _ _ _ _ _ => trivial) x hx
  exact ⟨h.2.1, h.2.2⟩

/-- **Registration is consistent** in every state of a run exactly when no step of it comes late. -/
theorem registration_consistent_iff (hw : w.Initial) (acts : List (Act BackingCall)) :
    (∀ x ∈ Runs.accepted backingStep w acts, x.post.state.Consistent) ↔
      ∀ x ∈ Runs.accepted backingStep w acts, ¬ Late x := by
  have hrun := requests_of_run hw acts
  constructor
  · rintro hconsistent x hx ⟨log, req, hreq, hlate⟩
    obtain ⟨hpre, hpost⟩ := (hrun x hx).2 log req hreq
    exact not_emptied_of_late hpre hlate (hpost ▸ (hconsistent x hx).emptied)
  · intro hlate x hx
    have hemptied := @Runs.around_of_accepted _ _ _ backingStep
      (fun x => ¬ Late x ∧ ∀ log req, x.pre.Requests x.act log req →
        Precondition log req x.pre.state ∧ x.post.state = (performBacking req x.pre.state).1)
      (fun w => w.state.Emptied) (fun x hx hstep h => ?_) w acts hw.consistent.emptied
      (fun x hx => ⟨hlate x hx, (hrun x hx).2⟩) x hx
    · exact ⟨(hrun x hx).1.1, (hrun x hx).1.2, hemptied.2⟩
    · by_cases hsame : x.post.state = x.pre.state
      · exact hsame ▸ h
      · obtain ⟨log, req, hreq, -⟩ := World.state_of_moves (World.moves_of_step hstep) hsame
        obtain ⟨hpre, hpost⟩ := hx.2 log req hreq
        rw [hpost]
        exact h.perform hpre fun hcomes => hx.1 ⟨log, req, hreq, hcomes⟩

/-! ## A note that is tagged late -/

def sampleVault : Text := 'C' :: List.replicate 55 'A'

def sampleHash : Text := List.replicate 64 'a'

def sampleAllocationId : Text := sampleVault ++ ':' :: sampleHash

def sampleAllocation : VaultMakerAllocation where
  amount := 10
  asset := ['u']
  maker := ['m']
  noteCommitments := []
  remainingPrincipal := some 10
  registeredAmount := 0
  series := 0
  status := .outstanding
  vault := sampleVault

def sampleMakerNote : MakerNote where
  commitment := ['n']
  noteNullifier := ['k']
  amount := 5
  assetDigest := []
  blinding := []
  ownerCommitment := none
  ownerDigest := []
  rhoDigest := []
  spendSecretDigest := []
  token := some ['u']
  walletAddress := ['m']
  depositTxHash := some sampleHash
  status := .available
  lockedByIntentCommitment := none
  sourceIntentCommitment := none
  vaultAllocationId := none
  vaultParentCommitment := none

/-- A database with an allocation and a note that is not registered yet. -/
def sampleBacking : BackingWorld where
  state :=
    { allocations := OrderedMap.empty.set sampleAllocationId sampleAllocation
      notes := OrderedMap.empty.set ['n'] sampleMakerNote }
  threads _ := none

theorem initial_sampleBacking : sampleBacking.Initial where
  consistent := by
    have hallocation {id : Text} {allocation : VaultMakerAllocation}
        (h : sampleBacking.state.allocations.get? id = some allocation) :
        allocation = sampleAllocation := by
      unfold sampleBacking at h
      rw [OrderedMap.get?_set] at h
      split_ifs at h
      · exact (Option.some.inj h).symm
      · cases h
    have hnote {c : Text} {note : MakerNote}
        (h : sampleBacking.state.notes.get? c = some note) : note = sampleMakerNote := by
      unfold sampleBacking at h
      rw [OrderedMap.get?_set] at h
      split_ifs at h
      · exact (Option.some.inj h).symm
      · cases h
    refine ⟨fun id allocation h => ?_, fun c note h _ id hid => ?_,
      fun id allocation h hclosed => ?_⟩
    · rw [hallocation h]
      exact ⟨rfl, Nat.zero_le _⟩
    · rw [hnote h] at hid
      cases hid
    · rw [hallocation h] at hclosed
      cases hclosed
  threads _ := rfl

def sampleRegistration : RegisterInput where
  allocationTxHash := sampleHash
  asset := ['u']
  commitment := ['n']
  depositTxHash := sampleHash
  maker := ['m']
  noteAmount := ['5']
  vault := sampleVault

/-- The allocation is closed between the reservation of the note and its tag. -/
def closedBetween : List (Act BackingCall) :=
  [.start 0 (.register sampleRegistration), .next 0, .next 0, .next 0,
    .start 1 (.close sampleAllocationId), .next 1, .next 1, .next 0]

theorem registration_consistent_closedBetween :
    (∀ x ∈ Runs.accepted backingStep sampleBacking closedBetween, x.post.state.Consistent) ↔
      ∀ x ∈ Runs.accepted backingStep sampleBacking closedBetween, ¬ Late x :=
  registration_consistent_iff initial_sampleBacking closedBetween

/-- **A closed allocation gets an active note** when it is closed between the two writes of a
registration. -/
theorem closedBetween_not_consistent : sampleBacking.Initial ∧
    ¬ (Runs.final backingStep sampleBacking closedBetween).state.Consistent := by
  refine ⟨initial_sampleBacking, fun h => ?_⟩
  have hallocation : ((Runs.final backingStep sampleBacking closedBetween).state.allocations.get?
      sampleAllocationId).map (·.status) = some .closed := by decide +kernel
  have hnote : ((Runs.final backingStep sampleBacking closedBetween).state.notes.get?
      ['n']).map (belongsTo sampleAllocationId) = some true := by decide +kernel
  obtain ⟨allocation, hget, hclosed⟩ := Option.map_eq_some_iff.mp hallocation
  obtain ⟨note, hgetNote, hactive⟩ := Option.map_eq_some_iff.mp hnote
  rw [h.emptied _ _ hget hclosed _ _ hgetNote] at hactive
  cases hactive

end BackingWorld

end Pnlx.Server
