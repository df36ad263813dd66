import Mathlib.Algebra.Order.BigOperators.Group.List
import Pnlx.Lib.Script
import Pnlx.Server.EligibleNotes

/-!
# Capital behind the maker notes

`eligible_backed`: the walks end whatever the links between the notes are, and the notes that are
selected come from deposits for allocations whose principals they do not exceed.
-/

namespace Pnlx.Server

open BatchMatch (Text)
open Ancestry

variable {notes eligible : List MakerNote} {allocations candidates : List ListedAllocation}
  {input : BackingInput} {allocation : ListedAllocation} {note : MakerNote} {fuel fuel' : ℕ}

/-- The note comes from one that is registered for the allocation, through spent notes of the maker
whose amounts do not grow. -/
inductive Descends (notes : List MakerNote) (input : BackingInput) (allocation : ListedAllocation) :
    MakerNote → Prop
  | registered (note : MakerNote) (hid : note.vaultAllocationId = some allocation.id)
    (hroot : given note.vaultParentCommitment = none)
    (hlisted : note.commitment ∈ allocation.noteCommitments) : Descends notes input allocation note
  | change (note parent : MakerNote) (hid : note.vaultAllocationId = some allocation.id)
    (hlink : given note.vaultParentCommitment = some parent.commitment) (hparent : parent ∈ notes)
    (hspent : parent.status = .spent) (hmaker : parent.walletAddress = input.maker)
    (hasset : parent.token = some input.asset) (hamount : note.amount ≤ parent.amount)
    (hdescends : Descends notes input allocation parent) : Descends notes input allocation note

/-- The notes that belong to one of the allocations. -/
def notesOf (notes : List MakerNote) (allocations : List ListedAllocation) : List MakerNote :=
  notes.filter fun note =>
    allocations.any fun allocation => note.vaultAllocationId = some allocation.id

/-- The allocations `backing` are behind the notes `result`. -/
structure BackedNotes (notes : List MakerNote) (allocations : List ListedAllocation)
    (input : BackingInput) (backing : List ListedAllocation) (result : List MakerNote) : Prop where
  outstanding : ∀ allocation ∈ backing, allocation ∈ allocations ∧
    allocation.status = .outstanding ∧ allocation.vault = input.vault ∧
    allocation.maker = input.maker ∧ allocation.asset = input.asset
  distinct : (backing.map (·.id)).Nodup
  notes : ∀ note ∈ result, note ∈ notes ∧ note.status = .available ∧
    note.walletAddress = input.maker ∧ note.token = some input.asset ∧
    ∃ allocation ∈ backing, Descends notes input allocation note
  allocation : ∀ allocation ∈ backing, amountOf (notesOf result [allocation]) ≤ allocation.remaining
  series : ∀ series, amountOf (notesOf result
    (backing.filter fun allocation => allocation.series = series)) ≤
      (input.seriesPrincipals series).getD 0
  total : amountOf result ≤ input.deployedPrincipal

/-! ## Walks -/

theorem commitment_of_get? {k : Text} (h : (notesByCommitment notes).get? k = some note) :
    note ∈ notes ∧ note.commitment = k := by
  rcases OrderedMap.mem_entries_setAll (OrderedMap.get?_eq_some.mp h) with hnone | hmem
  · cases hnone
  · obtain ⟨other, hother, he⟩ := List.mem_map.mp hmem
    cases he
    exact ⟨hother, rfl⟩

/-- What a link to a parent says. -/
structure Links (notes : List MakerNote) (input : BackingInput) (id : Text)
    (note parent : MakerNote) : Prop where
  id : note.vaultAllocationId = some id
  link : given note.vaultParentCommitment = some parent.commitment
  mem : parent ∈ notes
  spent : parent.status = .spent
  maker : parent.walletAddress = input.maker
  asset : parent.token = some input.asset
  amount : note.amount ≤ parent.amount

theorem links_of_parentLink {id : Text} {parent : MakerNote}
    (h : parentLink notes input allocation id note = .parent parent) :
    Links notes input id note parent := by
  unfold parentLink at h
  cases hlink : given note.vaultParentCommitment with
  | none =>
    rw [hlink] at h
    dsimp only at h
    split_ifs at h
  | some parentCommitment =>
    rw [hlink] at h
    dsimp only at h
    split_ifs at h with hid
    rw [not_not] at hid
    cases hget : (notesByCommitment notes).get? parentCommitment with
    | none =>
      rw [hget] at h
      cases h
    | some found =>
      rw [hget] at h
      dsimp only at h
      split_ifs at h with hbad
      cases h
      push Not at hbad
      obtain ⟨hspent, hmaker, hasset, hamount⟩ := hbad
      obtain ⟨hmem, rfl⟩ := commitment_of_get? hget
      exact ⟨hid, hlink, hmem, hspent, hmaker, hasset, hamount⟩

theorem registered_of_parentLink {id : Text}
    (h : parentLink notes input allocation id note = .root) :
    note.vaultAllocationId = some id ∧ given note.vaultParentCommitment = none ∧
      note.commitment ∈ allocation.noteCommitments := by
  unfold parentLink at h
  cases hlink : given note.vaultParentCommitment with
  | none =>
    rw [hlink] at h
    dsimp only at h
    split_ifs at h with hroot
    exact ⟨hroot.1, rfl, hroot.2⟩
  | some parentCommitment =>
    rw [hlink] at h
    dsimp only at h
    split_ifs at h
    cases hget : (notesByCommitment notes).get? parentCommitment with
    | none =>
      rw [hget] at h
      cases h
    | some found =>
      rw [hget] at h
      dsimp only at h
      split_ifs at h

/-- **A walk through the parents ends.** -/
theorem isSome_walk (hfuel : notes.length < fuel) (hnote : note ∈ notes) (id : Text) :
    (climb (·.commitment) (parentLink notes input allocation id) fuel [] note).isSome := by
  refine @isSome_climb _ _ _ _ _ _ _ (notes.map (·.commitment)) _ (fun _ parent h => ?_)
    (List.mem_map_of_mem hnote) List.nodup_nil
    (fun _ h => absurd h List.not_mem_nil) ?_
  · exact List.mem_map_of_mem (links_of_parentLink h).mem
  · rwa [List.length_map]

theorem descends_of_walk {root : MakerNote}
    (h : climb (·.commitment) (parentLink notes input allocation allocation.id) fuel [] note =
      some (some root)) : Descends notes input allocation note := by
  refine holds_of_climb h (fun hroot => ?_) fun child parent hparent hdescends => ?_
  · obtain ⟨hid, hlink, hlisted⟩ := registered_of_parentLink hroot
    exact .registered root hid hlink hlisted
  · have hlinks := links_of_parentLink hparent
    exact .change child parent hlinks.id hlinks.link hlinks.mem hlinks.spent hlinks.maker
      hlinks.asset hlinks.amount hdescends

/-! ## Eligible notes -/

theorem isSome_isEligible (hfuel : notes.length < fuel) (hnote : note ∈ notes)
    (active : OrderedMap Text ListedAllocation) :
    (isEligible fuel notes input active note).isSome := by
  unfold isEligible
  dsimp only
  split_ifs
  · rfl
  · cases hget : active.get? (note.vaultAllocationId.getD []) with
    | none => rfl
    | some allocation =>
      dsimp only
      rw [Option.isSome_map]
      exact isSome_walk hfuel hnote _

/-- More fuel changes nothing. -/
theorem isEligible_mono {answer : Bool} {active : OrderedMap Text ListedAllocation}
    (h : isEligible fuel notes input active note = some answer) (hle : fuel ≤ fuel') :
    isEligible fuel' notes input active note = some answer := by
  unfold isEligible at h ⊢
  dsimp only at h ⊢
  split_ifs at h ⊢ with hother
  · exact h
  · cases hget : active.get? (note.vaultAllocationId.getD []) with
    | none => rwa [hget] at h
    | some allocation =>
      rw [hget] at h
      obtain ⟨root, hroot, rfl⟩ := Option.map_eq_some_iff.mp h
      exact Option.map_eq_some_iff.mpr ⟨root, climb_mono hroot hle, rfl⟩

theorem isEligible_eq (hfuel : notes.length < fuel) (hnote : note ∈ notes)
    (active : OrderedMap Text ListedAllocation) :
    isEligible fuel notes input active note =
      isEligible (notes.length + 1) notes input active note := by
  obtain ⟨answer, hanswer⟩ := Option.isSome_iff_exists.mp
    (@isSome_isEligible _ input _ _ (Nat.lt_succ_self notes.length) hnote active)
  rw [Nat.succ_eq_add_one] at hanswer
  rw [hanswer]
  exact isEligible_mono hanswer hfuel

/-- The maps that are made of records under their own identifiers. -/
def KeyedById (active : OrderedMap Text ListedAllocation) : Prop :=
  ∀ entry ∈ active.entries, entry.2.id = entry.1

/-- What the filter of the eligible notes says. -/
theorem eligible_of_isEligible {active : OrderedMap Text ListedAllocation}
    (hkeyed : KeyedById active) (h : isEligible fuel notes input active note = some true) :
    note.status = .available ∧ note.walletAddress = input.maker ∧ note.token = some input.asset ∧
      ∃ allocation ∈ active.values, note.vaultAllocationId.getD [] = allocation.id ∧
        Descends notes input allocation note := by
  unfold isEligible at h
  dsimp only at h
  split_ifs at h with hother
  · cases h
  push Not at hother
  obtain ⟨hstatus, hmaker, hasset⟩ := hother
  refine ⟨hstatus, hmaker, hasset, ?_⟩
  cases hget : active.get? (note.vaultAllocationId.getD []) with
  | none =>
    rw [hget] at h
    cases h
  | some allocation =>
    rw [hget] at h
    have hid : allocation.id = note.vaultAllocationId.getD [] :=
      hkeyed _ (OrderedMap.get?_eq_some.mp hget)
    obtain ⟨result, hwalk, hsome⟩ := Option.map_eq_some_iff.mp h
    obtain ⟨root, rfl⟩ := Option.isSome_iff_exists.mp hsome
    rw [← hid] at hwalk
    exact ⟨allocation, OrderedMap.mem_values.mpr ⟨_, hget⟩, hid.symm, descends_of_walk hwalk⟩

theorem Descends.id (h : Descends notes input allocation note) :
    note.vaultAllocationId = some allocation.id := by
  cases h with
  | registered _ hid => exact hid
  | change _ _ hid => exact hid

/-! ## Sums -/

theorem amountOf_sublist {l l' : List MakerNote} (h : l.Sublist l') : amountOf l ≤ amountOf l' :=
  (h.map _).sum_le_sum fun _ _ => Nat.zero_le _

theorem amountOf_filter_or (l : List MakerNote) (p q : MakerNote → Bool) :
    amountOf (l.filter fun note => p note || q note) ≤
      amountOf (l.filter p) + amountOf (l.filter q) := by
  induction l with
  | nil => exact Nat.le_refl _
  | cons note l ih =>
    unfold amountOf at ih ⊢
    cases hp : p note <;> cases hq : q note <;> simp [hp, hq] <;> omega

/-- Notes that exceed no allocation do not exceed all of them together. -/
theorem amountOf_notesOf_le {result : List MakerNote} {backing : List ListedAllocation}
    (h : ∀ allocation ∈ backing, amountOf (notesOf result [allocation]) ≤ allocation.remaining) :
    amountOf (notesOf result backing) ≤ principalOf backing := by
  induction backing with
  | nil => simp [notesOf, amountOf]
  | cons allocation backing ih =>
    obtain ⟨hfirst, hrest⟩ := List.forall_mem_cons.mp h
    have hsplit := amountOf_filter_or result
      (fun note => note.vaultAllocationId = some allocation.id)
      fun note => backing.any fun allocation => note.vaultAllocationId = some allocation.id
    have hone : notesOf result [allocation] =
        result.filter fun note => note.vaultAllocationId = some allocation.id := by
      simp [notesOf]
    rw [hone] at hfirst
    have hboth := Nat.add_le_add hfirst (ih hrest)
    unfold principalOf at hboth ⊢
    rw [List.map_cons, List.sum_cons]
    exact hsplit.trans hboth

/-- The principals of distinct allocations are at most those of a list that has them. -/
theorem principalOf_le {backing : List ListedAllocation} (hnodup : backing.Nodup)
    (h : ∀ allocation ∈ backing, allocation ∈ candidates) :
    principalOf backing ≤ principalOf candidates := by
  obtain ⟨sub, hperm, hsublist⟩ := hnodup.subperm h
  have hsum : principalOf sub = principalOf backing := (hperm.map _).sum_eq
  rw [← hsum]
  exact (hsublist.map _).sum_le_sum fun _ _ => Nat.zero_le _

/-! ## Allocations -/

theorem mem_filterOrThrow {α : Type} {test : α → Except String Bool} {l kept : List α} {x : α}
    (h : filterOrThrow test l = .ok kept) (hx : x ∈ kept) : x ∈ l ∧ test x = .ok true := by
  induction l generalizing kept with
  | nil =>
    cases h
    cases hx
  | cons y l ih =>
    rw [filterOrThrow] at h
    obtain ⟨keep, hkeep, h⟩ := Script.except_bind_eq_ok.mp h
    obtain ⟨rest, hrest, h⟩ := Script.except_bind_eq_ok.mp h
    cases h
    cases keep with
    | false =>
      obtain ⟨hmem, htest⟩ := ih hrest hx
      exact ⟨List.mem_cons_of_mem _ hmem, htest⟩
    | true =>
      rcases List.mem_cons.mp hx with rfl | hx
      · exact ⟨List.mem_cons_self, hkeep⟩
      · obtain ⟨hmem, htest⟩ := ih hrest hx
        exact ⟨List.mem_cons_of_mem _ hmem, htest⟩

theorem outstanding_of_isBacking (h : isBacking input allocation = .ok true) :
    allocation.status = .outstanding ∧ allocation.vault = input.vault ∧
      allocation.maker = input.maker ∧ allocation.asset = input.asset := by
  unfold isBacking at h
  split_ifs at h with houtstanding
  · obtain ⟨hstatus, hvault, hmaker, hasset, -⟩ := of_decide_eq_true houtstanding
    exact ⟨hstatus, hvault, hmaker, hasset⟩
  · cases h

/-- What the map of the active allocations holds. -/
theorem mem_activeAllocations {entry : Text × ListedAllocation}
    (h : entry ∈ (activeAllocations input candidates).entries) :
    entry.2 ∈ candidates ∧ entry.2.id = entry.1 ∧
      seriesTotal candidates entry.2.series ≤ (input.seriesPrincipals entry.2.series).getD 0 := by
  rcases OrderedMap.mem_entries_setAll h with hnone | hmem
  · cases hnone
  · obtain ⟨allocation, hallocation, rfl⟩ := List.mem_map.mp hmem
    obtain ⟨hcandidate, hseries⟩ := List.mem_filter.mp hallocation
    exact ⟨hcandidate, rfl, of_decide_eq_true hseries⟩

theorem ids_activeAllocations : (activeAllocations input candidates).values.map (·.id) =
    (activeAllocations input candidates).keys := by
  unfold OrderedMap.values OrderedMap.keys
  rw [List.map_map]
  exact List.map_congr_left fun entry hentry => (mem_activeAllocations hentry).2.1

/-- The active allocations of a series are within its principal. -/
theorem series_activeAllocations (series : ℤ) :
    principalOf ((activeAllocations input candidates).values.filter
      fun allocation => allocation.series = series) ≤
        (input.seriesPrincipals series).getD 0 := by
  by_cases hnone : (activeAllocations input candidates).values.filter
      (fun allocation => allocation.series = series) = []
  · rw [hnone]
    exact Nat.zero_le _
  · obtain ⟨allocation, hallocation⟩ := List.exists_mem_of_ne_nil _ hnone
    obtain ⟨hvalue, hseries⟩ := List.mem_filter.mp hallocation
    obtain rfl := of_decide_eq_true hseries
    obtain ⟨entry, hentry, rfl⟩ := List.mem_map.mp hvalue
    refine le_trans (principalOf_le ?_ fun other hother => ?_) (mem_activeAllocations hentry).2.2
    · refine List.Nodup.filter _ (List.Nodup.of_map (·.id) ?_)
      rw [ids_activeAllocations]
      exact (activeAllocations input candidates).nodup
    · obtain ⟨hother, hsame⟩ := List.mem_filter.mp hother
      obtain ⟨entry', hentry', rfl⟩ := List.mem_map.mp hother
      exact List.mem_filter.mpr ⟨(mem_activeAllocations hentry').1, hsame⟩

/-! ## The selection -/

/-- What is selected once the allocations are known. -/
theorem backed_of_active (notes : List MakerNote)
    (hcandidates : filterOrThrow (isBacking input) allocations = .ok candidates)
    (htotal : principalOf (activeAllocations input candidates).values ≤ input.deployedPrincipal)
    (heligible : ∀ note ∈ eligible, note ∈ notes ∧
      isEligible fuel notes input (activeAllocations input candidates) note = some true) :
    BackedNotes notes allocations input (activeAllocations input candidates).values
      (eligible.filter fun note => ¬ isOverloaded (activeAllocations input candidates) eligible
        (note.vaultAllocationId.getD [])) := by
  have hkeyed : KeyedById (activeAllocations input candidates) :=
    fun entry hentry => (mem_activeAllocations hentry).2.1
  have hbounded : ∀ allocation ∈ (activeAllocations input candidates).values,
      amountOf (notesOf (eligible.filter fun note => ¬ isOverloaded
        (activeAllocations input candidates) eligible (note.vaultAllocationId.getD []))
          [allocation]) ≤ allocation.remaining := by
    intro allocation hallocation
    obtain ⟨entry, hentry, rfl⟩ := List.mem_map.mp hallocation
    have hget : (activeAllocations input candidates).get? entry.2.id = some entry.2 :=
      OrderedMap.get?_eq_some.mpr ((mem_activeAllocations hentry).2.1 ▸ hentry)
    by_cases hover : isOverloaded (activeAllocations input candidates) eligible entry.2.id = true
    · -- the notes of an overloaded allocation are all left out
      refine le_of_eq_of_le ?_ (Nat.zero_le _)
      rw [notesOf, List.filter_eq_nil_iff.mpr]
      · rfl
      · intro note hnote hid
        have hid : note.vaultAllocationId = some entry.2.id := by simpa using hid
        have hkept := of_decide_eq_true (List.mem_filter.mp hnote).2
        rw [hid] at hkept
        exact hkept hover
    · have hfits : allocatedTotal eligible entry.2.id ≤ entry.2.remaining := by
        unfold isOverloaded at hover
        rw [hget] at hover
        simpa using hover
      refine (amountOf_sublist ?_).trans hfits
      have himp : notesOf (eligible.filter fun note => ¬ isOverloaded
          (activeAllocations input candidates) eligible (note.vaultAllocationId.getD []))
          [entry.2] = (notesOf (eligible.filter fun note => ¬ isOverloaded
            (activeAllocations input candidates) eligible (note.vaultAllocationId.getD []))
            [entry.2]).filter fun note => note.vaultAllocationId.getD [] = entry.2.id := by
        refine (List.filter_eq_self.mpr fun note hnote => decide_eq_true ?_).symm
        have hid : note.vaultAllocationId = some entry.2.id := by
          simpa using (List.mem_filter.mp hnote).2
        rw [hid]
        rfl
      rw [himp]
      exact (List.filter_sublist.trans List.filter_sublist).filter _
  have hnotes : ∀ note ∈ eligible.filter (fun note => ¬ isOverloaded
      (activeAllocations input candidates) eligible (note.vaultAllocationId.getD [])),
      note ∈ notes ∧ note.status = .available ∧ note.walletAddress = input.maker ∧
        note.token = some input.asset ∧ ∃ allocation ∈ (activeAllocations input candidates).values,
          Descends notes input allocation note := by
    intro note hnote
    obtain ⟨hmem, hwalk⟩ := heligible note (List.mem_filter.mp hnote).1
    obtain ⟨hstatus, hmaker, hasset, allocation, hallocation, -, hdescends⟩ :=
      eligible_of_isEligible hkeyed hwalk
    exact ⟨hmem, hstatus, hmaker, hasset, allocation, hallocation, hdescends⟩
  refine ⟨fun allocation hallocation => ?_, ?_, hnotes, hbounded, fun series => ?_, ?_⟩
  · obtain ⟨entry, hentry, rfl⟩ := List.mem_map.mp hallocation
    obtain ⟨hmem, htest⟩ := mem_filterOrThrow hcandidates (mem_activeAllocations hentry).1
    exact ⟨hmem, outstanding_of_isBacking htest⟩
  · rw [ids_activeAllocations]
    exact (activeAllocations input candidates).nodup
  · refine (amountOf_notesOf_le fun allocation hallocation => ?_).trans
      (series_activeAllocations series)
    exact hbounded allocation (List.mem_filter.mp hallocation).1
  · refine le_trans ?_ ((amountOf_notesOf_le hbounded).trans htotal)
    refine le_of_eq (congrArg amountOf (List.filter_eq_self.mpr fun note hnote => ?_).symm)
    obtain ⟨-, -, -, -, allocation, hallocation, hdescends⟩ := hnotes note hnote
    exact List.any_eq_true.mpr ⟨allocation, hallocation, decide_eq_true hdescends.id⟩

theorem backed_nil (notes : List MakerNote) (allocations : List ListedAllocation)
    (input : BackingInput) : BackedNotes notes allocations input [] [] :=
  ⟨fun _ h => absurd h List.not_mem_nil, List.nodup_nil, fun _ h => absurd h List.not_mem_nil,
    fun _ h => absurd h List.not_mem_nil, fun _ => Nat.zero_le _, Nat.zero_le _⟩

/-- **The walks end, and the selected notes are backed** by outstanding allocations, within what
remains of each, the principal of each series and the deployed principal. -/
theorem eligible_backed (notes : List MakerNote) (allocations : List ListedAllocation)
    (input : BackingInput) : ∃ outcome : Except String (List MakerNote),
      (∀ fuel, notes.length < fuel →
        eligibleVaultMakerNotes fuel notes allocations input = outcome.map some) ∧
      ∀ result, outcome = .ok result →
        ∃ backing, BackedNotes notes allocations input backing result := by
  unfold eligibleVaultMakerNotes
  cases hcandidates : filterOrThrow (isBacking input) allocations with
  | error e =>
    refine ⟨.error e, fun _ _ => rfl, ?_⟩
    rintro _ ⟨⟩
  | ok candidates =>
    by_cases hnone : principalOf (activeAllocations input candidates).values = 0 ∨
        input.deployedPrincipal < principalOf (activeAllocations input candidates).values
    · refine ⟨.ok [], fun fuel _ => ?_, ?_⟩
      · show (if _ then _ else _ : Except String (Option (List MakerNote))) = _
        rw [if_pos hnone]
        rfl
      · rintro _ ⟨⟩
        exact ⟨[], backed_nil notes allocations input⟩
    · obtain ⟨eligible, heligible⟩ : ∃ eligible, eligible = notes.filter fun note =>
          isEligible (notes.length + 1) notes input (activeAllocations input candidates) note =
            some true := ⟨_, rfl⟩
      refine ⟨.ok (eligible.filter fun note => ¬ isOverloaded (activeAllocations input candidates)
        eligible (note.vaultAllocationId.getD [])), fun fuel hfuel => ?_, ?_⟩
      · have hall : notes.all (fun note => (isEligible fuel notes input
            (activeAllocations input candidates) note).isSome) = true :=
          List.all_eq_true.mpr fun note hnote => isSome_isEligible hfuel hnote _
        have hsame : notes.filter (fun note => isEligible fuel notes input
            (activeAllocations input candidates) note = some true) = eligible := by
          rw [heligible]
          refine List.filter_congr fun note hnote => ?_
          rw [isEligible_eq hfuel hnote]
        show (if _ then _ else if _ then _ else _ : Except String (Option (List MakerNote))) = _
        rw [if_neg hnone, if_pos hall, hsame]
        rfl
      · rintro _ ⟨⟩
        refine ⟨_, @backed_of_active eligible allocations candidates input (notes.length + 1) notes
          hcandidates ?_ fun note hnote => ?_⟩
        · rw [not_or, not_lt] at hnone
          exact hnone.2
        · rw [heligible] at hnote
          obtain ⟨hmem, hwalk⟩ := List.mem_filter.mp hnote
          exact ⟨hmem, of_decide_eq_true hwalk⟩

end Pnlx.Server
