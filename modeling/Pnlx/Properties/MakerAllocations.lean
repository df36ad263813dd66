import Pnlx.SampleHost
import Pnlx.Server.MakerAllocations
import Pnlx.Server.MakerLiquidity

/-!
# Exact maker allocations

`allocations_exact_iff`: exactly when the allocations of an order make up its margin. A note whose
part of the size rounds down to zero is left out with its margin.
-/

namespace Pnlx.Server

open Apportion

variable {H : Host} {P : Fr → Fr → Fr} {sorts : MakerNoteSorts} {notes : List MakerNote}
  {payload : PrivateMatchIntent}

/-- The amounts of the notes together. -/
def amounts (notes : List MakerNote) : ℤ := (notes.map fun note => (note.amount : ℤ)).sum

/-- The amounts of the available notes above an amount. -/
def amountsAbove (notes : List MakerNote) (amount : ℕ) : ℤ :=
  amounts ((notes.filter isCandidate).filter fun note => amount < note.amount)

/-- The size of an order. -/
def orderSize (payload : PrivateMatchIntent) : ℤ := payload.signedSize.natAbs

variable (H P) in
/-- The allocations make up the order. -/
structure MakesUp (notes : List MakerNote) (payload : PrivateMatchIntent)
    (allocations : List MakerNoteAllocation) : Prop where
  margins : (allocations.map (·.margin)).sum = payload.margin
  sizes : (allocations.map (·.size)).sum = orderSize payload
  positive : ∀ allocation ∈ allocations, 0 < allocation.size ∧ 0 < allocation.margin ∧
    allocation.margin ≤ allocation.note.amount
  listed : ∀ allocation ∈ allocations, allocation.note ∈ notes.filter isCandidate
  distinct : (allocations.map (·.note)).Nodup
  change : ∀ allocation ∈ allocations, ∀ source,
    buildMakerChangeNote H P allocation.note allocation.margin source ≠
      .error "maker note change exceeds note amount" ∧
    ∀ change, buildMakerChangeNote H P allocation.note allocation.margin source = .ok change →
      ((change.map (·.amount)).getD 0 : ℤ) = allocation.note.amount - allocation.margin

variable (H P) in
/-- The allocations make up the order, and there are none only if the notes do not cover it. -/
structure Exact (notes : List MakerNote) (payload : PrivateMatchIntent)
    (allocations : List MakerNoteAllocation) : Prop where
  makesUp : allocations ≠ [] → MakesUp H P notes payload allocations
  uncovered : allocations = [] → amounts (notes.filter isCandidate) < payload.margin

/-- The notes do not cover the order, or it is one, and each note that is used before the last one
gets some of its size. -/
def Divisible (notes : List MakerNote) (payload : PrivateMatchIntent) : Prop :=
  amounts (notes.filter isCandidate) < payload.margin ∨
    0 < payload.margin ∧ 0 < orderSize payload ∧ ∀ note ∈ notes.filter isCandidate,
      amountsAbove notes note.amount + note.amount < payload.margin →
        payload.margin ≤ orderSize payload * note.amount

/-! ## Change notes -/

theorem amount_buildMakerChangeNote {note : MakerNote} {margin : ℤ} {source : BatchMatch.Text}
    {change : Option MakerNote} (h : buildMakerChangeNote H P note margin source = .ok change) :
    ((change.map (·.amount)).getD 0 : ℤ) = note.amount - margin := by
  unfold buildMakerChangeNote at h
  dsimp only at h
  split_ifs at h with hneg hzero
  · cases h
    exact hzero.symm
  · split at h
    · cases h
      exact Int.toNat_of_nonneg (not_lt.mp hneg)
    · cases h

theorem change_fits {note : MakerNote} {margin : ℤ} (h : margin ≤ note.amount)
    (source : BatchMatch.Text) : buildMakerChangeNote H P note margin source ≠
      .error "maker note change exceeds note amount" := by
  unfold buildMakerChangeNote
  dsimp only
  rw [if_neg (not_lt.mpr (sub_nonneg.mpr h))]
  split_ifs
  · exact nofun
  · split
    · exact nofun
    · exact fun he => absurd (Except.error.inj he) (by decide)

/-! ## Amounts -/

theorem amounts_perm {l l' : List MakerNote} (h : l.Perm l') : amounts l = amounts l' :=
  (h.map _).sum_eq

theorem amounts_append (l l' : List MakerNote) : amounts (l ++ l') = amounts l + amounts l' := by
  unfold amounts
  rw [List.map_append, List.sum_append]

theorem amounts_cons (note : MakerNote) (l : List MakerNote) :
    amounts (note :: l) = note.amount + amounts l := List.sum_cons

theorem amounts_nonneg (l : List MakerNote) : 0 ≤ amounts l :=
  List.sum_nonneg fun a ha => by
    obtain ⟨note, -, rfl⟩ := List.mem_map.mp ha
    exact Int.natCast_nonneg _

theorem amount_le_amounts {note : MakerNote} {l : List MakerNote} (h : note ∈ l) :
    (note.amount : ℤ) ≤ amounts l := by
  obtain ⟨pre, post, rfl⟩ := List.mem_iff_append.mp h
  rw [amounts_append, amounts_cons]
  have hpre := amounts_nonneg pre
  have hpost := amounts_nonneg post
  omega

theorem amounts_sublist {l l' : List MakerNote} (h : l.Sublist l') : amounts l ≤ amounts l' :=
  (h.map _).sum_le_sum fun a ha => by
    obtain ⟨note, -, rfl⟩ := List.mem_map.mp ha
    exact Int.natCast_nonneg _

/-! ## One note -/

theorem makesUp_single {note : MakerNote} (hnote : note ∈ notes.filter isCandidate)
    (hmargin : 0 < payload.margin) (hsize : 0 < orderSize payload)
    (hle : payload.margin ≤ note.amount) :
    MakesUp H P notes payload [⟨payload.margin, note, orderSize payload⟩] where
  margins := List.sum_singleton
  sizes := List.sum_singleton
  positive _ h := List.mem_singleton.mp h ▸ ⟨hsize, hmargin, hle⟩
  listed _ h := List.mem_singleton.mp h ▸ hnote
  distinct := List.nodup_singleton _
  change _ h source := by
    rw [List.mem_singleton.mp h]
    exact ⟨change_fits hle source, fun _ hchange => amount_buildMakerChangeNote hchange⟩

/-- With a note that covers the order, no note is used before the last one. -/
theorem divisible_of_covering {note : MakerNote} (hnote : note ∈ notes.filter isCandidate)
    (hmargin : 0 < payload.margin) (hsize : 0 < orderSize payload)
    (hle : payload.margin ≤ note.amount) : Divisible notes payload := by
  refine Or.inr ⟨hmargin, hsize, fun other _ hbelow => ?_⟩
  exfalso
  by_cases hlt : other.amount < note.amount
  · have habove : (note.amount : ℤ) ≤ amountsAbove notes other.amount :=
      amount_le_amounts (List.mem_filter.mpr ⟨hnote, decide_eq_true hlt⟩)
    omega
  · have habove : 0 ≤ amountsAbove notes other.amount := amounts_nonneg _
    omega

/-! ## Several notes -/

/-- The allocation of a note that is used whole. -/
def wholeAllocation (payload : PrivateMatchIntent) (note : MakerNote) : MakerNoteAllocation where
  margin := note.amount
  note := note
  size := (orderSize payload * note.amount).tdiv payload.margin

/-- The allocation of the note that covers the rest of an order. -/
def lastAllocation (payload : PrivateMatchIntent) (pre : List MakerNote) (note : MakerNote) :
    MakerNoteAllocation where
  margin := payload.margin - amounts pre
  note := note
  size := orderSize payload - (pre.map fun note => (wholeAllocation payload note).size).sum

/-- The notes `pre` are used whole, and `note` covers the rest of the order. -/
structure CoveredBy (notes : List MakerNote) (payload : PrivateMatchIntent) (pre : List MakerNote)
    (note : MakerNote) (post : List MakerNote) : Prop where
  margin : 0 < payload.margin
  size : 0 < orderSize payload
  perm : (pre ++ note :: post).Perm (notes.filter isCandidate)
  sorted : (pre ++ note :: post).Pairwise fun left right => left.amount ≥ right.amount
  below : amounts pre < payload.margin
  covers : payload.margin ≤ amounts pre + note.amount

namespace CoveredBy

variable {pre post : List MakerNote} {note : MakerNote}

theorem lastSize_pos (h : CoveredBy notes payload pre note post) :
    0 < (lastAllocation payload pre note).size := by
  have hrest := @rest_pos _ (orderSize payload) payload.margin
    (pre.map fun note => ((note.amount : ℤ), note)) h.size h.margin
    (List.forall_mem_map.mpr fun _ _ => Int.natCast_nonneg _) (by
      rw [List.map_map]
      exact h.below)
  rw [List.map_map] at hrest
  exact hrest

theorem mem_candidates (h : CoveredBy notes payload pre note post) {other : MakerNote}
    (hmem : other ∈ pre ++ note :: post) : other ∈ notes.filter isCandidate :=
  h.perm.mem_iff.mp hmem

theorem amount_pos (h : CoveredBy notes payload pre note post) {other : MakerNote}
    (hmem : other ∈ pre ++ note :: post) : 0 < other.amount :=
  (of_decide_eq_true (List.mem_filter.mp (h.mem_candidates hmem)).2).2

/-- The margins of all parts together are the one of the order. -/
theorem margins_sum (pre : List MakerNote) (note : MakerNote) :
    ((pre.map (wholeAllocation payload) ++ [lastAllocation payload pre note]).map
      (·.margin)).sum = payload.margin := by
  rw [List.map_append, List.sum_append, List.map_map, List.map_singleton, List.sum_singleton]
  exact add_sub_cancel (amounts pre) payload.margin

theorem sizes_sum (pre : List MakerNote) (note : MakerNote) :
    ((pre.map (wholeAllocation payload) ++ [lastAllocation payload pre note]).map
      (·.size)).sum = orderSize payload := by
  rw [List.map_append, List.sum_append, List.map_map, List.map_singleton, List.sum_singleton]
  exact add_sub_cancel (pre.map fun note => (wholeAllocation payload note).size).sum _

theorem size_nonneg (h : CoveredBy notes payload pre note post) {allocation : MakerNoteAllocation}
    (hmem : allocation ∈ pre.map (wholeAllocation payload) ++ [lastAllocation payload pre note]) :
    0 ≤ allocation.size := by
  rcases List.mem_append.mp hmem with hmem | hmem
  · obtain ⟨other, -, rfl⟩ := List.mem_map.mp hmem
    exact Int.tdiv_nonneg (mul_nonneg h.size.le (Int.natCast_nonneg _)) h.margin.le
  · rw [List.mem_singleton.mp hmem]
    exact h.lastSize_pos.le

theorem margin_pos (h : CoveredBy notes payload pre note post) {allocation : MakerNoteAllocation}
    (hmem : allocation ∈ pre.map (wholeAllocation payload) ++ [lastAllocation payload pre note]) :
    0 < allocation.margin ∧ allocation.margin ≤ allocation.note.amount := by
  rcases List.mem_append.mp hmem with hmem | hmem
  · obtain ⟨other, hother, rfl⟩ := List.mem_map.mp hmem
    exact ⟨Int.natCast_pos.mpr (h.amount_pos (List.mem_append_left _ hother)), le_refl _⟩
  · rw [List.mem_singleton.mp hmem]
    have hbelow := h.below
    have hcovers := h.covers
    unfold lastAllocation
    dsimp only
    omega

theorem sized_iff (h : CoveredBy notes payload pre note post) :
    (∀ allocation ∈ pre.map (wholeAllocation payload) ++ [lastAllocation payload pre note],
      decide (0 < allocation.size) = true) ↔
        ∀ other ∈ pre, payload.margin ≤ orderSize payload * other.amount := by
  have hshare (other : MakerNote) : 0 < (wholeAllocation payload other).size ↔
      payload.margin ≤ orderSize payload * other.amount :=
    share_pos_iff h.size h.margin (Int.natCast_nonneg _)
  simp only [List.forall_mem_append, List.forall_mem_map, List.forall_mem_singleton,
    decide_eq_true_eq, hshare, h.lastSize_pos, and_true]

/-- **The parts with a size make up the order** exactly when every note used whole has one. -/
theorem makesUp_iff (h : CoveredBy notes payload pre note post) (hnotes : notes.Nodup) :
    MakesUp H P notes payload ((pre.map (wholeAllocation payload) ++
        [lastAllocation payload pre note]).filter fun allocation => 0 < allocation.size) ↔
      ∀ other ∈ pre, payload.margin ≤ orderSize payload * other.amount := by
  have hmargin : ((((pre.map (wholeAllocation payload) ++ [lastAllocation payload pre note]).filter
      fun allocation => 0 < allocation.size).map (·.margin)).sum = payload.margin) ↔
        ∀ other ∈ pre, payload.margin ≤ orderSize payload * other.amount := by
    rw [← h.sized_iff, ← sum_filter_eq_iff fun _ hmem => (h.margin_pos hmem).1,
      @margins_sum payload pre note]
  refine ⟨fun hmakes => hmargin.mp hmakes.margins, fun hall => ?_⟩
  refine ⟨hmargin.mpr hall, ?_, fun allocation hmem => ?_, fun allocation hmem => ?_, ?_,
    fun allocation hmem source => ⟨change_fits ?_ source, fun _ => amount_buildMakerChangeNote⟩⟩
  · rw [sum_filter_pos fun _ hmem => h.size_nonneg hmem, sizes_sum]
  · obtain ⟨hmem, hsize⟩ := List.mem_filter.mp hmem
    exact ⟨of_decide_eq_true hsize, h.margin_pos hmem⟩
  · refine h.mem_candidates ?_
    rcases List.mem_append.mp (List.mem_filter.mp hmem).1 with hmem | hmem
    · obtain ⟨other, hother, rfl⟩ := List.mem_map.mp hmem
      exact List.mem_append_left _ hother
    · rw [List.mem_singleton.mp hmem]
      exact List.mem_append_right _ List.mem_cons_self
  · have hnodup : (pre ++ note :: post).Nodup := h.perm.nodup_iff.mpr (hnotes.filter _)
    have hnotes : (pre.map (wholeAllocation payload) ++ [lastAllocation payload pre note]).map
        (·.note) = pre ++ [note] := by
      rw [List.map_append, List.map_map]
      exact congrArg (· ++ [note]) (List.map_id pre)
    have hsublist : ((((pre.map (wholeAllocation payload) ++
        [lastAllocation payload pre note]).filter fun allocation => 0 < allocation.size).map
          (·.note))).Sublist (pre ++ note :: post) := by
      refine (List.filter_sublist.map _).trans ?_
      rw [hnotes]
      exact List.Sublist.append_left (List.singleton_sublist.mpr List.mem_cons_self) pre
    exact hnodup.sublist hsublist
  · exact (h.margin_pos (List.mem_filter.mp hmem).1).2

/-- The notes that are used whole are those whose amount, together with all larger ones, is below
the margin; among notes of one amount one of them stands for all. -/
theorem divisible_iff (h : CoveredBy notes payload pre note post) :
    Divisible notes payload ↔ ∀ other ∈ pre, payload.margin ≤ orderSize payload * other.amount := by
  have habove (amount : ℕ) : amountsAbove notes amount =
      amounts ((pre ++ note :: post).filter fun other => amount < other.amount) :=
    (amounts_perm (h.perm.filter _)).symm
  have hcovered : ¬ amounts (notes.filter isCandidate) < payload.margin := by
    have hcovers := h.covers
    have hpost := amounts_nonneg post
    rw [← amounts_perm h.perm, amounts_append, amounts_cons]
    omega
  unfold Divisible
  rw [or_iff_right hcovered]
  constructor
  · rintro ⟨-, -, hall⟩ other hother
    refine hall other (h.mem_candidates (List.mem_append_left _ hother)) ?_
    obtain ⟨before, after, rfl⟩ := List.mem_iff_append.mp hother
    have hsorted := h.sorted
    have hbelow := h.below
    rw [List.append_assoc, List.cons_append] at hsorted
    obtain ⟨-, hsorted, -⟩ := List.pairwise_append.mp hsorted
    -- what comes after the note in the sorted list is not above it
    have hnone : ((other :: (after ++ note :: post)).filter
        fun next => other.amount < next.amount) = [] := by
      refine List.filter_eq_nil_iff.mpr fun next hnext => ?_
      rw [decide_eq_true_eq, not_lt]
      rcases List.mem_cons.mp hnext with rfl | hnext
      · exact le_refl _
      · exact (List.pairwise_cons.mp hsorted).1 next hnext
    rw [habove, List.append_assoc, List.cons_append, List.filter_append, hnone, List.append_nil]
    rw [amounts_append, amounts_cons] at hbelow
    have hle := amounts_sublist (@List.filter_sublist _ (fun next : MakerNote =>
      decide (other.amount < next.amount)) before)
    have hafter := amounts_nonneg after
    omega
  · refine fun hall => ⟨h.margin, h.size, fun other _ hlt => ?_⟩
    by_cases hused : ∃ smaller ∈ pre, smaller.amount ≤ other.amount
    · obtain ⟨smaller, hsmaller, hle⟩ := hused
      have hsize := h.size
      exact (hall smaller hsmaller).trans (by gcongr)
    · push Not at hused
      exfalso
      have hcovers := h.covers
      rw [habove, List.filter_append, List.filter_eq_self.mpr fun smaller hsmaller =>
        decide_eq_true (hused smaller hsmaller), amounts_append, List.filter_cons] at hlt
      have hpost := amounts_nonneg (post.filter fun next => other.amount < next.amount)
      split_ifs at hlt with hnote
      · rw [amounts_cons] at hlt
        have := Int.natCast_nonneg other.amount
        omega
      · rw [decide_eq_true_eq, not_lt] at hnote
        omega

end CoveredBy

/-! ## The selection -/

/-- What a selection is. -/
inductive Selected (notes : List MakerNote) (payload : PrivateMatchIntent) :
    List MakerNoteAllocation → Prop
  | refused (h : ¬ (0 < payload.margin ∧ 0 < orderSize payload)) : Selected notes payload []
  | covering (note : MakerNote) (hmargin : 0 < payload.margin) (hsize : 0 < orderSize payload)
    (hnote : note ∈ notes.filter isCandidate) (hle : payload.margin ≤ note.amount) :
    Selected notes payload [⟨payload.margin, note, orderSize payload⟩]
  | uncovered (h : amounts (notes.filter isCandidate) < payload.margin) : Selected notes payload []
  | combined (pre : List MakerNote) (note : MakerNote) (post : List MakerNote)
    (h : CoveredBy notes payload pre note post) : Selected notes payload
      ((pre.map (wholeAllocation payload) ++ [lastAllocation payload pre note]).filter
        fun allocation => 0 < allocation.size)

theorem selected_combination (hmargin : 0 < payload.margin) (hsize : 0 < orderSize payload)
    {smaller : List MakerNote} (hperm : smaller.Perm (notes.filter isCandidate))
    (hsorted : smaller.Pairwise fun left right => left.amount ≥ right.amount) :
    Selected notes payload
      (if (fill (fun note : MakerNote => (note.amount : ℤ)) payload.margin smaller).2 ≠ 0 then []
      else ((apportion (orderSize payload) payload.margin (orderSize payload)
        (fill (fun note : MakerNote => (note.amount : ℤ)) payload.margin smaller).1).map fun part =>
          { margin := part.2.1, note := part.2.2, size := part.1 : MakerNoteAllocation }).filter
            fun allocation => 0 < allocation.size) := by
  have hpos : ∀ note ∈ smaller, 0 < (note.amount : ℤ) := fun note hmem =>
    Int.natCast_pos.mpr (of_decide_eq_true (List.mem_filter.mp (hperm.mem_iff.mp hmem)).2).2
  by_cases hcovers : payload.margin ≤ amounts smaller
  · obtain ⟨pre, note, post, rfl, hbelow, hcovers, hfill⟩ := fill_of_le hpos hmargin hcovers
    have h : CoveredBy notes payload pre note post :=
      ⟨hmargin, hsize, hperm, hsorted, hbelow, hcovers⟩
    rw [hfill, if_neg (not_not.mpr rfl), apportion_append, List.map_append, List.map_singleton]
    simp only [List.map_map]
    exact .combined pre note post h
  · rw [not_le] at hcovers
    have hrest : payload.margin - (smaller.map fun note => (note.amount : ℤ)).sum ≠ 0 :=
      sub_ne_zero.mpr hcovers.ne'
    rw [fill_of_lt hpos hcovers, if_pos hrest]
    exact .uncovered (amounts_perm hperm ▸ hcovers)

theorem selected (sorts : MakerNoteSorts) (notes : List MakerNote) (payload : PrivateMatchIntent) :
    Selected notes payload (selectMakerNoteAllocations sorts notes payload) := by
  unfold selectMakerNoteAllocations
  dsimp only
  by_cases hrefused : payload.margin ≤ 0 ∨ (payload.signedSize.natAbs : ℤ) ≤ 0
  · rw [if_pos hrefused]
    refine .refused fun h => ?_
    rcases hrefused with hmargin | hsize
    · exact absurd h.1 (not_lt.mpr hmargin)
    · exact absurd h.2 (not_lt.mpr hsize)
  rw [if_neg hrefused]
  rw [not_or, not_le, not_le] at hrefused
  obtain ⟨hmargin, hsize⟩ := hrefused
  have hperm := sorts.candidates.perm (notes.filter isCandidate)
  split
  · case _ exact hfind =>
    have hamount : (exact.amount : ℤ) = payload.margin := by simpa using List.find?_some hfind
    rw [hamount]
    exact .covering exact hmargin hsize (hperm.mem_iff.mp (List.mem_of_find?_eq_some hfind))
      hamount.ge
  split
  · case _ best hbest =>
    have hlarger := (sorts.larger.perm _).mem_iff.mp (List.mem_of_head? hbest)
    obtain ⟨hcandidate, hle⟩ := List.mem_filter.mp hlarger
    exact .covering best hmargin hsize (hperm.mem_iff.mp hcandidate) (of_decide_eq_true hle)
  · case _ hnone =>
    have hlarger := sorts.larger.perm
      ((sorts.candidates.sort (notes.filter isCandidate)).filter
        fun note => payload.margin ≤ (note.amount : ℤ))
    rw [List.head?_eq_none_iff.mp hnone] at hlarger
    have hsmall : (sorts.candidates.sort (notes.filter isCandidate)).filter
        (fun note => (note.amount : ℤ) < payload.margin) =
          sorts.candidates.sort (notes.filter isCandidate) := by
      refine List.filter_eq_self.mpr fun note hmem => decide_eq_true (not_le.mp fun hle => ?_)
      exact List.filter_eq_nil_iff.mp hlarger.nil_eq.symm note hmem (decide_eq_true hle)
    rw [hsmall]
    exact selected_combination hmargin hsize ((sorts.smaller.perm _).trans hperm)
      (sorts.smaller.sorted _)

/-- **The allocations are exact** exactly when every note that is used before the last one gets some
of the size of the order. -/
theorem allocations_exact_iff (sorts : MakerNoteSorts) (payload : PrivateMatchIntent)
    (hnotes : notes.Nodup) :
    Exact H P notes payload (selectMakerNoteAllocations sorts notes payload) ↔
      Divisible notes payload := by
  have hselected := selected sorts notes payload
  generalize selectMakerNoteAllocations sorts notes payload = allocations at hselected
  rcases hselected with hrefused | ⟨note, hmargin, hsize, hnote, hle⟩ | hlt | ⟨pre, note, post, h⟩
  · constructor
    · exact fun h => Or.inl (h.uncovered rfl)
    · rintro (hlt | ⟨hmargin, hsize, -⟩)
      · exact ⟨fun h => absurd rfl h, fun _ => hlt⟩
      · exact absurd ⟨hmargin, hsize⟩ hrefused
  · refine iff_of_true ⟨fun _ => makesUp_single hnote hmargin hsize hle, fun h => ?_⟩
      (divisible_of_covering hnote hmargin hsize hle)
    exact absurd h (List.cons_ne_nil _ _)
  · exact iff_of_true ⟨fun h => absurd rfl h, fun _ => hlt⟩ (Or.inl hlt)
  · have hlast : lastAllocation payload pre note ∈ (pre.map (wholeAllocation payload) ++
        [lastAllocation payload pre note]).filter fun allocation => 0 < allocation.size :=
      List.mem_filter.mpr ⟨List.mem_append_right _ List.mem_cons_self,
        decide_eq_true h.lastSize_pos⟩
    have hne := List.ne_nil_of_mem hlast
    rw [h.divisible_iff, ← h.makesUp_iff (H := H) (P := P) hnotes]
    exact ⟨fun hexact => hexact.makesUp hne,
      fun hmakes => ⟨fun _ => hmakes, fun hnil => absurd hnil hne⟩⟩

/-! ## A note that is left out -/

/-- An engine that sorts stably. -/
def stableSorts : MakerNoteSorts where
  candidates :=
    { sort := List.insertionSort fun left right => left.amount ≥ right.amount
      perm := List.perm_insertionSort _
      sorted := List.pairwise_insertionSort _ }
  larger :=
    { sort := List.insertionSort fun left right => left.amount ≤ right.amount
      perm := List.perm_insertionSort _
      sorted := List.pairwise_insertionSort _ }
  smaller :=
    { sort := List.insertionSort fun left right => left.amount ≥ right.amount
      perm := List.perm_insertionSort _
      sorted := List.pairwise_insertionSort _ }

def makerNoteOf (name : Char) (amount : ℕ) : MakerNote where
  commitment := [name]
  noteNullifier := [name, 'n']
  amount := amount
  assetDigest := "0x1".toList
  blinding := "0x2".toList
  ownerCommitment := none
  ownerDigest := "0x3".toList
  rhoDigest := "0x4".toList
  spendSecretDigest := "0x5".toList
  token := none
  walletAddress := "G".toList
  depositTxHash := none
  status := .available
  lockedByIntentCommitment := none
  sourceIntentCommitment := none
  vaultAllocationId := none
  vaultParentCommitment := none

def orderOf (signedSize margin : ℤ) : PrivateMatchIntent where
  batchId := "b".toList
  intentCommitment := "0x6".toList
  limitPrice := 100
  margin := margin
  marketId := "m".toList
  noteChangeCommitment := "0x0".toList
  noteNullifier := "0x7".toList
  ownerCommitment := "0x8".toList
  signedSize := signedSize
  sourceIntentCommitment := none

/-- Two notes of 60 for a margin of 100 and a size of 2. -/
theorem allocations_exact_sample : [makerNoteOf 'a' 60, makerNoteOf 'b' 60].Nodup ∧
    Exact sampleHost SampleHost.pairHash [makerNoteOf 'a' 60, makerNoteOf 'b' 60] (orderOf 2 100)
      (selectMakerNoteAllocations stableSorts [makerNoteOf 'a' 60, makerNoteOf 'b' 60]
        (orderOf 2 100)) :=
  ⟨by decide, (allocations_exact_iff stableSorts (orderOf 2 100) (by decide)).mpr
    (Or.inr ⟨by decide, by decide, by decide⟩)⟩

/-- **For a size of 1 the first note is left out, and its margin with it.** -/
theorem margin_left_out : [makerNoteOf 'a' 60, makerNoteOf 'b' 60].Nodup ∧
    ((selectMakerNoteAllocations stableSorts [makerNoteOf 'a' 60, makerNoteOf 'b' 60]
      (orderOf 1 100)).map (·.margin)).sum = 40 ∧
    ¬ Exact sampleHost SampleHost.pairHash [makerNoteOf 'a' 60, makerNoteOf 'b' 60] (orderOf 1 100)
      (selectMakerNoteAllocations stableSorts [makerNoteOf 'a' 60, makerNoteOf 'b' 60]
        (orderOf 1 100)) := by
  have hsum : ((selectMakerNoteAllocations stableSorts [makerNoteOf 'a' 60, makerNoteOf 'b' 60]
      (orderOf 1 100)).map (·.margin)).sum = 40 := by
    decide +kernel
  refine ⟨by decide, hsum, fun h => ?_⟩
  have hne : selectMakerNoteAllocations stableSorts [makerNoteOf 'a' 60, makerNoteOf 'b' 60]
      (orderOf 1 100) ≠ [] := by
    decide +kernel
  have hmargins := (h.makesUp hne).margins
  rw [hsum] at hmargins
  exact absurd hmargins (by decide)

end Pnlx.Server
