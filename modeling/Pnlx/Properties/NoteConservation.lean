import Pnlx.Circuits.IntentValidity
import Pnlx.SampleHost

/-!
# Conservation of the value of a margin note

The withdraw and the intent-validity circuits split a margin note into an amount that is taken and
a change note. When nothing is left, they compare the change commitment with a private argument
that an honest prover sets to zero. The value of the note is conserved exactly when something is
left or that argument is zero (`conserves_iff`).
-/

namespace Pnlx

/-- The arguments of a circuit that takes an amount out of a margin note. -/
inductive NoteSpend where
  | withdraw (a : Withdraw.Assignment)
  | intentValidity (a : IntentValidity.Assignment)

namespace NoteSpend

def main (H : Host) : NoteSpend → Option Unit
  | withdraw a => Withdraw.main H a
  | intentValidity a => IntentValidity.main H a

def noteAmount : NoteSpend → U128
  | withdraw a => a.noteAmount
  | intentValidity a => a.noteAmount

/-- The amount that is withdrawn, or the margin of the order. -/
def taken : NoteSpend → U128
  | withdraw a => a.withdrawAmount
  | intentValidity a => a.margin

/-- The public change commitment. -/
def changeCommitment : NoteSpend → Fr
  | withdraw a => a.changeCommitment
  | intentValidity a => a.noteChangeCommitment

/-- The private argument that stands for zero. -/
def zero : NoteSpend → Fr
  | withdraw a => a.zeroValue
  | intentValidity a => a.zeroCommitment

def changeNote : NoteSpend → Note
  | withdraw a => a.changeNote
  | intentValidity a => a.changeNote

def queries (H : Host) : NoteSpend → List (Fr × Fr)
  | withdraw a => a.queries H
  | intentValidity a => a.queries H

/-- All pairs of the circuit lie in `Q`. -/
def Within (H : Host) (Q : Set (Fr × Fr)) (s : NoteSpend) : Prop := ∀ q ∈ s.queries H, q ∈ Q

/-- The value of the note is conserved: the pool skips the change commitment exactly when nothing
is left, and whatever opens the change commitment has the amount that is left. -/
structure Conserves (H : Host) (Q : Set (Fr × Fr)) (s : NoteSpend) : Prop where
  skipped_iff : s.changeCommitment = 0 ↔ s.noteAmount.toNat - s.taken.toNat = 0
  opens : ∀ n : Note, n.Within H Q → n.commitment H = s.changeCommitment →
    s.noteAmount.toNat = s.taken.toNat + n.amount.toNat

variable {H : Host} {Q : Set (Fr × Fr)} {s : NoteSpend}

theorem taken_le (h : s.main H = some ()) : s.taken.toNat ≤ s.noteAmount.toNat := by
  cases s with
  | withdraw a => exact (Withdraw.facts h).withdraw_le
  | intentValidity a => exact (IntentValidity.facts h).margin_le

theorem changeCommitment_of_eq (h : s.main H = some ()) (he : s.taken = s.noteAmount) :
    s.changeCommitment = s.zero := by
  cases s with
  | withdraw a => exact (Withdraw.facts h).no_change he
  | intentValidity a => exact (IntentValidity.facts h).no_change he

theorem changeCommitment_of_ne (h : s.main H = some ()) (hne : s.taken ≠ s.noteAmount) :
    s.changeCommitment = s.changeNote.commitment H := by
  cases s with
  | withdraw a => exact (Withdraw.facts h).change hne
  | intentValidity a => exact (IntentValidity.facts h).change hne

theorem changeNote_within (h : s.Within H Q) : s.changeNote.Within H Q := by
  cases s with
  | withdraw a => exact Withdraw.Assignment.changeNote_within h
  | intentValidity a => exact IntentValidity.Assignment.changeNote_within h

theorem changeNote_amount (h : s.main H = some ()) :
    s.noteAmount.toNat = s.taken.toNat + s.changeNote.amount.toNat := by
  have hle := taken_le h
  have hamount : s.changeNote.amount = s.noteAmount - s.taken := by cases s <;> rfl
  rw [hamount, BitVec.toNat_sub_of_le (BitVec.le_def.mpr hle)]
  omega

/-- A commitment to a note is not the zero that the pool skips. -/
theorem commitment_ne_zero (hzero : ∀ q ∈ Q, hashPair H q.1 q.2 ≠ 0) {n : Note}
    (hn : n.Within H Q) : n.commitment H ≠ 0 := by
  obtain ⟨q, hq, he⟩ := Note.exists_pair_mem hn
  rw [← he]
  exact hzero q hq

/-- **When a spend conserves value.** Exactly when something is left of the note, or the private
zero of the prover is zero. -/
theorem conserves_iff (hQ : CollisionFree (hashPair H) Q)
    (hzero : ∀ q ∈ Q, hashPair H q.1 q.2 ≠ 0) (hs : s.main H = some ()) (hsQ : s.Within H Q) :
    s.Conserves H Q ↔ s.taken ≠ s.noteAmount ∨ s.zero = 0 := by
  have hle := taken_le hs
  by_cases he : s.taken = s.noteAmount
  · have hchange : s.changeCommitment = s.zero := changeCommitment_of_eq hs he
    have hleft : s.noteAmount.toNat - s.taken.toNat = 0 := by rw [he]; omega
    refine ⟨fun h => Or.inr ?_, ?_⟩
    · rw [← hchange]
      exact h.skipped_iff.mpr hleft
    · rintro (hne | h0)
      · exact absurd he hne
      · refine ⟨by simp only [hchange, h0, hleft], fun n hn hopen => ?_⟩
        rw [hchange, h0] at hopen
        exact absurd hopen (commitment_ne_zero hzero hn)
  · have hchange : s.changeCommitment = s.changeNote.commitment H := changeCommitment_of_ne hs he
    have hcQ : s.changeNote.Within H Q := changeNote_within hsQ
    refine ⟨fun _ => Or.inl he, fun _ => ⟨?_, fun n hn hopen => ?_⟩⟩
    · have hleft : s.noteAmount.toNat - s.taken.toNat ≠ 0 := fun h0 =>
        he (BitVec.eq_of_toNat_eq (by omega))
      rw [hchange]
      exact ⟨fun h => absurd h (commitment_ne_zero hzero hcQ), fun h => absurd h hleft⟩
    · have hn' : n = s.changeNote := Note.commitment_inj hQ hn hcQ (by rw [hopen, hchange])
      rw [hn']
      exact changeNote_amount hs

section Examples

open SampleHost

/-- The withdrawal of a whole note, with `zero` for the private zero. -/
def sampleWithdrawAll (zero : Fr) : NoteSpend :=
  .withdraw { withdrawNote ⟨3, 100, 5, 6, 7⟩ 100 9 11 with zeroValue := zero, changeCommitment := zero }

/-- A note of which nothing was deposited. -/
def forgedNote : Note := ⟨3, 1000000, 5, 6, 7⟩

def samplePairs (s : NoteSpend) : List (Fr × Fr) :=
  s.queries sampleHost ++ forgedNote.tree.queries (hashPair sampleHost)

theorem samplePairs_ne_zero :
    ∀ q ∈ samplePairs (sampleWithdrawAll 0), hashPair sampleHost q.1 q.2 ≠ 0 := by decide +kernel

theorem conserves_sample :
    (sampleWithdrawAll 0).Conserves sampleHost {q | q ∈ samplePairs (sampleWithdrawAll 0)} ↔
      (sampleWithdrawAll 0).taken ≠ (sampleWithdrawAll 0).noteAmount ∨
        (sampleWithdrawAll 0).zero = 0 :=
  conserves_iff (collisionFree_of_list (by decide +kernel)) samplePairs_ne_zero (by decide +kernel)
    fun _ hq => List.mem_append_left _ hq

/-- The withdrawal of a whole note exposes a change commitment that opens to a million. -/
theorem exists_forged_change : ∃ s : NoteSpend, s.main sampleHost = some () ∧
    CollisionFree (hashPair sampleHost) {q | q ∈ samplePairs s} ∧
    (∀ q ∈ samplePairs s, hashPair sampleHost q.1 q.2 ≠ 0) ∧
    s.taken = s.noteAmount ∧ s.changeCommitment ≠ 0 ∧
    forgedNote.commitment sampleHost = s.changeCommitment ∧
    ¬ s.Conserves sampleHost {q | q ∈ samplePairs s} := by
  refine ⟨sampleWithdrawAll (forgedNote.commitment sampleHost), by decide +kernel,
    collisionFree_of_list (by decide +kernel), by decide +kernel, rfl, by decide +kernel, rfl, ?_⟩
  intro h
  have := h.skipped_iff.mpr rfl
  exact absurd this (by decide +kernel)

end Examples

end NoteSpend

end Pnlx
