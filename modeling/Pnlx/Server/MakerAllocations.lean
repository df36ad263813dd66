import Pnlx.Lib.Apportion
import Pnlx.Server.MakerNotes
import Pnlx.Server.Matching

/-!
# Allocations of maker notes to an order

`selectMakerNoteAllocations` backs an order with a note of its margin, with a larger note, or with
smaller notes together, among which the size of the order is divided.
-/

namespace Pnlx.Server

open Apportion

/-- A sort of notes by their amounts. Among notes of one amount the order is not determined: one of
the comparators compares the commitments in the locale, the others answer the same both ways. -/
structure AmountSort (le : ℕ → ℕ → Prop) where
  sort : List MakerNote → List MakerNote
  perm : ∀ notes, (sort notes).Perm notes
  sorted : ∀ notes, (sort notes).Pairwise fun left right => le left.amount right.amount

/-- The sorts of a selection: the candidates by `compareMakerNoteCandidate`, the larger notes and
the smaller ones. -/
structure MakerNoteSorts where
  candidates : AmountSort (· ≥ ·)
  larger : AmountSort (· ≤ ·)
  smaller : AmountSort (· ≥ ·)

structure MakerNoteAllocation where
  margin : ℤ
  note : MakerNote
  size : ℤ
  deriving DecidableEq

/-- An available note with an amount. -/
def isCandidate (note : MakerNote) : Bool := note.status = .available ∧ 0 < note.amount

def selectMakerNoteAllocations (sorts : MakerNoteSorts) (notes : List MakerNote)
    (payload : PrivateMatchIntent) : List MakerNoteAllocation :=
  let requiredMargin := payload.margin
  let totalSize : ℤ := payload.signedSize.natAbs
  if requiredMargin ≤ 0 ∨ totalSize ≤ 0 then []
  else
    let candidates := sorts.candidates.sort (notes.filter isCandidate)
    match candidates.find? fun note => (note.amount : ℤ) = requiredMargin with
    | some exact => [{ margin := exact.amount, note := exact, size := totalSize }]
    | none =>
      let largerNotes := sorts.larger.sort
        (candidates.filter fun note => requiredMargin ≤ (note.amount : ℤ))
      match largerNotes.head? with
      | some bestLarger => [{ margin := requiredMargin, note := bestLarger, size := totalSize }]
      | none =>
        let smallerCandidates := sorts.smaller.sort
          (candidates.filter fun note => (note.amount : ℤ) < requiredMargin)
        let (selected, remainingMargin) :=
          fill (fun note : MakerNote => (note.amount : ℤ)) requiredMargin smallerCandidates
        if remainingMargin ≠ 0 then []
        else ((apportion totalSize requiredMargin totalSize selected).map fun part =>
          { margin := part.2.1, note := part.2.2, size := part.1 : MakerNoteAllocation }).filter
            fun allocation => 0 < allocation.size

end Pnlx.Server
