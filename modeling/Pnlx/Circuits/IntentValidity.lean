import Pnlx.Circuits.Notes

/-!
# The intent-validity circuit

`main` is satisfied by a margin note under the public root, its nullifier, an order whose margin
is at most the note's amount, a commitment to the change, and the commitment to the order.
-/

namespace Pnlx.IntentValidity

def computeIntentCommitment (H : Host) (batchDigest marketDigest ownerCommitmentField : Fr)
    (isLong : Bool) (size limitPrice margin : U128) (noteNullifier nonceDigest saltDigest : Fr) :
    Fr :=
  let side : Fr := if isLong then 1 else 2
  let scope := hashPair H (hashPair H batchDigest marketDigest) (hashPair H ownerCommitmentField side)
  let economics := hashPair H (hashPair H (asField size) (asField limitPrice))
    (hashPair H (asField margin) noteNullifier)
  let entropy := hashPair H nonceDigest saltDigest
  hashPair H (hashPair H scope economics) entropy

/-- The arguments of `main`. -/
structure Assignment where
  size : U128
  margin : U128
  limitPrice : U128
  isLong : Bool
  expiryBatch : U128
  noteAmount : U128
  assetDigest : Fr
  ownerDigest : Fr
  rhoDigest : Fr
  blinding : Fr
  spendSecretDigest : Fr
  pathSiblings : Vector Fr 8
  pathIndices : Vector Bool 8
  currentBatch : U128
  batchDigest : Fr
  marketDigest : Fr
  ownerCommitmentField : Fr
  intentCommitment : Fr
  marginRoot : Fr
  noteCommitmentPublic : Fr
  noteNullifier : Fr
  noteChangeCommitment : Fr
  nonceDigest : Fr
  saltDigest : Fr
  changeRhoDigest : Fr
  changeBlinding : Fr
  zeroCommitment : Fr

def main (H : Host) (a : Assignment) : Option Unit := do
  assert (a.size > 0)
  assert (a.margin > 0)
  assert (a.noteAmount ≥ a.margin)
  assert (a.limitPrice > 0)
  assert (a.expiryBatch ≥ a.currentBatch)
  assert (a.intentCommitment ≠ a.zeroCommitment)
  assert (a.batchDigest ≠ a.zeroCommitment)
  assert (a.marketDigest ≠ a.zeroCommitment)
  assert (a.ownerCommitmentField ≠ a.zeroCommitment)
  assert (a.marginRoot ≠ a.zeroCommitment)
  assert (a.noteCommitmentPublic ≠ a.zeroCommitment)
  assert (a.noteNullifier ≠ a.zeroCommitment)
  assert (a.nonceDigest ≠ a.zeroCommitment)
  assert (a.saltDigest ≠ a.zeroCommitment)
  let computedNoteCommitment :=
    noteCommitment H a.assetDigest a.noteAmount a.ownerDigest a.rhoDigest a.blinding
  assert (computedNoteCommitment = a.noteCommitmentPublic)
  assert (merkleRoot H a.noteCommitmentPublic a.pathSiblings a.pathIndices = a.marginRoot)
  assert (hashPair H a.spendSecretDigest a.rhoDigest = a.noteNullifier)
  let change ← checkedSub a.noteAmount a.margin
  if change = 0 then
    assert (a.noteChangeCommitment = a.zeroCommitment)
  else
    assert (a.changeRhoDigest ≠ a.zeroCommitment)
    assert (a.changeBlinding ≠ a.zeroCommitment)
    assert (a.noteChangeCommitment =
      noteCommitment H a.assetDigest change a.ownerDigest a.changeRhoDigest a.changeBlinding)
  assert (computeIntentCommitment H a.batchDigest a.marketDigest a.ownerCommitmentField a.isLong
    a.size a.limitPrice a.margin a.noteNullifier a.nonceDigest a.saltDigest = a.intentCommitment)

namespace Assignment

/-- The public inputs, in the order of the parameters of `main`. -/
def publicInputs (a : Assignment) : List Fr :=
  [asField a.currentBatch, a.batchDigest, a.marketDigest, a.ownerCommitmentField,
    a.intentCommitment, a.marginRoot, a.noteCommitmentPublic, a.noteNullifier,
    a.noteChangeCommitment]

/-- The note that is spent. -/
def note (a : Assignment) : Note :=
  ⟨a.assetDigest, a.noteAmount, a.ownerDigest, a.rhoDigest, a.blinding⟩

/-- The change note. -/
def changeNote (a : Assignment) : Note :=
  ⟨a.assetDigest, a.noteAmount - a.margin, a.ownerDigest, a.changeRhoDigest, a.changeBlinding⟩

/-- The pairs that `main` hashes for the notes, the path and the nullifier. -/
def queries (H : Host) (a : Assignment) : List (Fr × Fr) :=
  a.note.tree.queries (hashPair H) ++
    MerkleTree.climbQueries (hashPair H) (a.note.commitment H) (pathOf a.pathSiblings a.pathIndices) ++
    [(a.spendSecretDigest, a.rhoDigest)] ++ a.changeNote.tree.queries (hashPair H)

variable {H : Host} {Q : Set (Fr × Fr)} {a : Assignment}

theorem note_within (h : ∀ q ∈ a.queries H, q ∈ Q) : a.note.Within H Q := fun q hq =>
  h q (by unfold queries; simp only [List.mem_append]; exact Or.inl (Or.inl (Or.inl hq)))

theorem nullifier_within (h : ∀ q ∈ a.queries H, q ∈ Q) :
    (a.spendSecretDigest, a.rhoDigest) ∈ Q :=
  h _ (by unfold queries; simp only [List.mem_append]; exact Or.inl (Or.inr (by simp)))

theorem changeNote_within (h : ∀ q ∈ a.queries H, q ∈ Q) : a.changeNote.Within H Q := fun q hq =>
  h q (by unfold queries; simp only [List.mem_append]; exact Or.inr hq)

end Assignment

/-- What `main` asserts. -/
structure Facts (H : Host) (a : Assignment) : Prop where
  margin_pos : 0 < a.margin.toNat
  margin_le : a.margin.toNat ≤ a.noteAmount.toNat
  note : a.note.commitment H = a.noteCommitmentPublic
  root : merkleRoot H a.noteCommitmentPublic a.pathSiblings a.pathIndices = a.marginRoot
  nullifier : hashPair H a.spendSecretDigest a.rhoDigest = a.noteNullifier
  no_change : a.margin = a.noteAmount → a.noteChangeCommitment = a.zeroCommitment
  change : a.margin ≠ a.noteAmount → a.noteChangeCommitment = a.changeNote.commitment H
  intent : computeIntentCommitment H a.batchDigest a.marketDigest a.ownerCommitmentField a.isLong
    a.size a.limitPrice a.margin a.noteNullifier a.nonceDigest a.saltDigest = a.intentCommitment

theorem facts {H : Host} {a : Assignment} (h : main H a = some ()) : Facts H a := by
  unfold main at h
  simp only [Option.bind_eq_bind, Option.bind_eq_some_iff, assert_eq_some, exists_const] at h
  obtain ⟨-, hpos, hle, -, -, -, -, -, -, -, -, -, -, -, hnote, hroot, hnull, change, hchange,
    hbranch⟩ := h
  rw [checkedSub_eq_some] at hchange
  have hdiff : change = a.noteAmount - a.margin := by
    apply BitVec.eq_of_toNat_eq
    rw [BitVec.toNat_sub_of_le hle]
    omega
  by_cases h0 : change = 0
  · have heq : a.margin = a.noteAmount := by
      rw [h0] at hchange
      exact BitVec.eq_of_toNat_eq (by simpa using hchange)
    rw [if_pos h0] at hbranch
    simp only [Option.bind_eq_some_iff, assert_eq_some, exists_const] at hbranch
    exact ⟨hpos, hle, hnote, hroot, hnull, fun _ => hbranch.1, fun hne => absurd heq hne,
      hbranch.2⟩
  · have hne : a.margin ≠ a.noteAmount := by
      intro heq
      exact h0 (by rw [hdiff, heq]; exact BitVec.sub_self _)
    rw [if_neg h0] at hbranch
    simp only [Option.bind_eq_some_iff, assert_eq_some, exists_const] at hbranch
    refine ⟨hpos, hle, hnote, hroot, hnull, fun heq => absurd heq hne, fun _ => ?_, hbranch.2.2.2⟩
    rw [hbranch.2.2.1, hdiff]
    rfl

end Pnlx.IntentValidity
