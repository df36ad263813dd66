import Pnlx.Circuits.Notes

/-!
# The withdraw circuit

`main` is satisfied by a note under the public root, a nullifier, an amount of at most the note's
and a commitment to the change. `facts` is what a satisfying assignment gives.
-/

namespace Pnlx.Withdraw

/-- The arguments of `main`. -/
structure Assignment where
  noteAmount : U128
  withdrawAmount : U128
  root : Fr
  nullifier : Fr
  tokenDigest : Fr
  recipientDigest : Fr
  changeCommitment : Fr
  assetDigest : Fr
  ownerDigest : Fr
  rhoDigest : Fr
  blinding : Fr
  spendSecretDigest : Fr
  pathSiblings : Vector Fr 8
  pathIndices : Vector Bool 8
  changeRhoDigest : Fr
  changeBlinding : Fr
  zeroValue : Fr

def main (H : Host) (a : Assignment) : Option Unit := do
  assert (a.noteAmount > 0)
  assert (a.withdrawAmount > 0)
  assert (a.withdrawAmount ≤ a.noteAmount)
  assert (a.root ≠ a.zeroValue)
  assert (a.nullifier ≠ a.zeroValue)
  assert (a.tokenDigest ≠ a.zeroValue)
  assert (a.recipientDigest ≠ a.zeroValue)
  assert (a.assetDigest = a.tokenDigest)
  let note := noteCommitment H a.assetDigest a.noteAmount a.ownerDigest a.rhoDigest a.blinding
  assert (merkleRoot H note a.pathSiblings a.pathIndices = a.root)
  assert (hashPair H a.spendSecretDigest a.rhoDigest = a.nullifier)
  let change ← checkedSub a.noteAmount a.withdrawAmount
  if change = 0 then
    assert (a.changeCommitment = a.zeroValue)
  else
    assert (a.changeRhoDigest ≠ a.zeroValue)
    assert (a.changeBlinding ≠ a.zeroValue)
    assert (a.changeCommitment =
      noteCommitment H a.assetDigest change a.ownerDigest a.changeRhoDigest a.changeBlinding)

namespace Assignment

/-- The public inputs, in the order of the parameters of `main`. -/
def publicInputs (a : Assignment) : List Fr :=
  [asField a.withdrawAmount, a.root, a.nullifier, a.tokenDigest, a.recipientDigest,
    a.changeCommitment]

/-- The note that is spent. -/
def note (a : Assignment) : Note :=
  ⟨a.assetDigest, a.noteAmount, a.ownerDigest, a.rhoDigest, a.blinding⟩

/-- The change note. -/
def changeNote (a : Assignment) : Note :=
  ⟨a.assetDigest, a.noteAmount - a.withdrawAmount, a.ownerDigest, a.changeRhoDigest,
    a.changeBlinding⟩

/-- The pairs that `main` hashes. -/
def queries (H : Host) (a : Assignment) : List (Fr × Fr) :=
  a.note.tree.queries (hashPair H) ++
    MerkleTree.climbQueries (hashPair H) (a.note.commitment H) (pathOf a.pathSiblings a.pathIndices) ++
    [(a.spendSecretDigest, a.rhoDigest)] ++ a.changeNote.tree.queries (hashPair H)

variable {H : Host} {Q : Set (Fr × Fr)} {a : Assignment}

theorem note_within (h : ∀ q ∈ a.queries H, q ∈ Q) : a.note.Within H Q := fun q hq =>
  h q (by unfold queries; simp only [List.mem_append]; exact Or.inl (Or.inl (Or.inl hq)))

theorem path_within (h : ∀ q ∈ a.queries H, q ∈ Q) :
    ∀ q ∈ MerkleTree.climbQueries (hashPair H) (a.note.commitment H)
      (pathOf a.pathSiblings a.pathIndices), q ∈ Q := fun q hq =>
  h q (by unfold queries; simp only [List.mem_append]; exact Or.inl (Or.inl (Or.inr hq)))

theorem nullifier_within (h : ∀ q ∈ a.queries H, q ∈ Q) :
    (a.spendSecretDigest, a.rhoDigest) ∈ Q :=
  h _ (by unfold queries; simp only [List.mem_append]; exact Or.inl (Or.inr (by simp)))

theorem changeNote_within (h : ∀ q ∈ a.queries H, q ∈ Q) : a.changeNote.Within H Q := fun q hq =>
  h q (by unfold queries; simp only [List.mem_append]; exact Or.inr hq)

end Assignment

/-- What `main` asserts. -/
structure Facts (H : Host) (a : Assignment) : Prop where
  withdraw_pos : 0 < a.withdrawAmount.toNat
  withdraw_le : a.withdrawAmount.toNat ≤ a.noteAmount.toNat
  asset : a.assetDigest = a.tokenDigest
  root : merkleRoot H (a.note.commitment H) a.pathSiblings a.pathIndices = a.root
  nullifier : hashPair H a.spendSecretDigest a.rhoDigest = a.nullifier
  no_change : a.withdrawAmount = a.noteAmount → a.changeCommitment = a.zeroValue
  change : a.withdrawAmount ≠ a.noteAmount → a.changeCommitment = a.changeNote.commitment H

theorem facts {H : Host} {a : Assignment} (h : main H a = some ()) : Facts H a := by
  unfold main at h
  simp only [Option.bind_eq_bind, Option.bind_eq_some_iff, assert_eq_some, exists_const] at h
  obtain ⟨-, hpos, hle, -, -, -, -, hasset, hroot, hnull, change, hchange, hbranch⟩ := h
  rw [checkedSub_eq_some] at hchange
  have hle' : a.withdrawAmount.toNat ≤ a.noteAmount.toNat := hle
  have hdiff : change = a.noteAmount - a.withdrawAmount := by
    apply BitVec.eq_of_toNat_eq
    rw [BitVec.toNat_sub_of_le hle]
    omega
  refine ⟨hpos, hle', hasset, hroot, hnull, fun heq => ?_, fun hne => ?_⟩
  · have h0 : change = 0 := by rw [hdiff, heq]; exact BitVec.sub_self _
    rw [if_pos h0, assert_eq_some] at hbranch
    exact hbranch
  · have h0 : change ≠ 0 := by
      intro h0
      rw [h0] at hchange
      exact hne (BitVec.eq_of_toNat_eq (by simpa using hchange))
    rw [if_neg h0] at hbranch
    simp only [Option.bind_eq_some_iff, assert_eq_some, exists_const] at hbranch
    rw [hbranch.2.2, hdiff]
    rfl

/-- The statement that a proof of this circuit proves. -/
def Provable (H : Host) (publicInputs : List Fr) : Prop :=
  ∃ a : Assignment, main H a = some () ∧ a.publicInputs = publicInputs

end Pnlx.Withdraw
