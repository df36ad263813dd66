import Pnlx.Circuits.Notes

/-!
# The conditional-close circuit

`main` is satisfied by a reduce-only order on a position, given by the position's nullifier, whose
trigger price the public mark price has reached.
-/

namespace Pnlx.ConditionalClose

def conditionalCommitment (H : Host) (marketDigest positionNullifier : Fr)
    (isLong isTakeProfit : Bool) (triggerPrice size : U128) (reduceOnly : Bool) (saltDigest : Fr) :
    Fr :=
  let side : Fr := if isLong then 1 else 2
  let kind : Fr := if isTakeProfit then 1 else 2
  let reduce : Fr := if reduceOnly then 1 else 0
  let scope := hashPair H (hashPair H marketDigest positionNullifier) (hashPair H side kind)
  let trigger := hashPair H (hashPair H (asField triggerPrice) (asField size))
    (hashPair H reduce saltDigest)
  hashPair H scope trigger

/-- The arguments of `main`. -/
structure Assignment where
  isLong : Bool
  isTakeProfit : Bool
  reduceOnly : Bool
  marketDigest : Fr
  triggerPrice : U128
  markPrice : U128
  size : U128
  positionNullifier : Fr
  closeCommitment : Fr
  saltDigest : Fr
  zeroValue : Fr

def main (H : Host) (a : Assignment) : Option Unit := do
  assert a.reduceOnly
  assert (a.marketDigest ≠ a.zeroValue)
  assert (a.triggerPrice > 0)
  assert (a.markPrice > 0)
  assert (a.size > 0)
  assert (a.positionNullifier ≠ a.zeroValue)
  assert (a.closeCommitment ≠ a.zeroValue)
  assert (a.saltDigest ≠ a.zeroValue)
  assert (conditionalCommitment H a.marketDigest a.positionNullifier a.isLong a.isTakeProfit
    a.triggerPrice a.size a.reduceOnly a.saltDigest = a.closeCommitment)
  if a.isLong then
    if a.isTakeProfit then
      assert (a.markPrice ≥ a.triggerPrice)
    else
      assert (a.markPrice ≤ a.triggerPrice)
  else
    if a.isTakeProfit then
      assert (a.markPrice ≤ a.triggerPrice)
    else
      assert (a.markPrice ≥ a.triggerPrice)

namespace Assignment

/-- The public inputs, in the order of the parameters of `main`. -/
def publicInputs (a : Assignment) : List Fr :=
  [asField a.markPrice, a.positionNullifier, a.closeCommitment]

/-- The tree of the commitment to the order. -/
def tree (a : Assignment) : HashTree Fr :=
  .node
    (.node (.node (.leaf a.marketDigest) (.leaf a.positionNullifier))
      (.node (.leaf (if a.isLong then 1 else 2)) (.leaf (if a.isTakeProfit then 1 else 2))))
    (.node (.node (.leaf (asField a.triggerPrice)) (.leaf (asField a.size)))
      (.node (.leaf (if a.reduceOnly then 1 else 0)) (.leaf a.saltDigest)))

theorem eval_tree (H : Host) (a : Assignment) : a.tree.eval (hashPair H) =
    conditionalCommitment H a.marketDigest a.positionNullifier a.isLong a.isTakeProfit
      a.triggerPrice a.size a.reduceOnly a.saltDigest := rfl

/-- The pairs that `main` hashes. -/
def queries (H : Host) (a : Assignment) : List (Fr × Fr) := a.tree.queries (hashPair H)

end Assignment

/-- The statement that a proof of this circuit proves. -/
def Provable (H : Host) (publicInputs : List Fr) : Prop :=
  ∃ a : Assignment, main H a = some () ∧ a.publicInputs = publicInputs

end Pnlx.ConditionalClose
