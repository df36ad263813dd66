import Pnlx.Circuits.Gadgets
import Pnlx.Lib.HashTree

/-!
# Notes, positions and Merkle paths in the circuits

The functions the Noir circuits share: the Poseidon2 pair hash, the commitments to margin notes
and to positions, and the Merkle root of an authentication path. Each commitment is the value of a
`HashTree` (`noteTree`, `positionTree`), so commitments bind their openings
(`noteCommitment_inj`, `positionCommitment_inj`), and a path is a `MerkleTree.climb`.
-/

namespace Pnlx

/-- `std::hash::poseidon2_permutation([left, right, 0, 36893488147419103232], 4)[0]`. -/
def hashPair (H : Host) (left right : Fr) : Fr :=
  (H.poseidon2Permutation #v[left, right, 0, 36893488147419103232])[0]

/-! ## Margin notes -/

/-- The opening of a margin note. -/
structure Note where
  assetDigest : Fr
  amount : U128
  ownerDigest : Fr
  rhoDigest : Fr
  blinding : Fr
  deriving DecidableEq

def noteCommitment (H : Host) (assetDigest : Fr) (noteAmount : U128)
    (ownerDigest rhoDigest blinding : Fr) : Fr :=
  let amountField := asField noteAmount
  let left := hashPair H assetDigest amountField
  let right := hashPair H ownerDigest (hashPair H rhoDigest blinding)
  hashPair H left right

namespace Note

/-- The commitment to a note. -/
def commitment (H : Host) (n : Note) : Fr :=
  noteCommitment H n.assetDigest n.amount n.ownerDigest n.rhoDigest n.blinding

def tree (n : Note) : HashTree Fr :=
  .node (.node (.leaf n.assetDigest) (.leaf (asField n.amount)))
    (.node (.leaf n.ownerDigest) (.node (.leaf n.rhoDigest) (.leaf n.blinding)))

theorem eval_tree (H : Host) (n : Note) : n.tree.eval (hashPair H) = n.commitment H := rfl

theorem sameShape (m n : Note) : m.tree.SameShape n.tree := by
  simp [tree, HashTree.SameShape]

/-- All pairs hashed by the commitment lie in `Q`. -/
def Within (H : Host) (Q : Set (Fr × Fr)) (n : Note) : Prop := n.tree.Within (hashPair H) Q

/-- **Note commitments are binding.** -/
theorem commitment_inj {H : Host} {Q : Set (Fr × Fr)} (hQ : CollisionFree (hashPair H) Q)
    {m n : Note} (hm : m.Within H Q) (hn : n.Within H Q)
    (h : m.commitment H = n.commitment H) : m = n := by
  have ht : m.tree = n.tree := HashTree.eval_inj hQ (sameShape m n) hm hn h
  simp only [tree, HashTree.node.injEq, HashTree.leaf.injEq] at ht
  obtain ⟨⟨hasset, hamount⟩, howner, hrho, hblind⟩ := ht
  cases m; cases n
  simp only at hasset hamount howner hrho hblind
  rw [hasset, asField_injective hamount, howner, hrho, hblind]

/-- The commitment is itself the hash of a pair of `Q`. -/
theorem exists_pair_mem {H : Host} {Q : Set (Fr × Fr)} {n : Note} (hn : n.Within H Q) :
    ∃ q ∈ Q, hashPair H q.1 q.2 = n.commitment H :=
  ⟨_, (HashTree.within_node.mp hn).1, rfl⟩

end Note

/-! ## Positions -/

/-- The opening of a position. -/
structure Position where
  isLong : Bool
  size : U128
  entryPrice : U128
  margin : U128
  fundingIndex : U128
  marketDigest : Fr
  ownerDigest : Fr
  rhoDigest : Fr
  blinding : Fr
  deriving DecidableEq

def positionCommitment (H : Host) (isLong : Bool) (size entryPrice margin fundingIndex : U128)
    (marketDigest ownerDigest rhoDigest blinding : Fr) : Fr :=
  let side : Fr := if isLong then 1 else 2
  let left := hashPair H (hashPair H marketDigest side)
    (hashPair H (asField size) (asField entryPrice))
  let right := hashPair H (hashPair H (asField margin) (asField fundingIndex))
    (hashPair H ownerDigest (hashPair H rhoDigest blinding))
  hashPair H left right

namespace Position

/-- The commitment to a position. -/
def commitment (H : Host) (p : Position) : Fr :=
  positionCommitment H p.isLong p.size p.entryPrice p.margin p.fundingIndex p.marketDigest
    p.ownerDigest p.rhoDigest p.blinding

def side (p : Position) : Fr := if p.isLong then 1 else 2

def tree (p : Position) : HashTree Fr :=
  .node
    (.node (.node (.leaf p.marketDigest) (.leaf p.side))
      (.node (.leaf (asField p.size)) (.leaf (asField p.entryPrice))))
    (.node (.node (.leaf (asField p.margin)) (.leaf (asField p.fundingIndex)))
      (.node (.leaf p.ownerDigest) (.node (.leaf p.rhoDigest) (.leaf p.blinding))))

theorem eval_tree (H : Host) (p : Position) : p.tree.eval (hashPair H) = p.commitment H := rfl

theorem sameShape (p q : Position) : p.tree.SameShape q.tree := by
  simp [tree, HashTree.SameShape]

/-- All pairs hashed by the commitment lie in `Q`. -/
def Within (H : Host) (Q : Set (Fr × Fr)) (p : Position) : Prop := p.tree.Within (hashPair H) Q

theorem isLong_eq_of_side {b c : Bool} (h : (if b then (1 : Fr) else 2) = if c then 1 else 2) :
    b = c := by
  have hne : (1 : Fr) ≠ 2 := by decide
  cases b <;> cases c <;> simp_all

/-- **Position commitments are binding.** -/
theorem commitment_inj {H : Host} {Q : Set (Fr × Fr)} (hQ : CollisionFree (hashPair H) Q)
    {p q : Position} (hp : p.Within H Q) (hq : q.Within H Q)
    (h : p.commitment H = q.commitment H) : p = q := by
  have ht : p.tree = q.tree := HashTree.eval_inj hQ (sameShape p q) hp hq h
  simp only [tree, side, HashTree.node.injEq, HashTree.leaf.injEq] at ht
  obtain ⟨⟨⟨hmarket, hside⟩, hsize, hentry⟩, ⟨hmargin, hindex⟩, howner, hrho, hblind⟩ := ht
  have hlong := isLong_eq_of_side hside
  cases p; cases q
  simp only at hmarket hlong hsize hentry hmargin hindex howner hrho hblind
  rw [hmarket, hlong, asField_injective hsize, asField_injective hentry,
    asField_injective hmargin, asField_injective hindex, howner, hrho, hblind]

end Position

/-! ## Merkle paths -/

def merkleRoot (H : Host) {depth : ℕ} (leaf : Fr) (pathSiblings : Vector Fr depth)
    (pathIndices : Vector Bool depth) : Fr :=
  (List.finRange depth).foldl (fun current i =>
    let sibling := pathSiblings[i]
    let left := if pathIndices[i] then sibling else current
    let right := if pathIndices[i] then current else sibling
    hashPair H left right) leaf

/-- The siblings of a path with their sides, from the leaf upwards. -/
def pathOf {depth : ℕ} (pathSiblings : Vector Fr depth) (pathIndices : Vector Bool depth) :
    List (Fr × Bool) :=
  (List.finRange depth).map fun i => (pathSiblings[i], pathIndices[i])

@[simp] theorem length_pathOf {depth : ℕ} (pathSiblings : Vector Fr depth)
    (pathIndices : Vector Bool depth) : (pathOf pathSiblings pathIndices).length = depth := by
  rw [pathOf, List.length_map, List.length_finRange]

theorem merkleRoot_eq_climb (H : Host) {depth : ℕ} (leaf : Fr) (pathSiblings : Vector Fr depth)
    (pathIndices : Vector Bool depth) :
    merkleRoot H leaf pathSiblings pathIndices =
      MerkleTree.climb (hashPair H) leaf (pathOf pathSiblings pathIndices) := by
  unfold merkleRoot MerkleTree.climb pathOf
  rw [List.foldl_map]
  congr 1
  funext current i
  unfold MerkleTree.climbStep
  cases pathIndices[i] <;> rfl

end Pnlx
