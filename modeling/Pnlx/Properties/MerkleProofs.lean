import Mathlib
import Pnlx.SampleHost
import Pnlx.Server.FieldMerkle

/-!
# Merkle proofs of the server and paths of the circuits

The server hands out authentication paths in the trees of margin notes and of positions, and the
circuits fold them with `merkle_root`. The path of a member leads to the root that the server
computes, and no other leaf than zero and the members has a path to it (`merkleProofs_agree`).
-/

namespace Pnlx.Server

open MerkleTree
open BatchMatch (Text fieldHex)

variable {H : Host} {P : Fr → Fr → Fr}

/-- The circuits read the siblings of a proof as field elements and fold them from the leaf to the
root. -/
def Opens (H : Host) (depth : ℕ) (proof : FieldMerkleProof) (leaf root : Fr) : Prop :=
  ∃ (pathSiblings : Vector Fr depth) (pathIndices : Vector Bool depth),
    proof.siblings.mapM (fun sibling => toField (.hex sibling)) = some pathSiblings.toList ∧
      proof.indices = pathIndices.toList ∧ merkleRoot H leaf pathSiblings pathIndices = root

/-- The root and the proofs of a tree over the texts, whose leaves are read as `order`, agree with
the paths of the circuits. -/
structure Agrees (H : Host) (depth : ℕ) (rootOf : List Text → Option Text)
    (proofOf : List Text → Text → Option FieldMerkleProof) (texts : List Text) (order : List Fr) :
    Prop where
  root : rootOf texts = some (fieldHex (root (hashPair H) depth (padded 0 order)))
  complete : ∀ text ∈ texts, ∀ leaf, toField (.hex text) = some leaf →
    ∃ proof, proofOf texts text = some proof ∧ proof.leaf = fieldHex leaf ∧
      some proof.root = rootOf texts ∧
      Opens H depth proof leaf (MerkleTree.root (hashPair H) depth (padded 0 order))
  sound : ∀ Q, CollisionFree (hashPair H) Q →
    (∀ q ∈ rootQueries (hashPair H) depth (padded 0 order), q ∈ Q) →
    ∀ leaf ≠ 0, ∀ (pathSiblings : Vector Fr depth) (pathIndices : Vector Bool depth),
      (∀ q ∈ climbQueries (hashPair H) leaf (pathOf pathSiblings pathIndices), q ∈ Q) →
      merkleRoot H leaf pathSiblings pathIndices =
        MerkleTree.root (hashPair H) depth (padded 0 order) →
      ∃ text ∈ texts, toField (.hex text) = some leaf

/-- The siblings and sides of a list are those of the vectors it is made of. -/
theorem pathOf_of_list {depth : ℕ} {path : List (Fr × Bool)} (hlength : path.length = depth)
    {pathSiblings : Vector Fr depth} {pathIndices : Vector Bool depth}
    (hsiblings : pathSiblings.toList = path.map Prod.fst)
    (hindices : pathIndices.toList = path.map Prod.snd) :
    pathOf pathSiblings pathIndices = path := by
  refine List.ext_getElem (by rw [length_pathOf, hlength]) fun i hi hi' => ?_
  have hsibling : pathSiblings.toList[i]? = some path[i].1 := by
    rw [hsiblings, List.getElem?_map, List.getElem?_eq_getElem hi', Option.map_some]
  have hindex : pathIndices.toList[i]? = some path[i].2 := by
    rw [hindices, List.getElem?_map, List.getElem?_eq_getElem hi', Option.map_some]
  rw [Vector.getElem?_toList, Vector.getElem?_eq_getElem (hlength ▸ hi'), Option.some.injEq]
    at hsibling hindex
  simp only [pathOf, List.getElem_map, List.getElem_finRange]
  exact Prod.ext hsibling hindex

/-- The path of a leaf opens the root. -/
theorem opens_merkleProof {depth : ℕ} (leaves : List Fr) {i : ℕ} (hi : i < 2 ^ depth) :
    Opens H depth (merkleProof (hashPair H) depth leaves i) (padded 0 leaves i)
      (root (hashPair H) depth (padded 0 leaves)) := by
  have hlength := length_path (h := hashPair H) (padded 0 leaves) i depth
  let pathSiblings : Vector Fr depth :=
    ⟨((path (hashPair H) (padded 0 leaves) i depth).map Prod.fst).toArray, by simp [hlength]⟩
  let pathIndices : Vector Bool depth :=
    ⟨((path (hashPair H) (padded 0 leaves) i depth).map Prod.snd).toArray, by simp [hlength]⟩
  refine ⟨pathSiblings, pathIndices, ?_, rfl, ?_⟩
  · rw [merkleProof, List.mapM_map]
    exact mapM_eq_map fun sib _ => toField_fieldHex sib.1
  · rw [merkleRoot_eq_climb, pathOf_of_list hlength rfl rfl, climb_path_eq_root _ hi]

/-- A path to the root starts at a leaf of the list, unless it starts at zero. -/
theorem mem_of_merkleRoot_eq {Q : Set (Fr × Fr)} {depth : ℕ} {leaves : List Fr} {leaf : Fr}
    (hQ : CollisionFree (hashPair H) Q)
    (htree : ∀ q ∈ rootQueries (hashPair H) depth (padded 0 leaves), q ∈ Q) (hne : leaf ≠ 0)
    {pathSiblings : Vector Fr depth} {pathIndices : Vector Bool depth}
    (hpath : ∀ q ∈ climbQueries (hashPair H) leaf (pathOf pathSiblings pathIndices), q ∈ Q)
    (hroot : merkleRoot H leaf pathSiblings pathIndices =
      root (hashPair H) depth (padded 0 leaves)) : leaf ∈ leaves := by
  have hlength := length_pathOf pathSiblings pathIndices
  rw [merkleRoot_eq_climb] at hroot
  obtain ⟨i, -, rfl⟩ := climb_eq_root hQ hpath (by rwa [hlength]) (by rwa [hlength])
  exact mem_of_padded hne

/-- A tree whose proofs are the paths of its leaves agrees with the circuits. -/
theorem Agrees.of_paths {depth : ℕ} {rootOf : List Text → Option Text}
    {proofOf : List Text → Text → Option FieldMerkleProof} {texts : List Text}
    {leaves order : List Fr}
    (hreads : texts.mapM (fun text => toField (.hex text)) = some leaves)
    (hperm : order.Perm leaves)
    (hroot : rootOf texts = some (fieldHex (MerkleTree.root (hashPair H) depth (padded 0 order))))
    (hproof : ∀ text leaf, toField (.hex text) = some leaf → leaf ∈ leaves →
      ∃ i < 2 ^ depth, padded 0 order i = leaf ∧
        proofOf texts text = some (merkleProof (hashPair H) depth order i)) :
    Agrees H depth rootOf proofOf texts order where
  root := hroot
  complete text htext leaf hleaf := by
    obtain ⟨leaf', hmem, hleaf'⟩ := (mapM_eq_some.mp hreads).flip.exists_of_mem_right htext
    obtain rfl := Option.some.inj (hleaf.symm.trans hleaf')
    obtain ⟨i, hi, rfl, hproof⟩ := hproof text leaf hleaf hmem
    exact ⟨_, hproof, rfl, hroot.symm, opens_merkleProof order hi⟩
  sound Q hQ htree leaf hne pathSiblings pathIndices hpath heq := by
    have hmem := hperm.mem_iff.mp (mem_of_merkleRoot_eq hQ htree hne hpath heq)
    obtain ⟨text, htext, hread⟩ := (mapM_eq_some.mp hreads).exists_of_mem_right hmem
    exact ⟨text, htext, hread⟩

/-- **Merkle proofs and circuits agree.** For all texts that are read as field elements and fit a
tree, the root and the proofs of the tree of margin notes are those of one order of the leaves, and
those of the tree of positions are those of the leaves in the order of the texts. The circuits fold
the proof of every member to the root, and accept a path to the root from no leaf but zero and the
members, if the pair hash has no collision among the pairs that were hashed. -/
theorem merkleProofs_agree (hP : ∀ x y, P x y = hashPair H x y) {texts : List Text}
    {leaves : List Fr} (hreads : texts.mapM (fun text => toField (.hex text)) = some leaves) :
    (leaves.length ≤ 2 ^ fieldMerkleDepth → ∃ order : List Fr, order.Perm leaves ∧
      Agrees H fieldMerkleDepth (fieldMerkleRoot P · fieldMerkleDepth)
        (fieldMerkleProof P · · fieldMerkleDepth) texts order) ∧
    (leaves.length ≤ 2 ^ positionMerkleDepth →
      Agrees H positionMerkleDepth (positionMerkleRoot P · positionMerkleDepth)
        (positionMerkleProof P · · positionMerkleDepth) texts leaves) := by
  obtain rfl : P = hashPair H := funext fun x => funext fun y => hP x y
  refine ⟨fun hfits => ⟨sortFields leaves, perm_sortFields leaves, ?_⟩, fun hfits => ?_⟩
  · exact Agrees.of_paths hreads (perm_sortFields leaves) (fieldMerkleRoot_eq hreads hfits)
      fun text leaf hleaf hmem => fieldMerkleProof_eq hreads hfits hleaf hmem
  · exact Agrees.of_paths hreads (List.Perm.refl leaves) (positionMerkleRoot_eq hreads hfits)
      fun text leaf hleaf hmem => positionMerkleProof_eq hreads hfits hleaf hmem

/-- Three leaves, the last of which has no leaf beside it. -/
def threeLeaves : List Text := ["0x9", "0x05", "0x7"].map String.toList

theorem threeLeaves_agree :
    (∃ order : List Fr, order.Perm [9, 5, 7] ∧
      Agrees sampleHost fieldMerkleDepth (fieldMerkleRoot SampleHost.pairHash · fieldMerkleDepth)
        (fieldMerkleProof SampleHost.pairHash · · fieldMerkleDepth) threeLeaves order) ∧
    Agrees sampleHost positionMerkleDepth
      (positionMerkleRoot SampleHost.pairHash · positionMerkleDepth)
      (positionMerkleProof SampleHost.pairHash · · positionMerkleDepth) threeLeaves [9, 5, 7] := by
  have hhash : ∀ x y, SampleHost.pairHash x y = hashPair sampleHost x y := fun x y => rfl
  have hreads : threeLeaves.mapM (fun text => toField (.hex text)) = some [9, 5, 7] := by
    decide +kernel
  obtain ⟨hmargin, hposition⟩ := merkleProofs_agree hhash hreads
  exact ⟨hmargin (by decide), hposition (by decide)⟩

end Pnlx.Server
