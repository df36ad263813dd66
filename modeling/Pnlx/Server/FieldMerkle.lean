import Mathlib.Data.List.Lex
import Pnlx.Lib.IncrementalTree
import Pnlx.Lib.Loop
import Pnlx.Server.Texts

/-!
# The trees of the server

The server hashes two trees level by level. That of the positions keeps the order of its leaves and
takes every node without a leaf below it from a list of empty roots. That of the margin notes sorts
its leaves and pads them to the full width.

1. `positionMerkleRoot_eq`, `fieldMerkleRoot_eq`: both compute the root of the tree over their
   leaves.
2. `positionMerkleProof_eq`, `fieldMerkleProof_eq`: the proof of a member is its `path`.
-/

namespace Pnlx.Server

open MerkleTree
open BatchMatch (Text fieldHex)

variable {P : Fr → Fr → Fr}

def emptyLeaf : Text := fieldHex 0

/-- The loop of `emptyRoots`. -/
def emptyRoots (poseidon2Hash : Fr → Fr → Fr) : (depth : ℕ) → Option (List Text)
  | 0 => some [emptyLeaf]
  | depth + 1 => do
    let roots ← emptyRoots poseidon2Hash depth
    let last ← roots[depth]?
    let next ← fieldHashPair poseidon2Hash (.hex last) (.hex last)
    some (roots ++ [next])

/-- The nodes above the nodes `current` of one level, where the nodes to their right are `empty`. -/
def parentLevel (poseidon2Hash : Fr → Fr → Fr) (empty : Text) (current : List Text) :
    Option (List Text) :=
  (List.range ((current.length + 1) / 2)).mapM fun parent =>
    fieldHashPair poseidon2Hash (.hex (current[parent * 2]?.getD empty))
      (.hex (current[parent * 2 + 1]?.getD empty))

/-- The loop of `buildIncrementalFieldMerkleLevels`: a map with the keys below its size is a list. -/
def incrementalLevels (poseidon2Hash : Fr → Fr → Fr) (leaves empties : List Text) :
    (depth : ℕ) → Option (List (List Text))
  | 0 => do
    let base ← leaves.mapM fun leaf => (toField (.hex leaf)).map fieldHex
    some [base]
  | depth + 1 => do
    let levels ← incrementalLevels poseidon2Hash leaves empties depth
    let current ← levels[depth]?
    let empty ← empties[depth]?
    let next ← parentLevel poseidon2Hash empty current
    some (levels ++ [next])

def buildIncrementalFieldMerkleLevels (poseidon2Hash : Fr → Fr → Fr) (leaves : List Text)
    (depth : ℕ) : Option (List Text × List (List Text)) := do
  guard (leaves.length ≤ 2 ^ depth)
  let empties ← emptyRoots poseidon2Hash depth
  let levels ← incrementalLevels poseidon2Hash leaves empties depth
  some (empties, levels)

def positionMerkleDepth : ℕ := 20

def positionMerkleRoot (poseidon2Hash : Fr → Fr → Fr) (leaves : List Text) (depth : ℕ) :
    Option Text := do
  let (_, levels) ← buildIncrementalFieldMerkleLevels poseidon2Hash leaves depth
  let top ← levels[depth]?
  let empties ← emptyRoots poseidon2Hash depth
  (top[0]?).or empties[depth]?

/-- The parents of the nodes `current` of a full level. -/
def fullParentLevel (poseidon2Hash : Fr → Fr → Fr) (current : List Text) : Option (List Text) :=
  (List.range ((current.length + 1) / 2)).mapM fun parent => do
    let left ← current[parent * 2]?
    let right ← current[parent * 2 + 1]?
    fieldHashPair poseidon2Hash (.hex left) (.hex right)

/-- The loop of `buildFieldMerkleLevels`. -/
def fullLevels (poseidon2Hash : Fr → Fr → Fr) (base : List Text) :
    (depth : ℕ) → Option (List (List Text))
  | 0 => some [base]
  | depth + 1 => do
    let levels ← fullLevels poseidon2Hash base depth
    let current ← levels[depth]?
    let next ← fullParentLevel poseidon2Hash current
    some (levels ++ [next])

/-- `sort()`: texts are compared character by character. -/
def sort (texts : List Text) : List Text := texts.insertionSort fun a b => ¬ List.Lex (· < ·) b a

def buildFieldMerkleLevels (poseidon2Hash : Fr → Fr → Fr) (leaves : List Text) (depth : ℕ) :
    Option (List (List Text)) := do
  let width := 2 ^ depth
  let fields ← leaves.mapM fun leaf => (toField (.hex leaf)).map fieldHex
  let base := sort fields
  guard (base.length ≤ width)
  fullLevels poseidon2Hash (base ++ List.replicate (width - base.length) emptyLeaf) depth

def fieldMerkleDepth : ℕ := 8

def fieldMerkleRoot (poseidon2Hash : Fr → Fr → Fr) (leaves : List Text) (depth : ℕ) :
    Option Text := do
  let levels ← buildFieldMerkleLevels poseidon2Hash leaves depth
  let top ← levels.getLast?
  top[0]?

structure FieldMerkleProof where
  index : ℕ
  leaf : Text
  root : Text
  siblings : List Text
  indices : List Bool
  deriving DecidableEq

/-- The loop of both proofs, from the level `level` on. A node that is not there is `empty`. -/
def proofLevels (levels : List (List Text)) (empty : ℕ → Option Text) :
    (remaining level index : ℕ) → Option (List Text × List Bool)
  | 0, _, _ => some ([], [])
  | remaining + 1, level, index => do
    let current ← levels[level]?
    let sibling ← (current[index ^^^ 1]?).or (empty level)
    let (siblings, indices) ← proofLevels levels empty remaining (level + 1) (index / 2)
    some (sibling :: siblings, decide (index % 2 = 1) :: indices)

def fieldMerkleProof (poseidon2Hash : Fr → Fr → Fr) (leaves : List Text) (leaf : Text)
    (depth : ℕ) : Option FieldMerkleProof := do
  let normalizedLeaf ← (toField (.hex leaf)).map fieldHex
  let levels ← buildFieldMerkleLevels poseidon2Hash leaves depth
  let base ← levels[0]?
  let index ← base.idxOf? normalizedLeaf
  let (siblings, indices) ← proofLevels levels (fun _ => some emptyLeaf) depth 0 index
  let top ← levels[depth]?
  let root ← top[0]?
  some ⟨index, normalizedLeaf, root, siblings, indices⟩

/-- The search for the leaf reads the leaves up to the first that is equal to it, and the levels
above read all of them. -/
def positionMerkleProof (poseidon2Hash : Fr → Fr → Fr) (leaves : List Text) (leaf : Text)
    (depth : ℕ) : Option FieldMerkleProof := do
  let normalizedLeaf ← (toField (.hex leaf)).map fieldHex
  let fields ← leaves.mapM fun candidate => (toField (.hex candidate)).map fieldHex
  let index ← fields.idxOf? normalizedLeaf
  let (empties, levels) ← buildIncrementalFieldMerkleLevels poseidon2Hash leaves depth
  let (siblings, indices) ← proofLevels levels (fun level => empties[level]?) depth 0 index
  let top ← levels[depth]?
  let root ← (top[0]?).or empties[depth]?
  some ⟨index, normalizedLeaf, root, siblings, indices⟩

/-! ## The levels are the nodes of the tree -/

theorem fieldHashPair_fieldHex (x y : Fr) :
    fieldHashPair P (.hex (fieldHex x)) (.hex (fieldHex y)) = some (fieldHex (P x y)) := by
  unfold fieldHashPair
  rw [toField_fieldHex, toField_fieldHex]
  rfl

theorem emptyRoots_eq (depth : ℕ) :
    emptyRoots P depth =
      some ((List.range (depth + 1)).map fun l => fieldHex (emptyRoot P 0 l)) := by
  induction depth with
  | zero => rfl
  | succ depth ih =>
    have hlast : ((List.range (depth + 1)).map fun l => fieldHex (emptyRoot P 0 l))[depth]? =
        some (fieldHex (emptyRoot P 0 depth)) := by
      rw [List.getElem?_map, List.getElem?_range (Nat.lt_succ_self depth), Option.map_some]
    simp only [emptyRoots, ih, hlast, fieldHashPair_fieldHex, Option.bind_eq_bind,
      Option.bind_some]
    rw [@List.range_succ (depth + 1), List.map_append]
    rfl

/-- The list holds the nodes of level `l` that have a leaf below them. -/
def IsLevel (P : Fr → Fr → Fr) (leaves : List Fr) (l : ℕ) (current : List Text) : Prop :=
  ∃ width, leaves.length ≤ 2 ^ l * width ∧
    current = (List.range width).map fun i => fieldHex (node P (padded 0 leaves) l i)

theorem IsLevel.get {leaves : List Fr} {l : ℕ} {current : List Text} (h : IsLevel P leaves l current)
    (i : ℕ) : current[i]?.getD (fieldHex (emptyRoot P 0 l)) =
      fieldHex (node P (padded 0 leaves) l i) := by
  obtain ⟨width, hwidth, rfl⟩ := h
  rw [List.getElem?_map]
  by_cases hi : i < width
  · rw [List.getElem?_range hi, Option.map_some, Option.getD_some]
  · have hempty : leaves.length ≤ 2 ^ l * i :=
      hwidth.trans (Nat.mul_le_mul_left _ (Nat.not_lt.mp hi))
    rw [List.getElem?_eq_none (by rw [List.length_range]; omega), Option.map_none,
      Option.getD_none, node_padded_eq_empty hempty]

theorem isLevel_zero (leaves : List Fr) : IsLevel P leaves 0 (leaves.map fieldHex) := by
  refine ⟨leaves.length, by rw [pow_zero, one_mul], ?_⟩
  refine List.ext_getElem (by rw [List.length_map, List.length_map, List.length_range]) ?_
  intro i hi _
  rw [List.length_map] at hi
  rw [List.getElem_map, List.getElem_map, List.getElem_range, node_zero, padded,
    List.getD_eq_getElem _ _ hi]

theorem IsLevel.next {leaves : List Fr} {l : ℕ} {current : List Text}
    (h : IsLevel P leaves l current) :
    ∃ next, parentLevel P (fieldHex (emptyRoot P 0 l)) current = some next ∧
      IsLevel P leaves (l + 1) next := by
  refine ⟨(List.range ((current.length + 1) / 2)).map fun i =>
    fieldHex (node P (padded 0 leaves) (l + 1) i), mapM_eq_map fun i _ => ?_, _, ?_, rfl⟩
  · rw [h.get, h.get, fieldHashPair_fieldHex, node_succ, Nat.mul_comm i 2]
  · obtain ⟨width, hwidth, rfl⟩ := h
    rw [List.length_map, List.length_range, pow_succ, mul_assoc]
    exact hwidth.trans (Nat.mul_le_mul_left _ (by omega))

/-- The levels start from the leaves as field elements. -/
theorem incrementalLevels_reads {texts empties : List Text} {depth : ℕ} {levels : List (List Text)}
    (h : incrementalLevels P texts empties depth = some levels) :
    ∃ fields, texts.mapM (fun leaf => (toField (.hex leaf)).map fieldHex) = some fields := by
  induction depth generalizing levels with
  | zero =>
    obtain ⟨fields, hfields, -⟩ := Option.bind_eq_some_iff.mp h
    exact ⟨fields, hfields⟩
  | succ depth ih =>
    obtain ⟨lower, hlower, -⟩ := Option.bind_eq_some_iff.mp h
    exact ih hlower

/-- The tree over the leaves is built level by level. -/
theorem incrementalLevels_eq {texts : List Text} {leaves : List Fr}
    (htexts : texts.mapM (fun text => toField (.hex text)) = some leaves) {depth : ℕ} (level : ℕ)
    (hlevel : level ≤ depth) :
    ∃ levels, incrementalLevels P texts
        ((List.range (depth + 1)).map fun l => fieldHex (emptyRoot P 0 l)) level = some levels ∧
      levels.length = level + 1 ∧
      ∀ l ≤ level, ∃ current, levels[l]? = some current ∧ IsLevel P leaves l current := by
  induction level with
  | zero =>
    refine ⟨[leaves.map fieldHex], ?_, rfl, fun l hl => ?_⟩
    · rw [incrementalLevels, mapM_option_map, htexts]
      rfl
    · obtain rfl := Nat.le_zero.mp hl
      exact ⟨_, rfl, isLevel_zero leaves⟩
  | succ level ih =>
    obtain ⟨levels, hlevels, hlength, hnodes⟩ := ih (by omega)
    obtain ⟨top, htop, hisLevel⟩ := hnodes level le_rfl
    obtain ⟨next, hnext, hisNext⟩ := hisLevel.next
    have hempty : ((List.range (depth + 1)).map fun l => fieldHex (emptyRoot P 0 l))[level]? =
        some (fieldHex (emptyRoot P 0 level)) := by
      rw [List.getElem?_map, List.getElem?_range (by omega), Option.map_some]
    refine ⟨levels ++ [next], ?_, ?_, fun l hl => ?_⟩
    · simp only [incrementalLevels, hlevels, htop, hempty, hnext, Option.bind_eq_bind,
        Option.bind_some]
    · rw [List.length_append, hlength]
      rfl
    · rcases Nat.lt_or_ge l (level + 1) with hlt | hge
      · rw [List.getElem?_append_left (by omega)]
        exact hnodes l (by omega)
      · obtain rfl : l = level + 1 := by omega
        exact ⟨next, by rw [← hlength, List.getElem?_concat_length], hisNext⟩

/-- What the builder of the tree of positions returns, if the leaves fit. -/
theorem buildIncrementalFieldMerkleLevels_eq {texts : List Text} {leaves : List Fr}
    (htexts : texts.mapM (fun text => toField (.hex text)) = some leaves) {depth : ℕ}
    (hfits : leaves.length ≤ 2 ^ depth) :
    ∃ levels, buildIncrementalFieldMerkleLevels P texts depth =
        some ((List.range (depth + 1)).map fun l => fieldHex (emptyRoot P 0 l), levels) ∧
      ∀ l ≤ depth, ∃ current, levels[l]? = some current ∧
        ∀ i, (current[i]?).or
            (((List.range (depth + 1)).map fun l => fieldHex (emptyRoot P 0 l))[l]?) =
          some (fieldHex (node P (padded 0 leaves) l i)) := by
  obtain ⟨levels, hlevels, -, hnodes⟩ := incrementalLevels_eq (P := P) htexts depth le_rfl
  have hlength : texts.length ≤ 2 ^ depth := by
    rw [← length_of_mapM htexts]
    exact hfits
  refine ⟨levels, ?_, fun l hl => ?_⟩
  · unfold buildIncrementalFieldMerkleLevels
    simp only [emptyRoots_eq, hlength, hlevels, guard_true, Option.pure_def, Option.bind_eq_bind,
      Option.bind_some]
  · obtain ⟨current, hcurrent, hisLevel⟩ := hnodes l hl
    refine ⟨current, hcurrent, fun i => ?_⟩
    rw [List.getElem?_map, List.getElem?_range (by omega), Option.map_some, Option.or_some,
      hisLevel.get]

/-- The server computes the root of the tree over the leaves, if they fit. -/
theorem positionMerkleRoot_eq {texts : List Text} {leaves : List Fr}
    (htexts : texts.mapM (fun text => toField (.hex text)) = some leaves) {depth : ℕ}
    (hfits : leaves.length ≤ 2 ^ depth) :
    positionMerkleRoot P texts depth = some (fieldHex (root P depth (padded 0 leaves))) := by
  obtain ⟨levels, hbuild, hnodes⟩ := buildIncrementalFieldMerkleLevels_eq (P := P) htexts hfits
  obtain ⟨top, htop, hget⟩ := hnodes depth le_rfl
  unfold positionMerkleRoot
  simp only [hbuild, htop, emptyRoots_eq, hget, node_top, Option.bind_eq_bind, Option.bind_some]

/-! ## The levels of the sorted tree -/

/-- The leaves in the order of their texts. -/
def sortFields (leaves : List Fr) : List Fr :=
  leaves.insertionSort fun a b => ¬ List.Lex (· < ·) (fieldHex b) (fieldHex a)

theorem sort_map_fieldHex (leaves : List Fr) :
    sort (leaves.map fieldHex) = (sortFields leaves).map fieldHex :=
  (List.map_insertionSort _ _ fieldHex leaves fun _ _ _ _ => Iff.rfl).symm

theorem perm_sortFields (leaves : List Fr) : (sortFields leaves).Perm leaves :=
  List.perm_insertionSort _ leaves

/-- All nodes of level `l` of a tree of depth `depth`. -/
def fullLevel (P : Fr → Fr → Fr) (leaves : List Fr) (depth l : ℕ) : List Text :=
  (List.range (2 ^ (depth - l))).map fun i => fieldHex (node P (padded 0 leaves) l i)

theorem getElem?_fullLevel {leaves : List Fr} {depth l i : ℕ} (hi : i < 2 ^ (depth - l)) :
    (fullLevel P leaves depth l)[i]? = some (fieldHex (node P (padded 0 leaves) l i)) := by
  rw [fullLevel, List.getElem?_map, List.getElem?_range hi, Option.map_some]

/-- The padded texts are the lowest level. -/
theorem fullLevel_zero {leaves : List Fr} {depth : ℕ} (hfits : leaves.length ≤ 2 ^ depth) :
    leaves.map fieldHex ++ List.replicate (2 ^ depth - (leaves.map fieldHex).length) emptyLeaf =
      fullLevel P leaves depth 0 := by
  have hlength : (leaves.map fieldHex).length = leaves.length := List.length_map _
  refine List.ext_getElem? fun i => ?_
  by_cases hi : i < 2 ^ depth
  · rw [getElem?_fullLevel hi, node_zero, padded]
    by_cases hleaf : i < leaves.length
    · rw [List.getElem?_append_left (hlength ▸ hleaf), List.getElem?_map,
        List.getElem?_eq_getElem hleaf, Option.map_some, List.getD_eq_getElem _ _ hleaf]
    · rw [List.getElem?_append_right (by omega), List.getElem?_replicate, if_pos (by omega),
        List.getD_eq_default _ _ (by omega)]
      rfl
  · rw [List.getElem?_eq_none, List.getElem?_eq_none]
    · rw [fullLevel, List.length_map, List.length_range, Nat.sub_zero]
      omega
    · rw [List.length_append, List.length_replicate]
      omega

theorem fullParentLevel_eq {leaves : List Fr} {depth l : ℕ} (hl : l < depth) :
    fullParentLevel P (fullLevel P leaves depth l) = some (fullLevel P leaves depth (l + 1)) := by
  obtain ⟨k, rfl⟩ : ∃ k, depth = l + 1 + k := ⟨depth - (l + 1), by omega⟩
  have hwidth : (fullLevel P leaves (l + 1 + k) l).length = 2 * 2 ^ k := by
    rw [fullLevel, List.length_map, List.length_range, show l + 1 + k - l = k + 1 by omega,
      pow_succ, Nat.mul_comm]
  have hhalf : (2 * 2 ^ k + 1) / 2 = 2 ^ (l + 1 + k - (l + 1)) := by
    rw [show l + 1 + k - (l + 1) = k by omega]
    omega
  have hbound : 2 ^ (l + 1 + k - l) = 2 * 2 ^ (l + 1 + k - (l + 1)) := by
    rw [show l + 1 + k - l = k + 1 by omega, show l + 1 + k - (l + 1) = k by omega, pow_succ,
      Nat.mul_comm]
  unfold fullParentLevel
  rw [hwidth, hhalf]
  refine mapM_eq_map fun i hi => ?_
  have hi := List.mem_range.mp hi
  rw [getElem?_fullLevel (by omega), getElem?_fullLevel (by omega)]
  simp only [Option.bind_eq_bind, Option.bind_some]
  rw [fieldHashPair_fieldHex, node_succ, Nat.mul_comm i 2]

theorem fullLevels_eq {leaves : List Fr} {depth : ℕ} (level : ℕ) (hlevel : level ≤ depth) :
    fullLevels P (fullLevel P leaves depth 0) level =
      some ((List.range (level + 1)).map (fullLevel P leaves depth)) := by
  induction level with
  | zero => rfl
  | succ level ih =>
    have htop : ((List.range (level + 1)).map (fullLevel P leaves depth))[level]? =
        some (fullLevel P leaves depth level) := by
      rw [List.getElem?_map, List.getElem?_range (Nat.lt_succ_self level), Option.map_some]
    have hparent : fullParentLevel P (fullLevel P leaves depth level) =
        some (fullLevel P leaves depth (level + 1)) := fullParentLevel_eq hlevel
    simp only [fullLevels, ih (by omega), htop, hparent, Option.bind_eq_bind, Option.bind_some]
    rw [@List.range_succ (level + 1), List.map_append]
    rfl

/-- What the builder of the tree of margin notes returns, if the leaves fit. -/
theorem buildFieldMerkleLevels_eq {texts : List Text} {leaves : List Fr}
    (htexts : texts.mapM (fun text => toField (.hex text)) = some leaves) {depth : ℕ}
    (hfits : leaves.length ≤ 2 ^ depth) :
    buildFieldMerkleLevels P texts depth =
      some ((List.range (depth + 1)).map (fullLevel P (sortFields leaves) depth)) := by
  have hsorted : (sortFields leaves).length ≤ 2 ^ depth := by
    rw [(perm_sortFields leaves).length_eq]
    exact hfits
  have hmap : ((sortFields leaves).map fieldHex).length ≤ 2 ^ depth := by
    rw [List.length_map]
    exact hsorted
  unfold buildFieldMerkleLevels
  rw [mapM_option_map, htexts]
  simp only [Option.map_some, Option.bind_eq_bind, Option.bind_some, sort_map_fieldHex, hmap,
    guard_true, Option.pure_def]
  rw [fullLevel_zero (P := P) hsorted, fullLevels_eq depth le_rfl]

/-- The server computes the root of the tree over the sorted leaves, if they fit. -/
theorem fieldMerkleRoot_eq {texts : List Text} {leaves : List Fr}
    (htexts : texts.mapM (fun text => toField (.hex text)) = some leaves) {depth : ℕ}
    (hfits : leaves.length ≤ 2 ^ depth) :
    fieldMerkleRoot P texts depth =
      some (fieldHex (root P depth (padded 0 (sortFields leaves)))) := by
  have htop : (fullLevel P (sortFields leaves) depth depth)[0]? =
      some (fieldHex (root P depth (padded 0 (sortFields leaves)))) := by
    rw [getElem?_fullLevel (Nat.two_pow_pos _), node_top]
  unfold fieldMerkleRoot
  rw [buildFieldMerkleLevels_eq htexts hfits, List.range_succ, List.map_append, List.map_singleton]
  simp only [Option.bind_eq_bind, Option.bind_some, List.getLast?_concat, htop]

/-! ## When a root is defined -/

/-- The text is read as a field element. -/
def Reads (text : Text) : Prop := (toField (.hex text)).isSome

instance : DecidablePred Reads := fun text => by unfold Reads; infer_instance

theorem exists_reads {texts : List Text} (h : ∀ text ∈ texts, Reads text) :
    ∃ leaves, texts.mapM (fun text => toField (.hex text)) = some leaves ∧
      leaves.length = texts.length := by
  obtain ⟨leaves, hleaves⟩ := Option.isSome_iff_exists.mp (mapM_isSome.mpr h)
  exact ⟨leaves, hleaves, length_of_mapM hleaves⟩

theorem reads_of_mapM {texts fields : List Text}
    (h : texts.mapM (fun text => (toField (.hex text)).map fieldHex) = some fields) :
    ∀ text ∈ texts, Reads text := by
  intro text htext
  have hsome := mapM_isSome.mp (Option.isSome_iff_exists.mpr ⟨fields, h⟩) text htext
  rwa [Option.isSome_map] at hsome

/-- **The root of the sorted tree is defined exactly when the texts are read and fit.** -/
theorem fieldMerkleRoot_isSome_iff {texts : List Text} {depth : ℕ} :
    (fieldMerkleRoot P texts depth).isSome ↔
      (∀ text ∈ texts, Reads text) ∧ texts.length ≤ 2 ^ depth := by
  constructor
  · intro h
    obtain ⟨root, hroot⟩ := Option.isSome_iff_exists.mp h
    unfold fieldMerkleRoot buildFieldMerkleLevels at hroot
    simp only [Option.bind_eq_bind, Option.bind_eq_some_iff, Option.guard_eq_some'] at hroot
    obtain ⟨levels, ⟨fields, hfields, -, hfits, -⟩, -⟩ := hroot
    have hlength : (sort fields).length = texts.length := by
      rw [sort, List.length_insertionSort, length_of_mapM hfields]
    exact ⟨reads_of_mapM hfields, hlength ▸ hfits⟩
  · rintro ⟨hreads, hfits⟩
    obtain ⟨leaves, hleaves, hlength⟩ := exists_reads hreads
    rw [fieldMerkleRoot_eq hleaves (hlength ▸ hfits)]
    rfl

/-- **The root of the tree of positions is defined exactly when the texts are read and fit.** -/
theorem positionMerkleRoot_isSome_iff {texts : List Text} {depth : ℕ} :
    (positionMerkleRoot P texts depth).isSome ↔
      (∀ text ∈ texts, Reads text) ∧ texts.length ≤ 2 ^ depth := by
  constructor
  · intro h
    obtain ⟨root, hroot⟩ := Option.isSome_iff_exists.mp h
    unfold positionMerkleRoot buildIncrementalFieldMerkleLevels at hroot
    simp only [Option.bind_eq_bind, Option.bind_eq_some_iff, Option.guard_eq_some'] at hroot
    obtain ⟨built, ⟨-, hfits, empties, -, levels, hlevels, -⟩, -⟩ := hroot
    obtain ⟨fields, hfields⟩ := incrementalLevels_reads hlevels
    exact ⟨reads_of_mapM hfields, hfits⟩
  · rintro ⟨hreads, hfits⟩
    obtain ⟨leaves, hleaves, hlength⟩ := exists_reads hreads
    rw [positionMerkleRoot_eq hleaves (hlength ▸ hfits)]
    rfl

/-! ## The proofs are the paths of the tree -/

/-- The proof of leaf `i` of a tree. -/
def merkleProof (P : Fr → Fr → Fr) (depth : ℕ) (leaves : List Fr) (i : ℕ) : FieldMerkleProof where
  index := i
  leaf := fieldHex (padded 0 leaves i)
  root := fieldHex (root P depth (padded 0 leaves))
  siblings := (path P (padded 0 leaves) i depth).map fun sib => fieldHex sib.1
  indices := (path P (padded 0 leaves) i depth).map Prod.snd

/-- The levels from `level` on give the rest of the path. -/
theorem proofLevels_eq {levels : List (List Text)} {empty : ℕ → Option Text} {leaves : List Fr}
    {depth : ℕ} (hget : ∀ l < depth, ∃ current, levels[l]? = some current ∧
      ∀ i < 2 ^ (depth - l), (current[i]?).or (empty l) =
        some (fieldHex (node P (padded 0 leaves) l i)))
    {i remaining level : ℕ} (hlevel : level + remaining = depth) (hi : i < 2 ^ depth) :
    proofLevels levels empty remaining level (i / 2 ^ level) =
      some ((List.range' level remaining).map fun l =>
          fieldHex (node P (padded 0 leaves) l (i / 2 ^ l ^^^ 1)),
        (List.range' level remaining).map fun l => decide (i / 2 ^ l % 2 = 1)) := by
  induction remaining generalizing level with
  | zero => rfl
  | succ remaining ih =>
    obtain ⟨current, hcurrent, hnodes⟩ := hget level (by omega)
    have hlt : i / 2 ^ level < 2 ^ (depth - level) := by
      rw [Nat.div_lt_iff_lt_mul (Nat.two_pow_pos _), ← pow_add]
      rwa [Nat.sub_add_cancel (by omega)]
    have hone : 1 < 2 ^ (depth - level) := Nat.one_lt_two_pow (by omega)
    have hsibling := hnodes _ (Nat.xor_lt_two_pow hlt hone)
    have hrest := @ih (level + 1) (by omega)
    rw [div_pow_succ] at hrest
    simp only [proofLevels, hcurrent, hsibling, hrest, Option.bind_eq_bind, Option.bind_some,
      List.range'_succ, List.map_cons]

theorem proofLevels_eq_path {levels : List (List Text)} {empty : ℕ → Option Text}
    {leaves : List Fr} {depth : ℕ} (hget : ∀ l < depth, ∃ current, levels[l]? = some current ∧
      ∀ i < 2 ^ (depth - l), (current[i]?).or (empty l) =
        some (fieldHex (node P (padded 0 leaves) l i))) {i : ℕ} (hi : i < 2 ^ depth) :
    proofLevels levels empty depth 0 i =
      some ((merkleProof P depth leaves i).siblings, (merkleProof P depth leaves i).indices) := by
  have h := proofLevels_eq hget (Nat.zero_add depth) hi
  rw [pow_zero, Nat.div_one, ← List.range_eq_range'] at h
  rw [h, merkleProof, path, List.map_map, List.map_map]
  rfl

theorem fieldHex_injective : Function.Injective fieldHex := by
  intro x y h
  have hread := congrArg (fun text => toField (.hex text)) h
  exact Option.some.inj (by rwa [toField_fieldHex, toField_fieldHex] at hread)

/-- The search for a member of the leaves finds it. -/
theorem exists_idxOf? {leaves : List Fr} {leaf : Fr} (hmem : leaf ∈ leaves) :
    ∃ i < leaves.length, (leaves.map fieldHex).idxOf? (fieldHex leaf) = some i ∧
      padded 0 leaves i = leaf := by
  obtain ⟨i, hi⟩ := Option.isSome_iff_exists.mp
    (List.isSome_idxOf?.mpr (List.mem_map_of_mem (f := fieldHex) hmem))
  obtain ⟨hlt, hget, -⟩ := List.idxOf?_eq_some_iff.mp hi
  rw [List.length_map] at hlt
  rw [List.getElem_map] at hget
  refine ⟨i, hlt, hi, ?_⟩
  rw [padded, List.getD_eq_getElem _ _ hlt]
  exact fieldHex_injective hget

/-- **The proof of a position is its path.** -/
theorem positionMerkleProof_eq {texts : List Text} {leaves : List Fr}
    (htexts : texts.mapM (fun text => toField (.hex text)) = some leaves) {depth : ℕ}
    (hfits : leaves.length ≤ 2 ^ depth) {text : Text} {leaf : Fr}
    (hleaf : toField (.hex text) = some leaf) (hmem : leaf ∈ leaves) :
    ∃ i < 2 ^ depth, padded 0 leaves i = leaf ∧
      positionMerkleProof P texts text depth = some (merkleProof P depth leaves i) := by
  obtain ⟨i, hi, hidx, hget⟩ := exists_idxOf? hmem
  obtain ⟨levels, hbuild, hnodes⟩ := buildIncrementalFieldMerkleLevels_eq (P := P) htexts hfits
  obtain ⟨top, htop, hroot⟩ := hnodes depth le_rfl
  have hpath : proofLevels levels
      (fun l => ((List.range (depth + 1)).map fun l => fieldHex (emptyRoot P 0 l))[l]?) depth 0 i =
        some ((merkleProof P depth leaves i).siblings, (merkleProof P depth leaves i).indices) :=
    proofLevels_eq_path
      (fun l hl => (hnodes l hl.le).imp fun current h => ⟨h.1, fun i _ => h.2 i⟩)
      (hi.trans_le hfits)
  refine ⟨i, hi.trans_le hfits, hget, ?_⟩
  unfold positionMerkleProof
  rw [mapM_option_map, htexts, hleaf]
  simp only [Option.map_some, Option.bind_eq_bind, Option.bind_some, hidx, hbuild, hpath, htop,
    hroot, node_top]
  rw [merkleProof, hget]

/-- **The proof of a margin note is its path** in the tree over the sorted leaves. -/
theorem fieldMerkleProof_eq {texts : List Text} {leaves : List Fr}
    (htexts : texts.mapM (fun text => toField (.hex text)) = some leaves) {depth : ℕ}
    (hfits : leaves.length ≤ 2 ^ depth) {text : Text} {leaf : Fr}
    (hleaf : toField (.hex text) = some leaf) (hmem : leaf ∈ leaves) :
    ∃ i < 2 ^ depth, padded 0 (sortFields leaves) i = leaf ∧
      fieldMerkleProof P texts text depth = some (merkleProof P depth (sortFields leaves) i) := by
  have hbase : fieldHex leaf ∈ fullLevel P (sortFields leaves) depth 0 := by
    rw [← fullLevel_zero (by rwa [(perm_sortFields leaves).length_eq])]
    exact List.mem_append_left _
      (List.mem_map_of_mem ((perm_sortFields leaves).mem_iff.mpr hmem))
  obtain ⟨i, hidx⟩ := Option.isSome_iff_exists.mp (List.isSome_idxOf?.mpr hbase)
  obtain ⟨hlt, hget, -⟩ := List.idxOf?_eq_some_iff.mp hidx
  have hi : i < 2 ^ depth := by
    rwa [fullLevel, List.length_map, List.length_range] at hlt
  have hvalue : padded 0 (sortFields leaves) i = leaf := by
    refine fieldHex_injective (Option.some.inj ?_)
    rw [← hget, ← List.getElem?_eq_getElem hlt, getElem?_fullLevel hi, node_zero]
  have hlevel (l : ℕ) (hl : l ≤ depth) :
      ((List.range (depth + 1)).map (fullLevel P (sortFields leaves) depth))[l]? =
        some (fullLevel P (sortFields leaves) depth l) := by
    rw [List.getElem?_map, List.getElem?_range (by omega), Option.map_some]
  have hpath : proofLevels ((List.range (depth + 1)).map (fullLevel P (sortFields leaves) depth))
      (fun _ => some emptyLeaf) depth 0 i =
        some ((merkleProof P depth (sortFields leaves) i).siblings,
          (merkleProof P depth (sortFields leaves) i).indices) :=
    proofLevels_eq_path
      (fun l hl => ⟨_, hlevel l hl.le, fun i hi => by rw [getElem?_fullLevel hi]; rfl⟩) hi
  have htop : (fullLevel P (sortFields leaves) depth depth)[0]? =
      some (fieldHex (root P depth (padded 0 (sortFields leaves)))) := by
    rw [getElem?_fullLevel (Nat.two_pow_pos _), node_top]
  refine ⟨i, hi, hvalue, ?_⟩
  unfold fieldMerkleProof
  rw [hleaf, buildFieldMerkleLevels_eq htexts hfits]
  simp only [Option.map_some, Option.bind_eq_bind, Option.bind_some, hlevel 0 (Nat.zero_le _),
    hidx, hpath, hlevel depth le_rfl, htop]
  rw [merkleProof, hvalue]

end Pnlx.Server
