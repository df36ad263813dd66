import Mathlib.Data.List.GetD
import Mathlib.Data.Nat.Bitwise
import Pnlx.Lib.HashTree

/-!
# Append-only Merkle trees

The perfect tree over a list of leaves that is padded with an empty leaf, and the nodes from which
its root is computed while leaves are appended.

1. `node h leaves l i`: node `i` of level `l`, and its two children (`node_succ`).
2. `node_padded_eq_empty`: a node to the right of the last leaf is the root of an empty tree.
3. `Frontier h leaves d n held`: of the levels below `d`, those whose bit is set in `n` hold the
   last full node to the left of leaf `n`. `Frontier.push` is what an append does to it.
4. `path h leaves i d`: the siblings of the nodes above leaf `i`, which lead to the root
   (`climb_path_eq_root`).
-/

namespace MerkleTree

variable {α : Type*} {h : α → α → α}

/-! ## Nodes -/

/-- The node `i` of level `l`: the root over the leaves `2 ^ l * i, …, 2 ^ l * (i + 1) - 1`. -/
def node (h : α → α → α) (leaves : ℕ → α) (l i : ℕ) : α := root h l fun j => leaves (2 ^ l * i + j)

theorem root_congr {d : ℕ} {leaves leaves' : ℕ → α} (he : ∀ j < 2 ^ d, leaves j = leaves' j) :
    root h d leaves = root h d leaves' := by
  induction d generalizing leaves leaves' with
  | zero => exact he 0 (by decide)
  | succ d ih =>
    have hpow : 2 ^ (d + 1) = 2 ^ d + 2 ^ d := by ring
    unfold root
    rw [ih fun j hj => he j (by omega), ih fun j hj => he (2 ^ d + j) (by omega)]

theorem node_zero (leaves : ℕ → α) (i : ℕ) : node h leaves 0 i = leaves i := by
  show leaves (2 ^ 0 * i + 0) = leaves i
  rw [pow_zero, one_mul, add_zero]

theorem node_succ (leaves : ℕ → α) (l i : ℕ) :
    node h leaves (l + 1) i = h (node h leaves l (2 * i)) (node h leaves l (2 * i + 1)) := by
  have hleft : (fun j => leaves (2 ^ (l + 1) * i + j)) = fun j => leaves (2 ^ l * (2 * i) + j) := by
    funext j
    rw [pow_succ, mul_assoc]
  have hright : (fun j => leaves (2 ^ (l + 1) * i + (2 ^ l + j))) =
      fun j => leaves (2 ^ l * (2 * i + 1) + j) := by
    funext j
    rw [show 2 ^ (l + 1) * i + (2 ^ l + j) = 2 ^ l * (2 * i + 1) + j by ring]
  unfold node
  rw [root, hleft, hright]

/-- The root is the only node of the top level. -/
theorem node_top (leaves : ℕ → α) (d : ℕ) : node h leaves d 0 = root h d leaves := by
  unfold node
  congr 1
  funext j
  rw [Nat.mul_zero, Nat.zero_add]

/-- A node depends on the leaves below it. -/
theorem node_congr {leaves leaves' : ℕ → α} {l i : ℕ}
    (he : ∀ j, 2 ^ l * i ≤ j → j < 2 ^ l * (i + 1) → leaves j = leaves' j) :
    node h leaves l i = node h leaves' l i := by
  refine root_congr fun j hj => he _ (Nat.le_add_right _ _) ?_
  rw [Nat.mul_succ]
  exact Nat.add_lt_add_left hj _

/-! ## Padding -/

/-- The leaves of a tree: those of the list in order, then empty ones. -/
def padded (empty : α) (leaves : List α) (i : ℕ) : α := leaves.getD i empty

/-- The root of the tree of depth `l` without leaves. -/
def emptyRoot (h : α → α → α) (empty : α) : ℕ → α
  | 0 => empty
  | l + 1 => h (emptyRoot h empty l) (emptyRoot h empty l)

theorem node_padded_eq_empty {empty : α} {leaves : List α} {l i : ℕ}
    (hi : leaves.length ≤ 2 ^ l * i) : node h (padded empty leaves) l i = emptyRoot h empty l := by
  induction l generalizing i with
  | zero =>
    rw [pow_zero, one_mul] at hi
    rw [node_zero]
    exact List.getD_eq_default _ _ hi
  | succ l ih =>
    have hleft : leaves.length ≤ 2 ^ l * (2 * i) := by rwa [← mul_assoc, ← pow_succ]
    have hright : leaves.length ≤ 2 ^ l * (2 * i + 1) :=
      hleft.trans (Nat.mul_le_mul_left _ (Nat.le_succ _))
    rw [node_succ, ih hleft, ih hright]
    rfl

theorem root_padded_nil (empty : α) (d : ℕ) : root h d (padded empty []) = emptyRoot h empty d := by
  rw [← node_top]
  exact node_padded_eq_empty (Nat.zero_le _)

/-- An append changes no node that ends before the new leaf. -/
theorem node_padded_append {empty : α} {leaves : List α} (new : α) {l i : ℕ}
    (hi : 2 ^ l * (i + 1) ≤ leaves.length) :
    node h (padded empty (leaves ++ [new])) l i = node h (padded empty leaves) l i := by
  refine node_congr fun j _ hj => ?_
  exact List.getD_append _ _ _ _ (hj.trans_le hi)

theorem padded_append_length (empty : α) (leaves : List α) (new : α) :
    padded empty (leaves ++ [new]) leaves.length = new := by
  unfold padded
  rw [List.getD_append_right _ _ _ _ le_rfl, Nat.sub_self]
  rfl

/-! ## The frontier -/

/-- Each level below `d` whose bit is set in `n` holds the full node before leaf `n`. -/
def Frontier (h : α → α → α) (leaves : ℕ → α) (d n : ℕ) (held : ℕ → α → Prop) : Prop :=
  ∀ l < d, n / 2 ^ l % 2 = 1 → held l (node h leaves l (n / 2 ^ l - 1))

theorem Frontier.zero (leaves : ℕ → α) (d : ℕ) (held : ℕ → α → Prop) :
    Frontier h leaves d 0 held := by
  intro l _ hbit
  rw [Nat.zero_div] at hbit
  exact absurd hbit (by decide)

theorem div_pow_succ (n l : ℕ) : n / 2 ^ (l + 1) = n / 2 ^ l / 2 := by
  rw [pow_succ, Nat.div_div_eq_div_mul]

/-- The levels below a full node have no bit in the number of the leaf after it. -/
theorem even_div_of_lt {n l k c : ℕ} (hn : n = 2 ^ l * c) (hk : k < l) : n / 2 ^ k % 2 = 0 := by
  obtain ⟨m, rfl⟩ : ∃ m, l = k + 1 + m := ⟨l - (k + 1), by omega⟩
  have hsplit : n = 2 ^ k * (2 * (2 ^ m * c)) := by
    rw [hn]
    ring
  rw [hsplit, Nat.mul_div_cancel_left _ (Nat.two_pow_pos k), Nat.mul_mod_right]

/-- The levels above an even position keep their bits when a leaf is appended. -/
theorem div_succ_of_even {n l k c : ℕ} (hn : n + 1 = 2 ^ l * (c + 1)) (hc : c % 2 = 0)
    (hk : l < k) : (n + 1) / 2 ^ k = n / 2 ^ k := by
  obtain ⟨m, rfl⟩ : ∃ m, k = l + 1 + m := ⟨k - (l + 1), by omega⟩
  have hpos := Nat.two_pow_pos l
  have hlast : n / 2 ^ l = c := by
    refine Nat.div_eq_of_lt_le ?_ ?_
    · rw [Nat.mul_comm]
      rw [Nat.mul_succ] at hn
      omega
    · rw [Nat.mul_comm]
      omega
  have hnext : (n + 1) / 2 ^ l = c + 1 := by
    rw [hn, Nat.mul_div_cancel_left _ hpos]
  have hhalf : (c + 1) / 2 = c / 2 := by omega
  rw [pow_add, pow_succ, ← Nat.div_div_eq_div_mul, ← Nat.div_div_eq_div_mul, hnext, hhalf,
    ← Nat.div_div_eq_div_mul, ← Nat.div_div_eq_div_mul, hlast]

/-- **An append keeps the frontier.** When the new leaf completes the left node `c` of level `l`
and no node of a higher level, the level holds that node and the levels above keep theirs. -/
theorem Frontier.push {empty new : α} {leaves : List α} {d l c : ℕ} {held held' : ℕ → α → Prop}
    (hf : Frontier h (padded empty leaves) d leaves.length held)
    (hn : leaves.length + 1 = 2 ^ l * (c + 1)) (hc : c % 2 = 0)
    (hnew : held' l (node h (padded empty (leaves ++ [new])) l c))
    (hkeep : ∀ k x, l < k → held k x → held' k x) :
    Frontier h (padded empty (leaves ++ [new])) d (leaves.length + 1) held' := by
  intro k hk hbit
  rcases Nat.lt_trichotomy k l with hlt | rfl | hgt
  · rw [even_div_of_lt hn hlt] at hbit
    exact absurd hbit (by decide)
  · rwa [hn, Nat.mul_div_cancel_left _ (Nat.two_pow_pos k), Nat.add_sub_cancel]
  · rw [div_succ_of_even hn hc hgt] at hbit ⊢
    have hpos : 0 < leaves.length / 2 ^ k := by
      rcases Nat.eq_zero_or_pos (leaves.length / 2 ^ k) with hzero | hpos
      · rw [hzero] at hbit
        exact absurd hbit (by decide)
      · exact hpos
    rw [node_padded_append]
    · exact hkeep k _ hgt (hf k hk hbit)
    · rw [Nat.sub_add_cancel hpos]
      exact Nat.mul_div_le _ _

/-- What a level with its bit set holds, as a node of the tree with the new leaf. -/
theorem Frontier.left {empty x : α} {leaves : List α} {d l c : ℕ} {held : ℕ → α → Prop}
    (hf : Frontier h (padded empty leaves) d leaves.length held) (hl : l < d)
    (hcursor : leaves.length / 2 ^ l = c) (hc : c % 2 = 1) :
    held l (node h (padded empty (leaves ++ [x])) l (c - 1)) := by
  have hpos : 1 ≤ c := by omega
  subst hcursor
  rw [node_padded_append]
  · exact hf l hl hc
  · rw [Nat.sub_add_cancel hpos]
    exact Nat.mul_div_le _ _

/-! ## Paths -/

/-- The path from leaf `i` to level `d`: on each level the other child of the parent, and whether
it is the left child. -/
def path (h : α → α → α) (leaves : ℕ → α) (i d : ℕ) : List (α × Bool) :=
  (List.range d).map fun l => (node h leaves l (i / 2 ^ l ^^^ 1), decide (i / 2 ^ l % 2 = 1))

theorem length_path (leaves : ℕ → α) (i d : ℕ) : (path h leaves i d).length = d := by
  rw [path, List.length_map, List.length_range]

/-- One level of a path leads from a node to its parent. -/
theorem climbStep_node (leaves : ℕ → α) (l i : ℕ) :
    climbStep h (node h leaves l i) (node h leaves l (i ^^^ 1), decide (i % 2 = 1)) =
      node h leaves (l + 1) (i / 2) := by
  unfold climbStep
  rw [node_succ]
  rcases Nat.even_or_odd i with heven | hodd
  · have hi : 2 * (i / 2) = i := Nat.two_mul_div_two_of_even heven
    rw [if_neg (by simp [Nat.even_iff.mp heven]), Nat.xor_one_of_even heven, hi]
  · have hi : 2 * (i / 2) + 1 = i := Nat.two_mul_div_two_add_one_of_odd hodd
    have hleft : 2 * (i / 2) = i - 1 := by omega
    rw [if_pos (by simp [Nat.odd_iff.mp hodd]), Nat.xor_one_of_odd hodd, hi, hleft]

theorem climb_path (leaves : ℕ → α) (i d : ℕ) :
    climb h (leaves i) (path h leaves i d) = node h leaves d (i / 2 ^ d) := by
  induction d with
  | zero => rw [pow_zero, Nat.div_one, node_zero]; rfl
  | succ d ih =>
    rw [path, List.range_succ, List.map_append, List.map_singleton, climb_append, div_pow_succ]
    rw [path] at ih
    rw [ih, climbStep_node]

/-- **Paths are complete.** The path of a leaf leads to the root. -/
theorem climb_path_eq_root (leaves : ℕ → α) {i d : ℕ} (hi : i < 2 ^ d) :
    climb h (leaves i) (path h leaves i d) = root h d leaves := by
  rw [climb_path, Nat.div_eq_of_lt hi, node_top]

/-- A leaf that is not the empty one is in the list. -/
theorem mem_of_padded {empty : α} {leaves : List α} {i : ℕ} (hne : padded empty leaves i ≠ empty) :
    padded empty leaves i ∈ leaves := by
  by_cases hi : i < leaves.length
  · rw [padded, List.getD_eq_getElem _ _ hi]
    exact List.getElem_mem hi
  · exact absurd (List.getD_eq_default _ _ (Nat.not_lt.mp hi)) hne

end MerkleTree
