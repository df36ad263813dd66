import Mathlib.Data.Set.Function
import Mathlib.Data.List.Induction
import Mathlib.Tactic.Ring

/-!
# Trees of a pair hash

A pair hash `h : α → α → α` on a finite type has collisions, so nothing is assumed of `h` on
all of `α`. `CollisionFree h Q` says that `h` has no collision among the pairs of `Q`, the pairs
that somebody has hashed. Commitments and Merkle trees hash the pairs of their `queries`.

1. `HashTree.eval_inj`: two trees of one shape with the same value are equal.
2. `climb_eq_root`: an authentication path to the root of a perfect binary tree starts at one of
   the leaves of that tree, whatever siblings it uses.
-/

variable {α β : Type*}

/-- The hash `h` has no collision among the pairs of `Q`. -/
def CollisionFree (h : α → α → α) (Q : Set (α × α)) : Prop :=
  Set.InjOn (fun q : α × α => h q.1 q.2) Q

theorem CollisionFree.pair_inj {h : α → α → α} {Q : Set (α × α)} (hQ : CollisionFree h Q)
    {a b c d : α} (hab : (a, b) ∈ Q) (hcd : (c, d) ∈ Q) (he : h a b = h c d) :
    a = c ∧ b = d :=
  Prod.mk.injEq a b c d ▸ hQ hab hcd he

/-! ## Trees -/

/-- A tree of nested pair hashes. -/
inductive HashTree (α : Type*) where
  | leaf (x : α)
  | node (l r : HashTree α)

namespace HashTree

/-- The value of a tree. -/
def eval (h : α → α → α) : HashTree α → α
  | leaf x => x
  | node l r => h (l.eval h) (r.eval h)

/-- The pairs that are hashed to evaluate a tree. -/
def queries (h : α → α → α) : HashTree α → List (α × α)
  | leaf _ => []
  | node l r => (l.eval h, r.eval h) :: (l.queries h ++ r.queries h)

/-- Two trees differ only in the values of their leaves. -/
def SameShape : HashTree α → HashTree β → Prop
  | leaf _, leaf _ => True
  | node a b, node c d => SameShape a c ∧ SameShape b d
  | _, _ => False

/-- All pairs of a tree lie in `Q`. -/
def Within (h : α → α → α) (Q : Set (α × α)) (t : HashTree α) : Prop :=
  ∀ q ∈ t.queries h, q ∈ Q

variable {h : α → α → α} {Q : Set (α × α)}

theorem within_node {l r : HashTree α} :
    (node l r).Within h Q ↔ (l.eval h, r.eval h) ∈ Q ∧ l.Within h Q ∧ r.Within h Q := by
  unfold Within
  simp only [queries, List.mem_cons, List.mem_append, or_imp, forall_and, forall_eq]

/-- **Trees are binding.** Trees of one shape with the same value have the same leaves. -/
theorem eval_inj (hQ : CollisionFree h Q) {s t : HashTree α} (hshape : SameShape s t)
    (hs : s.Within h Q) (ht : t.Within h Q) (he : s.eval h = t.eval h) : s = t := by
  induction s generalizing t with
  | leaf x =>
    cases t with
    | leaf y => rw [show x = y from he]
    | node c d => exact hshape.elim
  | node a b iha ihb =>
    cases t with
    | leaf y => exact hshape.elim
    | node c d =>
      obtain ⟨hab, ha, hb⟩ := within_node.mp hs
      obtain ⟨hcd, hc, hd⟩ := within_node.mp ht
      obtain ⟨hac, hbd⟩ := hQ.pair_inj hab hcd he
      rw [iha hshape.1 ha hc hac, ihb hshape.2 hb hd hbd]

end HashTree

/-! ## Perfect trees and authentication paths -/

namespace MerkleTree

/-- The root of the perfect tree of depth `d` over `leaves 0, …, leaves (2 ^ d - 1)`. -/
def root (h : α → α → α) : ℕ → (ℕ → α) → α
  | 0, leaves => leaves 0
  | d + 1, leaves => h (root h d leaves) (root h d fun i => leaves (2 ^ d + i))

/-- The pairs that are hashed to compute the root. -/
def rootQueries (h : α → α → α) : ℕ → (ℕ → α) → List (α × α)
  | 0, _ => []
  | d + 1, leaves =>
    (root h d leaves, root h d fun i => leaves (2 ^ d + i)) ::
      (rootQueries h d leaves ++ rootQueries h d fun i => leaves (2 ^ d + i))

/-- One level of an authentication path: the sibling is the left child when `sib.2` holds. -/
def climbStep (h : α → α → α) (current : α) (sib : α × Bool) : α :=
  if sib.2 then h sib.1 current else h current sib.1

/-- The value an authentication path leads to, from the leaf upwards. -/
def climb (h : α → α → α) (leaf : α) (path : List (α × Bool)) : α :=
  path.foldl (climbStep h) leaf

/-- The pair of one level of a path. -/
def stepQuery (current : α) (sib : α × Bool) : α × α :=
  if sib.2 then (sib.1, current) else (current, sib.1)

/-- The pairs that are hashed to climb a path. -/
def climbQueries (h : α → α → α) : α → List (α × Bool) → List (α × α)
  | _, [] => []
  | current, sib :: path =>
    stepQuery current sib :: climbQueries h (climbStep h current sib) path

variable {h : α → α → α} {Q : Set (α × α)}

theorem climb_append (leaf : α) (path : List (α × Bool)) (sib : α × Bool) :
    climb h leaf (path ++ [sib]) = climbStep h (climb h leaf path) sib := by
  unfold climb; rw [List.foldl_append]; rfl

theorem climbQueries_append (leaf : α) (path : List (α × Bool)) (sib : α × Bool) :
    climbQueries h leaf (path ++ [sib]) =
      climbQueries h leaf path ++ [stepQuery (climb h leaf path) sib] := by
  induction path generalizing leaf with
  | nil => rfl
  | cons s path ih => rw [List.cons_append, climbQueries, ih]; rfl

theorem climbStep_eq (current : α) (sib : α × Bool) :
    climbStep h current sib = h (stepQuery current sib).1 (stepQuery current sib).2 := by
  unfold climbStep stepQuery; split_ifs <;> rfl

/-- **Paths are sound.** A path that leads to the root of a perfect tree starts at one of its
leaves. The siblings are arbitrary: the last hash of the path is compared with the last hash of
the tree, which forces its sibling and leaves a shorter path into one half of the tree. -/
theorem climb_eq_root (hQ : CollisionFree h Q) {leaf : α} {path : List (α × Bool)}
    {leaves : ℕ → α} (hp : ∀ q ∈ climbQueries h leaf path, q ∈ Q)
    (ht : ∀ q ∈ rootQueries h path.length leaves, q ∈ Q)
    (he : climb h leaf path = root h path.length leaves) :
    ∃ i < 2 ^ path.length, leaves i = leaf := by
  induction path using List.reverseRecOn generalizing leaves with
  | nil => exact ⟨0, by simp, he.symm⟩
  | append_singleton path sib ih =>
    rw [List.length_append, List.length_singleton] at ht he ⊢
    rw [climbQueries_append] at hp
    rw [climb_append, climbStep_eq] at he
    have hp' : ∀ q ∈ climbQueries h leaf path, q ∈ Q := fun q hq =>
      hp q (List.mem_append_left _ hq)
    have htop : stepQuery (climb h leaf path) sib =
        (root h path.length leaves, root h path.length fun i => leaves (2 ^ path.length + i)) :=
      hQ (hp _ (List.mem_append_right _ (List.mem_singleton_self _)))
        (ht _ List.mem_cons_self) he
    have hpow : 2 ^ (path.length + 1) = 2 ^ path.length + 2 ^ path.length := by ring
    unfold stepQuery at htop
    split_ifs at htop with hright
    · -- the path comes from the right half
      obtain ⟨i, hi, hleaf⟩ := ih hp'
        (fun q hq => ht q (List.mem_cons_of_mem _ (List.mem_append_right _ hq)))
        (Prod.mk.inj htop).2
      exact ⟨2 ^ path.length + i, by omega, hleaf⟩
    · obtain ⟨i, hi, hleaf⟩ := ih hp'
        (fun q hq => ht q (List.mem_cons_of_mem _ (List.mem_append_left _ hq)))
        (Prod.mk.inj htop).1
      exact ⟨i, by omega, hleaf⟩

end MerkleTree
