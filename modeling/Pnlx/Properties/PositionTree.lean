import Pnlx.Contracts.PositionState
import Pnlx.Lib.IncrementalTree
import Pnlx.SampleHost
import Pnlx.Server.FieldMerkle

/-!
# The tree of positions

The position state keeps a frontier of its tree and computes each root from it. `Tree P s leaves`
says that the storage `s` is the tree over `leaves`: the perfect tree of depth 20 over the field
elements of the commitments in order, padded with zeros.

1. `appendLevels_returns`, `rootLevels_returns` and `storeEmptyLevels_returns`: what the three
   loops over the levels do.
2. `init_tree` and `resetForPoseidon2_tree`: both start the empty tree, whatever the frontier holds.
3. `appendMany_tree`: an append adds its commitments at the end.
4. `history_tree`: after any run the current root is the root over the appended commitments, which
   the server computes too.
-/

namespace Pnlx.PositionState

open Program MerkleTree

variable {H : Host} {P : Fr → Fr → Fr} {D : BytesN32 → Prop} {env : Env} {c c' : Chain H}

/-- The contract's pair hash is the field hash `P` on encoded elements. -/
def HashesBy (H : Host) (P : Fr → Fr → Fr) : Prop :=
  ∀ x y, H.computeHash (ofField x) (ofField y) = .ok (ofField (P x y))

/-- Where the contract's pair hash returns on words of `D`, it is the field hash `P` of the field
elements that the words denote. -/
structure HashesOn (H : Host) (P : Fr → Fr → Fr) (D : BytesN32 → Prop) : Prop where
  encoded : ∀ x, D (ofField x)
  pair : ∀ x y r, D x → D y → H.computeHash x y = .ok r → r = ofField (P (toField x) (toField y))

/-- The levels of the frontier that hold a node. -/
def Held (D : BytesN32 → Prop) (s : PositionStateStorage) (l : ℕ) (x : Fr) : Prop :=
  ∃ word, s.frontier l = some word ∧ D word ∧ toField word = x

/-- The nodes from which the root over `leaves` is computed. -/
structure Nodes (P : Fr → Fr → Fr) (D : BytesN32 → Prop) (s : PositionStateStorage)
    (leaves : List Fr) : Prop where
  fits : leaves.length ≤ 2 ^ treeDepth
  empties : ∀ l < treeDepth, s.empty l = some (ofField (emptyRoot P 0 l))
  frontier : Frontier P (padded 0 leaves) treeDepth leaves.length (Held D s)

/-- The root over `leaves`. -/
def treeRoot (P : Fr → Fr → Fr) (leaves : List Fr) : BytesN32 :=
  ofField (root P treeDepth (padded 0 leaves))

/-- The storage is the tree over `leaves`. -/
structure Tree (P : Fr → Fr → Fr) (D : BytesN32 → Prop) (s : PositionStateStorage)
    (leaves : List Fr) : Prop where
  nodes : Nodes P D s leaves
  version : s.treeHashVersion = some poseidon2TreeVersion
  count : s.leafCount = some leaves.length
  current : s.currentRoot = some (treeRoot P leaves)
  known : s.poseidon2Root (treeRoot P leaves)

/-- The root that an append leaves when it fills the tree. -/
def FullRoot (P : Fr → Fr → Fr) (leaves : List Fr) (r : Option BytesN32) : Prop :=
  r = none ∧ leaves.length < 2 ^ treeDepth ∨
    r = some (treeRoot P leaves) ∧ leaves.length = 2 ^ treeDepth

/-! ## The loops over the levels -/

/-- A hash on encoded elements is one on canonical words. -/
theorem HashesBy.on (hP : HashesBy H P) : HashesOn H P Canonical where
  encoded := canonical_ofField
  pair x y r hx hy h := by
    rw [← hx.ofField_toField, ← hy.ofField_toField, hP] at h
    exact (Except.ok.inj h).symm

theorem fieldHashPair_returns (hP : HashesOn H P D) {x y r : BytesN32} (hx : D x) (hy : D y)
    (h : Returns (fieldHashPair x y) env c r c') :
    r = ofField (P (toField x) (toField y)) ∧ c' = c := by
  unfold fieldHashPair at h
  obtain ⟨hhash, rfl⟩ := returns_lift.mp h
  exact ⟨hP.pair x y r hx hy hhash, rfl⟩

/-- A hash of encoded elements. -/
theorem fieldHashPair_ofField (hP : HashesOn H P D) {x y : Fr} {r : BytesN32}
    (h : Returns (fieldHashPair (ofField x) (ofField y)) env c r c') :
    r = ofField (P x y) ∧ c' = c := by
  have hhash := fieldHashPair_returns hP (hP.encoded x) (hP.encoded y) h
  rwa [toField_ofField, toField_ofField] at hhash

/-- The loop of `append_frontier`: the node is the one that the new leaf completes, and the loop
ends with a root when that is the top. -/
theorem appendLevels_returns (hP : HashesOn H P D) {leaves : List Fr} {new : Fr}
    {remaining level cursor : ℕ} (hlevel : level + remaining = treeDepth)
    (hn : leaves.length + 1 = 2 ^ level * (cursor + 1)) (hfits : leaves.length < 2 ^ treeDepth)
    (hf : Frontier P (padded 0 leaves) treeDepth leaves.length
      (Held D (c.storage .positionState env.current))) {word : BytesN32} (hword : D word)
    (hnode : toField word = node P (padded 0 (leaves ++ [new])) level cursor)
    (hencoded : 0 < level → ofField (toField word) = word) {r : Option BytesN32}
    (h : Returns (appendLevels remaining level cursor word) env c r c') :
    ∃ f, c'.storage .positionState env.current =
        { c.storage .positionState env.current with frontier := f } ∧
      Frontier P (padded 0 (leaves ++ [new])) treeDepth (leaves.length + 1)
        (Held D (c'.storage .positionState env.current)) ∧
      FullRoot P (leaves ++ [new]) r := by
  unfold FullRoot
  rw [List.length_append, List.length_singleton]
  induction remaining generalizing level cursor word with
  | zero =>
    -- the new leaf has completed the whole tree
    obtain rfl : level = treeDepth := hlevel
    obtain rfl : cursor = 0 := by
      rcases Nat.eq_zero_or_pos cursor with hzero | hpos
      · exact hzero
      · have := Nat.mul_le_mul_left (2 ^ treeDepth) (show 2 ≤ cursor + 1 by omega)
        omega
    rw [zero_add, mul_one] at hn
    unfold appendLevels at h
    obtain ⟨rfl, rfl⟩ := returns_pure.mp h
    have htop : word = treeRoot P (leaves ++ [new]) := by
      rw [treeRoot, ← node_top, ← hnode, hencoded (by decide)]
    refine ⟨_, rfl, ?_, Or.inr ⟨congrArg some htop, hn⟩⟩
    intro k hk hbit
    rw [even_div_of_lt (hn.trans (mul_one _).symm) hk] at hbit
    exact absurd hbit (by decide)
  | succ remaining ih =>
    unfold appendLevels at h
    by_cases heven : cursor % 2 = 0
    · -- a left node stays in the frontier
      rw [if_pos heven] at h
      simp only [returns_bind, returns_modifyStorage, returns_pure] at h
      obtain ⟨_, _, rfl, rfl, rfl⟩ := h
      rw [Chain.storage_modify_self]
      refine ⟨_, rfl, hf.push hn heven ?_ ?_, Or.inl ⟨rfl, ?_⟩⟩
      · exact ⟨word, Function.update_self _ _ _, hword, hnode⟩
      · rintro k x hk ⟨left, hleft, hheld⟩
        exact ⟨left, (Function.update_of_ne hk.ne' _ _).trans hleft, hheld⟩
      · refine lt_of_le_of_ne hfits fun hfull => ?_
        have hbit := even_div_of_lt (hfull.trans (mul_one _).symm) (show level < treeDepth by omega)
        rw [hn, Nat.mul_div_cancel_left _ (Nat.two_pow_pos level)] at hbit
        omega
    · -- a right node is hashed with the left node before it
      rw [if_neg heven] at h
      obtain ⟨half, hhalf⟩ : ∃ half, cursor = 2 * half + 1 := ⟨cursor / 2, by omega⟩
      subst hhalf
      have hlast : leaves.length / 2 ^ level = 2 * half + 1 := by
        have hpos := Nat.two_pow_pos level
        rw [Nat.mul_succ] at hn
        refine Nat.div_eq_of_lt_le ?_ ?_ <;> rw [Nat.mul_comm]
        · omega
        · rw [Nat.mul_succ]
          omega
      obtain ⟨left, hleft, hD, hvalue⟩ :=
        hf.left (x := new) (show level < treeDepth by omega) hlast (by omega)
      rw [Nat.add_sub_cancel] at hvalue
      simp only [returns_bind, returns_stored] at h
      obtain ⟨left', c, ⟨hstored, rfl⟩, parent, _, hhash, hrest⟩ := h
      obtain rfl : left' = left := Option.some.inj (hstored.symm.trans hleft)
      obtain ⟨rfl, rfl⟩ := fieldHashPair_returns hP hD hword hhash
      rw [hvalue, hnode, ← @node_succ _ P] at hrest
      rw [show (2 * half + 1) / 2 = half by omega] at hrest
      have hnext : leaves.length + 1 = 2 ^ (level + 1) * (half + 1) := by
        rw [hn, pow_succ]
        ring
      exact ih (by omega) hnext (hP.encoded _) (toField_ofField _)
        (fun _ => congrArg ofField (toField_ofField _)) hrest

/-- The loop of `root_from_frontier`: the node is the one over the first empty leaf. -/
theorem rootLevels_returns (hP : HashesOn H P D) {leaves : List Fr}
    (hnodes : Nodes P D (c.storage .positionState env.current) leaves)
    (hfits : leaves.length < 2 ^ treeDepth) {remaining level : ℕ}
    (hlevel : level + remaining = treeDepth) {r : BytesN32}
    (h : Returns (rootLevels remaining level (leaves.length / 2 ^ level)
      (ofField (node P (padded 0 leaves) level (leaves.length / 2 ^ level)))) env c r c') :
    r = treeRoot P leaves := by
  induction remaining generalizing level with
  | zero =>
    obtain rfl : level = treeDepth := hlevel
    unfold rootLevels at h
    rw [returns_pure, Nat.div_eq_of_lt hfits, node_top] at h
    exact h.1
  | succ remaining ih =>
    have hlt : level < treeDepth := by omega
    unfold rootLevels at h
    simp only [returns_bind, returns_stored] at h
    obtain ⟨empty, c, ⟨hempty, rfl⟩, parent, c₁, hparent, hrest⟩ := h
    obtain rfl : empty = _ := Option.some.inj (hempty.symm.trans (hnodes.empties level hlt))
    suffices hnode : parent = ofField
        (node P (padded 0 leaves) (level + 1) (leaves.length / 2 ^ (level + 1))) ∧ c₁ = c by
      obtain ⟨rfl, rfl⟩ := hnode
      rw [← div_pow_succ] at hrest
      exact ih (by omega) hrest
    rw [div_pow_succ, node_succ]
    have hhalf := Nat.div_add_mod (leaves.length / 2 ^ level) 2
    by_cases heven : leaves.length / 2 ^ level % 2 = 0
    · -- everything to the right of the node is empty
      rw [if_pos heven] at hparent
      have hright : leaves.length ≤ 2 ^ level * (leaves.length / 2 ^ level + 1) :=
        (Nat.lt_mul_div_succ _ (Nat.two_pow_pos level)).le
      rw [← node_padded_eq_empty hright] at hparent
      rw [show 2 * (leaves.length / 2 ^ level / 2) = leaves.length / 2 ^ level by omega]
      exact fieldHashPair_ofField hP hparent
    · -- the node to the left is in the frontier
      rw [if_neg heven] at hparent
      simp only [returns_bind, returns_stored] at hparent
      obtain ⟨left, c, ⟨hstored, rfl⟩, hhash⟩ := hparent
      obtain ⟨word, hfrontier, hD, hvalue⟩ := hnodes.frontier level hlt (by omega)
      obtain rfl : left = word := Option.some.inj (hstored.symm.trans hfrontier)
      have hleft : 2 * (leaves.length / 2 ^ level / 2) = leaves.length / 2 ^ level - 1 := by omega
      have hnode : leaves.length / 2 ^ level - 1 + 1 = leaves.length / 2 ^ level := by omega
      rw [hleft, hnode, ← hvalue]
      have hparent := fieldHashPair_returns hP hD (hP.encoded _) hhash
      rwa [toField_ofField] at hparent

theorem rootFromFrontier_returns (hP : HashesOn H P D) {leaves : List Fr}
    (hnodes : Nodes P D (c.storage .positionState env.current) leaves)
    (hfits : leaves.length < 2 ^ treeDepth) {r : BytesN32}
    (h : Returns (rootFromFrontier leaves.length) env c r c') : r = treeRoot P leaves := by
  have hstart : leaves.length / 2 ^ 0 = leaves.length := by rw [pow_zero, Nat.div_one]
  have hempty : ofField (node P (padded 0 leaves) 0 leaves.length) = 0 := by
    rw [node_zero, padded, List.getD_eq_default _ _ le_rfl]
    rfl
  have hrun : Returns (rootLevels treeDepth 0 (leaves.length / 2 ^ 0)
      (ofField (node P (padded 0 leaves) 0 (leaves.length / 2 ^ 0)))) env c r c' := by
    rw [hstart, hempty]
    exact h
  exact rootLevels_returns hP hnodes hfits (Nat.zero_add treeDepth) hrun

/-- The loop of `store_empty_nodes` stores the roots of the empty trees. -/
theorem storeEmptyLevels_returns (hP : HashesOn H P D) {remaining level : ℕ}
    (hlevel : level + remaining = treeDepth) {r : BytesN32}
    (h : Returns (storeEmptyLevels remaining level (ofField (emptyRoot P 0 level))) env c r c') :
    r = ofField (emptyRoot P 0 treeDepth) ∧
      ∃ e, c'.storage .positionState env.current =
          { c.storage .positionState env.current with empty := e } ∧
        (∀ l < level, e l = (c.storage .positionState env.current).empty l) ∧
        ∀ l, level ≤ l → l < treeDepth → e l = some (ofField (emptyRoot P 0 l)) := by
  induction remaining generalizing level c with
  | zero =>
    obtain rfl : level = treeDepth := hlevel
    unfold storeEmptyLevels at h
    obtain ⟨rfl, rfl⟩ := returns_pure.mp h
    exact ⟨rfl, _, rfl, fun l _ => rfl, fun l hge hlt => absurd hlt (Nat.not_lt.mpr hge)⟩
  | succ remaining ih =>
    unfold storeEmptyLevels at h
    simp only [returns_bind, returns_modifyStorage] at h
    obtain ⟨_, _, rfl, parent, _, hparent, hrest⟩ := h
    obtain ⟨rfl, rfl⟩ := fieldHashPair_ofField hP hparent
    obtain ⟨hroot, e, hstorage, hbelow, habove⟩ := ih (by omega) hrest
    rw [Chain.storage_modify_self] at hstorage hbelow
    refine ⟨hroot, e, hstorage, ?_, ?_⟩
    · intro l hl
      rw [hbelow l (by omega)]
      exact Function.update_of_ne hl.ne _ _
    · intro l hge hlt
      rcases Nat.lt_or_eq_of_le hge with hgt | rfl
      · exact habove l hgt hlt
      · rw [hbelow level (Nat.lt_succ_self _)]
        exact Function.update_self _ _ _

/-! ## Starting a tree -/

theorem storeEmptyNodes_returns (hP : HashesOn H P D) {r : BytesN32}
    (h : Returns storeEmptyNodes env c r c') :
    r = treeRoot P [] ∧ ∃ e, c'.storage .positionState env.current =
        { c.storage .positionState env.current with empty := e } ∧
      ∀ l < treeDepth, e l = some (ofField (emptyRoot P 0 l)) := by
  obtain ⟨hroot, e, hstorage, -, hempties⟩ :=
    storeEmptyLevels_returns hP (Nat.zero_add treeDepth) h
  rw [← root_padded_nil] at hroot
  exact ⟨hroot, e, hstorage, fun l hl => hempties l (Nat.zero_le l) hl⟩

theorem nodes_nil {s : PositionStateStorage}
    (h : ∀ l < treeDepth, s.empty l = some (ofField (emptyRoot P 0 l))) : Nodes P D s [] :=
  ⟨Nat.zero_le _, h, Frontier.zero _ _ _⟩

theorem init_tree (hP : HashesOn H P D) {governance : Address} {u : Unit}
    (h : Returns (init governance) env c u c') :
    Tree P D (c'.storage .positionState env.current) [] := by
  unfold init at h
  simp only [returns_bind, returns_load, returns_failIf, returns_modifyStorage] at h
  obtain ⟨_, _, -, _, _, -, root, c₁, hroot, rfl⟩ := h
  obtain ⟨rfl, e, hstorage, hempties⟩ := storeEmptyNodes_returns hP hroot
  rw [Chain.storage_modify_self, hstorage]
  exact ⟨nodes_nil hempties, rfl, rfl, rfl, Function.update_self _ _ _⟩

theorem resetForPoseidon2_tree (hP : HashesOn H P D) {u : Unit}
    (h : Returns resetForPoseidon2 env c u c') :
    Tree P D (c'.storage .positionState env.current) [] := by
  unfold resetForPoseidon2 at h
  simp only [returns_bind, returns_load, returns_failIf, returns_modifyStorage] at h
  obtain ⟨_, _, -, _, _, -, _, _, -, _, _, -, _, _, -, root, c₁, hroot, rfl⟩ := h
  obtain ⟨rfl, e, hstorage, hempties⟩ := storeEmptyNodes_returns hP hroot
  rw [Chain.storage_modify_self, hstorage]
  exact ⟨nodes_nil hempties, rfl, rfl, rfl, Function.update_self _ _ _⟩

/-! ## Appending -/

theorem appendFrontier_returns (hP : HashesOn H P D) {leaves : List Fr} {commitment : BytesN32}
    (hcommitment : D commitment) (hfits : leaves.length < 2 ^ treeDepth)
    (hnodes : Nodes P D (c.storage .positionState env.current) leaves) {r : Option BytesN32}
    (h : Returns (appendFrontier leaves.length commitment) env c r c') :
    (∃ f, c'.storage .positionState env.current =
        { c.storage .positionState env.current with frontier := f }) ∧
      Nodes P D (c'.storage .positionState env.current) (leaves ++ [toField commitment]) ∧
      FullRoot P (leaves ++ [toField commitment]) r := by
  have hnode : toField commitment =
      node P (padded 0 (leaves ++ [toField commitment])) 0 leaves.length := by
    rw [node_zero, padded_append_length]
  unfold appendFrontier at h
  obtain ⟨f, hstorage, hfrontier, hfull⟩ := appendLevels_returns hP (Nat.zero_add treeDepth)
    (by rw [pow_zero, one_mul]) hfits hnodes.frontier hcommitment hnode
    (fun hpos => absurd hpos (lt_irrefl 0)) h
  refine ⟨⟨f, hstorage⟩, ⟨?_, ?_, ?_⟩, hfull⟩
  · rw [List.length_append, List.length_singleton]
    exact hfits
  · rw [hstorage]
    exact hnodes.empties
  · rw [List.length_append, List.length_singleton]
    exact hfrontier

/-- The loop of `append_many` adds the commitments at the end of the leaves. -/
theorem appendEach_returns (hP : HashesOn H P D) {commitments : List BytesN32} {leaves : List Fr}
    (hcommitments : ∀ x ∈ commitments, D x)
    (hfits : leaves.length + commitments.length ≤ 2 ^ treeDepth)
    (hnodes : Nodes P D (c.storage .positionState env.current) leaves) {full : Option BytesN32}
    (hfull : FullRoot P leaves full) {out : ℕ × Option BytesN32}
    (h : Returns (appendEach commitments leaves.length full) env c out c') :
    (∃ f, c'.storage .positionState env.current =
        { c.storage .positionState env.current with frontier := f }) ∧
      Nodes P D (c'.storage .positionState env.current) (leaves ++ commitments.map toField) ∧
      out.1 = (leaves ++ commitments.map toField).length ∧
      FullRoot P (leaves ++ commitments.map toField) out.2 := by
  induction commitments generalizing leaves full c with
  | nil =>
    unfold appendEach at h
    obtain ⟨rfl, rfl⟩ := returns_pure.mp h
    rw [List.map_nil, List.append_nil]
    exact ⟨⟨_, rfl⟩, hnodes, rfl, hfull⟩
  | cons commitment commitments ih =>
    unfold appendEach validateCommitment at h
    simp only [returns_bind, returns_failIf] at h
    obtain ⟨_, c, ⟨-, rfl⟩, full', c₁, hfirst, hrest⟩ := h
    rw [List.length_cons] at hfits
    obtain ⟨⟨f, hstorage⟩, hnodes', hfull'⟩ :=
      appendFrontier_returns hP (hcommitments _ List.mem_cons_self) (by omega) hnodes hfirst
    have hlength : (leaves ++ [toField commitment]).length = leaves.length + 1 := by
      rw [List.length_append, List.length_singleton]
    rw [← hlength] at hrest
    obtain ⟨⟨f', hstorage'⟩, hout⟩ := ih (fun x hx => hcommitments x (List.mem_cons_of_mem _ hx))
      (by rw [hlength]; omega) hnodes' hfull' hrest
    rw [List.append_assoc] at hout
    refine ⟨⟨f', ?_⟩, hout⟩
    rw [hstorage', hstorage]

/-- **An append adds its commitments at the end of the tree**, and returns where. -/
theorem appendMany_tree (hP : HashesOn H P D) {leaves : List Fr} {writer : Address}
    {commitments : List BytesN32} (hcommitments : ∀ x ∈ commitments, D x)
    (htree : Tree P D (c.storage .positionState env.current) leaves) {receipt : AppendReceipt}
    (h : Returns (appendMany writer commitments) env c receipt c') :
    Tree P D (c'.storage .positionState env.current) (leaves ++ commitments.map toField) ∧
      receipt = ⟨commitments.length, leaves.length,
        treeRoot P (leaves ++ commitments.map toField)⟩ ∧
      ∀ root, (c.storage .positionState env.current).poseidon2Root root →
        (c'.storage .positionState env.current).poseidon2Root root := by
  unfold appendMany requireWriter leafCount requirePoseidon2Tree at h
  simp only [returns_bind, returns_requireAuth, returns_failIf, returns_load, returns_stored,
    returns_modifyStorage, returns_pure, exists_eq_left, exists_and_left, and_assoc,
    exists_const, not_not, not_or, not_lt] at h
  obtain ⟨-, -, hne, hcount, -, first, hfirst, hfits, out, c₁, hout, root, c₂, hroot, rfl, rfl⟩ := h
  obtain rfl : first = leaves.length := Option.some.inj (hfirst.symm.trans htree.count)
  have hpos : 0 < commitments.length := List.length_pos_iff.mpr hne
  have hcapacity : maxAppendItems ≤ 2 ^ treeDepth := by decide
  obtain ⟨⟨f, hstorage⟩, hnodes, hindex, hfull⟩ := appendEach_returns hP hcommitments (by omega)
    htree.nodes (Or.inl ⟨rfl, by omega⟩) hout
  obtain ⟨rfl, rfl⟩ : root = treeRoot P (leaves ++ commitments.map toField) ∧ c₂ = c₁ := by
    rcases hfull with ⟨hnone, hlt⟩ | ⟨hsome, -⟩
    · rw [hnone, hindex] at hroot
      exact ⟨rootFromFrontier_returns hP hnodes hlt hroot, ReadOnly.eq hroot⟩
    · rw [hsome] at hroot
      exact returns_pure.mp hroot
  rw [Chain.storage_modify_self]
  refine ⟨⟨⟨hnodes.fits, hnodes.empties, hnodes.frontier⟩, ?_, ?_, rfl, ?_⟩, rfl, ?_⟩
  · rw [hstorage]
    exact htree.version
  · exact congrArg some hindex
  · exact Function.update_self _ _ _
  · intro root hroot
    rw [hstorage]
    exact record_true _ hroot

/-! ## Runs -/

/-- A run of the contract `p` since its tree was started: the ledgers it has passed, the ledger it
has reached, and the commitments it has appended. What happens elsewhere is any step that leaves
the storage of `p` as it is. -/
inductive History (p : Address) : List (Chain H) → Chain H → List BytesN32 → Prop where
  | init {env : Env} {c c' : Chain H} {governance : Address} (hp : env.current = p)
      (h : Returns (init governance) env c () c') : History p [c'] c' []
  | reset {env : Env} {c c' : Chain H} (hp : env.current = p)
      (h : Returns resetForPoseidon2 env c () c') : History p [c'] c' []
  | append {env : Env} {past : List (Chain H)} {c c' : Chain H} {leaves : List BytesN32}
      {writer : Address} {commitment : BytesN32} {receipt : AppendReceipt}
      (hist : History p past c leaves) (hp : env.current = p)
      (h : Returns (append writer commitment) env c receipt c') :
      History p (c' :: past) c' (leaves ++ [commitment])
  | appendMany {env : Env} {past : List (Chain H)} {c c' : Chain H} {leaves : List BytesN32}
      {writer : Address} {commitments : List BytesN32} {receipt : AppendReceipt}
      (hist : History p past c leaves) (hp : env.current = p)
      (h : Returns (appendMany writer commitments) env c receipt c') :
      History p (c' :: past) c' (leaves ++ commitments)
  | setWriter {env : Env} {past : List (Chain H)} {c c' : Chain H} {leaves : List BytesN32}
      {writer : Address} {enabled : Bool} (hist : History p past c leaves) (hp : env.current = p)
      (h : Returns (setWriter writer enabled) env c () c') : History p (c' :: past) c' leaves
  | spendPosition {env : Env} {past : List (Chain H)} {c c' : Chain H} {leaves : List BytesN32}
      {writer : Address} {root commitment nullifier : BytesN32} (hist : History p past c leaves)
      (hp : env.current = p)
      (h : Returns (spendPosition writer root commitment nullifier) env c () c') :
      History p (c' :: past) c' leaves
  | elsewhere {past : List (Chain H)} {c c' : Chain H} {leaves : List BytesN32}
      (hist : History p past c leaves)
      (h : c'.storage .positionState p = c.storage .positionState p) :
      History p (c' :: past) c' leaves

/-- The storages agree in everything that belongs to the tree. -/
structure SameTree (s s' : PositionStateStorage) : Prop where
  empty : s'.empty = s.empty
  frontier : s'.frontier = s.frontier
  version : s'.treeHashVersion = s.treeHashVersion
  count : s'.leafCount = s.leafCount
  current : s'.currentRoot = s.currentRoot
  known : s'.poseidon2Root = s.poseidon2Root

theorem Tree.of_sameTree {s s' : PositionStateStorage} {leaves : List Fr} (h : Tree P D s leaves)
    (hs : SameTree s s') : Tree P D s' leaves := by
  refine ⟨⟨h.nodes.fits, ?_, ?_⟩, ?_, ?_, ?_, ?_⟩
  · rw [hs.empty]
    exact h.nodes.empties
  · intro l hl hbit
    rw [Held, hs.frontier]
    exact h.nodes.frontier l hl hbit
  · rw [hs.version, h.version]
  · rw [hs.count, h.count]
  · rw [hs.current, h.current]
  · rw [hs.known]
    exact h.known

theorem setWriter_sameTree {writer : Address} {enabled : Bool} {u : Unit}
    (h : Returns (setWriter writer enabled) env c u c') :
    SameTree (c.storage .positionState env.current) (c'.storage .positionState env.current) := by
  unfold setWriter at h
  simp only [returns_bind, returns_modifyStorage] at h
  obtain ⟨_, c₁, hadmin, rfl⟩ := h
  rw [Chain.storage_modify_self, ReadOnly.eq hadmin]
  exact ⟨rfl, rfl, rfl, rfl, rfl, rfl⟩

theorem spendPosition_sameTree {writer : Address} {root commitment nullifier : BytesN32} {u : Unit}
    (h : Returns (spendPosition writer root commitment nullifier) env c u c') :
    SameTree (c.storage .positionState env.current) (c'.storage .positionState env.current) := by
  unfold spendPosition at h
  simp only [returns_bind, returns_modifyStorage, returns_failIf, returns_load] at h
  obtain ⟨_, c₁, hwriter, _, c₂, hcommitment, _, c₃, hnullifier, _, _, ⟨-, rfl⟩, _, _, ⟨-, rfl⟩,
    _, _, ⟨-, rfl⟩, _, _, ⟨-, rfl⟩, rfl⟩ := h
  rw [Chain.storage_modify_self, ReadOnly.eq hnullifier, ReadOnly.eq hcommitment,
    ReadOnly.eq hwriter]
  exact ⟨rfl, rfl, rfl, rfl, rfl, rfl⟩

/-- The roots that have been current are known. -/
def Remembers (p : Address) (past : List (Chain H)) (s : PositionStateStorage) : Prop :=
  ∀ c₀ ∈ past, ∀ root, (c₀.storage .positionState p).currentRoot = some root → s.poseidon2Root root

theorem Remembers.cons {p : Address} {past : List (Chain H)} {s : PositionStateStorage}
    {leaves : List Fr} (h : Remembers p past s)
    (hkeep : ∀ root, s.poseidon2Root root →
      (c'.storage .positionState p).poseidon2Root root)
    (htree : Tree P D (c'.storage .positionState p) leaves) :
    Remembers p (c' :: past) (c'.storage .positionState p) := by
  intro c₀ hc₀ root hroot
  rcases List.mem_cons.mp hc₀ with rfl | hc₀
  · obtain rfl := Option.some.inj (htree.current.symm.trans hroot)
    exact htree.known
  · exact hkeep root (h c₀ hc₀ root hroot)

/-- **The run lemma.** The tree is the tree over the appended commitments at the end of every run. -/
theorem history_tree (hP : HashesOn H P D) {p : Address} {past : List (Chain H)}
    {leaves : List BytesN32} (h : History p past c leaves) (hleaves : ∀ x ∈ leaves, D x) :
    Tree P D (c.storage .positionState p) (leaves.map toField) ∧
      Remembers p past (c.storage .positionState p) := by
  have hempty : ∀ s, Remembers (H := H) p [] s := fun s c₀ hc₀ => absurd hc₀ List.not_mem_nil
  induction h with
  | init hp h =>
    subst hp
    have htree := init_tree hP h
    exact ⟨htree, (hempty _).cons (fun _ hroot => hroot) htree⟩
  | reset hp h =>
    subst hp
    have htree := resetForPoseidon2_tree hP h
    exact ⟨htree, (hempty _).cons (fun _ hroot => hroot) htree⟩
  | append hist hp h ih =>
    subst hp
    obtain ⟨htree, hpast⟩ := ih fun x hx => hleaves x (List.mem_append_left _ hx)
    obtain ⟨htree', -, hkeep⟩ :=
      appendMany_tree hP (fun x hx => hleaves x (List.mem_append_right _ hx)) htree h
    rw [List.map_append]
    exact ⟨htree', hpast.cons hkeep htree'⟩
  | appendMany hist hp h ih =>
    subst hp
    obtain ⟨htree, hpast⟩ := ih fun x hx => hleaves x (List.mem_append_left _ hx)
    obtain ⟨htree', -, hkeep⟩ :=
      appendMany_tree hP (fun x hx => hleaves x (List.mem_append_right _ hx)) htree h
    rw [List.map_append]
    exact ⟨htree', hpast.cons hkeep htree'⟩
  | setWriter hist hp h ih =>
    subst hp
    obtain ⟨htree, hpast⟩ := ih hleaves
    have hsame := setWriter_sameTree h
    have htree' := htree.of_sameTree hsame
    exact ⟨htree', hpast.cons (fun _ hroot => hsame.known ▸ hroot) htree'⟩
  | spendPosition hist hp h ih =>
    subst hp
    obtain ⟨htree, hpast⟩ := ih hleaves
    have hsame := spendPosition_sameTree h
    have htree' := htree.of_sameTree hsame
    exact ⟨htree', hpast.cons (fun _ hroot => hsame.known ▸ hroot) htree'⟩
  | elsewhere hist h ih =>
    obtain ⟨htree, hpast⟩ := ih hleaves
    rw [← h] at htree hpast
    exact ⟨htree, hpast.cons (fun _ hroot => hroot) htree⟩

/-- **The tree of positions is correct.** After every run of the contract, which starts with `init`
or `reset_for_poseidon2` on whatever ledger, the commitments appended since fit the tree, the
current root is the root of the perfect tree of depth 20 over them in order and padded with zeros,
`positionMerkleRoot` computes the same root, every root that was current is known, and the next
append returns as its first index the number of commitments so far. -/
theorem positionTree_correct (hP : HashesBy H P) {p : Address} {past : List (Chain H)}
    {leaves : List BytesN32} (h : History p past c leaves) (hcanonical : ∀ x ∈ leaves, Canonical x)
    (hp : env.current = p) :
    leaves.length ≤ 2 ^ treeDepth ∧
      Returns leafCount env c leaves.length c ∧
      Returns currentRoot env c (treeRoot P (leaves.map toField)) c ∧
      (∀ texts : List BatchMatch.Text, (∀ text ∈ texts, Server.IsHex32 text) →
        texts.map Server.hexWord = leaves →
        Server.positionMerkleRoot P texts Server.positionMerkleDepth =
          some (BatchMatch.hexText (treeRoot P (leaves.map toField)).toNat)) ∧
      (∀ c₀ ∈ past, ∀ root, Returns currentRoot env c₀ root c₀ →
        Returns (hasRoot root) env c true c) ∧
      ∀ writer commitments receipt c', (∀ x ∈ commitments, Canonical x) →
        Returns (appendMany writer commitments) env c receipt c' →
        receipt = ⟨commitments.length, leaves.length,
          treeRoot P ((leaves ++ commitments).map toField)⟩ := by
  subst hp
  obtain ⟨htree, hpast⟩ := history_tree hP.on h hcanonical
  have hfits := htree.nodes.fits
  have hcount := htree.count
  rw [List.length_map] at hfits hcount
  refine ⟨hfits, ?_, ?_, ?_, ?_, ?_⟩
  · unfold leafCount requirePoseidon2Tree
    simp [htree.version, hcount]
  · unfold currentRoot requirePoseidon2Tree
    simp [htree.version, htree.current]
  · intro texts htexts hleaves
    have hreads : texts.mapM (fun text => Server.toField (.hex text)) =
        some (leaves.map toField) := by
      rw [← hleaves, List.map_map]
      exact mapM_eq_map fun text htext => (htexts text htext).reads.2.1
    rw [Server.positionMerkleRoot_eq hreads (by rw [List.length_map]; exact hfits), treeRoot,
      toNat_ofField]
    rfl
  · intro c₀ hc₀ root hroot
    unfold currentRoot at hroot
    obtain ⟨_, c₁, hversion, hroot⟩ := returns_bind.mp hroot
    obtain ⟨hroot, rfl⟩ := returns_stored.mp hroot
    exact returns_load.mpr ⟨(hpast _ hc₀ root hroot).symm, rfl⟩
  · intro writer commitments receipt c' hnew happend
    obtain ⟨-, hreceipt, -⟩ := appendMany_tree hP.on hnew htree happend
    rw [hreceipt, List.map_append, List.length_map]

/-- Two commitments, appended by one call to a new tree. -/
theorem positionTree_correct_two : ∃ (env : Env) (c : Chain sampleHost) (root : BytesN32),
    Returns leafCount env c 2 c ∧ Returns currentRoot env c root c ∧
      Server.positionMerkleRoot SampleHost.pairHash [BatchMatch.hexText 5, BatchMatch.hexText 7]
        Server.positionMerkleDepth = some (BatchMatch.hexText root.toNat) := by
  let admin : Address := .account 100
  let env : Env := ⟨[admin], none, .contract 4, 0⟩
  let start : Chain sampleHost := (Chain.blank (H := sampleHost) ⟨[], []⟩).modify .governance
    (.contract 1) fun s => { s with admin := some admin }
  let run : Contract sampleHost AppendReceipt := do
    init (.contract 1)
    setWriter admin true
    appendMany admin [5, 7]
  have hok : (run env start).isOk := by decide +kernel
  obtain ⟨receipt, c, hrun⟩ := exists_returns hok
  obtain ⟨_, c₁, hinit, hrest⟩ := returns_bind.mp hrun
  obtain ⟨_, c₂, hwriter, happend⟩ := returns_bind.mp hrest
  have hhistory := ((History.init rfl hinit).setWriter rfl hwriter).appendMany rfl happend
  have hcanonical : ∀ x ∈ ([] ++ [5, 7] : List BytesN32), Canonical x := by decide
  obtain ⟨-, hcount, hroot, htexts, -⟩ := @positionTree_correct sampleHost SampleHost.pairHash env _
    (fun x y => by simp [sampleHost]) _ _ _ hhistory hcanonical rfl
  exact ⟨env, c, _, hcount, hroot, htexts _ (by decide +kernel) (by decide +kernel)⟩

end Pnlx.PositionState
