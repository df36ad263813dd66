import Pnlx.Contracts.Governance

/-!
# The position state

An append-only Merkle tree of position commitments of depth 20, kept as a frontier, with the set of
all its past roots, and the spent position nullifiers. A nullifier is recorded under the 32 bytes
it is passed as (`spendPosition_returns`).
-/

namespace Pnlx.PositionState

open Program

variable {H : Host}

def treeDepth : ℕ := 20

def maxAppendItems : ℕ := 8

def poseidon2TreeVersion : ℕ := 2

/-! ## Checks and views -/

def requireAdmin : Contract H Unit := do
  let governance ← stored .positionState (·.governance) "not initialized"
  requireAuth (← call governance Governance.admin)

abbrev isWriter (writer : Address) : Contract H Bool :=
  load .positionState fun s => (s.writer writer).getD false

def requireWriter (writer : Address) : Contract H Unit := do
  requireAuth writer
  failIf (¬ (← isWriter writer)) "unauthorized writer"

def requirePoseidon2Tree : Contract H Unit := do
  failIf ((← load .positionState (·.treeHashVersion)) ≠ some poseidon2TreeVersion)
    "position tree requires Poseidon2 reset"

def validateCommitment (value : BytesN32) : Contract H Unit := failIf (value = 0) "invalid commitment"

def currentRoot : Contract H BytesN32 := do
  requirePoseidon2Tree
  stored .positionState (·.currentRoot) "not initialized"

def leafCount : Contract H ℕ := do
  requirePoseidon2Tree
  stored .positionState (·.leafCount) "not initialized"

abbrev hasRoot (root : BytesN32) : Contract H Bool := load .positionState (·.poseidon2Root root)

/-! ## The frontier -/

def fieldHashPair (left right : BytesN32) : Contract H BytesN32 := lift (H.computeHash left right)

/-- The loop of `append_frontier` over the remaining levels. A left node becomes the frontier of its
level, a right node is hashed with the frontier; only the last leaf of a full tree leaves a root. -/
def appendLevels : (remaining level cursor : ℕ) → (node : BytesN32) → Contract H (Option BytesN32)
  | 0, _, _, node => pure (some node)
  | remaining + 1, level, cursor, node =>
    if cursor % 2 = 0 then do
      modifyStorage .positionState fun s =>
        { s with frontier := Function.update s.frontier level (some node) }
      pure none
    else do
      let left ← stored .positionState (·.frontier level) "missing position frontier"
      let parent ← fieldHashPair left node
      appendLevels remaining (level + 1) (cursor / 2) parent

def appendFrontier (index : ℕ) (commitment : BytesN32) : Contract H (Option BytesN32) :=
  appendLevels treeDepth 0 index commitment

/-- The loop of `root_from_frontier` over the remaining levels. -/
def rootLevels : (remaining level cursor : ℕ) → (node : BytesN32) → Contract H BytesN32
  | 0, _, _, node => pure node
  | remaining + 1, level, cursor, node => do
    let empty ← stored .positionState (·.empty level) "missing empty position node"
    let parent ←
      (if cursor % 2 = 0 then
        fieldHashPair node empty
      else do
        let left ← stored .positionState (·.frontier level) "missing position frontier"
        fieldHashPair left node)
    rootLevels remaining (level + 1) (cursor / 2) parent

def rootFromFrontier (count : ℕ) : Contract H BytesN32 := rootLevels treeDepth 0 count 0

/-- The loop of `store_empty_nodes` over the remaining levels. -/
def storeEmptyLevels : (remaining level : ℕ) → (root : BytesN32) → Contract H BytesN32
  | 0, _, root => pure root
  | remaining + 1, level, root => do
    modifyStorage .positionState fun s =>
      { s with empty := Function.update s.empty level (some root) }
    let parent ← fieldHashPair root root
    storeEmptyLevels remaining (level + 1) parent

def storeEmptyNodes : Contract H BytesN32 := storeEmptyLevels treeDepth 0 0

/-! ## Calls -/

def init (governance : Address) : Contract H Unit := do
  failIf (← load .positionState (·.governance.isSome)) "already initialized"
  let initialRoot ← storeEmptyNodes
  modifyStorage .positionState fun s =>
    { s with
      governance := some governance
      leafCount := some 0
      treeHashVersion := some poseidon2TreeVersion
      poseidon2Root := Function.update s.poseidon2Root initialRoot true
      currentRoot := some initialRoot }

def setWriter (writer : Address) (enabled : Bool) : Contract H Unit := do
  requireAdmin
  modifyStorage .positionState fun s =>
    { s with writer := Function.update s.writer writer (some enabled) }

def resetForPoseidon2 : Contract H Unit := do
  requireAdmin
  failIf (← load .positionState (·.treeHashVersion.isSome)) "tree already uses Poseidon2"
  failIf (← load .positionState (·.governance.isNone)) "not initialized"
  let initialRoot ← storeEmptyNodes
  modifyStorage .positionState fun s =>
    { s with
      leafCount := some 0
      currentRoot := some initialRoot
      poseidon2Root := Function.update s.poseidon2Root initialRoot true
      treeHashVersion := some poseidon2TreeVersion }

/-- The loop of `append_many`: the next index and the root if the tree is full. -/
def appendEach : List BytesN32 → ℕ → Option BytesN32 → Contract H (ℕ × Option BytesN32)
  | [], index, fullRoot => pure (index, fullRoot)
  | commitment :: commitments, index, _ => do
    validateCommitment commitment
    let fullRoot ← appendFrontier index commitment
    appendEach commitments (index + 1) fullRoot

def appendMany (writer : Address) (commitments : List BytesN32) : Contract H AppendReceipt := do
  requireWriter writer
  failIf (commitments = [] ∨ commitments.length > maxAppendItems) "invalid append count"
  let firstIndex ← leafCount
  failIf (firstIndex > 2 ^ treeDepth - commitments.length) "position tree is full"
  let appended ← appendEach commitments firstIndex none
  let root ← (match appended.2 with
    | some root => pure root
    | none => rootFromFrontier appended.1)
  modifyStorage .positionState fun s =>
    { s with
      leafCount := some appended.1
      poseidon2Root := Function.update s.poseidon2Root root true
      currentRoot := some root }
  pure ⟨commitments.length, firstIndex, root⟩

def append (writer : Address) (commitment : BytesN32) : Contract H AppendReceipt :=
  appendMany writer [commitment]

def spendPosition (writer : Address) (membershipRoot positionCommitment positionNullifier : BytesN32) :
    Contract H Unit := do
  requireWriter writer
  validateCommitment positionCommitment
  validateCommitment positionNullifier
  failIf (¬ (← hasRoot membershipRoot)) "unknown position root"
  failIf (← load .positionState fun s => (s.spent positionNullifier).isSome)
    "position already spent"
  modifyStorage .positionState fun s =>
    { s with spent := Function.update s.spent positionNullifier (some positionCommitment) }

/-- A spent position was unspent under its nullifier's bytes, and is spent now. -/
theorem spendPosition_returns {writer : Address} {root commitment nullifier : BytesN32} {env : Env}
    {c c' : Chain H} {u : Unit}
    (h : Returns (spendPosition writer root commitment nullifier) env c u c') :
    (c.storage .positionState env.current).poseidon2Root root ∧
      (c.storage .positionState env.current).spent nullifier = none ∧
      (c'.storage .positionState env.current).spent nullifier = some commitment := by
  unfold spendPosition requireWriter validateCommitment at h
  simp only [returns_bind, returns_requireAuth, returns_failIf, returns_load, returns_modifyStorage,
    exists_eq_left, exists_and_left, and_assoc, exists_const, not_not] at h
  obtain ⟨-, -, -, -, hroot, hfresh, rfl⟩ := h
  exact ⟨hroot, by simpa using hfresh, by simp⟩

/-! ## The calls keep the records -/

section Respects

variable {R : Chain H → Chain H → Prop} [Std.Refl R] [IsTrans _ R]

instance : Respects R (requireAdmin : Contract H Unit) := by
  unfold requireAdmin
  infer_instance

instance {writer : Address} : Respects R (requireWriter writer : Contract H Unit) := by
  unfold requireWriter
  infer_instance

instance {value : BytesN32} : Respects R (validateCommitment value : Contract H Unit) := by
  unfold validateCommitment
  infer_instance

instance : Respects R (leafCount : Contract H ℕ) := by
  unfold leafCount requirePoseidon2Tree
  infer_instance

instance {left right : BytesN32} : Respects R (fieldHashPair left right : Contract H BytesN32) := by
  unfold fieldHashPair
  infer_instance

instance {remaining level cursor : ℕ} {node : BytesN32} :
    Respects R (rootLevels remaining level cursor node : Contract H BytesN32) := by
  induction remaining generalizing level cursor node with
  | zero => unfold rootLevels; infer_instance
  | succ remaining ih => unfold rootLevels; infer_instance

instance {count : ℕ} : Respects R (rootFromFrontier count : Contract H BytesN32) := by
  unfold rootFromFrontier
  infer_instance

end Respects

/-- An update that leaves the records alone. -/
theorem keeps_modify {f : PositionStateStorage → PositionStateStorage}
    (hs : ∀ s, (f s).spent = s.spent) (hr : ∀ s x, s.poseidon2Root x → (f s).poseidon2Root x) :
    Keeps (H := H) (modifyStorage .positionState f) :=
  keeps_modifyStorage fun s => ⟨fun _ h => (hs s).symm ▸ h, hr s⟩

instance keeps_appendLevels {remaining level cursor : ℕ} {node : BytesN32} :
    Keeps (appendLevels remaining level cursor node : Contract H (Option BytesN32)) := by
  induction remaining generalizing level cursor node with
  | zero => unfold appendLevels; infer_instance
  | succ remaining ih =>
    unfold appendLevels
    have hleft : Keeps (H := H) (modifyStorage .positionState fun s =>
        { s with frontier := Function.update s.frontier level (some node) }) :=
      keeps_modify (fun _ => rfl) fun _ _ h => h
    infer_instance

instance keeps_storeEmptyLevels {remaining level : ℕ} {root : BytesN32} :
    Keeps (storeEmptyLevels remaining level root : Contract H BytesN32) := by
  induction remaining generalizing level root with
  | zero => unfold storeEmptyLevels; infer_instance
  | succ remaining ih =>
    unfold storeEmptyLevels
    exact Respects.andThen (keeps_modify (fun _ => rfl) fun _ _ h => h) fun _ => inferInstance

instance keeps_storeEmptyNodes : Keeps (storeEmptyNodes : Contract H BytesN32) :=
  keeps_storeEmptyLevels

instance keeps_init {governance : Address} : Keeps (init governance : Contract H Unit) := by
  unfold init
  refine Respects.andThen inferInstance fun _ => Respects.andThen inferInstance fun _ =>
    Respects.andThen inferInstance fun root => ?_
  exact keeps_modify (fun _ => rfl) fun _ _ h => record_true root h

instance keeps_setWriter {writer : Address} {enabled : Bool} :
    Keeps (setWriter writer enabled : Contract H Unit) := by
  unfold setWriter
  exact Respects.andThen inferInstance fun _ => keeps_modify (fun _ => rfl) fun _ _ h => h

instance keeps_resetForPoseidon2 : Keeps (resetForPoseidon2 : Contract H Unit) := by
  unfold resetForPoseidon2
  repeat refine Respects.andThen inferInstance fun _ => ?_
  exact keeps_modify (fun _ => rfl) fun _ _ h => record_true _ h

instance keeps_appendEach {commitments : List BytesN32} {index : ℕ} {fullRoot : Option BytesN32} :
    Keeps (appendEach commitments index fullRoot : Contract H (ℕ × Option BytesN32)) := by
  induction commitments generalizing index fullRoot with
  | nil => unfold appendEach; infer_instance
  | cons commitment commitments ih => unfold appendEach appendFrontier; infer_instance

instance keeps_appendMany {writer : Address} {commitments : List BytesN32} :
    Keeps (appendMany writer commitments : Contract H AppendReceipt) := by
  unfold appendMany
  repeat refine Respects.andThen inferInstance fun _ => ?_
  rename_i appended
  have hroot : Keeps (H := H) (match appended.2 with
      | some root => pure root
      | none => rootFromFrontier appended.1) := by
    cases appended.2 <;> infer_instance
  refine Respects.andThen hroot fun root => ?_
  exact Respects.andThen (keeps_modify (fun _ => rfl) fun _ _ h => record_true root h)
    fun _ => inferInstance

instance keeps_append {writer : Address} {commitment : BytesN32} :
    Keeps (append writer commitment : Contract H AppendReceipt) := keeps_appendMany

instance keeps_spendPosition {writer : Address} {root commitment nullifier : BytesN32} :
    Keeps (spendPosition writer root commitment nullifier : Contract H Unit) := by
  unfold spendPosition
  repeat refine Respects.andThen inferInstance fun _ => ?_
  exact keeps_modifyStorage fun _ => ⟨fun _ h => record_some nullifier _ h, fun _ h => h⟩

end Pnlx.PositionState
