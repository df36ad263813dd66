import Pnlx.Properties.PositionAppends
import Pnlx.Server.BatchExecutor
import Pnlx.Server.StorePositions

/-!
# The positions of the ledger and of the server

A run in which the server commits every settlement and every close of the ledger, in the same
order. The position state appends whatever commitments it is given. The server adds them to a set,
so one that it has already is lost. As long as every commitment is new, the set lists the leaves of
the position state (`positions_mirrored`); after the first that is not, it is shorter for ever.
-/

namespace Pnlx.Server

open BatchMatch (Text hexText)
open PositionState (HashesOn treeRoot)
open Script Runs

variable {H : Host} {P : Fr → Fr → Fr} {p : Address}

/-! ## Runs of the ledger and the server -/

/-- A step of the ledger alone or of the store alone, or a transaction with the call that commits
it to the store. -/
inductive WorldAction (H : Host) where
  | ledger (action : Action H)
  | server (call : StoreCall)
  | commit (tx : Tx) (call : StoreCall)

def worldStep (H : Host) (P : Fr → Fr → Fr) (world : World H) :
    WorldAction H → Except String (World H)
  | .ledger action => do
    let ledger ← step world.ledger action
    pure { world with ledger := ledger }
  | .server call => do
    let store ← (call.script H P).commit world.store
    pure { world with store := store }
  | .commit tx call => do
    let ledger ← step world.ledger (.invoke tx)
    let store ← (call.script H P).commit world.store
    pure ⟨ledger, store⟩

/-- The commitments that the position state appends. -/
def WorldAction.leaves : WorldAction H → List BytesN32
  | .commit tx _ => tx.call.newPositions
  | _ => []

/-- The commitments that the server adds. -/
def WorldAction.texts : WorldAction H → List Text
  | .ledger _ => []
  | .server call | .commit _ call => call.positions

/-- The server commits what settlements and closes append to the position state `p`, and nothing
else is appended to a position state or added to the store. -/
def Commits (p : Address) (x : Step (World H) (WorldAction H)) : Prop :=
  match x.act with
  | .ledger (.invoke tx) => tx.call.growsTree = false
  | .ledger (.external _) => True
  | .server call => call.positions = []
  | .commit tx call => tx.positionState x.pre.ledger = some p ∧
      (∀ text ∈ call.positions, IsHex32 text) ∧ call.positions.map hexWord = tx.call.newPositions

instance : DecidablePred (Commits (H := H) p)
  | ⟨_, .ledger (.invoke tx), _⟩ => inferInstanceAs (Decidable (tx.call.growsTree = false))
  | ⟨_, .ledger (.external _), _⟩ => .isTrue trivial
  | ⟨_, .server call, _⟩ => inferInstanceAs (Decidable (call.positions = []))
  | ⟨pre, .commit tx call, _⟩ => inferInstanceAs (Decidable (tx.positionState pre.ledger = some p ∧
      (∀ text ∈ call.positions, IsHex32 text) ∧ call.positions.map hexWord = tx.call.newPositions))

/-- The commitments are distinct, and the server has none of them. -/
def New (x : Step (World H) (WorldAction H)) : Prop :=
  x.act.texts.Nodup ∧ ∀ text ∈ x.act.texts, text ∉ x.pre.store.positionCommitments

instance : DecidablePred (New (H := H)) := fun x => by unfold New; infer_instance

/-- What the position state has appended in a run. -/
def appendedBy (xs : List (Step (World H) (WorldAction H))) : List BytesN32 :=
  xs.flatMap fun x => x.act.leaves

/-- The store lists the leaves of the position state `p`, its indices are their indices, and the
check of the executor finds both roots equal. -/
structure Mirrors (P : Fr → Fr → Fr) (p : Address) (leaves : List BytesN32) (world : World H) :
    Prop where
  appended : Appended p world.ledger leaves
  listed : world.store.positionCommitments.elems.map hexWord = leaves
  opened : ∀ record ∈ world.store.positionLifecycle.values, ∀ i, record.positionIndex = some i →
    leaves[i]? = some (hexWord record.positionCommitment)
  closed : ∀ record ∈ world.store.positionCloses.values, ∀ i, record.outputPositionIndex = some i →
    leaves[i]? = some (hexWord record.newPositionCommitment)
  synchronized : Returns (assertPositionRootSynchronized P true (some (positionRoot p))) world ()
    world

/-! ## What a step does -/

/-- What a step of the ledger and the server does, if the server commits. -/
structure Committed (p : Address) (x : Step (World H) (WorldAction H)) : Prop where
  appended : ∀ leaves, Appended p x.pre.ledger leaves →
    Appended p x.post.ledger (leaves ++ x.act.leaves)
  hex : ∀ text ∈ x.act.texts, IsHex32 text
  words : x.act.texts.map hexWord = x.act.leaves
  added : x.post.store.positionCommitments = x.pre.store.positionCommitments.addAll x.act.texts
  indexed : New x → Indexed x.pre.store → Indexed x.post.store

theorem committed_of_step {x : Step (World H) (WorldAction H)} (hcommits : Commits p x)
    (h : worldStep H P x.pre x.act = .ok x.post) : Committed p x := by
  obtain ⟨pre, act, post⟩ := x
  cases act with
  | ledger action =>
    have hgrows : ∀ tx, action = .invoke tx → tx.call.growsTree = false := by
      rintro tx rfl
      exact hcommits
    cases hledger : step pre.ledger action with
    | error e => simp [worldStep, hledger, bind, Except.bind] at h
    | ok ledger =>
      simp only [worldStep, hledger, bind, Except.bind, pure, Except.pure, Except.ok.injEq] at h
      subst h
      refine ⟨fun leaves hist => ?_, fun _ hmem => absurd hmem List.not_mem_nil, rfl, rfl,
        fun _ hindexed => hindexed⟩
      rw [show (WorldAction.ledger action).leaves = [] from rfl, List.append_nil]
      exact hist.step hgrows hledger
  | server call =>
    have hcommits : call.positions = [] := hcommits
    cases hstore : (call.script H P).commit pre.store with
    | error e => simp [worldStep, hstore, bind, Except.bind] at h
    | ok store =>
      simp only [worldStep, hstore, bind, Except.bind, pure, Except.pure, Except.ok.injEq] at h
      subst h
      have hreturns := commit_eq_ok.mp hstore
      have htexts : (WorldAction.server call : WorldAction H).texts = [] := hcommits
      refine ⟨fun leaves hist => ?_, ?_, ?_, (trees_of_returns hreturns).2,
        fun hnew hindexed => indexed_of_returns hnew hindexed hreturns⟩
      · rw [show (WorldAction.server call : WorldAction H).leaves = [] from rfl, List.append_nil]
        exact hist
      · rw [htexts]
        exact fun _ hmem => absurd hmem List.not_mem_nil
      · rw [htexts]
        rfl
  | commit tx call =>
    obtain ⟨hp, hhex, hwords⟩ : tx.positionState pre.ledger = some p ∧
      (∀ text ∈ call.positions, IsHex32 text) ∧ call.positions.map hexWord = tx.call.newPositions :=
        hcommits
    cases hledger : step pre.ledger (.invoke tx) with
    | error e => simp [worldStep, hledger, bind, Except.bind] at h
    | ok ledger =>
      cases hstore : (call.script H P).commit pre.store with
      | error e => simp [worldStep, hledger, hstore, bind, Except.bind] at h
      | ok store =>
        simp only [worldStep, hledger, hstore, bind, Except.bind, pure, Except.pure,
          Except.ok.injEq] at h
        subst h
        have hreturns := commit_eq_ok.mp hstore
        exact ⟨fun leaves hist => hist.commit hp hledger, hhex, hwords,
          (trees_of_returns hreturns).2,
          fun hnew hindexed => indexed_of_returns hnew hindexed hreturns⟩

/-! ## What a run keeps -/

/-- The position state has appended the commitments of the run, and the store has added no more of
them. It has added as many only if all were new, and then it lists them. -/
structure Follows (p : Address) (world : World H) (xs : List (Step (World H) (WorldAction H))) :
    Prop where
  appended : Appended p world.ledger (appendedBy xs)
  hex : ∀ text ∈ world.store.positionCommitments, IsHex32 text
  size : world.store.positionCommitments.size ≤ (appendedBy xs).length
  new : world.store.positionCommitments.size = (appendedBy xs).length → ∀ x ∈ xs, New x
  listed : (∀ x ∈ xs, New x) →
    world.store.positionCommitments.elems.map hexWord = appendedBy xs ∧ Indexed world.store

theorem appendedBy_append (xs : List (Step (World H) (WorldAction H)))
    (x : Step (World H) (WorldAction H)) :
    appendedBy (xs ++ [x]) = appendedBy xs ++ x.act.leaves := by
  rw [appendedBy, List.flatMap_append, List.flatMap_singleton]
  rfl

/-- **The step lemma.** -/
theorem Follows.step {x : Step (World H) (WorldAction H)}
    {xs : List (Step (World H) (WorldAction H))} (hx : Committed p x) (h : Follows p x.pre xs) :
    Follows p x.post (xs ++ [x]) := by
  have hlength : x.act.leaves.length = x.act.texts.length := by
    rw [← hx.words, List.length_map]
  have hbound := OrderedSet.size_addAll_le x.pre.store.positionCommitments x.act.texts
  have hsize := h.size
  refine ⟨?_, ?_, ?_, ?_, ?_⟩
  · rw [appendedBy_append]
    exact hx.appended _ h.appended
  · intro text hmem
    rw [hx.added] at hmem
    exact (OrderedSet.mem_addAll.mp hmem).elim (h.hex text) (hx.hex text)
  · rw [appendedBy_append, List.length_append, hx.added]
    omega
  · -- the sizes agree only if they did before and nothing is lost in this step
    rw [appendedBy_append, List.length_append, hx.added]
    intro heq y hy
    rcases List.mem_append.mp hy with hy | hy
    · exact h.new (by omega) y hy
    · rw [List.mem_singleton.mp hy]
      exact OrderedSet.size_addAll_eq_iff.mp (by omega)
  · intro hnew
    obtain ⟨hlisted, hindexed⟩ := h.listed fun y hy => hnew y (List.mem_append_left _ hy)
    have hnewx : New x := hnew x (List.mem_append_right _ (List.mem_singleton_self x))
    refine ⟨?_, hx.indexed hnewx hindexed⟩
    rw [appendedBy_append, hx.added, OrderedSet.elems_addAll_eq_append_iff.mpr hnewx,
      List.map_append, hlisted, hx.words]

/-- A world that follows a run of new commitments mirrors it. -/
theorem Follows.mirrors (hP : HashesOn H P fun _ => True) {world : World H}
    {xs : List (Step (World H) (WorldAction H))} (h : Follows p world xs) (hnew : ∀ x ∈ xs, New x) :
    Mirrors P p (appendedBy xs) world := by
  obtain ⟨hlisted, hindexed⟩ := h.listed hnew
  have hget {i : ℕ} {text : Text} (hi : world.store.positionCommitments.elems[i]? = some text) :
      (appendedBy xs)[i]? = some (hexWord text) := by
    rw [← hlisted, List.getElem?_map, hi, Option.map_some]
  refine ⟨h.appended, hlisted, fun record hmem i hi => hget (hindexed.opened record hmem i hi),
    fun record hmem i hi => hget (hindexed.closed record hmem i hi), ?_⟩
  obtain ⟨past, hist⟩ := h.appended
  obtain ⟨htree, -⟩ := PositionState.history_tree hP hist fun _ _ => trivial
  have hreads : world.store.positionCommitments.elems.mapM (fun text => toField (.hex text)) =
      some ((appendedBy xs).map Pnlx.toField) := by
    rw [← hlisted, List.map_map]
    exact mapM_eq_map fun text htext => (h.hex text htext).reads.2.1
  have hfits : ((appendedBy xs).map Pnlx.toField).length ≤ 2 ^ positionMerkleDepth :=
    htree.nodes.fits
  have hlocal : world.store.positionMembershipRoot P =
      some (hexText (treeRoot P ((appendedBy xs).map Pnlx.toField)).toNat) := by
    unfold ProtocolStore.positionMembershipRoot
    rw [positionMerkleRoot_eq hreads hfits, treeRoot, toNat_ofField]
    rfl
  have honchain : Program.Returns PositionState.currentRoot ⟨[], none, p, 0⟩ world.ledger
      (treeRoot P ((appendedBy xs).map Pnlx.toField)) world.ledger := by
    unfold PositionState.currentRoot PositionState.requirePoseidon2Tree
    simp [htree.version, htree.current]
  unfold assertPositionRootSynchronized positionRoot
  simp only [returns_doIf, returns_bind, returns_read, returns_orThrow, returns_view, returns_pure,
    returns_throwIf, id]
  refine Or.inl ⟨trivial, _, _, ⟨rfl, rfl⟩, _, _, ⟨hlocal, rfl⟩, _, _, ?_, fun hne => hne rfl, rfl⟩
  exact ⟨_, _, ⟨⟨_, honchain⟩, rfl⟩, rfl, rfl⟩

theorem follows_nil {ledger : Chain H} (hstart : Appended p ledger []) :
    Follows p ⟨ledger, .empty⟩ [] := by
  refine ⟨hstart, fun _ hmem => absurd hmem OrderedSet.not_mem_empty, le_rfl,
    fun _ _ hmem => absurd hmem List.not_mem_nil, fun _ => ⟨rfl, ?_, ?_⟩⟩
  · exact fun _ hmem => absurd hmem List.not_mem_nil
  · exact fun _ hmem => absurd hmem List.not_mem_nil

/-- **The run lemma.** A run in which the server commits is followed by the world it reaches. -/
theorem follows_of_run {ledger : Chain H} (hstart : Appended p ledger [])
    {acts : List (WorldAction H)}
    (hcommits : ∀ x ∈ accepted (worldStep H P) ⟨ledger, .empty⟩ acts, Commits p x) :
    Follows p (final (worldStep H P) ⟨ledger, .empty⟩ acts)
      (accepted (worldStep H P) ⟨ledger, .empty⟩ acts) := by
  have hstep (x : Step (World H) (WorldAction H)) (hx : Commits p x)
      (h : worldStep H P x.pre x.act = .ok x.post) (xs) (hxs : Follows p x.pre xs) :
      Follows p x.post (xs ++ [x]) := hxs.step (committed_of_step hx h)
  exact final_of_steps hstep (follows_nil hstart) hcommits

/-- **The server mirrors the position state exactly as long as all commitments are new.** In a run
from an empty tree and a new store, in which the server commits every settlement and every close
of the ledger and nothing else, the store lists the leaves of the position state, has their indices
and computes their root if and only if every commitment that was committed was new to the server. -/
theorem positions_mirrored (hP : HashesOn H P fun _ => True) {ledger : Chain H}
    (hstart : Appended p ledger []) (acts : List (WorldAction H))
    (hcommits : ∀ x ∈ accepted (worldStep H P) ⟨ledger, .empty⟩ acts, Commits p x) :
    (∀ x ∈ accepted (worldStep H P) ⟨ledger, .empty⟩ acts, New x) ↔
      Mirrors P p (appendedBy (accepted (worldStep H P) ⟨ledger, .empty⟩ acts))
        (final (worldStep H P) ⟨ledger, .empty⟩ acts) := by
  have hfollows := follows_of_run hstart hcommits
  constructor
  · exact hfollows.mirrors hP
  · intro hmirrors
    have hlength := congrArg List.length hmirrors.listed
    rw [List.length_map] at hlength
    exact hfollows.new hlength

/-! ## Two closes that leave the same position -/

section Examples

open SampleHost

/-- The deployment of the contracts around the position state up to its start. -/
def deployLedger : List (Action sampleHost) :=
  [adminTx (.contract 2) (.governanceInit sampleAdmin),
    adminTx (.contract 2) (.governanceSetVerifier 5 2 sampleAdmin),
    adminTx (.contract 3) (.proofLedgerInit (.contract 2)),
    adminTx (.contract 6) (.marketInit (.contract 2)),
    adminTx (.contract 6) (.marketUpsert (marketKey sampleHost "A") (sampleMarket "A"))]

def startTree : Action sampleHost := adminTx (.contract 7) (.stateInit (.contract 2))

/-- A ledger on which the tree of positions has just been started. -/
def startedLedger : Chain sampleHost := final step (final step oracleLedger deployLedger) [startTree]

/-- The close of a position, known by its nullifier, under the root of the empty tree. -/
def emptyTreeClose (positionNullifier closeCommitment : Fr) : CloseArgs :=
  closeArgs (marketKey sampleHost "A") 5 { sampleClose with
    positionRoot := SampleHost.emptyRoot 20
    positionNullifier := positionNullifier
    closeCommitment := closeCommitment }

def wordText (word : BytesN32) : Text := hexText word.toNat

def proofRecordOf (proof : ProofMeta) : ProofRecord where
  circuitId := "position-close".toList
  circuitKey := wordText proof.circuitId
  verifierHash := wordText proof.verifierHash
  publicInputHash := wordText proof.publicInputHash
  proofDigest := wordText proof.proofDigest
  proofSystem := none
  imageId := none
  journalDigest := none
  sealDigest := none

def closeRecord (args : CloseArgs) : PositionCloseRecord where
  marketId := "A".toList
  markPrice := args.markPrice.toInt
  positionCommitment := wordText args.positionCommitment
  positionNullifier := wordText args.positionNullifier
  positionRoot := wordText args.positionRoot
  closeCommitment := wordText args.closeCommitment
  newPositionCommitment := wordText args.newPositionCommitment
  marginOutputCommitment := wordText args.marginOutputCommitment
  outputPositionIndex := none
  outputPositionRoot := none
  proof := proofRecordOf args.proof

/-- A manual close with its proof, on the ledger and in the store. -/
def commitClose (args : CloseArgs) : List (WorldAction sampleHost) :=
  [.ledger (adminTx (.contract 3) (.proofLedgerRecord sampleAdmin args.proof.key)),
    .server (.recordProof (proofRecordOf args.proof)),
    .commit ⟨[], 0, .contract 8, .closeSettleManual args⟩ (.addManualPositionClose (closeRecord args))]

def deployClose : List (WorldAction sampleHost) :=
  [.ledger (adminTx (.contract 7) (.stateSetWriter (.contract 8) true)),
    .ledger (adminTx (.contract 8)
      (.closeInit (.contract 2) (.contract 3) (.contract 9) (.contract 6) (.contract 7) 5))]

/-- One close. -/
def closeOnce : List (WorldAction sampleHost) := deployClose ++ commitClose (emptyTreeClose 31 41)

/-- Two closes of different positions that leave positions with the same commitment. -/
def closeTwice : List (WorldAction sampleHost) := closeOnce ++ commitClose (emptyTreeClose 32 42)

theorem appended_startedLedger : Appended (.contract 7) startedLedger [] := by
  have hok : (step (final step oracleLedger deployLedger) startTree).isOk := by decide +kernel
  unfold startedLedger
  cases h : step (final step oracleLedger deployLedger) startTree with
  | error e =>
    rw [h] at hok
    cases hok
  | ok started =>
    rw [final_cons_ok h, final_nil]
    exact ⟨_, .init rfl (step_invoke_eq_ok.mp h)⟩

theorem hashesOn_sampleHost : HashesOn sampleHost pairHash fun _ => True where
  encoded _ := trivial
  pair _ _ _ _ _ h := (Except.ok.inj h).symm

theorem mirrors_closeOnce :
    Mirrors pairHash (.contract 7)
      (appendedBy (accepted (worldStep sampleHost pairHash) ⟨startedLedger, .empty⟩ closeOnce))
      (final (worldStep sampleHost pairHash) ⟨startedLedger, .empty⟩ closeOnce) := by
  have hrun : ∀ x ∈ accepted (worldStep sampleHost pairHash) ⟨startedLedger, .empty⟩ closeOnce,
      Commits (.contract 7) x ∧ New x := by decide +kernel
  exact (positions_mirrored hashesOn_sampleHost appended_startedLedger closeOnce
    fun x hx => (hrun x hx).1).mp fun x hx => (hrun x hx).2

/-- **The server loses a position.** It commits both closes, and its check blocks the market. -/
theorem closeTwice_not_mirrored :
    Appended (.contract 7) startedLedger [] ∧
      (∀ x ∈ accepted (worldStep sampleHost pairHash) ⟨startedLedger, .empty⟩ closeTwice,
        Commits (.contract 7) x) ∧
      ¬ Mirrors pairHash (.contract 7)
        (appendedBy (accepted (worldStep sampleHost pairHash) ⟨startedLedger, .empty⟩ closeTwice))
        (final (worldStep sampleHost pairHash) ⟨startedLedger, .empty⟩ closeTwice) ∧
      ¬ ((assertPositionRootSynchronized pairHash true (some (positionRoot (.contract 7))))
        (final (worldStep sampleHost pairHash) ⟨startedLedger, .empty⟩ closeTwice)).1.isOk := by
  have hrun :
      (∀ x ∈ accepted (worldStep sampleHost pairHash) ⟨startedLedger, .empty⟩ closeTwice,
        Commits (.contract 7) x) ∧
      (final (worldStep sampleHost pairHash) ⟨startedLedger, .empty⟩
        closeTwice).store.positionCommitments.elems.length <
      (appendedBy (accepted (worldStep sampleHost pairHash) ⟨startedLedger, .empty⟩
        closeTwice)).length ∧
      ¬ ((assertPositionRootSynchronized pairHash true (some (positionRoot (.contract 7))))
        (final (worldStep sampleHost pairHash) ⟨startedLedger, .empty⟩ closeTwice)).1.isOk := by
    decide +kernel
  obtain ⟨hcommits, hlength, hblocked⟩ := hrun
  refine ⟨appended_startedLedger, hcommits, fun hmirrors => hlength.ne ?_, hblocked⟩
  rw [← hmirrors.listed, List.length_map]

end Examples

end Pnlx.Server
