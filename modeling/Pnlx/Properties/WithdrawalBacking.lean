import Pnlx.Properties.Withdrawals

/-!
# Withdrawals and recorded commitments

The withdraw circuit proves that a note lies in some tree with the public root. The pool takes the
root from the caller and compares it with nothing. A withdrawal whose root is that of a tree of
recorded commitments opens one of them (`recorded_of_backed`), so a run of such withdrawals pays
only for notes that it has recorded before (`withdrawals_backed`).
-/

namespace Pnlx

open Program Runs ShieldedPool

variable {H : Host} {Q : Set (Fr × Fr)} {S : Set Bytes}

/-- The pool has recorded a commitment that stands for the field element. -/
def Recorded (c : Chain H) (pool : Address) (x : Fr) : Prop :=
  ∃ commitment, (c.storage .shieldedPool pool).commitment commitment ∧ toField commitment = x

/-- The root of a withdrawal is that of a tree whose leaves are empty or recorded. -/
def Backed (Q : Set (Fr × Fr)) (c : Chain H) (w : Address × Withdrawal) : Prop :=
  ∃ leaves : ℕ → Fr, toField w.2.root = MerkleTree.root (hashPair H) 8 leaves ∧
    (∀ q ∈ MerkleTree.rootQueries (hashPair H) 8 leaves, q ∈ Q) ∧
    ∀ i < 2 ^ 8, leaves i = 0 ∨ Recorded c w.1 (leaves i)

/-- The assignment proves the statement of a withdrawal, and its pairs lie in `Q`. -/
structure Proves (H : Host) (Q : Set (Fr × Fr)) (a : Withdraw.Assignment) (w : Withdrawal) :
    Prop where
  main : Withdraw.main H a = some ()
  publicInputs : a.publicInputs = w.publicInputs
  within : ∀ q ∈ a.queries H, q ∈ Q

/-- The proof ledger of a pool has records of proven statements only: each hash that it records for
the withdraw circuit is the hash of the public inputs of a satisfying assignment. -/
def LedgerSound (Q : Set (Fr × Fr)) (S : Set Bytes) (c : Chain H) (pool : Address) : Prop :=
  ∀ ledger key, (c.storage .shieldedPool pool).proofLedger = some ledger →
    (c.storage .shieldedPool pool).withdrawCircuit = some key.circuitId →
    (c.storage .proofLedger ledger).proof key →
    ∃ a : Withdraw.Assignment, Withdraw.main H a = some () ∧ (∀ q ∈ a.queries H, q ∈ Q) ∧
      encodePublicInputs a.publicInputs ∈ S ∧
      key.publicInputHash = H.sha256 (encodePublicInputs a.publicInputs)

/-- A successful withdrawal has a satisfying assignment. -/
theorem exists_proves (hS : H.ShaInjOn S) {c c' : Chain H} {w : Address × Withdrawal}
    (hw : Withdrawn w.1 c c' w.2) (hmem : encodePublicInputs w.2.publicInputs ∈ S)
    (hsound : LedgerSound Q S c w.1) : ∃ a, Proves H Q a w.2 := by
  obtain ⟨ledger, hledger, hproof⟩ := hw.proof
  obtain ⟨a, hmain, hwithin, hamem, hhash⟩ := hsound ledger w.2.proof.key hledger hw.circuit hproof
  have hsha : H.sha256 (encodePublicInputs a.publicInputs) =
      H.sha256 (encodePublicInputs w.2.publicInputs) := by
    rw [← hhash, ← hw.hash]
    rfl
  exact ⟨a, hmain, encodePublicInputs_injective (hS hamem hmem hsha), hwithin⟩

/-- A withdrawal from a tree of recorded commitments opens a recorded commitment. -/
theorem recorded_of_backed (hQ : CollisionFree (hashPair H) Q)
    (hzero : ∀ q ∈ Q, hashPair H q.1 q.2 ≠ 0) {c : Chain H} {w : Address × Withdrawal}
    (hbacked : Backed Q c w) {a : Withdraw.Assignment} (ha : Proves H Q a w.2) :
    Recorded c w.1 (a.note.commitment H) := by
  obtain ⟨leaves, hroot, hleaves, hrecorded⟩ := hbacked
  have hinputs := ha.publicInputs
  unfold Withdraw.Assignment.publicInputs Withdrawal.publicInputs at hinputs
  simp only [List.cons.injEq] at hinputs
  have hclimb : MerkleTree.climb (hashPair H) (a.note.commitment H)
      (pathOf a.pathSiblings a.pathIndices) = MerkleTree.root (hashPair H) 8 leaves := by
    rw [← merkleRoot_eq_climb, (Withdraw.facts ha.main).root, hinputs.2.1, hroot]
  have hlength : (pathOf a.pathSiblings a.pathIndices).length = 8 := length_pathOf _ _
  obtain ⟨i, hi, hleaf⟩ := MerkleTree.climb_eq_root hQ
    (Withdraw.Assignment.path_within ha.within) (by rw [hlength]; exact hleaves)
    (by rw [hlength]; exact hclimb)
  rw [hlength] at hi
  rcases hrecorded i hi with h0 | hrec
  · obtain ⟨q, hq, hpair⟩ := Note.exists_pair_mem (Withdraw.Assignment.note_within ha.within)
    exact absurd (by rw [hpair, ← hleaf, h0]) (hzero q hq)
  · rwa [hleaf] at hrec

/-- The withdrawal has a satisfying assignment, and what such an assignment opens is a commitment
that the pool has recorded in a step of the run before `x`. -/
def OpensEarlier (Q : Set (Fr × Fr)) (run : List (Step (Chain H) (Action H)))
    (x : Step (Chain H) (Action H)) (w : Address × Withdrawal) : Prop :=
  (∃ a, Proves H Q a w.2) ∧
    ∀ a, Proves H Q a w.2 →
      ∃ commitment, toField commitment = a.note.commitment H ∧
        ∃ before after, run = before ++ x :: after ∧
          ∃ y ∈ before, ¬ (y.pre.storage .shieldedPool w.1).commitment commitment ∧
            (y.post.storage .shieldedPool w.1).commitment commitment

/-- **Withdrawals are backed, if their roots are.** In a run from the blank ledger whose withdrawals
use roots of recorded commitments, every withdrawal has a satisfying assignment, and the commitment
that it opens was recorded by the pool in an earlier step. -/
theorem withdrawals_backed {e : H.State} {as : List (Action H)}
    (hQ : CollisionFree (hashPair H) Q) (hzero : ∀ q ∈ Q, hashPair H q.1 q.2 ≠ 0)
    (hS : H.ShaInjOn S) (hmem : withdrawalStrings (Chain.blank e) as ⊆ S)
    (hsound : ∀ x ∈ accepted step (Chain.blank e) as, ∀ w ∈ x.act.withdrawals,
      LedgerSound Q S x.pre w.1)
    (hbacked : ∀ x ∈ accepted step (Chain.blank e) as, ∀ w ∈ x.act.withdrawals,
      Backed Q x.pre w) :
    ∀ x ∈ accepted step (Chain.blank e) as, ∀ w ∈ x.act.withdrawals,
      OpensEarlier Q (accepted step (Chain.blank e) as) x w := by
  intro x hx w hw
  have hwithdrawn : Withdrawn w.1 x.pre x.post w.2 := withdrawn_of_mem (accepted_ok x hx).1 w hw
  have hrun : w ∈ runWithdrawals (Chain.blank e) as := List.mem_flatMap.mpr ⟨x, hx, hw⟩
  refine ⟨exists_proves hS hwithdrawn (hmem (mem_withdrawalStrings hrun)) (hsound x hx w hw),
    fun a ha => ?_⟩
  obtain ⟨commitment, hcommitment, hfield⟩ := recorded_of_backed hQ hzero (hbacked x hx w hw) ha
  exact ⟨commitment, hfield,
    exists_earlier (P := fun c => (c.storage .shieldedPool w.1).commitment commitment)
      Bool.false_ne_true hx hcommitment⟩

section Examples

open SampleHost

/-- The commitment of the note that `sampleWithdrawal 6` opens, and its tree. -/
def sampleCommitment : Fr := (sampleWithdrawal 6).note.commitment sampleHost

def sampleLeaves (i : ℕ) : Fr := if i = 0 then sampleCommitment else 0

def backingPairs : List (Fr × Fr) :=
  ((sampleWithdrawal 6).queries sampleHost ++
    MerkleTree.rootQueries (hashPair sampleHost) 8 sampleLeaves).dedup

/-- A note is deposited and withdrawn. -/
def depositedNote : List (Action sampleHost) :=
  deployPool ++ [recordWithdraw (sampleWithdrawal 6),
    adminTx (.contract 4) (.poolDeposit (ofField sampleCommitment)),
    withdrawTo9 (sampleWithdrawal 6) (ofField (sampleWithdrawal 6).nullifier)]

/-- A note that nobody has deposited is withdrawn. -/
def undepositedNote : List (Action sampleHost) :=
  deployPool ++ [recordWithdraw (sampleWithdrawal 6),
    withdrawTo9 (sampleWithdrawal 6) (ofField (sampleWithdrawal 6).nullifier)]

/-- The withdrawals of the run show the root of the sample tree, whose note is recorded. -/
theorem depositedNote_facts :
    (∀ x ∈ accepted step sampleLedger depositedNote, ∀ w ∈ x.act.withdrawals,
      toField w.2.root = MerkleTree.root (hashPair sampleHost) 8 sampleLeaves ∧
        (x.pre.storage .shieldedPool w.1).commitment (ofField sampleCommitment) ∧
        w.2.publicInputs = (sampleWithdrawal 6).publicInputs) ∧
      Withdraw.main sampleHost (sampleWithdrawal 6) = some () ∧
      ∀ q ∈ backingPairs, hashPair sampleHost q.1 q.2 ≠ 0 := by
  decide +kernel

theorem backed_depositedNote :
    ∀ x ∈ accepted step sampleLedger depositedNote, ∀ w ∈ x.act.withdrawals,
      Backed {q | q ∈ backingPairs} x.pre w := by
  intro x hx w hw
  obtain ⟨hroot, hrecorded, -⟩ := depositedNote_facts.1 x hx w hw
  refine ⟨sampleLeaves, hroot, fun q hq => List.mem_dedup.mpr (List.mem_append_right _ hq),
    fun i _ => ?_⟩
  unfold sampleLeaves
  split_ifs
  · exact Or.inr ⟨_, hrecorded, toField_ofField _⟩
  · exact Or.inl rfl

theorem ledgerSound_depositedNote :
    ∀ x ∈ accepted step sampleLedger depositedNote, ∀ w ∈ x.act.withdrawals,
      LedgerSound {q | q ∈ backingPairs}
        {bytes | bytes ∈ [encodePublicInputs (sampleWithdrawal 6).publicInputs]} x.pre w.1 := by
  intro x hx w _ ledger key _ _ hproof
  have hkey : key ∈ depositedNote.flatMap Action.recordedKeys :=
    recorded_of_run x hx ledger key hproof
  have hkeys : depositedNote.flatMap Action.recordedKeys =
      [(proofOf 5 (sampleWithdrawal 6).publicInputs).key] := rfl
  rw [hkeys, List.mem_singleton] at hkey
  rw [hkey]
  exact ⟨sampleWithdrawal 6, depositedNote_facts.2.1,
    fun q hq => List.mem_dedup.mpr (List.mem_append_left _ hq), List.mem_singleton_self _, rfl⟩

theorem backingPairs_ne_zero : ∀ q ∈ backingPairs, hashPair sampleHost q.1 q.2 ≠ 0 :=
  depositedNote_facts.2.2

theorem withdrawalStrings_depositedNote :
    ∀ bytes ∈ (runWithdrawals sampleLedger depositedNote).map fun w =>
      encodePublicInputs w.2.publicInputs,
        bytes ∈ [encodePublicInputs (sampleWithdrawal 6).publicInputs] := by
  intro bytes hbytes
  obtain ⟨w, hw, rfl⟩ := List.mem_map.mp hbytes
  obtain ⟨x, hx, hw⟩ := List.mem_flatMap.mp hw
  rw [(depositedNote_facts.1 x hx w hw).2.2]
  exact List.mem_singleton_self _

/-- One note is withdrawn in the run, and it was deposited before. -/
theorem withdrawals_backed_depositedNote :
    (runWithdrawals sampleLedger depositedNote).length = 1 ∧
      ∀ x ∈ accepted step sampleLedger depositedNote, ∀ w ∈ x.act.withdrawals,
        OpensEarlier {q | q ∈ backingPairs} (accepted step sampleLedger depositedNote) x w :=
  ⟨by decide +kernel,
    withdrawals_backed (collisionFree_of_list (by decide +kernel)) backingPairs_ne_zero
      (shaInjOn_of_list (by decide +kernel)) withdrawalStrings_depositedNote
      ledgerSound_depositedNote backed_depositedNote⟩

/-- A verified withdrawal opens a commitment that the pool has never recorded. -/
theorem exists_unbacked_withdrawal :
    ∃ (e : sampleHost.State) (as : List (Action sampleHost)) (a : Withdraw.Assignment),
      Withdraw.main sampleHost a = some () ∧
      (∀ key ∈ as.flatMap Action.recordedKeys,
        key.publicInputHash = sampleHost.sha256 (encodePublicInputs a.publicInputs)) ∧
      CollisionFree (hashPair sampleHost) {q | q ∈ a.queries sampleHost} ∧
      ∃ x ∈ accepted step (Chain.blank e) as, ∃ w ∈ x.act.withdrawals,
        w.2.publicInputs = a.publicInputs ∧
          ¬ Recorded x.pre w.1 (a.note.commitment sampleHost) := by
  have hrun : ∃ x ∈ accepted step sampleLedger undepositedNote, ∃ w ∈ x.act.withdrawals,
      w.2.publicInputs = (sampleWithdrawal 6).publicInputs ∧
        ∀ i < 6, (x.pre.storage .shieldedPool w.1).commitment
          (BitVec.ofNat 256 (sampleCommitment.val + bn254ScalarModulus * i)) = false := by
    decide +kernel
  obtain ⟨x, hx, w, hw, hinputs, hnone⟩ := hrun
  refine ⟨_, undepositedNote, sampleWithdrawal 6, by decide +kernel, by decide +kernel,
    collisionFree_of_list (by decide +kernel), x, hx, w, hw, hinputs, ?_⟩
  rintro ⟨commitment, hrecorded, hfield⟩
  obtain ⟨i, hi, rfl⟩ := exists_alias hfield
  exact Bool.false_ne_true ((hnone i hi).symm.trans hrecorded)

end Examples

end Pnlx
