import Pnlx.Frames
import Pnlx.SampleHost

/-!
# Withdrawals in a run

`runWithdrawals c as` lists the successful withdrawals of a run with their pools, in order.

1. `withdrawn_of_mem`: what each of them has checked and done.
2. The pool records a nullifier under its 32 bytes, but the proof binds its field element. A run
   whose withdrawals pass canonical nullifiers withdraws at most once for each field element and
   for each proof (`withdrawals_nodup`); a nullifier and its alias above the modulus withdraw
   twice with one proof.
-/

namespace Pnlx

open Program Runs ShieldedPool

variable {H : Host}

/-- The withdrawal that a call makes if it succeeds. -/
def Call.withdrawals (H : Host) : Call → List Withdrawal
  | poolWithdraw root nullifier tokenDigest recipient amount proof changeCommitment =>
    [⟨amount, root, nullifier, tokenDigest, recipient, changeCommitment, proof⟩]
  | poolWithdrawAsset token root nullifier recipient amount proof changeCommitment =>
    [⟨amount, root, nullifier, addressDigest H token, addressDigest H recipient, changeCommitment,
      proof⟩]
  | _ => []

/-- The withdrawal of an action with its pool. -/
def Action.withdrawals : Action H → List (Address × Withdrawal)
  | invoke tx => (tx.call.withdrawals H).map fun w => (tx.target, w)
  | external _ => []

/-- The successful withdrawals of a run. -/
def runWithdrawals (c : Chain H) (as : List (Action H)) : List (Address × Withdrawal) :=
  (accepted step c as).flatMap fun x => x.act.withdrawals

/-- A successful withdrawal has checked and done what `Withdrawn` says. -/
theorem withdrawn_of_mem {c c' : Chain H} {a : Action H} (h : step c a = .ok c') :
    ∀ w ∈ a.withdrawals, Withdrawn w.1 c c' w.2 := by
  intro w hw
  cases a with
  | external state => exact absurd hw (List.not_mem_nil)
  | invoke tx =>
    have hrun := step_invoke_eq_ok.mp h
    unfold Action.withdrawals at hw
    obtain ⟨v, hv, rfl⟩ := List.mem_map.mp hw
    cases hcall : tx.call
    case poolWithdraw =>
      rw [hcall] at hv hrun
      rw [List.mem_singleton.mp hv]
      exact withdraw_returns hrun
    case poolWithdrawAsset =>
      rw [hcall] at hv hrun
      rw [List.mem_singleton.mp hv]
      exact (withdrawAsset_returns hrun).1
    all_goals
      rw [hcall] at hv
      exact absurd hv (List.not_mem_nil)

theorem withdrawn_of_mem_run {c : Chain H} {as : List (Action H)} :
    ∀ w ∈ runWithdrawals c as, ∃ x ∈ accepted step c as, Withdrawn w.1 x.pre x.post w.2 := by
  intro w hw
  obtain ⟨x, hx, hw⟩ := List.mem_flatMap.mp hw
  exact ⟨x, hx, withdrawn_of_mem (accepted_ok x hx).1 w hw⟩

/-! ## No nullifier is withdrawn twice -/

/-- What a withdrawal must not share with another: its pool and the field element of its
nullifier. -/
def withdrawalKey (w : Address × Withdrawal) : Address × Fr := (w.1, toField w.2.nullifier)

/-- A pool has recorded the canonical encoding of a field element as a nullifier. -/
def FieldSpent (c : Chain H) (k : Address × Fr) : Prop :=
  (c.storage .shieldedPool k.1).nullifier (ofField k.2)

/-- The nullifiers of a pool guard the withdrawals with canonical nullifiers. -/
theorem replayGuard_withdrawals : ReplayGuard (step (H := H))
    (fun x => ∀ w ∈ x.act.withdrawals, Canonical w.2.nullifier)
    (fun x => x.act.withdrawals.map withdrawalKey) FieldSpent where
  mono c a c' k h hk := (step_grows h .shieldedPool k.1).2 _ hk
  fresh x hx hcanonical := by
    have hwithdrawn := withdrawn_of_mem hx
    constructor
    · -- an action makes at most one withdrawal
      have hone : (x.act.withdrawals.map withdrawalKey).length ≤ 1 := by
        rw [List.length_map]
        unfold Action.withdrawals Call.withdrawals
        split
        · rw [List.length_map]
          split <;> simp
        · simp
      generalize x.act.withdrawals.map withdrawalKey = l at hone
      match l, hone with
      | [], _ => exact List.nodup_nil
      | [k], _ => exact List.nodup_singleton k
    · intro k hk
      obtain ⟨w, hw, rfl⟩ := List.mem_map.mp hk
      have hkey : ofField (toField w.2.nullifier) = w.2.nullifier :=
        (hcanonical w hw).ofField_toField
      unfold FieldSpent withdrawalKey
      rw [hkey]
      exact ⟨by rw [(hwithdrawn w hw).fresh]; exact Bool.false_ne_true, (hwithdrawn w hw).spent⟩

/-- The public-input strings of the successful withdrawals of a run. -/
def withdrawalStrings (c : Chain H) (as : List (Action H)) : Set Bytes :=
  {bytes | bytes ∈ (runWithdrawals c as).map fun w => encodePublicInputs w.2.publicInputs}

theorem mem_withdrawalStrings {c : Chain H} {as : List (Action H)} {w : Address × Withdrawal}
    (hw : w ∈ runWithdrawals c as) :
    encodePublicInputs w.2.publicInputs ∈ withdrawalStrings c as :=
  List.mem_map.mpr ⟨w, hw, rfl⟩

/-- Equal public-input hashes of successful withdrawals are hashes of one list of inputs. -/
theorem publicInputs_eq_of_hash_eq {c : Chain H} {as : List (Action H)}
    (hsha : H.ShaInjOn (withdrawalStrings c as)) {v w : Address × Withdrawal}
    (hv : v ∈ runWithdrawals c as) (hw : w ∈ runWithdrawals c as)
    (h : v.2.proof.publicInputHash = w.2.proof.publicInputHash) :
    v.2.publicInputs = w.2.publicInputs := by
  obtain ⟨x, -, hx⟩ := withdrawn_of_mem_run v hv
  obtain ⟨y, -, hy⟩ := withdrawn_of_mem_run w hw
  rw [hx.hash, hy.hash] at h
  exact encodePublicInputs_injective (hsha (mem_withdrawalStrings hv) (mem_withdrawalStrings hw) h)

/-- **No note is withdrawn twice, if nullifiers are canonical.** In such a run at most one
withdrawal of a pool succeeds for each field element, and at most one for each proven statement. -/
theorem withdrawals_nodup {c : Chain H} {as : List (Action H)}
    (hcanonical : ∀ w ∈ runWithdrawals c as, Canonical w.2.nullifier)
    (hsha : H.ShaInjOn (withdrawalStrings c as)) :
    ((runWithdrawals c as).map withdrawalKey).Nodup ∧
      ((runWithdrawals c as).map fun w => (w.1, w.2.proof.publicInputHash)).Nodup := by
  have hfields : ((runWithdrawals c as).map withdrawalKey).Nodup := by
    unfold runWithdrawals
    rw [List.map_flatMap]
    exact replayGuard_withdrawals.nodup fun x hx w hw =>
      hcanonical w (List.mem_flatMap.mpr ⟨x, hx, hw⟩)
  refine ⟨hfields, nodup_map_of_imp (fun v hv w hw he => ?_) hfields⟩
  obtain ⟨hpool, hhash⟩ := Prod.mk.inj he
  have hinputs := publicInputs_eq_of_hash_eq hsha hv hw hhash
  unfold Withdrawal.publicInputs at hinputs
  simp only [List.cons.injEq] at hinputs
  exact Prod.ext hpool hinputs.2.2.1

section Examples

open SampleHost

def sampleToken : Address := .contract 100

/-- A ledger on which the pool of contract 4 holds 1000 tokens. -/
def sampleLedger : Chain sampleHost := Chain.blank ⟨[((sampleToken, .contract 4), 1000)], []⟩

/-- The deployment of governance, the proof ledger and the pool. -/
def deployPool : List (Action sampleHost) :=
  [adminTx (.contract 2) (.governanceInit sampleAdmin),
    adminTx (.contract 2) (.governanceSetVerifier 5 2 sampleAdmin),
    adminTx (.contract 3) (.proofLedgerInit (.contract 2)),
    adminTx (.contract 4) (.poolInit (.contract 2) (.contract 3) 6 5)]

/-- The record of a proof of the withdraw circuit. -/
def recordWithdraw (a : Withdraw.Assignment) : Action sampleHost :=
  adminTx (.contract 3) (.proofLedgerRecord sampleAdmin (proofOf 5 a.publicInputs).key)

/-- A withdrawal to account 9 with the given encoding of the nullifier. -/
def withdrawTo9 (a : Withdraw.Assignment) (nullifier : BytesN32) : Action sampleHost :=
  .invoke ⟨[], 0, .contract 4, .poolWithdrawAsset sampleToken (ofField a.root) nullifier
    (.account 9) a.withdrawAmount (proofOf 5 a.publicInputs) (ofField a.changeCommitment)⟩

/-- The withdrawal of a whole note to account 9. -/
def sampleWithdrawal (rho : Fr) : Withdraw.Assignment :=
  withdrawNote ⟨toField (addressDigest sampleHost sampleToken), 100, 5, rho, 7⟩ 100
    (toField (addressDigest sampleHost (.account 9))) 11

/-- Two notes are withdrawn under canonical nullifiers. -/
def twoNotes : List (Action sampleHost) :=
  deployPool ++ [recordWithdraw (sampleWithdrawal 6), recordWithdraw (sampleWithdrawal 8),
    withdrawTo9 (sampleWithdrawal 6) (ofField (sampleWithdrawal 6).nullifier),
    withdrawTo9 (sampleWithdrawal 8) (ofField (sampleWithdrawal 8).nullifier)]

/-- One note is withdrawn under its nullifier and under the nullifier plus the modulus. -/
def aliasedNote : List (Action sampleHost) :=
  deployPool ++ [recordWithdraw (sampleWithdrawal 6),
    withdrawTo9 (sampleWithdrawal 6) (ofField (sampleWithdrawal 6).nullifier),
    withdrawTo9 (sampleWithdrawal 6)
      (ofField (sampleWithdrawal 6).nullifier + BitVec.ofNat 256 bn254ScalarModulus)]

theorem withdrawals_nodup_twoNotes :
    ((runWithdrawals sampleLedger twoNotes).map withdrawalKey).Nodup ∧
      ((runWithdrawals sampleLedger twoNotes).map fun w =>
        (w.1, w.2.proof.publicInputHash)).Nodup :=
  withdrawals_nodup (by decide +kernel) (shaInjOn_of_list (by decide +kernel))

/-- One verified proof pays out twice. -/
theorem exists_double_withdrawal :
    ∃ (e : sampleHost.State) (as : List (Action sampleHost)) (a : Withdraw.Assignment),
      Withdraw.main sampleHost a = some () ∧
      (∀ key ∈ as.flatMap Action.recordedKeys,
        key.publicInputHash = sampleHost.sha256 (encodePublicInputs a.publicInputs)) ∧
      sampleHost.ShaInjOn (withdrawalStrings (Chain.blank e) as) ∧
      ¬ ((runWithdrawals (Chain.blank e) as).map withdrawalKey).Nodup :=
  ⟨_, aliasedNote, sampleWithdrawal 6, by decide +kernel, by decide +kernel,
    shaInjOn_of_list (by decide +kernel),
    (by decide +kernel : ¬ ((runWithdrawals sampleLedger aliasedNote).map withdrawalKey).Nodup)⟩

end Examples

end Pnlx
