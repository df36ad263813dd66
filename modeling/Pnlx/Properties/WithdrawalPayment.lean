import Pnlx.Properties.PoolNullifiers

/-!
# Payment of withdrawals

`withdrawAsset` pays what its proof proves. The plain `withdraw` takes the same proof and spends the
same nullifier, asks for nobody's authorisation and moves no token (`withdraw_external`). A run
without a successful plain withdrawal spends a nullifier only with the payment, or for a registered
writer of the pool (`withdrawals_paid`).
-/

namespace Pnlx

open Program Runs ShieldedPool

variable {H : Host}

def Call.isPlainWithdraw : Call → Bool
  | poolWithdraw .. => true
  | _ => false

def Action.isPlainWithdraw : Action H → Bool
  | invoke tx => tx.call.isPlainWithdraw
  | external _ => false

/-- The pool transfers the proven amount of the proven token to the proven recipient. -/
def PaidOut (w : Address × Withdrawal) (c c' : Chain H) : Prop :=
  ∃ token recipient, w.2.tokenDigest = addressDigest H token ∧
    w.2.recipientDigest = addressDigest H recipient ∧ Paid w.1 c c' token recipient w.2.amount

/-- A plain withdrawal moves no token. -/
theorem withdraw_external {root nullifier tokenDigest recipient change : BytesN32} {amount : I128}
    {proof : ProofMeta} {env : Env} {c c' : Chain H} {u : Unit}
    (h : Returns (withdraw root nullifier tokenDigest recipient amount proof change) env c u c') :
    c'.external = c.external := by
  unfold withdraw validatePublicInputs at h
  simp only [returns_bind, returns_failIf, returns_recordNullifier, returns_modifyStorage,
    exists_eq_left, exists_and_left, and_assoc, exists_const] at h
  obtain ⟨-, _, _, hproof, -, -, hchange⟩ := h
  obtain rfl := (ReadOnly.eq hproof).symm
  exact (external_recordChangeCommitment hchange).trans rfl

/-- A withdrawal that is not plain pays. -/
theorem paidOut_of_mem {c c' : Chain H} {a : Action H} (h : step c a = .ok c')
    (hplain : a.isPlainWithdraw = false) : ∀ w ∈ a.withdrawals, PaidOut w c c' := by
  intro w hw
  cases a with
  | external state => exact absurd hw (List.not_mem_nil)
  | invoke tx =>
    have hrun := step_invoke_eq_ok.mp h
    have hplain : tx.call.isPlainWithdraw = false := hplain
    unfold Action.withdrawals at hw
    obtain ⟨v, hv, rfl⟩ := List.mem_map.mp hw
    cases hcall : tx.call <;> rw [hcall] at hplain hv hrun
    case poolWithdraw => exact Bool.noConfusion hplain
    case poolWithdrawAsset token _ _ recipient _ _ _ =>
      rw [List.mem_singleton.mp hv]
      exact ⟨token, recipient, rfl, rfl, (withdrawAsset_returns hrun).2⟩
    all_goals exact absurd hv (List.not_mem_nil)

/-- **Withdrawals are paid, if none is plain.** In such a run every withdrawal pays what its proof
proves, and whatever records a nullifier is such a withdrawal under that nullifier or a transaction
that a registered writer of the pool has authorised. -/
theorem withdrawals_paid {c : Chain H} {as : List (Action H)}
    (hplain : ∀ x ∈ accepted step c as, x.act.isPlainWithdraw = false) :
    ∀ x ∈ accepted step c as,
      (∀ w ∈ x.act.withdrawals, PaidOut w x.pre x.post) ∧
      ∀ p k, ¬ (x.pre.storage .shieldedPool p).nullifier k →
        (x.post.storage .shieldedPool p).nullifier k →
        (∃ w ∈ x.act.withdrawals, w.1 = p ∧ w.2.nullifier = k ∧ PaidOut w x.pre x.post) ∨
          ∃ tx, x.act = .invoke tx ∧ AuthorizedWriter x.pre tx p := by
  rintro ⟨c₁, a, c₂⟩ hx
  have hstep : step c₁ a = .ok c₂ := (accepted_ok _ hx).1
  have hpaid : ∀ w ∈ a.withdrawals, PaidOut w c₁ c₂ := paidOut_of_mem hstep (hplain _ hx)
  dsimp only
  refine ⟨hpaid, fun p k hfresh hspent => ?_⟩
  cases a with
  | external state =>
    obtain rfl := Except.ok.inj hstep
    exact absurd hspent hfresh
  | invoke tx =>
    rcases spent_of_step hstep hfresh hspent with ⟨hp, w, hw, hk⟩ | hwriter
    · have hmem : (tx.target, w) ∈ (Action.invoke (H := H) tx).withdrawals :=
        List.mem_map_of_mem hw
      exact Or.inl ⟨_, hmem, hp, hk, hpaid _ hmem⟩
    · exact Or.inr ⟨tx, rfl, hwriter⟩

section Examples

open SampleHost

/-- Somebody without any authorisation shows the proof of the owner of a note. -/
def copiedWithdraw (a : Withdraw.Assignment) : Action sampleHost :=
  .invoke ⟨[], 0, .contract 4, .poolWithdraw (ofField a.root) (ofField a.nullifier)
    (ofField a.tokenDigest) (ofField a.recipientDigest) a.withdrawAmount
    (proofOf 5 a.publicInputs) (ofField a.changeCommitment)⟩

/-- The owner withdraws after somebody has copied the proof. -/
def copiedProof : List (Action sampleHost) :=
  deployPool ++ [recordWithdraw (sampleWithdrawal 6), copiedWithdraw (sampleWithdrawal 6),
    withdrawTo9 (sampleWithdrawal 6) (ofField (sampleWithdrawal 6).nullifier)]

/-- The run withdraws two notes, and both are paid out. -/
theorem withdrawals_paid_twoNotes :
    (runWithdrawals sampleLedger twoNotes).length = 2 ∧
      ∀ x ∈ accepted step sampleLedger twoNotes,
        (∀ w ∈ x.act.withdrawals, PaidOut w x.pre x.post) ∧
        ∀ p k, ¬ (x.pre.storage .shieldedPool p).nullifier k →
          (x.post.storage .shieldedPool p).nullifier k →
          (∃ w ∈ x.act.withdrawals, w.1 = p ∧ w.2.nullifier = k ∧ PaidOut w x.pre x.post) ∨
            ∃ tx, x.act = .invoke tx ∧ AuthorizedWriter x.pre tx p :=
  ⟨by decide +kernel, withdrawals_paid (by decide +kernel)⟩

/-- The nullifier of a verified withdrawal is spent and no token has moved. -/
theorem exists_unpaid_withdrawal :
    ∃ (e : sampleHost.State) (as : List (Action sampleHost)) (a : Withdraw.Assignment)
      (w : Address × Withdrawal),
      Withdraw.main sampleHost a = some () ∧
      (∀ key ∈ as.flatMap Action.recordedKeys,
        key.publicInputHash = sampleHost.sha256 (encodePublicInputs a.publicInputs)) ∧
      runWithdrawals (Chain.blank e) as = [w] ∧ w.2.publicInputs = a.publicInputs ∧
      ((final step (Chain.blank e) as).storage .shieldedPool w.1).nullifier w.2.nullifier ∧
      (final step (Chain.blank e) as).external = e :=
  ⟨sampleLedger.external, copiedProof, sampleWithdrawal 6,
    (.contract 4, ⟨100, ofField (sampleWithdrawal 6).root, ofField (sampleWithdrawal 6).nullifier,
      ofField (sampleWithdrawal 6).tokenDigest, ofField (sampleWithdrawal 6).recipientDigest, 0,
      proofOf 5 (sampleWithdrawal 6).publicInputs⟩), by decide +kernel, by decide +kernel,
    by decide +kernel, by decide +kernel, by decide +kernel,
    by decide +kernel⟩

end Examples

end Pnlx
