import Pnlx.Contracts.Chain

/-!
# The intent registry

An intent is registered by the operator and ends cancelled, consumed or rolled over into a
residual intent, which inherits its place in the submission order. An intent that has ended is
marked cancelled and never becomes active again.
-/

namespace Pnlx.IntentRegistry

open Program

variable {H : Host}

/-! ## Views -/

abbrev operator : Contract H Address := stored .intentRegistry (·.operator) "not initialized"

abbrev upgradeAuthority : Contract H Address :=
  stored .intentRegistry (·.upgradeAuthority) "upgrade authority not configured"

abbrev isCancelled (intentCommitment : BytesN32) : Contract H Bool :=
  load .intentRegistry (·.cancelled intentCommitment)

abbrev isActiveIntent (intentCommitment : BytesN32) : Contract H Bool :=
  load .intentRegistry fun s => (s.intent intentCommitment).isSome && !s.cancelled intentCommitment

abbrev submissionSequence (intentCommitment : BytesN32) : Contract H ℕ :=
  stored .intentRegistry (·.submissionSequence intentCommitment)
    "intent submission sequence unavailable"

abbrev matchingPayloadCommitment (intentCommitment : BytesN32) : Contract H BytesN32 :=
  stored .intentRegistry
    (fun s => (s.intent intentCommitment).map (·.matchingPayloadCommitment)) "unknown intent"

def requireOperator : Contract H Unit := do
  requireAuth (← operator)

def requireSettler (settler : Address) : Contract H Unit := do
  requireAuth settler
  let configured ← stored .intentRegistry (·.settler) "not initialized"
  failIf (settler ≠ configured) "unauthorized settler"

def markCancelled (intentCommitment : BytesN32) : Contract H Unit := do
  failIf (← load .intentRegistry fun s => (s.intent intentCommitment).isNone) "unknown intent"
  failIf (← isCancelled intentCommitment) "intent already cancelled"
  modifyStorage .intentRegistry fun s =>
    { s with cancelled := Function.update s.cancelled intentCommitment true }

/-! ## Calls -/

def init (admin settler : Address) : Contract H Unit := do
  requireAuth admin
  failIf (← load .intentRegistry (·.settler.isSome)) "already initialized"
  modifyStorage .intentRegistry fun s => { s with settler := some settler, operator := some admin }

def submit (batchId marketId intentCommitment matchingPayloadCommitment : BytesN32) :
    Contract H Unit := do
  requireOperator
  failIf (← load .intentRegistry fun s => (s.intent intentCommitment).isSome) "duplicate intent"
  let sequence ← load .intentRegistry (·.nextSubmissionSequence.getD 0)
  failIf (sequence + 1 ≥ 2 ^ 64) "submission sequence overflow"
  modifyStorage .intentRegistry fun s =>
    { s with
      intent := Function.update s.intent intentCommitment
        (some ⟨batchId, marketId, matchingPayloadCommitment⟩)
      nextSubmissionSequence := some (sequence + 1)
      submissionSequence :=
        Function.update s.submissionSequence intentCommitment (some (sequence + 1))
      batch := Function.update s.batch (batchId, marketId) true }

def cancel (intentCommitment : BytesN32) : Contract H Unit := do
  requireOperator
  markCancelled intentCommitment

def setUpgradeAuthority (authority : Address) : Contract H Unit := do
  requireOperator
  failIf (← load .intentRegistry (·.upgradeAuthority.isSome)) "invalid upgrade authority"
  failIf (authority = (← operator)) "invalid upgrade authority"
  modifyStorage .intentRegistry fun s => { s with upgradeAuthority := some authority }

def rotateUpgradeAuthority (authority : Address) : Contract H Unit := do
  requireAuth (← upgradeAuthority)
  failIf (authority = (← operator)) "upgrade authority must differ from operator"
  modifyStorage .intentRegistry fun s => { s with upgradeAuthority := some authority }

def consume (settler : Address) (intentCommitment : BytesN32) : Contract H Unit := do
  requireSettler settler
  markCancelled intentCommitment

def rollover (settler : Address) (source residual matchingPayloadCommitment : BytesN32) :
    Contract H Unit := do
  requireSettler settler
  failIf (source = residual ∨ ¬ (← isActiveIntent source)) "inactive source intent"
  failIf (← load .intentRegistry fun s => (s.intent residual).isSome) "duplicate residual intent"
  let sourceMeta ← stored .intentRegistry (·.intent source) "called Option::unwrap() on a None value"
  let sequence ← submissionSequence source
  modifyStorage .intentRegistry fun s =>
    { s with
      cancelled := Function.update s.cancelled source true
      intent := Function.update s.intent residual
        (some { sourceMeta with matchingPayloadCommitment })
      submissionSequence := Function.update s.submissionSequence residual (some sequence) }

/-! ## The calls keep the records -/

instance {R : Chain H → Chain H → Prop} [Std.Refl R] [IsTrans _ R] :
    Respects R (requireOperator : Contract H Unit) := by
  unfold requireOperator
  infer_instance

instance {R : Chain H → Chain H → Prop} [Std.Refl R] [IsTrans _ R] {settler : Address} :
    Respects R (requireSettler settler : Contract H Unit) := by
  unfold requireSettler
  infer_instance

/-- An update that leaves the records alone. -/
theorem keeps_modify {f : IntentRegistryStorage → IntentRegistryStorage}
    (hi : ∀ s, (f s).intent = s.intent) (hc : ∀ s, (f s).cancelled = s.cancelled) :
    Keeps (H := H) (modifyStorage .intentRegistry f) :=
  keeps_modifyStorage fun s => ⟨fun _ h => (hi s).symm ▸ h, fun _ h => (hc s).symm ▸ h⟩

instance keeps_markCancelled {intentCommitment : BytesN32} :
    Keeps (markCancelled intentCommitment : Contract H Unit) := by
  unfold markCancelled
  repeat refine Respects.andThen inferInstance fun _ => ?_
  exact keeps_modifyStorage fun _ => ⟨fun _ h => h, fun _ h => record_true intentCommitment h⟩

instance keeps_init {admin settler : Address} : Keeps (init admin settler : Contract H Unit) := by
  unfold init
  repeat refine Respects.andThen inferInstance fun _ => ?_
  exact keeps_modify (fun _ => rfl) fun _ => rfl

instance keeps_submit {batchId marketId intentCommitment payload : BytesN32} :
    Keeps (submit batchId marketId intentCommitment payload : Contract H Unit) := by
  unfold submit
  repeat refine Respects.andThen inferInstance fun _ => ?_
  exact keeps_modifyStorage fun _ => ⟨fun _ h => record_some intentCommitment _ h, fun _ h => h⟩

instance keeps_cancel {intentCommitment : BytesN32} :
    Keeps (cancel intentCommitment : Contract H Unit) := by
  unfold cancel
  infer_instance

instance keeps_setUpgradeAuthority {a : Address} :
    Keeps (setUpgradeAuthority a : Contract H Unit) := by
  unfold setUpgradeAuthority
  repeat refine Respects.andThen inferInstance fun _ => ?_
  exact keeps_modify (fun _ => rfl) fun _ => rfl

instance keeps_rotateUpgradeAuthority {a : Address} :
    Keeps (rotateUpgradeAuthority a : Contract H Unit) := by
  unfold rotateUpgradeAuthority
  repeat refine Respects.andThen inferInstance fun _ => ?_
  exact keeps_modify (fun _ => rfl) fun _ => rfl

instance keeps_consume {settler : Address} {intentCommitment : BytesN32} :
    Keeps (consume settler intentCommitment : Contract H Unit) := by
  unfold consume
  infer_instance

instance keeps_rollover {settler : Address} {source residual payload : BytesN32} :
    Keeps (rollover settler source residual payload : Contract H Unit) := by
  unfold rollover
  repeat refine Respects.andThen inferInstance fun _ => ?_
  exact keeps_modifyStorage fun _ =>
    ⟨fun _ h => record_some residual _ h, fun _ h => record_true source h⟩

/-! ## Frames -/

instance sameOutside_consume {settler : Address} {intentCommitment : BytesN32} :
    Respects (Chain.SameOutside .intentRegistry)
      (consume settler intentCommitment : Contract H Unit) := by
  unfold consume markCancelled
  infer_instance

instance sameOutside_rollover {settler : Address} {source residual payload : BytesN32} :
    Respects (Chain.SameOutside .intentRegistry)
      (rollover settler source residual payload : Contract H Unit) := by
  unfold rollover
  repeat refine Respects.andThen inferInstance fun _ => ?_
  infer_instance

end Pnlx.IntentRegistry
