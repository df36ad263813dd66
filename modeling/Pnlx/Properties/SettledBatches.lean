import Pnlx.Frames

/-!
# Settled batches stay settled

Batch settlement writes the record of a batch once and never changes it, whatever happens on the
ledger (`settledBatch_of_run`).
-/

namespace Pnlx

open Program Runs

variable {H : Host}

/-- The contracts of batch settlement keep their records of batches. -/
def Chain.SameBatches (c c' : Chain H) : Prop :=
  ∀ a, (c'.storage .batchSettlement a).batch = (c.storage .batchSettlement a).batch

instance : Std.Refl (Chain.SameBatches (H := H)) := ⟨fun _ _ => rfl⟩

instance : IsTrans (Chain H) Chain.SameBatches := ⟨fun _ _ _ h h' a => (h' a).trans (h a)⟩

/-- Every settled batch keeps its record. -/
def Chain.KeepsBatches (c c' : Chain H) : Prop :=
  ∀ a x record, (c.storage .batchSettlement a).batch x = some record →
    (c'.storage .batchSettlement a).batch x = some record

instance : Std.Refl (Chain.KeepsBatches (H := H)) := ⟨fun _ _ _ _ h => h⟩

instance : IsTrans (Chain H) Chain.KeepsBatches :=
  ⟨fun _ _ _ h h' a x record hx => h' a x record (h a x record hx)⟩

theorem Chain.SameBatches.keeps {c c' : Chain H} (h : c.SameBatches c') : c.KeepsBatches c' :=
  fun a _ _ hx => (h a).symm ▸ hx

namespace BatchSettlement

theorem sameBatches_of_sameAt {α : Type} {x : Contract H α}
    (hx : Respects (Chain.SameAt .batchSettlement) x) : Respects Chain.SameBatches x :=
  hx.mono fun _ _ h a => by rw [show _ = _ from congrFun h a]

theorem sameBatches_modify {f : BatchSettlementStorage → BatchSettlementStorage}
    (hf : ∀ s, (f s).batch = s.batch) :
    Respects (Chain.SameBatches (H := H)) (modifyStorage .batchSettlement f) where
  rel := by
    intro env c u c' h a
    rw [returns_modifyStorage.mp h]
    by_cases ha : a = env.current
    · rw [ha, Chain.storage_modify_self, hf]
    · rw [Chain.storage_modify_of_address ha]

set_option synthInstance.maxSize 1024 in
instance sameBatches_consumeFilledIntents {args : SettleArgs} :
    Respects Chain.SameBatches (consumeFilledIntents args : Contract H Unit) := by
  have hne : Fact (Kind.batchSettlement ≠ .intentRegistry) := ⟨by decide⟩
  have hclear (item : ResidualItem) :
      Respects Chain.SameBatches (clearResidualMargin item : Contract H Unit) := by
    unfold clearResidualMargin
    refine Respects.andThen inferInstance fun previous => ?_
    cases previous with
    | none => infer_instance
    | some previous => exact Respects.andThen inferInstance fun _ => sameBatches_modify fun _ => rfl
  have hconsume (settler : Address) (intent : BytesN32) : Respects Chain.SameBatches
      (IntentRegistry.consume settler intent : Contract H Unit) :=
    sameBatches_of_sameAt inferInstance
  have hrollover (settler : Address) (source residual payload : BytesN32) :
      Respects Chain.SameBatches
        (IntentRegistry.rollover settler source residual payload : Contract H Unit) :=
    sameBatches_of_sameAt inferInstance
  have hset (item : ResidualItem) : Respects (Chain.SameBatches (H := H))
      (modifyStorage .batchSettlement fun s =>
        { s with
          residualMargin :=
            Function.update s.residualMargin item.residual (some item.margin) }) :=
    sameBatches_modify fun _ => rfl
  have hitem (registry : Address) (item : ResidualItem) :
      Respects Chain.SameBatches (consumeFilledIntent registry item : Contract H Unit) := by
    unfold consumeFilledIntent
    infer_instance
  unfold consumeFilledIntents
  infer_instance

/-- Only the settlement of a batch writes its record, and only if there is none. -/
theorem keepsBatches_settle {args : SettleArgs} {env : Env} {c c' : Chain H} {u : Unit}
    (h : Returns (settle args) env c u c') : c.KeepsBatches c' := by
  have hne : Fact (Kind.batchSettlement ≠ .shieldedPool) := ⟨by decide⟩
  have hne' : Fact (Kind.batchSettlement ≠ .positionState) := ⟨by decide⟩
  have hspend : Respects (Chain.SameBatches (H := H)) (spendMarginNullifiers args.spentNullifiers) :=
    sameBatches_of_sameAt inferInstance
  have hchange : Respects (Chain.SameBatches (H := H))
      (recordMarginChanges args.marginChangeCommitments) := sameBatches_of_sameAt inferInstance
  have hprice : Respects (Chain.SameBatches (H := H)) (checkedMarketPrice args.marketId) :=
    sameBatches_of_sameAt (sameAt_of_sameStorage inferInstance)
  have happend : Respects (Chain.SameBatches (H := H)) (appendPositions args.newCommitments) :=
    sameBatches_of_sameAt inferInstance
  have haccrue : Respects (Chain.SameBatches (H := H))
      (accrueFees args.insuranceFee args.treasuryFee) := sameBatches_of_sameAt inferInstance
  unfold settle validateProof validatePublicInputs at h
  simp only [returns_bind, returns_load, returns_failIf, exists_eq_left,
    exists_and_left, and_assoc, exists_const, not_not, ne_eq] at h
  obtain ⟨_, _, hargs, _, _, hproof, -, -, hnew, _, _, hactive, _, _, hpriority, _, c₁, hspend,
    _, c₂, hchange, _, c₃, hconsume, oracle, c₄, hprice, receipt, c₅, happend, _, c₆, haccrue,
    hset⟩ := h
  obtain rfl := ReadOnly.eq hargs
  obtain rfl := ReadOnly.eq hproof
  obtain rfl := ReadOnly.eq hactive
  obtain rfl := ReadOnly.eq hpriority
  have hsame : Chain.SameBatches _ c₆ :=
    trans_of _ (Respects.rel hspend) (trans_of _ (Respects.rel hchange) (trans_of _
      (Respects.rel hconsume) (trans_of _ (Respects.rel hprice) (trans_of _
        (Respects.rel happend) (Respects.rel haccrue)))))
  intro a x record hx
  rw [returns_modifyStorage.mp hset]
  rw [← hsame a] at hx
  by_cases ha : a = env.current
  · subst ha
    rw [Chain.storage_modify_self]
    have hkey : x ≠ (args.batchId, args.marketId) := by
      rintro rfl
      rw [hsame env.current] at hx
      rw [hx] at hnew
      exact hnew rfl
    exact (Function.update_of_ne hkey _ _).trans hx
  · rw [Chain.storage_modify_of_address ha]
    exact hx

/-! ## All calls -/

theorem sameBatches_init {governance ledger market state pool registry : Address}
    {circuitId : BytesN32} : Respects (Chain.SameBatches (H := H))
      (init governance ledger market state pool registry circuitId) := by
  unfold init
  repeat refine Respects.andThen inferInstance fun _ => ?_
  exact sameBatches_modify fun _ => rfl

theorem sameBatches_configureFeeToken {token : Address} :
    Respects (Chain.SameBatches (H := H)) (configureFeeToken token) := by
  unfold configureFeeToken
  refine Respects.andThen inferInstance fun _ => Respects.andThen inferInstance fun _ =>
    Respects.andThen inferInstance fun _ => Respects.andThen inferInstance fun configured => ?_
  cases configured with
  | none => exact sameBatches_modify fun _ => rfl
  | some configured => exact Respects.failIf

theorem sameBatches_claimResidual {intentCommitment commitment : BytesN32} {proof : ProofMeta} :
    Respects (Chain.SameBatches (H := H)) (claimResidual intentCommitment commitment proof) := by
  have hne : Fact (Kind.batchSettlement ≠ .shieldedPool) := ⟨by decide⟩
  have hdeposit (writer token : Address) (amount : I128) : Respects (Chain.SameBatches (H := H))
      (ShieldedPool.depositClaim writer token amount commitment proof) :=
    sameBatches_of_sameAt inferInstance
  unfold claimResidual
  iterate 12 refine Respects.andThen inferInstance fun _ => ?_
  exact Respects.andThen (sameBatches_modify fun _ => rfl) fun _ => inferInstance

/-- A step keeps the records of settled batches. -/
theorem keepsBatches_of_step {c c' : Chain H} {action : Action H} (h : step c action = .ok c') :
    c.KeepsBatches c' := by
  cases action with
  | external state =>
    obtain rfl := Except.ok.inj h
    exact fun _ _ _ hx => hx
  | invoke tx =>
    have hrun := step_invoke_eq_ok.mp h
    by_cases htouches : Kind.batchSettlement ∈ tx.call.touches
    · obtain ⟨signers, timestamp, target, call⟩ := tx
      cases call
      case batchInit => exact (sameBatches_init.rel hrun).keeps
      case batchConfigureFeeToken => exact (sameBatches_configureFeeToken.rel hrun).keeps
      case batchSettle args => exact keepsBatches_settle hrun
      case batchClaimResidual => exact (sameBatches_claimResidual.rel hrun).keeps
      all_goals exact absurd htouches (by simp [Call.touches])
    · have := sameAt_run (H := H) htouches
      have hsame : c.SameBatches c' := (sameBatches_of_sameAt this).rel hrun
      exact hsame.keeps

/-- **A settled batch stays settled in every run.** -/
theorem settledBatch_of_run {c : Chain H} {actions : List (Action H)} {a : Address}
    {x : BytesN32 × BytesN32} {record : SettlementMeta}
    (hx : (c.storage .batchSettlement a).batch x = some record) :
    ((final step c actions).storage .batchSettlement a).batch x = some record :=
  final_of_inv (fun _ _ _ (_ : True) hx h => keepsBatches_of_step h a x record hx) hx
    fun _ _ => trivial

end BatchSettlement

end Pnlx
