import Pnlx.Server.Store

/-!
# What an operation of the store leaves alone

A part of the store that does not depend on the fields that an operation writes stays the same,
whether the operation returns or throws.
-/

namespace Pnlx.Server

open BatchMatch (Text)
open Script

variable {H : Host} {P : Fr → Fr → Fr} {β : Type} {f : ProtocolStore → β} {now : ℤ}

/-! ## Proofs and nullifiers -/

instance {R : ProtocolStore → ProtocolStore → Prop} [Std.Refl R] [IsTrans ProtocolStore R]
    (proof : ProofRecord) : Maintains R (assertProof proof) := by
  unfold assertProof; infer_instance

theorem same_recordProof (hproofs : ∀ s x, f { s with proofs := x } = f s) (proof : ProofRecord) :
    Maintains (Same f) (recordProof proof) := .update fun _ => hproofs _ _

theorem same_spend (hspent : ∀ s x, f { s with spentNullifiers := x } = f s) (nullifier : Text) :
    Maintains (Same f) (spend nullifier) := by
  unfold spend
  repeat refine .andThen inferInstance fun _ => ?_
  exact .update fun _ => hspent _ _

/-! ## Margin notes -/

theorem same_addMarginCommitment (hmargins : ∀ s x, f { s with marginCommitments := x } = f s)
    (commitment : Text) : Maintains (Same f) (addMarginCommitment commitment) := by
  unfold addMarginCommitment
  repeat refine .andThen inferInstance fun _ => ?_
  exact .update fun _ => hmargins _ _

theorem same_addWithdrawal (hspent : ∀ s x, f { s with spentNullifiers := x } = f s)
    (hmargins : ∀ s x, f { s with marginCommitments := x } = f s)
    (hwithdrawals : ∀ s x, f { s with withdrawals := x } = f s) (record : WithdrawalRecord) :
    Maintains (Same f) (addWithdrawal record) := by
  have hspend := same_spend hspent record.nullifier
  have hchange : Maintains (Same f) (update fun store : ProtocolStore =>
      { store with marginCommitments := store.marginCommitments.add record.changeCommitment } :
        StoreScript Unit) := .update fun _ => hmargins _ _
  unfold addWithdrawal
  repeat refine .andThen inferInstance fun _ => ?_
  exact .update fun _ => hwithdrawals _ _

/-! ## Orders -/

theorem same_keepPrivateMatchIntent (hprivate : ∀ s x, f { s with privateMatchIntents := x } = f s)
    (record : OrderRecord) (payload : Option PrivateMatchIntent) :
    Maintains (Same f) (keepPrivateMatchIntent H record payload) := by
  unfold keepPrivateMatchIntent assertPrivateMatchIntent
  cases payload with
  | none => infer_instance
  | some payload =>
    simp only [bind_assoc]
    repeat refine .andThen inferInstance fun _ => ?_
    exact .update fun _ => hprivate _ _

theorem same_addIntent (hprivate : ∀ s x, f { s with privateMatchIntents := x } = f s)
    (hintents : ∀ s x y, f { s with intents := x, orderLifecycle := y } = f s)
    (record : IntentRecord) (payload : Option PrivateMatchIntent) :
    Maintains (Same f) (addIntent H P now record payload) := by
  have hkeep := same_keepPrivateMatchIntent (H := H) hprivate record.order payload
  unfold addIntent
  repeat refine .andThen inferInstance fun _ => ?_
  exact .update fun _ => hintents _ _ _

theorem same_cancelOrder (horders : ∀ s x, f { s with orderLifecycle := x } = f s)
    (intentCommitment : Text) (txHash : Option Text) :
    Maintains (Same f) (cancelOrder now intentCommitment txHash) := by
  unfold cancelOrder
  repeat refine .andThen inferInstance fun _ => ?_
  exact .update fun _ => horders _ _

theorem same_addResidualOrder (hprivate : ∀ s x, f { s with privateMatchIntents := x } = f s)
    (hresiduals : ∀ s x y, f { s with residualOrders := x, orderLifecycle := y } = f s)
    (record : ResidualOrderRecord) (payload : Option PrivateMatchIntent) :
    Maintains (Same f) (addResidualOrder H record payload) := by
  have hkeep := same_keepPrivateMatchIntent (H := H) hprivate record.order payload
  unfold addResidualOrder
  repeat refine .andThen inferInstance fun _ => ?_
  exact .update fun _ => hresiduals _ _ _

/-! ## Settlements -/

section Validate

variable {R : ProtocolStore → ProtocolStore → Prop} [Std.Refl R] [IsTrans ProtocolStore R]

instance (settlement : SettlementRecord) (openings : List PositionLifecycleRecord) :
    Maintains R (validatePositionOpenings settlement openings) := by
  unfold validatePositionOpenings; infer_instance

instance (settlement : SettlementRecord) (residuals : List ResidualOrderRecord) :
    Maintains R (validateResidualOrders settlement residuals) := by
  unfold validateResidualOrders; infer_instance

end Validate

theorem same_applyOrderUpdate (horders : ∀ s x, f { s with orderLifecycle := x } = f s)
    (orderUpdate : OrderUpdate) : Maintains (Same f) (applyOrderUpdate now orderUpdate) := by
  unfold applyOrderUpdate
  repeat refine .andThen inferInstance fun _ => ?_
  exact .update fun _ => horders _ _

theorem same_applySettlementOrderUpdates (horders : ∀ s x, f { s with orderLifecycle := x } = f s)
    (settlement : SettlementRecord) :
    Maintains (Same f) (applySettlementOrderUpdates now settlement) := by
  have hupdate : ∀ orderUpdate, Maintains (Same f) (applyOrderUpdate now orderUpdate) :=
    same_applyOrderUpdate horders
  unfold applySettlementOrderUpdates
  infer_instance

theorem same_openPosition (hpositions : ∀ s x, f { s with positionLifecycle := x } = f s)
    (settlement : SettlementRecord) (firstPositionIndex : ℕ) (opening : PositionLifecycleRecord) :
    Maintains (Same f) (openPosition settlement firstPositionIndex opening) := by
  unfold openPosition addPositionOpening
  repeat refine .andThen inferInstance fun _ => ?_
  exact .update fun _ => hpositions _ _

theorem same_addAccountEvent (hevents : ∀ s x, f { s with accountEvents := x } = f s)
    (record : AccountEventRecord) : Maintains (Same f) (addAccountEvent record) := by
  unfold addAccountEvent
  repeat refine .andThen inferInstance fun _ => ?_
  exact .update fun _ => hevents _ _

/-! ## Liquidations and closes -/

theorem same_markPosition (hpositions : ∀ s x, f { s with positionLifecycle := x } = f s)
    (commitment nullifier : Text) (mark : PositionLifecycleRecord → PositionLifecycleRecord) :
    Maintains (Same f) (markPosition commitment nullifier mark) := by
  refine .update fun store => ?_
  cases store.findPosition commitment nullifier with
  | none => rfl
  | some position => exact hpositions _ _

theorem same_addLiquidation (hspent : ∀ s x, f { s with spentNullifiers := x } = f s)
    (hpositions : ∀ s x, f { s with positionLifecycle := x } = f s)
    (hliquidations : ∀ s x, f { s with liquidations := x } = f s) (record : LiquidationRecord) :
    Maintains (Same f) (addLiquidation record) := by
  have hspend := same_spend hspent record.positionNullifier
  have hmark := same_markPosition hpositions
  unfold addLiquidation markPositionLiquidated
  repeat refine .andThen inferInstance fun _ => ?_
  exact .update fun _ => hliquidations _ _

theorem same_addConditionalClose (hcloses : ∀ s x, f { s with conditionalCloses := x } = f s)
    (record : ConditionalOrderRecord) : Maintains (Same f) (addConditionalClose record) := by
  unfold addConditionalClose
  repeat refine .andThen inferInstance fun _ => ?_
  exact .update fun _ => hcloses _ _

end Pnlx.Server
