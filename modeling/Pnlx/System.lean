import Pnlx.Contracts.BatchSettlement
import Pnlx.Contracts.FundingSettlement
import Pnlx.Contracts.Liquidation
import Pnlx.Contracts.PositionClose
import Pnlx.Lib.Runs

/-!
# The system

The contracts on one ledger. An action is a transaction, which calls one contract, or a step of the
external code. A transaction that panics changes nothing. `Runs.accepted step c as` are the
transactions of a run that succeed, with the ledgers around them.

`step_grows`: no action removes a record from any contract.
-/

namespace Pnlx

open Program

variable {H : Host}

/-! ## Transactions -/

/-- A call of a contract. -/
inductive Call where
  | governanceInit (admin : Address)
  | governanceSetPaused (paused : Bool)
  | governanceSetUpgradeAuthority (authority : Address)
  | governanceRotateUpgradeAuthority (authority : Address)
  | governanceSetVerifier (circuitId verifierHash : BytesN32) (authority : Address)
  | proofLedgerInit (governance : Address)
  | proofLedgerRecord (verifierAuthority : Address) (key : ProofKey)
  | marketInit (governance : Address)
  | marketUpsert (marketId : BytesN32) (config : MarketConfig)
  | marketSetFundingUpdater (updater : Address) (enabled : Bool)
  | marketAdvanceFunding (updater : Address) (marketId : BytesN32) (oldIndex newIndex : I128)
  | registryInit (admin settler : Address)
  | registrySubmit (batchId marketId intentCommitment matchingPayloadCommitment : BytesN32)
  | registryCancel (intentCommitment : BytesN32)
  | registrySetUpgradeAuthority (authority : Address)
  | registryRotateUpgradeAuthority (authority : Address)
  | registryConsume (settler : Address) (intentCommitment : BytesN32)
  | registryRollover (settler : Address) (source residual matchingPayloadCommitment : BytesN32)
  | stateInit (governance : Address)
  | stateSetWriter (writer : Address) (enabled : Bool)
  | stateResetForPoseidon2
  | stateAppend (writer : Address) (commitment : BytesN32)
  | stateAppendMany (writer : Address) (commitments : List BytesN32)
  | stateSpendPosition (writer : Address)
      (membershipRoot positionCommitment positionNullifier : BytesN32)
  | poolInit (governance proofLedger : Address) (depositCircuitId withdrawCircuitId : BytesN32)
  | poolDeposit (commitment : BytesN32)
  | poolSetWriter (writer : Address) (enabled : Bool)
  | poolConfigureFeeDestinations (insurance treasury : Address)
  | poolDepositAsset (token sender : Address) (amount : I128) (commitment : BytesN32)
      (proof : ProofMeta)
  | poolDepositClaim (writer token : Address) (amount : I128) (commitment : BytesN32)
      (proof : ProofMeta)
  | poolSpend (writer : Address) (nullifier : BytesN32)
  | poolAccrueFees (writer token : Address) (insurance treasury : I128)
  | poolDistributeInsurance (token : Address)
  | poolDistributeTreasury (token : Address)
  | poolWithdraw (root nullifier tokenDigest recipient : BytesN32) (amount : I128)
      (proof : ProofMeta) (changeCommitment : BytesN32)
  | poolWithdrawAsset (token : Address) (root nullifier : BytesN32) (recipient : Address)
      (amount : I128) (proof : ProofMeta) (changeCommitment : BytesN32)
  | orderInit (governance proofLedger marketContract : Address) (circuitId : BytesN32)
  | orderRegister (marketId positionNullifier closeCommitment : BytesN32)
  | orderTrigger (marketId positionNullifier closeCommitment : BytesN32) (markPrice : I128)
      (proof : ProofMeta)
  | closeInit (governance proofLedger conditionalOrder marketContract positionState : Address)
      (circuitId : BytesN32)
  | closeSettle (args : CloseArgs)
  | closeSettleManual (args : CloseArgs)
  | closeSettlePairManual (trader maker : CloseArgs)
  | closeSettlePairConditional (trader maker : CloseArgs)
  | liquidationInit (governance proofLedger marketContract positionState : Address)
      (circuitId : BytesN32)
  | liquidationLiquidate (args : LiquidationArgs)
  | fundingInit (governance proofLedger marketContract : Address) (circuitId : BytesN32)
  | fundingSettle (args : FundingArgs)
  | batchInit (governance proofLedger marketContract positionState shieldedPool
      intentRegistry : Address) (circuitId : BytesN32)
  | batchConfigureFeeToken (token : Address)
  | batchSettle (args : SettleArgs)
  | batchClaimResidual (intentCommitment commitment : BytesN32) (proof : ProofMeta)
  deriving DecidableEq

/-- The contract function of a call. -/
def Call.run : Call → Contract H Unit
  | governanceInit admin => Governance.init admin
  | governanceSetPaused paused => Governance.setPaused paused
  | governanceSetUpgradeAuthority authority => Governance.setUpgradeAuthority authority
  | governanceRotateUpgradeAuthority authority => Governance.rotateUpgradeAuthority authority
  | governanceSetVerifier circuitId verifierHash authority =>
    Governance.setVerifier circuitId verifierHash authority
  | proofLedgerInit governance => ProofLedger.init governance
  | proofLedgerRecord verifierAuthority key => ProofLedger.record verifierAuthority key
  | marketInit governance => Market.init governance
  | marketUpsert marketId config => Market.upsert marketId config
  | marketSetFundingUpdater updater enabled => Market.setFundingUpdater updater enabled
  | marketAdvanceFunding updater marketId oldIndex newIndex =>
    Market.advanceFunding updater marketId oldIndex newIndex
  | registryInit admin settler => IntentRegistry.init admin settler
  | registrySubmit batchId marketId intentCommitment matchingPayloadCommitment =>
    IntentRegistry.submit batchId marketId intentCommitment matchingPayloadCommitment
  | registryCancel intentCommitment => IntentRegistry.cancel intentCommitment
  | registrySetUpgradeAuthority authority => IntentRegistry.setUpgradeAuthority authority
  | registryRotateUpgradeAuthority authority => IntentRegistry.rotateUpgradeAuthority authority
  | registryConsume settler intentCommitment => IntentRegistry.consume settler intentCommitment
  | registryRollover settler source residual matchingPayloadCommitment =>
    IntentRegistry.rollover settler source residual matchingPayloadCommitment
  | stateInit governance => PositionState.init governance
  | stateSetWriter writer enabled => PositionState.setWriter writer enabled
  | stateResetForPoseidon2 => PositionState.resetForPoseidon2
  | stateAppend writer commitment => do
    let _ ← PositionState.append writer commitment
  | stateAppendMany writer commitments => do
    let _ ← PositionState.appendMany writer commitments
  | stateSpendPosition writer membershipRoot positionCommitment positionNullifier =>
    PositionState.spendPosition writer membershipRoot positionCommitment positionNullifier
  | poolInit governance proofLedger depositCircuitId withdrawCircuitId =>
    ShieldedPool.init governance proofLedger depositCircuitId withdrawCircuitId
  | poolDeposit commitment => ShieldedPool.deposit commitment
  | poolSetWriter writer enabled => ShieldedPool.setWriter writer enabled
  | poolConfigureFeeDestinations insurance treasury =>
    ShieldedPool.configureFeeDestinations insurance treasury
  | poolDepositAsset token sender amount commitment proof =>
    ShieldedPool.depositAsset token sender amount commitment proof
  | poolDepositClaim writer token amount commitment proof =>
    ShieldedPool.depositClaim writer token amount commitment proof
  | poolSpend writer nullifier => ShieldedPool.spend writer nullifier
  | poolAccrueFees writer token insurance treasury =>
    ShieldedPool.accrueFees writer token insurance treasury
  | poolDistributeInsurance token => do
    let _ ← ShieldedPool.distributeInsurance token
  | poolDistributeTreasury token => do
    let _ ← ShieldedPool.distributeTreasury token
  | poolWithdraw root nullifier tokenDigest recipient amount proof changeCommitment =>
    ShieldedPool.withdraw root nullifier tokenDigest recipient amount proof changeCommitment
  | poolWithdrawAsset token root nullifier recipient amount proof changeCommitment =>
    ShieldedPool.withdrawAsset token root nullifier recipient amount proof changeCommitment
  | orderInit governance proofLedger marketContract circuitId =>
    ConditionalOrder.init governance proofLedger marketContract circuitId
  | orderRegister marketId positionNullifier closeCommitment =>
    ConditionalOrder.register marketId positionNullifier closeCommitment
  | orderTrigger marketId positionNullifier closeCommitment markPrice proof =>
    ConditionalOrder.trigger marketId positionNullifier closeCommitment markPrice proof
  | closeInit governance proofLedger conditionalOrder marketContract positionState circuitId =>
    PositionClose.init governance proofLedger conditionalOrder marketContract positionState circuitId
  | closeSettle args => PositionClose.settle args
  | closeSettleManual args => PositionClose.settleManual args
  | closeSettlePairManual trader maker => PositionClose.settlePairManual trader maker
  | closeSettlePairConditional trader maker => PositionClose.settlePairConditional trader maker
  | liquidationInit governance proofLedger marketContract positionState circuitId =>
    Liquidation.init governance proofLedger marketContract positionState circuitId
  | liquidationLiquidate args => Liquidation.liquidate args
  | fundingInit governance proofLedger marketContract circuitId =>
    FundingSettlement.init governance proofLedger marketContract circuitId
  | fundingSettle args => FundingSettlement.settle args
  | batchInit governance proofLedger marketContract positionState shieldedPool intentRegistry
      circuitId =>
    BatchSettlement.init governance proofLedger marketContract positionState shieldedPool
      intentRegistry circuitId
  | batchConfigureFeeToken token => BatchSettlement.configureFeeToken token
  | batchSettle args => BatchSettlement.settle args
  | batchClaimResidual intentCommitment commitment proof =>
    BatchSettlement.claimResidual intentCommitment commitment proof

/-- A transaction: who has authorised it, the ledger time, and the call. -/
structure Tx where
  signers : List Address
  timestamp : ℕ
  target : Address
  call : Call
  deriving DecidableEq

/-- The environment of the called contract. A contract outside the repository that makes the call
is one of the signers. -/
def Tx.env (tx : Tx) : Env := ⟨tx.signers, none, tx.target, tx.timestamp⟩

/-- A transaction, or a step of the external code. -/
inductive Action (H : Host) where
  | invoke (tx : Tx)
  | external (state : H.State)

def step (c : Chain H) : Action H → Except String (Chain H)
  | .invoke tx => (tx.call.run tx.env c).map Prod.snd
  | .external state => .ok { c with external := state }

theorem step_invoke_eq_ok {c c' : Chain H} {tx : Tx} :
    step c (.invoke tx) = .ok c' ↔ Returns tx.call.run tx.env c () c' := by
  show (tx.call.run tx.env c).map Prod.snd = .ok c' ↔ tx.call.run tx.env c = .ok ((), c')
  cases tx.call.run tx.env c with
  | error e => simp [Except.map]
  | ok p => simp [Except.map, Prod.ext_iff]

/-! ## Records are never removed -/

instance keeps_run (call : Call) : Keeps (call.run : Contract H Unit) := by
  cases call <;> (unfold Call.run; infer_instance)

/-- No action removes a record. -/
theorem step_grows {c c' : Chain H} {a : Action H} (h : step c a = .ok c') : c.Grows c' := by
  cases a with
  | invoke tx => exact Respects.rel (step_invoke_eq_ok.mp h)
  | external state =>
    obtain rfl := Except.ok.inj h
    exact fun k a => Kind.Grows.refl k _

end Pnlx
