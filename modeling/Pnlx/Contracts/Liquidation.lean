import Pnlx.Contracts.Market
import Pnlx.Contracts.PositionState

/-!
# Liquidations

A liquidation shows a proof of the liquidation-check circuit at the oracle's mark price and spends
the position in the position state. The maintenance rate is an argument of the caller.
`liquidate_returns` says what a successful liquidation has checked and done.
-/

namespace Pnlx

/-- The arguments of `liquidate`. -/
structure LiquidationArgs where
  marketId : BytesN32
  positionRoot : BytesN32
  positionCommitment : BytesN32
  positionNullifier : BytesN32
  markPrice : I128
  maintenanceRate : I128
  proof : ProofMeta
  rewardCommitment : BytesN32
  deriving DecidableEq

namespace Liquidation

def priceScale : U128 := 100000000

def rateScale : U128 := 1000000

def publicInputBytes (args : LiquidationArgs) : Bytes :=
  u128Be args.markPrice ++ u128Be args.maintenanceRate ++ u128Be priceScale ++ u128Be rateScale ++
    fieldBytes args.positionRoot ++ fieldBytes args.positionCommitment ++
    fieldBytes args.positionNullifier ++ fieldBytes args.rewardCommitment

end Liquidation

open Liquidation in
/-- The public inputs of the liquidation-check circuit. -/
def LiquidationArgs.publicInputs (args : LiquidationArgs) : List Fr :=
  [asField args.markPrice, asField args.maintenanceRate, asField priceScale, asField rateScale,
    toField args.positionRoot, toField args.positionCommitment, toField args.positionNullifier,
    toField args.rewardCommitment]

namespace Liquidation

open Program

variable {H : Host}

theorem publicInputBytes_eq (args : LiquidationArgs) :
    publicInputBytes args = encodePublicInputs args.publicInputs := by
  simp only [publicInputBytes, encodePublicInputs, LiquidationArgs.publicInputs, u128Be_eq,
    fieldBytes_eq, List.flatMap_cons, List.flatMap_nil, List.append_assoc, List.append_nil]

def validateProof (proof : ProofMeta) : Contract H Unit := do
  let circuit ← load .liquidation (·.circuit)
  let governance ← load .liquidation (·.governance)
  let proofLedger ← load .liquidation (·.proofLedger)
  Pnlx.validateProof circuit governance proofLedger proof

def validateOracleMarkPrice (marketId : BytesN32) (markPrice : I128) : Contract H Unit := do
  let marketContract ← load .liquidation (·.marketContract)
  Market.validateOracleMarkPrice marketContract marketId markPrice

def spendPosition (positionRoot positionCommitment positionNullifier : BytesN32) :
    Contract H Unit := do
  let positionState ← stored .liquidation (·.positionState) "not initialized"
  let writer ← currentContract
  call positionState
    (PositionState.spendPosition writer positionRoot positionCommitment positionNullifier)

/-! ## Calls -/

def init (governance proofLedger marketContract positionState : Address) (circuitId : BytesN32) :
    Contract H Unit := do
  validateHash circuitId
  failIf (← load .liquidation (·.governance.isSome)) "already initialized"
  modifyStorage .liquidation fun s =>
    { s with
      governance := some governance
      proofLedger := some proofLedger
      marketContract := some marketContract
      positionState := some positionState
      circuit := some circuitId }

def liquidate (args : LiquidationArgs) : Contract H Unit := do
  validateHash args.marketId
  validateHash args.positionRoot
  validateHash args.positionCommitment
  validateHash args.positionNullifier
  validateHash args.rewardCommitment
  failIf (args.markPrice.toInt ≤ 0) "invalid mark price"
  failIf (args.maintenanceRate.toInt ≤ 0) "invalid maintenance rate"
  validateOracleMarkPrice args.marketId args.markPrice
  validateProof args.proof
  failIf (args.proof.publicInputHash ≠ H.sha256 (publicInputBytes args)) "public input mismatch"
  failIf (← load .liquidation fun s => (s.liquidated args.positionNullifier).isSome)
    "already liquidated"
  spendPosition args.positionRoot args.positionCommitment args.positionNullifier
  modifyStorage .liquidation fun s =>
    { s with
      liquidated := Function.update s.liquidated args.positionNullifier
        (some ⟨args.marketId, args.markPrice, args.maintenanceRate, args.positionCommitment,
          args.positionRoot, args.proof, args.rewardCommitment⟩) }

/-! ## The calls keep the records -/

instance {R : Chain H → Chain H → Prop} [Std.Refl R] [IsTrans _ R] {proof : ProofMeta} :
    Respects R (validateProof proof : Contract H Unit) := by
  unfold validateProof
  infer_instance

instance sameStorage_validateOracleMarkPrice {marketId : BytesN32} {markPrice : I128} :
    Respects Chain.SameStorage (validateOracleMarkPrice marketId markPrice : Contract H Unit) := by
  unfold validateOracleMarkPrice
  infer_instance

instance keeps_spendPosition {root commitment nullifier : BytesN32} :
    Keeps (spendPosition root commitment nullifier : Contract H Unit) := by
  unfold spendPosition
  infer_instance

instance keeps_init {governance ledger market state : Address} {circuitId : BytesN32} :
    Keeps (init governance ledger market state circuitId : Contract H Unit) := by
  unfold init
  repeat refine Respects.andThen inferInstance fun _ => ?_
  exact keeps_modifyStorage fun _ _ h => h

instance keeps_liquidate {args : LiquidationArgs} : Keeps (liquidate args : Contract H Unit) := by
  have hprice : Keeps (validateOracleMarkPrice args.marketId args.markPrice : Contract H Unit) :=
    keeps_of_sameStorage inferInstance
  unfold liquidate
  repeat refine Respects.andThen inferInstance fun _ => ?_
  exact keeps_modifyStorage fun _ _ h => record_some args.positionNullifier _ h

/-! ## What a successful liquidation has checked and done -/

/-- A liquidation at the oracle's price with a recorded proof has found its nullifier unspent in
the position state and has spent it. -/
structure Liquidated (env : Env) (c c' : Chain H) (args : LiquidationArgs) : Prop where
  hash : args.proof.publicInputHash = H.sha256 (encodePublicInputs args.publicInputs)
  circuit : (c.storage .liquidation env.current).circuit = some args.proof.circuitId
  proof : ∃ ledger, (c.storage .liquidation env.current).proofLedger = some ledger ∧
    (c.storage .proofLedger ledger).proof args.proof.key
  price : ∃ m, (c.storage .liquidation env.current).marketContract = some m ∧
    Market.IsMarkPrice env c m args.marketId args.markPrice
  spent : ∃ p, (c.storage .liquidation env.current).positionState = some p ∧
    (c.storage .positionState p).spent args.positionNullifier = none ∧
    ((c'.storage .positionState p).spent args.positionNullifier).isSome

theorem liquidate_returns {args : LiquidationArgs} {env : Env} {c c' : Chain H} {u : Unit}
    (h : Returns (liquidate args) env c u c') : Liquidated env c c' args := by
  unfold liquidate validateOracleMarkPrice validateProof spendPosition at h
  simp only [returns_bind, returns_validateHash, returns_failIf, returns_load, returns_stored,
    returns_call, returns_currentContract, exists_eq_left, exists_and_left, and_assoc, exists_const,
    not_not, ne_eq] at h
  obtain ⟨-, -, -, -, -, -, -, _, c₁, hprice, _, c₂, hproof, hhash, -, _, c₃, ⟨p, hp, hspend⟩,
    hset⟩ := h
  have hsame : c₁.storage = c.storage := Respects.rel (R := Chain.SameStorage) hprice
  obtain rfl := ReadOnly.eq hproof
  obtain ⟨hcircuit, hledger⟩ := returns_validateProof hproof
  obtain ⟨-, hfresh, hspent⟩ := PositionState.spendPosition_returns hspend
  have hspent' : ((c'.storage .positionState p).spent args.positionNullifier).isSome := by
    rw [returns_modifyStorage.mp hset, Chain.storage_modify_of_kind (by decide)]
    exact Option.isSome_of_mem hspent
  rw [Env.current_invoke] at hfresh
  rw [hsame] at hcircuit hledger hp hfresh
  exact ⟨by rw [hhash, publicInputBytes_eq], hcircuit, hledger,
    Market.validateOracleMarkPrice_returns hprice, p, hp, hfresh, hspent'⟩

end Liquidation

end Pnlx
