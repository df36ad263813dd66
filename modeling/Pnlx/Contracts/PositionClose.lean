import Pnlx.Contracts.ConditionalOrder
import Pnlx.Contracts.PositionState

/-!
# Closing positions

A close shows a proof of the position-close circuit at the oracle's mark price, spends the position
in the position state and appends the position that is left. `settlePositionClose_returns` says
what a successful close has checked and done.
-/

namespace Pnlx

structure CloseArgs where
  marketId : BytesN32
  positionRoot : BytesN32
  positionCommitment : BytesN32
  positionNullifier : BytesN32
  closeCommitment : BytesN32
  markPrice : I128
  newPositionCommitment : BytesN32
  marginOutputCommitment : BytesN32
  proof : ProofMeta
  deriving DecidableEq

namespace PositionClose

def priceScale : U128 := 100000000

def publicInputBytes (args : CloseArgs) : Bytes :=
  u128Be args.markPrice ++ u128Be priceScale ++ fieldBytes args.positionRoot ++
    fieldBytes args.positionCommitment ++ fieldBytes args.positionNullifier ++
    fieldBytes args.closeCommitment ++ fieldBytes args.newPositionCommitment ++
    fieldBytes args.marginOutputCommitment

end PositionClose

open PositionClose in
/-- The public inputs of the position-close circuit. -/
def CloseArgs.publicInputs (args : CloseArgs) : List Fr :=
  [asField args.markPrice, asField priceScale, toField args.positionRoot,
    toField args.positionCommitment, toField args.positionNullifier, toField args.closeCommitment,
    toField args.newPositionCommitment, toField args.marginOutputCommitment]

namespace PositionClose

open Program

variable {H : Host}

theorem publicInputBytes_eq (args : CloseArgs) :
    publicInputBytes args = encodePublicInputs args.publicInputs := by
  simp only [publicInputBytes, encodePublicInputs, CloseArgs.publicInputs, u128Be_eq,
    fieldBytes_eq, List.flatMap_cons, List.flatMap_nil, List.append_assoc, List.append_nil]

def validateProof (proof : ProofMeta) : Contract H Unit := do
  let circuit ← load .positionClose (·.circuit)
  let governance ← load .positionClose (·.governance)
  let proofLedger ← load .positionClose (·.proofLedger)
  Pnlx.validateProof circuit governance proofLedger proof

def validateOracleMarkPrice (marketId : BytesN32) (markPrice : I128) : Contract H Unit := do
  let marketContract ← load .positionClose (·.marketContract)
  Market.validateOracleMarkPrice marketContract marketId markPrice

def validateConditionalTrigger (marketId positionNullifier closeCommitment : BytesN32) :
    Contract H Unit := do
  let conditionalOrder ← stored .positionClose (·.conditionalOrder) "not initialized"
  failIf (¬ (← call conditionalOrder
    (ConditionalOrder.isTriggeredFor marketId positionNullifier closeCommitment)))
    "conditional close not triggered"

def spendAndAppendPosition (args : CloseArgs) : Contract H AppendReceipt := do
  let positionState ← stored .positionClose (·.positionState) "not initialized"
  let writer ← currentContract
  call positionState (PositionState.spendPosition writer args.positionRoot args.positionCommitment
    args.positionNullifier)
  call positionState (PositionState.append writer args.newPositionCommitment)

def settlePositionClose (args : CloseArgs) (requireConditionalTrigger : Bool) :
    Contract H Unit := do
  validateHash args.marketId
  validateHash args.positionRoot
  validateHash args.positionCommitment
  validateHash args.positionNullifier
  validateHash args.closeCommitment
  validateHash args.newPositionCommitment
  validateHash args.marginOutputCommitment
  failIf (args.markPrice.toInt ≤ 0) "invalid mark price"
  validateOracleMarkPrice args.marketId args.markPrice
  validateProof args.proof
  failIf (args.proof.publicInputHash ≠ H.sha256 (publicInputBytes args)) "public input mismatch"
  doIf requireConditionalTrigger
    (validateConditionalTrigger args.marketId args.positionNullifier args.closeCommitment)
  failIf (← load .positionClose fun s => (s.close args.closeCommitment).isSome)
    "close already settled"
  failIf (← load .positionClose (·.positionSpent args.positionNullifier)) "position already spent"
  let appended ← spendAndAppendPosition args
  modifyStorage .positionClose fun s =>
    { s with
      close := Function.update s.close args.closeCommitment
        (some ⟨args.marketId, args.markPrice, args.positionCommitment, args.positionNullifier,
          args.positionRoot, args.newPositionCommitment, appended.firstIndex, appended.root,
          args.marginOutputCommitment, args.proof⟩)
      positionSpent := Function.update s.positionSpent args.positionNullifier true }

def settlePair (trader maker : CloseArgs) (conditional : Bool) : Contract H Unit := do
  failIf (trader.marketId ≠ maker.marketId ∨ trader.markPrice ≠ maker.markPrice)
    "paired close market or mark mismatch"
  failIf (trader.positionNullifier = maker.positionNullifier ∨
    trader.positionCommitment = maker.positionCommitment ∨
    trader.closeCommitment = maker.closeCommitment ∨
    trader.marginOutputCommitment = maker.marginOutputCommitment) "paired close inputs overlap"
  settlePositionClose trader conditional
  settlePositionClose maker false

/-! ## Calls -/

def init (governance proofLedger conditionalOrder marketContract positionState : Address)
    (circuitId : BytesN32) : Contract H Unit := do
  validateHash circuitId
  failIf (← load .positionClose (·.governance.isSome)) "already initialized"
  modifyStorage .positionClose fun s =>
    { s with
      governance := some governance
      proofLedger := some proofLedger
      conditionalOrder := some conditionalOrder
      marketContract := some marketContract
      positionState := some positionState
      circuit := some circuitId }

abbrev settle (args : CloseArgs) : Contract H Unit := settlePositionClose args true

abbrev settleManual (args : CloseArgs) : Contract H Unit := settlePositionClose args false

abbrev settlePairManual (trader maker : CloseArgs) : Contract H Unit := settlePair trader maker false

abbrev settlePairConditional (trader maker : CloseArgs) : Contract H Unit :=
  settlePair trader maker true

/-! ## The calls keep the records -/

section Respects

variable {R : Chain H → Chain H → Prop} [Std.Refl R] [IsTrans _ R]

instance {proof : ProofMeta} : Respects R (validateProof proof : Contract H Unit) := by
  unfold validateProof
  infer_instance

instance {marketId positionNullifier closeCommitment : BytesN32} :
    Respects R (validateConditionalTrigger marketId positionNullifier closeCommitment :
      Contract H Unit) := by
  unfold validateConditionalTrigger
  infer_instance

end Respects

instance sameStorage_validateOracleMarkPrice {marketId : BytesN32} {markPrice : I128} :
    Respects Chain.SameStorage (validateOracleMarkPrice marketId markPrice : Contract H Unit) := by
  unfold validateOracleMarkPrice
  infer_instance

instance keeps_spendAndAppendPosition {args : CloseArgs} :
    Keeps (spendAndAppendPosition args : Contract H AppendReceipt) := by
  unfold spendAndAppendPosition
  infer_instance

instance keeps_settlePositionClose {args : CloseArgs} {trigger : Bool} :
    Keeps (settlePositionClose args trigger : Contract H Unit) := by
  have hprice : Keeps (validateOracleMarkPrice args.marketId args.markPrice : Contract H Unit) :=
    keeps_of_sameStorage inferInstance
  unfold settlePositionClose
  repeat refine Respects.andThen inferInstance fun _ => ?_
  exact keeps_modifyStorage fun _ =>
    ⟨fun _ h => record_some args.closeCommitment _ h, fun _ h => record_true _ h⟩

instance keeps_settlePair {trader maker : CloseArgs} {conditional : Bool} :
    Keeps (settlePair trader maker conditional : Contract H Unit) := by
  unfold settlePair
  infer_instance

instance keeps_init {governance ledger order market state : Address} {circuitId : BytesN32} :
    Keeps (init governance ledger order market state circuitId : Contract H Unit) := by
  unfold init
  repeat refine Respects.andThen inferInstance fun _ => ?_
  exact keeps_modifyStorage fun _ => ⟨fun _ h => h, fun _ h => h⟩

/-! ## What a successful close has checked and done -/

/-- A close at the oracle's price with a recorded proof has found its nullifier unspent in the
position state and has spent it. -/
structure Closed (env : Env) (c c' : Chain H) (args : CloseArgs) : Prop where
  hash : args.proof.publicInputHash = H.sha256 (encodePublicInputs args.publicInputs)
  circuit : (c.storage .positionClose env.current).circuit = some args.proof.circuitId
  proof : ∃ ledger, (c.storage .positionClose env.current).proofLedger = some ledger ∧
    (c.storage .proofLedger ledger).proof args.proof.key
  price : ∃ m, (c.storage .positionClose env.current).marketContract = some m ∧
    Market.IsMarkPrice env c m args.marketId args.markPrice
  spent : ∃ p, (c.storage .positionClose env.current).positionState = some p ∧
    (c.storage .positionState p).spent args.positionNullifier = none ∧
    ((c'.storage .positionState p).spent args.positionNullifier).isSome

theorem settlePositionClose_returns {args : CloseArgs} {trigger : Bool} {env : Env}
    {c c' : Chain H} {u : Unit} (h : Returns (settlePositionClose args trigger) env c u c') :
    Closed env c c' args := by
  unfold settlePositionClose validateOracleMarkPrice validateProof spendAndAppendPosition at h
  simp only [returns_bind, returns_validateHash, returns_failIf, returns_load, returns_stored,
    returns_call, returns_currentContract, exists_eq_left, exists_and_left, and_assoc, exists_const,
    not_not, ne_eq] at h
  obtain ⟨-, -, -, -, -, -, -, -, _, c₁, hprice, _, c₂, hproof, hhash, _, c₃, htrigger, -, -,
    appended, c₅, ⟨p, hp, _, c₄, hspend, happend⟩, hset⟩ := h
  have hsame : c₁.storage = c.storage := Respects.rel (R := Chain.SameStorage) hprice
  obtain rfl := ReadOnly.eq hproof
  obtain rfl := ReadOnly.eq htrigger
  obtain ⟨hcircuit, hledger⟩ := returns_validateProof hproof
  obtain ⟨-, hfresh, hspent⟩ := PositionState.spendPosition_returns hspend
  have hspent₅ : ((c₅.storage .positionState p).spent args.positionNullifier).isSome :=
    (Respects.rel (R := Chain.Grows) happend .positionState p).1 _ (Option.isSome_of_mem hspent)
  have hspent' : ((c'.storage .positionState p).spent args.positionNullifier).isSome := by
    rw [returns_modifyStorage.mp hset, Chain.storage_modify_of_kind (by decide)]
    exact hspent₅
  rw [Env.current_invoke] at hfresh
  rw [hsame] at hcircuit hledger hp hfresh
  exact ⟨by rw [hhash, publicInputBytes_eq], hcircuit, hledger,
    Market.validateOracleMarkPrice_returns hprice, p, hp, hfresh, hspent'⟩

/-- A successful pair is two successful closes in a row, on one market and at one price. -/
theorem settlePair_returns {trader maker : CloseArgs} {conditional : Bool} {env : Env}
    {c c' : Chain H} {u : Unit} (h : Returns (settlePair trader maker conditional) env c u c') :
    trader.marketId = maker.marketId ∧ trader.markPrice = maker.markPrice ∧
      ∃ c₁, Returns (settlePositionClose trader conditional) env c () c₁ ∧
        Returns (settlePositionClose maker false) env c₁ () c' := by
  unfold settlePair at h
  simp only [returns_bind, returns_failIf, exists_eq_left, exists_and_left, and_assoc,
    exists_const, not_or, not_not, ne_eq] at h
  obtain ⟨hmarket, hprice, -, -, -, -, _, c₁, htrader, hmaker⟩ := h
  exact ⟨hmarket, hprice, c₁, htrader, hmaker⟩

end PositionClose

end Pnlx
