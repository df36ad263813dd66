import Pnlx.Contracts.Market

/-!
# Conditional orders

An order to close a position is registered for a market and a position nullifier, and triggered
with a proof of the conditional-close circuit at the oracle's mark price.
-/

namespace Pnlx.ConditionalOrder

open Program

variable {H : Host}

def publicInputBytes (markPrice : U128) (positionNullifier closeCommitment : BytesN32) : Bytes :=
  u128Be markPrice ++ fieldBytes positionNullifier ++ fieldBytes closeCommitment

/-- The public inputs of the conditional-close circuit. -/
def publicInputs (markPrice : U128) (positionNullifier closeCommitment : BytesN32) : List Fr :=
  [asField markPrice, toField positionNullifier, toField closeCommitment]

theorem publicInputBytes_eq (markPrice : U128) (positionNullifier closeCommitment : BytesN32) :
    publicInputBytes markPrice positionNullifier closeCommitment =
      encodePublicInputs (publicInputs markPrice positionNullifier closeCommitment) := by
  simp only [publicInputBytes, encodePublicInputs, publicInputs, u128Be_eq, fieldBytes_eq,
    List.flatMap_cons, List.flatMap_nil, List.append_assoc, List.append_nil]

def validateProof (proof : ProofMeta) : Contract H Unit := do
  let circuit ← load .conditionalOrder (·.circuit)
  let governance ← load .conditionalOrder (·.governance)
  let proofLedger ← load .conditionalOrder (·.proofLedger)
  Pnlx.validateProof circuit governance proofLedger proof

def validateOracleMarkPrice (marketId : BytesN32) (markPrice : I128) : Contract H Unit := do
  let marketContract ← load .conditionalOrder (·.marketContract)
  Market.validateOracleMarkPrice marketContract marketId markPrice

/-! ## Calls -/

def init (governance proofLedger marketContract : Address) (circuitId : BytesN32) :
    Contract H Unit := do
  validateHash circuitId
  failIf (← load .conditionalOrder (·.governance.isSome)) "already initialized"
  modifyStorage .conditionalOrder fun s =>
    { s with
      governance := some governance
      proofLedger := some proofLedger
      marketContract := some marketContract
      circuit := some circuitId }

def register (marketId positionNullifier closeCommitment : BytesN32) : Contract H Unit := do
  failIf (← load .conditionalOrder (·.governance.isNone)) "not initialized"
  validateHash marketId
  validateHash positionNullifier
  validateHash closeCommitment
  failIf (← load .conditionalOrder fun s => (s.order closeCommitment).isSome)
    "conditional order exists"
  modifyStorage .conditionalOrder fun s =>
    { s with order := Function.update s.order closeCommitment (some ⟨marketId, positionNullifier⟩) }

def trigger (marketId positionNullifier closeCommitment : BytesN32) (markPrice : I128)
    (proof : ProofMeta) : Contract H Unit := do
  validateHash marketId
  validateHash positionNullifier
  validateHash closeCommitment
  failIf (markPrice.toInt ≤ 0) "invalid mark price"
  let order ← stored .conditionalOrder (·.order closeCommitment) "conditional order not registered"
  failIf (order.marketId ≠ marketId ∨ order.positionNullifier ≠ positionNullifier)
    "conditional order mismatch"
  validateOracleMarkPrice marketId markPrice
  validateProof proof
  failIf (proof.publicInputHash ≠
    H.sha256 (publicInputBytes markPrice positionNullifier closeCommitment)) "public input mismatch"
  failIf (← load .conditionalOrder fun s => (s.trigger closeCommitment).isSome)
    "conditional order already triggered"
  modifyStorage .conditionalOrder fun s =>
    { s with
      trigger := Function.update s.trigger closeCommitment
        (some ⟨marketId, markPrice, positionNullifier, proof⟩) }

/-- `is_triggered_for`. -/
abbrev isTriggeredFor (marketId positionNullifier closeCommitment : BytesN32) : Contract H Bool :=
  load .conditionalOrder fun s =>
    match s.trigger closeCommitment with
    | some trigger =>
      trigger.marketId == marketId && trigger.positionNullifier == positionNullifier
    | none => false

/-! ## The calls keep the records -/

instance {R : Chain H → Chain H → Prop} [Std.Refl R] [IsTrans _ R] {proof : ProofMeta} :
    Respects R (validateProof proof : Contract H Unit) := by
  unfold validateProof
  infer_instance

instance sameStorage_validateOracleMarkPrice {marketId : BytesN32} {markPrice : I128} :
    Respects Chain.SameStorage (validateOracleMarkPrice marketId markPrice : Contract H Unit) := by
  unfold validateOracleMarkPrice
  infer_instance

instance keeps_init {governance ledger market : Address} {circuitId : BytesN32} :
    Keeps (init governance ledger market circuitId : Contract H Unit) := by
  unfold init
  repeat refine Respects.andThen inferInstance fun _ => ?_
  exact keeps_modifyStorage fun _ => ⟨fun _ h => h, fun _ h => h⟩

instance keeps_register {marketId positionNullifier closeCommitment : BytesN32} :
    Keeps (register marketId positionNullifier closeCommitment : Contract H Unit) := by
  unfold register
  repeat refine Respects.andThen inferInstance fun _ => ?_
  exact keeps_modifyStorage fun _ => ⟨fun _ h => record_some closeCommitment _ h, fun _ h => h⟩

instance keeps_trigger {marketId positionNullifier closeCommitment : BytesN32} {markPrice : I128}
    {proof : ProofMeta} :
    Keeps (trigger marketId positionNullifier closeCommitment markPrice proof :
      Contract H Unit) := by
  have hprice : Keeps (validateOracleMarkPrice marketId markPrice : Contract H Unit) :=
    keeps_of_sameStorage inferInstance
  unfold trigger
  repeat refine Respects.andThen inferInstance fun _ => ?_
  exact keeps_modifyStorage fun _ => ⟨fun _ h => h, fun _ h => record_some closeCommitment _ h⟩

/-! ## What a successful trigger has checked -/

structure Triggered (env : Env) (c : Chain H) (marketId positionNullifier closeCommitment : BytesN32)
    (markPrice : I128) (proof : ProofMeta) : Prop where
  hash : proof.publicInputHash =
    H.sha256 (encodePublicInputs (publicInputs markPrice positionNullifier closeCommitment))
  circuit : (c.storage .conditionalOrder env.current).circuit = some proof.circuitId
  proof : ∃ ledger, (c.storage .conditionalOrder env.current).proofLedger = some ledger ∧
    (c.storage .proofLedger ledger).proof proof.key
  price : ∃ m, (c.storage .conditionalOrder env.current).marketContract = some m ∧
    Market.IsMarkPrice env c m marketId markPrice

theorem trigger_returns {marketId positionNullifier closeCommitment : BytesN32} {markPrice : I128}
    {proof : ProofMeta} {env : Env} {c c' : Chain H} {u : Unit}
    (h : Returns (trigger marketId positionNullifier closeCommitment markPrice proof) env c u c') :
    Triggered env c marketId positionNullifier closeCommitment markPrice proof := by
  unfold trigger validateOracleMarkPrice validateProof at h
  simp only [returns_bind, returns_validateHash, returns_failIf, returns_stored, returns_load,
    exists_eq_left, exists_and_left, and_assoc, exists_const, not_not, ne_eq] at h
  obtain ⟨-, -, -, -, _, -, -, _, c₁, hprice, _, c₂, hproof, hhash, -⟩ := h
  have hsame : c₁.storage = c.storage := Respects.rel (R := Chain.SameStorage) hprice
  obtain ⟨hcircuit, hledger⟩ := returns_validateProof hproof
  rw [hsame] at hcircuit hledger
  exact ⟨by rw [hhash, publicInputBytes_eq], hcircuit, hledger,
    Market.validateOracleMarkPrice_returns hprice⟩

end Pnlx.ConditionalOrder
