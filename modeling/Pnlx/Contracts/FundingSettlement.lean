import Pnlx.Contracts.Market

/-!
# Funding settlements

A settlement of funding shows a proof of the funding-update circuit for the move of a market's
funding index from one value to another at the oracle's mark price, and advances the index in the
market contract. It is recorded under the market and the two values, and refused when there is such
a record already.

`returns_settle` says what a settlement checks and does.
-/

namespace Pnlx

/-- The arguments of `settle`. -/
structure FundingArgs where
  marketId : BytesN32
  oldIndex : I128
  newIndex : I128
  markPrice : I128
  premiumRate : I128
  elapsedMs : U64
  intervalMs : U64
  maxDelta : I128
  maxDeltaEnabled : Bool
  proof : ProofMeta
  deriving DecidableEq

/-- The key under which a settlement is recorded. -/
def FundingArgs.key (args : FundingArgs) : BytesN32 × I128 × I128 :=
  (args.marketId, args.oldIndex, args.newIndex)

/-- The parameters of a settlement that the contract accepts in itself. -/
structure FundingArgs.Valid (args : FundingArgs) : Prop where
  marketId : args.marketId ≠ 0
  moves : args.newIndex ≠ args.oldIndex
  markPrice : 0 < args.markPrice.toInt
  maxDelta : 0 ≤ args.maxDelta.toInt
  elapsedMs : args.elapsedMs ≠ 0
  intervalMs : args.intervalMs ≠ 0
  capped : args.maxDeltaEnabled → args.maxDelta ≠ 0

namespace FundingSettlement

open Program

variable {H : Host}

/-- The public inputs of the funding-update circuit, unless a magnitude overflows. -/
def publicInputBytes (args : FundingArgs) : Option Bytes := do
  let oldIndex ← i128Fields args.oldIndex
  let newIndex ← i128Fields args.newIndex
  let premiumRate ← i128Fields args.premiumRate
  pure (fieldBytes args.marketId ++ oldIndex ++ newIndex ++ u128Be args.markPrice ++ premiumRate ++
    u128Be (args.elapsedMs.setWidth 128) ++ u128Be (args.intervalMs.setWidth 128) ++
    u128Be args.maxDelta ++ u128Be (if args.maxDeltaEnabled then 1 else 0))

def validateHash (value : BytesN32) : Contract H Unit := failIf (value = 0) "invalid hash"

def validateOracleMarkPrice (marketId : BytesN32) (markPrice : I128) : Contract H Unit := do
  let marketContract ← stored .fundingSettlement (·.marketContract) "not initialized"
  let current ← call marketContract (Market.markPrice marketId)
  failIf (current.price ≠ markPrice) "mark price mismatch"

def validateProof (proof : ProofMeta) : Contract H Unit := do
  validateHash proof.circuitId
  validateHash proof.circuitHash
  validateHash proof.verifierHash
  validateHash proof.publicInputHash
  validateHash proof.proofDigest
  let circuitId ← stored .fundingSettlement (·.circuit) "not initialized"
  failIf (proof.circuitId ≠ circuitId) "circuit mismatch"
  let governance ← stored .fundingSettlement (·.governance) "not initialized"
  failIf (← call governance Governance.paused) "paused"
  let expected ← call governance (Governance.verifier circuitId)
  failIf (proof.verifierHash ≠ expected) "verifier mismatch"
  let proofLedger ← stored .fundingSettlement (·.proofLedger) "not initialized"
  failIf (¬ (← call proofLedger (ProofLedger.hasProof proof.key))) "unverified proof"

def validatePublicInputs (args : FundingArgs) : Contract H Unit := do
  let bytes ← unwrapOr (publicInputBytes args) "attempt to negate with overflow"
  failIf (args.proof.publicInputHash ≠ H.sha256 bytes) "public input mismatch"

/-! ## Calls -/

def init (governance proofLedger marketContract : Address) (circuitId : BytesN32) :
    Contract H Unit := do
  validateHash circuitId
  failIf (← load .fundingSettlement (·.governance.isSome)) "already initialized"
  modifyStorage .fundingSettlement fun s =>
    { s with
      governance := some governance
      proofLedger := some proofLedger
      marketContract := some marketContract
      circuit := some circuitId }

def settle (args : FundingArgs) : Contract H Unit := do
  validateHash args.marketId
  failIf (args.newIndex = args.oldIndex) "invalid funding index"
  failIf (args.markPrice.toInt ≤ 0) "invalid mark price"
  failIf (args.maxDelta.toInt < 0 ∨ args.elapsedMs = 0 ∨ args.intervalMs = 0)
    "invalid funding params"
  failIf (args.maxDeltaEnabled ∧ args.maxDelta = 0) "invalid funding cap"
  validateOracleMarkPrice args.marketId args.markPrice
  validateProof args.proof
  validatePublicInputs args
  failIf (← load .fundingSettlement fun s => (s.funding args.key).isSome)
    "funding already settled"
  let marketContract ← stored .fundingSettlement (·.marketContract) "not initialized"
  let updater ← currentContract
  call marketContract (Market.advanceFunding updater args.marketId args.oldIndex args.newIndex)
  modifyStorage .fundingSettlement fun s =>
    { s with
      funding := Function.update s.funding args.key
        (some ⟨args.elapsedMs, args.intervalMs, args.markPrice, args.maxDelta,
          args.maxDeltaEnabled, args.newIndex, args.oldIndex, args.premiumRate, args.proof⟩) }

/-! ## The calls keep the records -/

section Respects

variable {R : Chain H → Chain H → Prop} [Std.Refl R] [IsTrans _ R]

instance {value : BytesN32} : Respects R (validateHash value : Contract H Unit) := by
  unfold validateHash
  infer_instance

instance {proof : ProofMeta} : Respects R (validateProof proof : Contract H Unit) := by
  unfold validateProof
  repeat refine Respects.andThen inferInstance fun _ => ?_
  infer_instance

instance {args : FundingArgs} : Respects R (validatePublicInputs args : Contract H Unit) := by
  unfold validatePublicInputs
  infer_instance

end Respects

instance sameStorage_validateOracleMarkPrice {marketId : BytesN32} {markPrice : I128} :
    Respects Chain.SameStorage (validateOracleMarkPrice marketId markPrice : Contract H Unit) := by
  unfold validateOracleMarkPrice
  infer_instance

instance keeps_init {governance ledger market : Address} {circuitId : BytesN32} :
    Keeps (init governance ledger market circuitId : Contract H Unit) := by
  unfold init
  repeat refine Respects.andThen inferInstance fun _ => ?_
  exact keeps_modifyStorage fun _ _ h => h

instance keeps_settle {args : FundingArgs} : Keeps (settle args : Contract H Unit) := by
  have hprice : Keeps (validateOracleMarkPrice args.marketId args.markPrice : Contract H Unit) :=
    keeps_of_sameStorage inferInstance
  unfold settle
  repeat refine Respects.andThen inferInstance fun _ => ?_
  exact keeps_modifyStorage fun _ _ h => record_some args.key _ h

/-! ## What a settlement checks and does -/

section Effects

variable {env : Env} {c c' : Chain H} {u : Unit}

@[simp] theorem returns_validateHash {value : BytesN32} :
    Returns (validateHash value) env c u c' ↔ value ≠ 0 ∧ c' = c := returns_failIf

/-- The proof is one for the circuit of the contract, by the verifier that its governance names, and
recorded in its proof ledger, and the protocol is not paused. -/
structure Verified (c : Chain H) (contract : Address) (proof : ProofMeta) : Prop where
  circuitId : proof.circuitId ≠ 0
  circuitHash : proof.circuitHash ≠ 0
  verifierHash : proof.verifierHash ≠ 0
  publicInputHash : proof.publicInputHash ≠ 0
  proofDigest : proof.proofDigest ≠ 0
  circuit : (c.storage .fundingSettlement contract).circuit = some proof.circuitId
  governed : ∃ g, (c.storage .fundingSettlement contract).governance = some g ∧
    ¬ (c.storage .governance g).paused.getD false ∧
    (c.storage .governance g).verifier proof.circuitId = some proof.verifierHash
  recorded : ∃ ledger, (c.storage .fundingSettlement contract).proofLedger = some ledger ∧
    (c.storage .proofLedger ledger).proof proof.key

theorem Verified.congr {contract : Address} {proof : ProofMeta} (h : Verified c contract proof)
    (hsame : c.storage = c'.storage) : Verified c' contract proof :=
  ⟨h.circuitId, h.circuitHash, h.verifierHash, h.publicInputHash, h.proofDigest, hsame ▸ h.circuit,
    hsame ▸ h.governed, hsame ▸ h.recorded⟩

theorem returns_validateProof {proof : ProofMeta} :
    Returns (validateProof proof) env c u c' ↔ Verified c env.current proof ∧ c' = c := by
  unfold validateProof
  simp only [returns_bind, returns_validateHash, returns_stored, returns_failIf, returns_call,
    returns_load, exists_eq_left, exists_and_left, and_assoc, exists_const, not_not, ne_eq,
    Env.current_invoke]
  constructor
  · rintro ⟨h₁, h₂, h₃, h₄, h₅, circuitId, hcircuit, rfl, g, hg, hpaused, _, hverifier, rfl, ledger,
      hledger, hproof, rfl⟩
    exact ⟨⟨h₁, h₂, h₃, h₄, h₅, hcircuit, ⟨g, hg, hpaused, hverifier⟩, ledger, hledger, hproof⟩,
      rfl⟩
  · rintro ⟨h, rfl⟩
    obtain ⟨g, hg, hpaused, hverifier⟩ := h.governed
    obtain ⟨ledger, hledger, hproof⟩ := h.recorded
    exact ⟨h.circuitId, h.circuitHash, h.verifierHash, h.publicInputHash, h.proofDigest, _,
      h.circuit, rfl, g, hg, hpaused, _, hverifier, rfl, ledger, hledger, hproof, rfl⟩

theorem returns_validatePublicInputs {args : FundingArgs} :
    Returns (validatePublicInputs args) env c u c' ↔
      (∃ bytes, publicInputBytes args = some bytes ∧
        args.proof.publicInputHash = H.sha256 bytes) ∧ c' = c := by
  unfold validatePublicInputs
  simp only [returns_bind, returns_unwrapOr, returns_failIf, exists_and_left, and_assoc, not_not,
    ne_eq]
  constructor
  · rintro ⟨bytes, hbytes, _, rfl, hhash, rfl⟩
    exact ⟨⟨bytes, hbytes, hhash⟩, rfl⟩
  · rintro ⟨⟨bytes, hbytes, hhash⟩, rfl⟩
    exact ⟨bytes, hbytes, _, rfl, hhash, rfl⟩

/-- The storage of the contract with the record of a settlement. -/
def recorded (args : FundingArgs) (s : FundingSettlementStorage) : FundingSettlementStorage :=
  { s with
    funding := Function.update s.funding args.key
      (some ⟨args.elapsedMs, args.intervalMs, args.markPrice, args.maxDelta, args.maxDeltaEnabled,
        args.newIndex, args.oldIndex, args.premiumRate, args.proof⟩) }

/-- **A settlement.** Its parameters are valid, it carries a verified proof of its own public inputs
at the oracle's price, the two values have not been settled before, and the market is at the old
value and accepts the new one from this contract. The index is advanced and the settlement
recorded. -/
theorem returns_settle {args : FundingArgs} :
    Returns (settle args) env c u c' ↔ args.Valid ∧ Verified c env.current args.proof ∧
      (∃ bytes, publicInputBytes args = some bytes ∧
        args.proof.publicInputHash = H.sha256 bytes) ∧
      (c.storage .fundingSettlement env.current).funding args.key = none ∧
      ∃ m, (c.storage .fundingSettlement env.current).marketContract = some m ∧
        (c.storage .market m).fundingUpdater env.current = some true ∧ ∃ timestamp c₁,
        Returns (Market.markPrice args.marketId) (env.invoke m) c ⟨args.markPrice, timestamp⟩ c₁ ∧
        ∃ config, (c.storage .market m).market args.marketId = some config ∧ config.active ∧
        config.fundingIndex = args.oldIndex ∧
        c' = (c₁.modify .market m fun s =>
          { s with
            market := Function.update s.market args.marketId
              (some { config with fundingIndex := args.newIndex }) }).modify .fundingSettlement
            env.current (recorded args) := by
  have hprice {timestamp : ℕ} {m : Address} {c₁ : Chain H}
      (h : Returns (Market.markPrice args.marketId) (env.invoke m) c ⟨args.markPrice, timestamp⟩
        c₁) : c₁.storage = c.storage := Respects.rel (R := Chain.SameStorage) h
  unfold settle validateOracleMarkPrice
  simp only [returns_bind, returns_validateHash, returns_failIf, returns_stored, returns_call,
    returns_validateProof, returns_validatePublicInputs, returns_load, returns_currentContract,
    returns_modifyStorage, Market.returns_advanceFunding, Env.current_invoke, Env.invoker_invoke,
    exists_eq_left, exists_and_left, and_assoc, exists_const]
  constructor
  · rintro ⟨hmarket, hmoves, hpositive, hparams, hcap, c₁, ⟨m, hm, price, _, hread, he, rfl⟩,
      hproof, hinputs, hfresh, m', hm', -, hupdater, -, _,
      ⟨config, hconfig, hactive, hindex, rfl⟩, rfl⟩
    obtain ⟨price, timestamp⟩ := price
    obtain rfl : price = args.markPrice := not_not.mp he
    have hsame := hprice hread
    rw [hsame] at hfresh hm' hupdater hconfig
    obtain rfl : m = m' := Option.some.inj (hm.symm.trans hm')
    obtain ⟨hdelta, hrest⟩ := not_or.mp hparams
    obtain ⟨helapsed, hinterval⟩ := not_or.mp hrest
    exact ⟨⟨hmarket, hmoves, not_le.mp hpositive, not_lt.mp hdelta, helapsed, hinterval,
      fun h h' => hcap ⟨h, h'⟩⟩, hproof.congr hsame, hinputs,
      Option.not_isSome_iff_eq_none.mp hfresh, m, hm, hupdater, timestamp, c₁, hread, config, hconfig,
      hactive, hindex, rfl⟩
  · rintro ⟨hvalid, hproof, hinputs, hfresh, m, hm, hupdater, timestamp, c₁, hread, config, hconfig,
      hactive, hindex, rfl⟩
    have hsame := hprice hread
    rw [← hsame] at hfresh hupdater hconfig
    exact ⟨hvalid.marketId, hvalid.moves, not_le.mpr hvalid.markPrice,
      not_or.mpr ⟨not_lt.mpr hvalid.maxDelta, not_or.mpr ⟨hvalid.elapsedMs, hvalid.intervalMs⟩⟩,
      fun h => hvalid.capped h.1 h.2, c₁, ⟨m, hm, _, c₁, hread, not_not.mpr rfl, rfl⟩,
      hproof.congr hsame.symm, hinputs, Option.not_isSome_iff_eq_none.mpr hfresh, m, hsame ▸ hm,
      Or.inr trivial, hupdater, hvalid.moves, _, ⟨config, hconfig, hactive, hindex, rfl⟩, rfl⟩

end Effects

end FundingSettlement

end Pnlx
