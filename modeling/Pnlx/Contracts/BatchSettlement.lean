import Pnlx.Contracts.IntentRegistry
import Pnlx.Contracts.Market
import Pnlx.Contracts.PositionState
import Pnlx.Contracts.ShieldedPool

/-!
# Batch settlement

`settle` shows a proof of the batch matcher, spends the margin notes of the matched intents in the
shielded pool, deposits their change, ends the intents in the registry, and appends the new
positions. Anybody may call it: its arguments only have to hash to the proven journal.
-/

namespace Pnlx

/-- The arguments of `settle`. -/
structure SettleArgs where
  batchId : BytesN32
  marketId : BytesN32
  settlementDigest : BytesN32
  proof : ProofMeta
  filledIntents : List BytesN32
  newCommitments : List BytesN32
  marginChangeCommitments : List BytesN32
  spentNullifiers : List BytesN32
  matchingPayloadCommitments : List BytesN32
  residualCommitments : List BytesN32
  residualMargins : List I128
  residualPayloadCommitments : List BytesN32
  volume : I128
  residual : I128
  feeConfigHash : BytesN32
  grossTakerFee : I128
  makerRebate : I128
  insuranceFee : I128
  treasuryFee : I128
  makerIntents : List BytesN32
  takerIntents : List BytesN32
  deriving DecidableEq

namespace BatchSettlement

open Program

variable {H : Host}

def maxPublicItems : ℕ := 8

def feeEpoch : U128 := 1

def takerFeePpm : U128 := 500

def makerRebatePpm : U128 := 150

def insuranceFeePpm : U128 := 100

/-! ## Public inputs -/

/-- `append_public_vec`: the length and eight slots. -/
def publicVec (values : List BytesN32) : Bytes :=
  u128Be (BitVec.ofNat 128 values.length) ++
    (List.range maxPublicItems).flatMap fun index => fieldBytes (values.getD index 0)

/-- `append_public_amounts` on amounts that are not negative. -/
def publicAmounts (values : List I128) : Bytes :=
  u128Be (BitVec.ofNat 128 values.length) ++
    (List.range maxPublicItems).flatMap fun index => u128Be (values.getD index 0)

def publicInputBytes (args : SettleArgs) : Bytes :=
  fieldBytes args.batchId ++ fieldBytes args.marketId ++ fieldBytes args.settlementDigest ++
    publicVec args.filledIntents ++ publicVec args.newCommitments ++
    publicVec args.marginChangeCommitments ++ publicVec args.spentNullifiers ++
    publicVec args.matchingPayloadCommitments ++ publicVec args.residualCommitments ++
    publicAmounts args.residualMargins ++ publicVec args.residualPayloadCommitments ++
    u128Be args.residual ++ u128Be args.volume ++ fieldBytes args.feeConfigHash ++
    u128Be args.grossTakerFee ++ u128Be args.makerRebate ++ u128Be args.insuranceFee ++
    u128Be args.treasuryFee ++ publicVec args.makerIntents ++ publicVec args.takerIntents

def validatePublicInputs (args : SettleArgs) : Contract H Unit := do
  failIf ((args.residualMargins.take maxPublicItems).any (BitVec.toInt · < 0))
    "negative residual margin"
  failIf (args.proof.publicInputHash ≠ H.sha256 (publicInputBytes args)) "public input mismatch"

def expectedFeeConfigHash (H : Host) : BytesN32 :=
  H.sha256 (u128Be feeEpoch ++ u128Be takerFeePpm ++ u128Be makerRebatePpm ++ u128Be insuranceFeePpm)

/-! ## Checks -/

def validateProof (proof : ProofMeta) : Contract H Unit := do
  let circuit ← load .batchSettlement (·.circuit)
  let governance ← load .batchSettlement (·.governance)
  let proofLedger ← load .batchSettlement (·.proofLedger)
  Pnlx.validateProof circuit governance proofLedger proof

def validatePublicItems (values : List BytesN32) (requireNonEmpty : Bool) : Contract H Unit := do
  failIf (requireNonEmpty ∧ values = []) "missing public items"
  failIf (values.length > maxPublicItems) "too many public items"
  forEach validateHash values

/-- The loop of `validate_active_intents` over the intents with their payloads. -/
def validateActiveEach (registry : Address) :
    List (BytesN32 × BytesN32) → (seen : List BytesN32) → Contract H Unit
  | [], _ => pure ()
  | (intent, payload) :: rest, seen => do
    failIf (intent ∈ seen) "duplicate intent"
    failIf (¬ (← call registry (IntentRegistry.isActiveIntent intent))) "inactive intent"
    failIf ((← call registry (IntentRegistry.matchingPayloadCommitment intent)) ≠ payload)
      "registered intent payload mismatch"
    validateActiveEach registry rest (seen ++ [intent])

def validateActiveIntents (filledIntents payloads : List BytesN32) : Contract H Unit := do
  validatePublicItems filledIntents true
  let registry ← stored .batchSettlement (·.intentRegistry) "not initialized"
  validateActiveEach registry (filledIntents.zip payloads) []

def validateExecutionPriority (filledIntents makerIntents takerIntents : List BytesN32) :
    Contract H Unit := do
  let registry ← stored .batchSettlement (·.intentRegistry) "not initialized"
  forEach (fun execution : BytesN32 × BytesN32 => do
    failIf (execution.1 = execution.2 ∨ execution.1 ∉ filledIntents ∨ execution.2 ∉ filledIntents)
      "invalid maker/taker pair"
    let makerSequence ← call registry (IntentRegistry.submissionSequence execution.1)
    let takerSequence ← call registry (IntentRegistry.submissionSequence execution.2)
    failIf (makerSequence ≥ takerSequence) "maker must be the resting intent")
    (makerIntents.zip takerIntents)

/-! ## Effects -/

def spendMarginNullifiers (nullifiers : List BytesN32) : Contract H Unit := do
  let pool ← stored .batchSettlement (·.shieldedPool) "not initialized"
  let writer ← currentContract
  forEach (fun nullifier => call pool (ShieldedPool.spend writer nullifier)) nullifiers

def recordMarginChanges (commitments : List BytesN32) : Contract H Unit := do
  let pool ← stored .batchSettlement (·.shieldedPool) "not initialized"
  forEach (fun commitment => call pool (ShieldedPool.deposit commitment)) commitments

/-- A matched intent with its residual: commitment, margin and payload. -/
structure ResidualItem where
  intent : BytesN32
  residual : BytesN32
  margin : I128
  payload : BytesN32
  deriving DecidableEq

/-- The items of the four argument lists. -/
def residualItems : List BytesN32 → List BytesN32 → List I128 → List BytesN32 → List ResidualItem
  | intent :: intents, residual :: residuals, margin :: margins, payload :: payloads =>
    ⟨intent, residual, margin, payload⟩ :: residualItems intents residuals margins payloads
  | _, _, _, _ => []

def clearResidualMargin (item : ResidualItem) : Contract H Unit := do
  let previous ← load .batchSettlement (·.residualMargin item.intent)
  match previous with
  | some previous => do
    failIf (item.margin.toInt ≥ BitVec.toInt previous) "residual margin must decrease"
    modifyStorage .batchSettlement fun s =>
      { s with residualMargin := Function.update s.residualMargin item.intent none }
  | none => pure ()

def consumeFilledIntent (registry : Address) (item : ResidualItem) : Contract H Unit := do
  clearResidualMargin item
  let writer ← currentContract
  if item.residual = 0 then do
    failIf (item.payload ≠ 0 ∨ item.margin ≠ 0) "unexpected residual payload"
    call registry (IntentRegistry.consume writer item.intent)
  else do
    failIf (item.margin.toInt ≤ 0) "invalid residual margin"
    failIf (item.payload = 0) "missing residual payload"
    validateHash item.residual
    validateHash item.payload
    modifyStorage .batchSettlement fun s =>
      { s with residualMargin := Function.update s.residualMargin item.residual (some item.margin) }
    call registry (IntentRegistry.rollover writer item.intent item.residual item.payload)

def consumeFilledIntents (args : SettleArgs) : Contract H Unit := do
  let registry ← stored .batchSettlement (·.intentRegistry) "not initialized"
  forEach (consumeFilledIntent registry) (residualItems args.filledIntents args.residualCommitments
    args.residualMargins args.residualPayloadCommitments)

def checkedMarketPrice (marketId : BytesN32) : Contract H MarketPrice := do
  let market ← stored .batchSettlement (·.marketContract) "not initialized"
  failIf (¬ (← call market (Market.isActive marketId))) "inactive market"
  let price ← call market (Market.markPrice marketId)
  failIf (price.price.toInt ≤ 0) "invalid oracle price"
  pure price

def appendPositions (commitments : List BytesN32) : Contract H AppendReceipt := do
  let positionState ← stored .batchSettlement (·.positionState) "not initialized"
  let writer ← currentContract
  call positionState (PositionState.appendMany writer commitments)

def accrueFees (insurance treasury : I128) : Contract H Unit :=
  doIf (¬ (insurance = 0 ∧ treasury = 0)) (do
    let token ← stored .batchSettlement (·.feeToken) "fee token not configured"
    let pool ← stored .batchSettlement (·.shieldedPool) "not initialized"
    let writer ← currentContract
    call pool (ShieldedPool.accrueFees writer token insurance treasury))

/-! ## Calls -/

def init (governance proofLedger marketContract positionState shieldedPool intentRegistry : Address)
    (circuitId : BytesN32) : Contract H Unit := do
  validateHash circuitId
  failIf (← load .batchSettlement (·.governance.isSome)) "already initialized"
  modifyStorage .batchSettlement fun s =>
    { s with
      governance := some governance
      proofLedger := some proofLedger
      marketContract := some marketContract
      positionState := some positionState
      shieldedPool := some shieldedPool
      intentRegistry := some intentRegistry
      circuit := some circuitId }

def configureFeeToken (token : Address) : Contract H Unit := do
  let governance ← stored .batchSettlement (·.governance) "not initialized"
  requireAuth (← call governance Governance.admin)
  let configured ← load .batchSettlement (·.feeToken)
  match configured with
  | some configured => failIf (configured ≠ token) "fee token already configured"
  | none => modifyStorage .batchSettlement fun s => { s with feeToken := some token }

/-- The checks of `settle` that need nothing but its arguments. -/
def validateSettleArgs (args : SettleArgs) : Contract H Unit := do
  failIf (args.volume.toInt ≤ 0) "invalid volume"
  failIf (args.residual.toInt < 0) "invalid residual"
  failIf (args.feeConfigHash ≠ expectedFeeConfigHash H) "fee configuration mismatch"
  failIf (args.grossTakerFee.toInt < 0 ∨ args.makerRebate.toInt < 0 ∨ args.insuranceFee.toInt < 0 ∨
    args.treasuryFee.toInt < 0) "negative fee amount"
  let allocated ← unwrapOr ((I128.checkedAdd args.makerRebate args.insuranceFee).bind
    (I128.checkedAdd · args.treasuryFee)) "fee amount overflow"
  failIf (args.grossTakerFee ≠ allocated) "fee allocation mismatch"
  validatePublicItems args.newCommitments true
  validatePublicItems args.marginChangeCommitments false
  validatePublicItems args.spentNullifiers true
  validatePublicItems args.makerIntents true
  validatePublicItems args.takerIntents true
  validatePublicItems args.matchingPayloadCommitments true
  failIf (args.matchingPayloadCommitments.length ≠ args.filledIntents.length ∨
    args.residualCommitments.length ≠ args.filledIntents.length ∨
    args.residualMargins.length ≠ args.filledIntents.length ∨
    args.residualPayloadCommitments.length ≠ args.filledIntents.length)
    "intent payload count mismatch"
  failIf (args.makerIntents.length ≠ args.takerIntents.length ∨
    args.makerIntents.length * 2 ≠ args.newCommitments.length) "fee execution count mismatch"

def settle (args : SettleArgs) : Contract H Unit := do
  validateSettleArgs args
  validateProof args.proof
  validatePublicInputs args
  failIf (← load .batchSettlement fun s => (s.batch (args.batchId, args.marketId)).isSome)
    "batch settled"
  validateActiveIntents args.filledIntents args.matchingPayloadCommitments
  validateExecutionPriority args.filledIntents args.makerIntents args.takerIntents
  spendMarginNullifiers args.spentNullifiers
  recordMarginChanges args.marginChangeCommitments
  consumeFilledIntents args
  let oracle ← checkedMarketPrice args.marketId
  let appended ← appendPositions args.newCommitments
  accrueFees args.insuranceFee args.treasuryFee
  modifyStorage .batchSettlement fun s =>
    { s with
      batch := Function.update s.batch (args.batchId, args.marketId)
        (some ⟨args.settlementDigest, appended.firstIndex, appended.root, args.proof, oracle.price,
          oracle.timestamp, args.volume, args.residual, args.feeConfigHash, args.grossTakerFee,
          args.makerRebate, args.insuranceFee, args.treasuryFee⟩) }

def claimResidual (intentCommitment commitment : BytesN32) (proof : ProofMeta) :
    Contract H Unit := do
  let governance ← stored .batchSettlement (·.governance) "not initialized"
  requireAuth (← call governance Governance.admin)
  validateHash commitment
  let registry ← stored .batchSettlement (·.intentRegistry) "not initialized"
  failIf (¬ (← call registry (IntentRegistry.isCancelled intentCommitment)))
    "residual intent is not cancelled"
  let amount ← stored .batchSettlement (·.residualMargin intentCommitment)
    "residual claim unavailable"
  failIf (BitVec.toInt amount ≤ 0) "invalid residual claim"
  let pool ← stored .batchSettlement (·.shieldedPool) "not initialized"
  let token ← stored .batchSettlement (·.feeToken) "fee token not configured"
  let writer ← currentContract
  modifyStorage .batchSettlement fun s =>
    { s with
      residualMargin := Function.update s.residualMargin intentCommitment none
      claimedResidual := Function.update s.claimedResidual intentCommitment (some commitment) }
  call pool (ShieldedPool.depositClaim writer token amount commitment proof)

abbrev isSettledDigest (batchId marketId settlementDigest : BytesN32) : Contract H Bool :=
  load .batchSettlement fun s =>
    (s.batch (batchId, marketId)).any (·.settlementDigest = settlementDigest)

/-! ## The calls keep the records -/

section Respects

variable {R : Chain H → Chain H → Prop} [Std.Refl R] [IsTrans _ R]

instance {args : SettleArgs} : Respects R (validatePublicInputs args : Contract H Unit) := by
  unfold validatePublicInputs
  infer_instance

instance {proof : ProofMeta} : Respects R (validateProof proof : Contract H Unit) := by
  unfold validateProof
  infer_instance

instance {values : List BytesN32} {requireNonEmpty : Bool} :
    Respects R (validatePublicItems values requireNonEmpty : Contract H Unit) := by
  unfold validatePublicItems
  infer_instance

instance {registry : Address} {items : List (BytesN32 × BytesN32)} {seen : List BytesN32} :
    Respects R (validateActiveEach registry items seen : Contract H Unit) := by
  induction items generalizing seen with
  | nil => unfold validateActiveEach; infer_instance
  | cons item items ih => unfold validateActiveEach; infer_instance

instance {filledIntents payloads : List BytesN32} :
    Respects R (validateActiveIntents filledIntents payloads : Contract H Unit) := by
  unfold validateActiveIntents
  infer_instance

instance {filledIntents makerIntents takerIntents : List BytesN32} :
    Respects R (validateExecutionPriority filledIntents makerIntents takerIntents :
      Contract H Unit) := by
  unfold validateExecutionPriority
  infer_instance

instance {args : SettleArgs} : Respects R (validateSettleArgs args : Contract H Unit) := by
  unfold validateSettleArgs
  repeat refine Respects.andThen inferInstance fun _ => ?_
  infer_instance

end Respects

/-- An update that leaves the settled batches alone. -/
theorem keeps_modify {f : BatchSettlementStorage → BatchSettlementStorage}
    (hb : ∀ s, (f s).batch = s.batch) : Keeps (H := H) (modifyStorage .batchSettlement f) :=
  keeps_modifyStorage fun s _ h => (hb s).symm ▸ h

instance keeps_spendMarginNullifiers {nullifiers : List BytesN32} :
    Keeps (spendMarginNullifiers nullifiers : Contract H Unit) := by
  unfold spendMarginNullifiers
  infer_instance

instance keeps_recordMarginChanges {commitments : List BytesN32} :
    Keeps (recordMarginChanges commitments : Contract H Unit) := by
  unfold recordMarginChanges
  infer_instance

instance keeps_clearResidualMargin {item : ResidualItem} :
    Keeps (clearResidualMargin item : Contract H Unit) := by
  unfold clearResidualMargin
  refine Respects.andThen inferInstance fun previous => ?_
  cases previous with
  | none => infer_instance
  | some previous =>
    exact Respects.andThen inferInstance fun _ => keeps_modify fun _ => rfl

set_option synthInstance.maxSize 1024 in
instance keeps_consumeFilledIntent {registry : Address} {item : ResidualItem} :
    Keeps (consumeFilledIntent registry item : Contract H Unit) := by
  have hset : Keeps (H := H) (modifyStorage .batchSettlement fun s =>
      { s with
        residualMargin := Function.update s.residualMargin item.residual (some item.margin) }) :=
    keeps_modify fun _ => rfl
  unfold consumeFilledIntent
  infer_instance

instance keeps_consumeFilledIntents {args : SettleArgs} :
    Keeps (consumeFilledIntents args : Contract H Unit) := by
  unfold consumeFilledIntents
  infer_instance

instance sameStorage_checkedMarketPrice {marketId : BytesN32} :
    Respects Chain.SameStorage (checkedMarketPrice marketId : Contract H MarketPrice) := by
  unfold checkedMarketPrice
  infer_instance

instance keeps_appendPositions {commitments : List BytesN32} :
    Keeps (appendPositions commitments : Contract H AppendReceipt) := by
  unfold appendPositions
  infer_instance

instance keeps_accrueFees {insurance treasury : I128} :
    Keeps (accrueFees insurance treasury : Contract H Unit) := by
  unfold accrueFees
  infer_instance

instance keeps_init {governance ledger market state pool registry : Address} {circuitId : BytesN32} :
    Keeps (init governance ledger market state pool registry circuitId : Contract H Unit) := by
  unfold init
  repeat refine Respects.andThen inferInstance fun _ => ?_
  exact keeps_modify fun _ => rfl

instance keeps_configureFeeToken {token : Address} :
    Keeps (configureFeeToken token : Contract H Unit) := by
  unfold configureFeeToken
  refine Respects.andThen inferInstance fun _ => Respects.andThen inferInstance fun _ =>
    Respects.andThen inferInstance fun _ => Respects.andThen inferInstance fun configured => ?_
  cases configured with
  | none => exact keeps_modify fun _ => rfl
  | some configured => exact Respects.failIf

instance keeps_settle {args : SettleArgs} : Keeps (settle args : Contract H Unit) := by
  have hprice : Keeps (checkedMarketPrice args.marketId : Contract H MarketPrice) :=
    keeps_of_sameStorage inferInstance
  unfold settle
  repeat refine Respects.andThen inferInstance fun _ => ?_
  exact keeps_modifyStorage fun _ _ h => record_some _ _ h

instance keeps_claimResidual {intentCommitment commitment : BytesN32} {proof : ProofMeta} :
    Keeps (claimResidual intentCommitment commitment proof : Contract H Unit) := by
  unfold claimResidual
  repeat refine Respects.andThen inferInstance fun _ => ?_
  exact Respects.andThen (keeps_modify fun _ => rfl) fun _ => inferInstance

/-! ## The configuration stays -/

/-- The contracts that every instance of batch settlement calls. -/
def SameConfig (c c' : Chain H) : Prop :=
  ∀ a, (c'.storage .batchSettlement a).shieldedPool = (c.storage .batchSettlement a).shieldedPool ∧
    (c'.storage .batchSettlement a).intentRegistry = (c.storage .batchSettlement a).intentRegistry ∧
    (c'.storage .batchSettlement a).positionState = (c.storage .batchSettlement a).positionState

instance : Std.Refl (SameConfig (H := H)) := ⟨fun _ _ => ⟨rfl, rfl, rfl⟩⟩

instance : IsTrans (Chain H) SameConfig :=
  ⟨fun _ _ _ h h' a => ⟨(h' a).1.trans (h a).1, (h' a).2.1.trans (h a).2.1,
    (h' a).2.2.trans (h a).2.2⟩⟩

theorem sameConfig_of_sameOutside {k : Kind} (hk : Kind.batchSettlement ≠ k) {α : Type}
    {x : Contract H α} (hx : Respects (Chain.SameOutside k) x) : Respects SameConfig x :=
  hx.mono fun c c' h a => by rw [h _ hk]; exact ⟨rfl, rfl, rfl⟩

theorem sameConfig_modifyStorage {f : BatchSettlementStorage → BatchSettlementStorage}
    (hf : ∀ s, (f s).shieldedPool = s.shieldedPool ∧ (f s).intentRegistry = s.intentRegistry ∧
      (f s).positionState = s.positionState) :
    Respects SameConfig (modifyStorage .batchSettlement f : Contract H Unit) where
  rel {env c _ _} h a := by
    rw [returns_modifyStorage.mp h]
    by_cases ha : a = env.current
    · subst ha
      rw [Chain.storage_modify_self]
      exact hf _
    · rw [Chain.storage_modify_of_address ha]
      exact ⟨rfl, rfl, rfl⟩

instance sameConfig_spendMarginNullifiers {nullifiers : List BytesN32} :
    Respects SameConfig (spendMarginNullifiers nullifiers : Contract H Unit) := by
  have hspend (writer : Address) (nullifier : BytesN32) :
      Respects SameConfig (ShieldedPool.spend writer nullifier : Contract H Unit) :=
    sameConfig_of_sameOutside (k := .shieldedPool) (by decide) inferInstance
  unfold spendMarginNullifiers
  infer_instance

instance sameConfig_recordMarginChanges {commitments : List BytesN32} :
    Respects SameConfig (recordMarginChanges commitments : Contract H Unit) := by
  have hdeposit (commitment : BytesN32) :
      Respects SameConfig (ShieldedPool.deposit commitment : Contract H Unit) :=
    sameConfig_of_sameOutside (k := .shieldedPool) (by decide) inferInstance
  unfold recordMarginChanges
  infer_instance

instance sameConfig_checkedMarketPrice {marketId : BytesN32} :
    Respects SameConfig (checkedMarketPrice marketId : Contract H MarketPrice) := by
  refine Respects.mono (fun c c' h a => ?_)
    (inferInstance : Respects Chain.SameStorage (checkedMarketPrice marketId))
  rw [show c'.storage = c.storage from h]
  exact ⟨rfl, rfl, rfl⟩

instance sameConfig_clearResidualMargin {item : ResidualItem} :
    Respects SameConfig (clearResidualMargin item : Contract H Unit) := by
  unfold clearResidualMargin
  refine Respects.andThen inferInstance fun previous => ?_
  cases previous with
  | none => infer_instance
  | some previous =>
    exact Respects.andThen inferInstance fun _ => sameConfig_modifyStorage fun _ => ⟨rfl, rfl, rfl⟩

set_option synthInstance.maxSize 1024 in
instance sameConfig_consumeFilledIntent {registry : Address} {item : ResidualItem} :
    Respects SameConfig (consumeFilledIntent registry item : Contract H Unit) := by
  have hset : Respects (SameConfig (H := H)) (modifyStorage .batchSettlement fun s =>
      { s with
        residualMargin := Function.update s.residualMargin item.residual (some item.margin) }) :=
    sameConfig_modifyStorage fun _ => ⟨rfl, rfl, rfl⟩
  have hconsume (writer : Address) :
      Respects SameConfig (IntentRegistry.consume writer item.intent : Contract H Unit) :=
    sameConfig_of_sameOutside (k := .intentRegistry) (by decide) inferInstance
  have hrollover (writer : Address) : Respects SameConfig
      (IntentRegistry.rollover writer item.intent item.residual item.payload : Contract H Unit) :=
    sameConfig_of_sameOutside (k := .intentRegistry) (by decide) inferInstance
  unfold consumeFilledIntent
  infer_instance

instance sameConfig_consumeFilledIntents {args : SettleArgs} :
    Respects SameConfig (consumeFilledIntents args : Contract H Unit) := by
  unfold consumeFilledIntents
  infer_instance

end BatchSettlement

end Pnlx
