import Pnlx.Contracts.Governance

/-!
# The shielded pool

The pool records commitments and nullifiers. A withdrawal shows a proof of the withdraw circuit;
its nullifier is recorded under the 32 bytes of the argument, while the proof binds the argument
reduced to the field.

1. `withdraw_returns`, `withdrawAsset_returns`: what a successful withdrawal has checked and done
   (`Withdrawn`, and `Paid` for the second).
2. Every call keeps the records of the pool.
-/

namespace Pnlx.ShieldedPool

open Program

variable {H : Host}

/-! ## Public inputs -/

def depositPublicInputs (amount : I128) (tokenDigest commitment : BytesN32) : Bytes :=
  u128Be amount ++ fieldBytes tokenDigest ++ fieldBytes commitment

def withdrawPublicInputs (amount : I128)
    (root nullifier tokenDigest recipientDigest changeCommitment : BytesN32) : Bytes :=
  u128Be amount ++ fieldBytes root ++ fieldBytes nullifier ++ fieldBytes tokenDigest ++
    fieldBytes recipientDigest ++ fieldBytes changeCommitment

def validateDepositPublicInputs (amount : I128) (tokenDigest commitment : BytesN32)
    (proof : ProofMeta) : Contract H Unit :=
  failIf (proof.publicInputHash ≠ H.sha256 (depositPublicInputs amount tokenDigest commitment))
    "public input mismatch"

def validatePublicInputs (amount : I128)
    (root nullifier tokenDigest recipientDigest changeCommitment : BytesN32) (proof : ProofMeta) :
    Contract H Unit :=
  failIf (proof.publicInputHash ≠ H.sha256 (withdrawPublicInputs amount root nullifier tokenDigest
    recipientDigest changeCommitment)) "public input mismatch"

/-- The arguments that a withdrawal proof binds, with the proof. -/
structure Withdrawal where
  amount : I128
  root : BytesN32
  nullifier : BytesN32
  tokenDigest : BytesN32
  recipientDigest : BytesN32
  changeCommitment : BytesN32
  proof : ProofMeta
  deriving DecidableEq

/-- The public inputs of the withdraw circuit. -/
def Withdrawal.publicInputs (w : Withdrawal) : List Fr :=
  [asField w.amount, toField w.root, toField w.nullifier, toField w.tokenDigest,
    toField w.recipientDigest, toField w.changeCommitment]

theorem withdrawPublicInputs_eq (w : Withdrawal) :
    withdrawPublicInputs w.amount w.root w.nullifier w.tokenDigest w.recipientDigest
      w.changeCommitment = encodePublicInputs w.publicInputs := by
  simp only [withdrawPublicInputs, encodePublicInputs, Withdrawal.publicInputs, u128Be_eq,
    fieldBytes_eq, List.flatMap_cons, List.flatMap_nil, List.append_assoc, List.append_nil]

/-! ## Records -/

def recordCommitment (commitment : BytesN32) : Contract H Unit := do
  failIf (← load .shieldedPool (·.commitment commitment)) "duplicate commitment"
  modifyStorage .shieldedPool fun s =>
    { s with commitment := Function.update s.commitment commitment true }

def recordNullifier (nullifier : BytesN32) : Contract H Unit := do
  failIf (← load .shieldedPool (·.nullifier nullifier)) "duplicate nullifier"
  modifyStorage .shieldedPool fun s =>
    { s with nullifier := Function.update s.nullifier nullifier true }

def recordChangeCommitment (changeCommitment : BytesN32) : Contract H Unit :=
  doIf (changeCommitment ≠ 0) (recordCommitment changeCommitment)

def requireWriter (writer : Address) : Contract H Unit := do
  requireAuth writer
  failIf (¬ (← load .shieldedPool fun s => (s.writer writer).getD false)) "unauthorized writer"

def requireAdmin : Contract H Unit := do
  let governance ← stored .shieldedPool (·.governance) "not initialized"
  requireAuth (← call governance Governance.admin)

/-- `validate_proof` with the circuit under the given key. -/
def validateProof (circuitKey : ShieldedPoolStorage → Option BytesN32) (proof : ProofMeta) :
    Contract H Unit := do
  let circuit ← load .shieldedPool circuitKey
  let governance ← load .shieldedPool (·.governance)
  let proofLedger ← load .shieldedPool (·.proofLedger)
  Pnlx.validateProof circuit governance proofLedger proof

/-! ## Tokens -/

def balance (token : Address) : Contract H I128 := do
  let pool ← currentContract
  queryExternal fun e => H.tokenBalance e token pool

def transfer (token sender recipient : Address) (amount : I128) : Contract H Unit :=
  runExternal fun e => (H.tokenTransfer e token sender recipient amount).map fun e => ((), e)

abbrev feeReserve (token : Address) : Contract H FeeReserve :=
  load .shieldedPool fun s => (s.feeReserve token).getD ⟨0, 0⟩

abbrev feePaid (token : Address) : Contract H FeeReserve :=
  load .shieldedPool fun s => (s.feePaid token).getD ⟨0, 0⟩

/-! ## Calls -/

def init (governance proofLedger : Address) (depositCircuitId withdrawCircuitId : BytesN32) :
    Contract H Unit := do
  validateHash depositCircuitId
  validateHash withdrawCircuitId
  failIf (← load .shieldedPool (·.governance.isSome)) "already initialized"
  modifyStorage .shieldedPool fun s =>
    { s with
      governance := some governance
      proofLedger := some proofLedger
      depositCircuit := some depositCircuitId
      withdrawCircuit := some withdrawCircuitId }

def deposit (commitment : BytesN32) : Contract H Unit := recordCommitment commitment

def setWriter (writer : Address) (enabled : Bool) : Contract H Unit := do
  requireAdmin
  modifyStorage .shieldedPool fun s =>
    { s with writer := Function.update s.writer writer (some enabled) }

def configureFeeDestinations (insurance treasury : Address) : Contract H Unit := do
  requireAdmin
  failIf (← load .shieldedPool (·.feeDestinations.isSome)) "fee destinations already configured"
  let pool ← currentContract
  failIf (insurance = treasury ∨ insurance = pool ∨ treasury = pool) "invalid fee destinations"
  modifyStorage .shieldedPool fun s => { s with feeDestinations := some ⟨insurance, treasury⟩ }

def depositAsset (token sender : Address) (amount : I128) (commitment : BytesN32)
    (proof : ProofMeta) : Contract H Unit := do
  failIf (amount.toInt ≤ 0) "invalid amount"
  validateHash commitment
  validateProof (·.depositCircuit) proof
  validateDepositPublicInputs amount (addressDigest H token) commitment proof
  requireAuth sender
  transfer token sender (← currentContract) amount
  recordCommitment commitment

def depositClaim (writer token : Address) (amount : I128) (commitment : BytesN32)
    (proof : ProofMeta) : Contract H Unit := do
  requireWriter writer
  failIf (amount.toInt ≤ 0) "invalid amount"
  validateHash commitment
  validateProof (·.depositCircuit) proof
  validateDepositPublicInputs amount (addressDigest H token) commitment proof
  recordCommitment commitment

def spend (writer : Address) (nullifier : BytesN32) : Contract H Unit := do
  requireWriter writer
  recordNullifier nullifier

def accrueFees (writer token : Address) (insurance treasury : I128) : Contract H Unit := do
  requireWriter writer
  failIf (insurance.toInt < 0 ∨ treasury.toInt < 0) "negative fee reserve"
  failIf ((insurance.toInt > 0 ∨ treasury.toInt > 0) ∧
    (← load .shieldedPool (·.feeDestinations.isNone))) "fee destinations not configured"
  let reserve ← feeReserve token
  let insurance ← unwrapOr (I128.checkedAdd reserve.insurance insurance) "insurance overflow"
  let treasury ← unwrapOr (I128.checkedAdd reserve.treasury treasury) "treasury overflow"
  let held ← balance token
  let reserved ← unwrapOr (I128.checkedAdd insurance treasury) "fee reserve overflow"
  failIf (held.toInt < reserved.toInt) "fee reserve exceeds pool balance"
  modifyStorage .shieldedPool fun s =>
    { s with feeReserve := Function.update s.feeReserve token (some ⟨insurance, treasury⟩) }

/-- The part of a fee reserve that goes to insurance or to the treasury. -/
def FeeReserve.part (reserve : FeeReserve) (insurance : Bool) : I128 :=
  if insurance then reserve.insurance else reserve.treasury

def FeeReserve.setPart (reserve : FeeReserve) (insurance : Bool) (amount : I128) : FeeReserve :=
  if insurance then { reserve with insurance := amount } else { reserve with treasury := amount }

def distributeFeeReserve (token : Address) (insurance : Bool) : Contract H I128 := do
  let destinations ← stored .shieldedPool (·.feeDestinations) "fee destinations not configured"
  let recipient := if insurance then destinations.insurance else destinations.treasury
  let reserve ← feeReserve token
  let amount := FeeReserve.part reserve insurance
  if amount = 0 then
    pure 0
  else do
    modifyStorage .shieldedPool fun s =>
      { s with
        feeReserve :=
          Function.update s.feeReserve token (some (FeeReserve.setPart reserve insurance 0)) }
    let paid ← feePaid token
    let total ← unwrapOr (I128.checkedAdd (FeeReserve.part paid insurance) amount)
      "fee paid overflow"
    modifyStorage .shieldedPool fun s =>
      { s with
        feePaid := Function.update s.feePaid token (some (FeeReserve.setPart paid insurance total)) }
    transfer token (← currentContract) recipient amount
    pure amount

abbrev distributeInsurance (token : Address) : Contract H I128 := distributeFeeReserve token true

abbrev distributeTreasury (token : Address) : Contract H I128 := distributeFeeReserve token false

def withdraw (root nullifier tokenDigest recipient : BytesN32) (amount : I128) (proof : ProofMeta)
    (changeCommitment : BytesN32) : Contract H Unit := do
  failIf (amount.toInt ≤ 0) "invalid amount"
  validateProof (·.withdrawCircuit) proof
  validatePublicInputs amount root nullifier tokenDigest recipient changeCommitment proof
  recordNullifier nullifier
  modifyStorage .shieldedPool fun s =>
    { s with withdrawal := Function.update s.withdrawal nullifier (some (root, recipient, amount, proof)) }
  recordChangeCommitment changeCommitment

def withdrawAsset (token : Address) (root nullifier : BytesN32) (recipient : Address)
    (amount : I128) (proof : ProofMeta) (changeCommitment : BytesN32) : Contract H Unit := do
  failIf (amount.toInt ≤ 0) "invalid amount"
  validateProof (·.withdrawCircuit) proof
  validatePublicInputs amount root nullifier (addressDigest H token) (addressDigest H recipient)
    changeCommitment proof
  recordNullifier nullifier
  let reserve ← feeReserve token
  let reserved ← unwrapOr (I128.checkedAdd reserve.insurance reserve.treasury) "fee reserve overflow"
  let held ← balance token
  failIf (((I128.checkedSub held amount).map BitVec.toInt).getD (-1) < reserved.toInt)
    "withdrawal would consume fee reserve"
  transfer token (← currentContract) recipient amount
  modifyStorage .shieldedPool fun s =>
    { s with
      assetWithdrawal :=
        Function.update s.assetWithdrawal nullifier (some (token, root, recipient, amount, proof)) }
  recordChangeCommitment changeCommitment

/-! ## The calls keep the records -/

section Respects

variable {R : Chain H → Chain H → Prop} [Std.Refl R] [IsTrans _ R]

instance {writer : Address} : Respects R (requireWriter writer : Contract H Unit) := by
  unfold requireWriter
  infer_instance

instance : Respects R (requireAdmin : Contract H Unit) := by
  unfold requireAdmin
  infer_instance

instance {circuitKey : ShieldedPoolStorage → Option BytesN32} {proof : ProofMeta} :
    Respects R (validateProof circuitKey proof : Contract H Unit) := by
  unfold validateProof
  infer_instance

instance {token : Address} : Respects R (balance token : Contract H I128) := by
  unfold balance
  infer_instance

instance {amount : I128} {tokenDigest commitment : BytesN32} {proof : ProofMeta} :
    Respects R
      (validateDepositPublicInputs amount tokenDigest commitment proof : Contract H Unit) := by
  unfold validateDepositPublicInputs
  infer_instance

instance {amount : I128} {root nullifier tokenDigest recipientDigest change : BytesN32}
    {proof : ProofMeta} :
    Respects R (validatePublicInputs amount root nullifier tokenDigest recipientDigest change
      proof : Contract H Unit) := by
  unfold validatePublicInputs
  infer_instance

end Respects

instance sameStorage_transfer {token sender recipient : Address} {amount : I128} :
    Respects Chain.SameStorage (transfer token sender recipient amount : Contract H Unit) :=
  sameStorage_runExternal

instance keeps_transfer {token sender recipient : Address} {amount : I128} :
    Keeps (transfer token sender recipient amount : Contract H Unit) := keeps_runExternal

/-- An update that leaves the records alone. -/
theorem keeps_modify {f : ShieldedPoolStorage → ShieldedPoolStorage}
    (hc : ∀ s, (f s).commitment = s.commitment) (hn : ∀ s, (f s).nullifier = s.nullifier) :
    Keeps (H := H) (modifyStorage .shieldedPool f) :=
  keeps_modifyStorage fun s => ⟨fun _ h => (hc s).symm ▸ h, fun _ h => (hn s).symm ▸ h⟩

instance keeps_recordCommitment {commitment : BytesN32} :
    Keeps (recordCommitment commitment : Contract H Unit) := by
  unfold recordCommitment
  exact Respects.andThen inferInstance fun _ => Respects.andThen inferInstance fun _ =>
    keeps_modifyStorage fun _ => ⟨fun _ h => record_true commitment h, fun _ h => h⟩

instance keeps_recordNullifier {nullifier : BytesN32} :
    Keeps (recordNullifier nullifier : Contract H Unit) := by
  unfold recordNullifier
  exact Respects.andThen inferInstance fun _ => Respects.andThen inferInstance fun _ =>
    keeps_modifyStorage fun _ => ⟨fun _ h => h, fun _ h => record_true nullifier h⟩

instance keeps_recordChangeCommitment {commitment : BytesN32} :
    Keeps (recordChangeCommitment commitment : Contract H Unit) := by
  unfold recordChangeCommitment
  infer_instance

instance keeps_init {governance ledger : Address} {depositCircuit withdrawCircuit : BytesN32} :
    Keeps (init governance ledger depositCircuit withdrawCircuit : Contract H Unit) := by
  unfold init
  repeat refine Respects.andThen inferInstance fun _ => ?_
  exact keeps_modify (fun _ => rfl) fun _ => rfl

instance keeps_deposit {commitment : BytesN32} : Keeps (deposit commitment : Contract H Unit) :=
  keeps_recordCommitment

instance keeps_setWriter {writer : Address} {enabled : Bool} :
    Keeps (setWriter writer enabled : Contract H Unit) := by
  unfold setWriter
  exact Respects.andThen inferInstance fun _ => keeps_modify (fun _ => rfl) fun _ => rfl

instance keeps_configureFeeDestinations {insurance treasury : Address} :
    Keeps (configureFeeDestinations insurance treasury : Contract H Unit) := by
  unfold configureFeeDestinations
  repeat refine Respects.andThen inferInstance fun _ => ?_
  exact keeps_modify (fun _ => rfl) fun _ => rfl

set_option synthInstance.maxSize 1024 in
instance keeps_depositAsset {token sender : Address} {amount : I128} {commitment : BytesN32}
    {proof : ProofMeta} :
    Keeps (depositAsset token sender amount commitment proof : Contract H Unit) := by
  unfold depositAsset
  infer_instance

set_option synthInstance.maxSize 1024 in
instance keeps_depositClaim {writer token : Address} {amount : I128} {commitment : BytesN32}
    {proof : ProofMeta} :
    Keeps (depositClaim writer token amount commitment proof : Contract H Unit) := by
  unfold depositClaim
  infer_instance

instance keeps_spend {writer : Address} {nullifier : BytesN32} :
    Keeps (spend writer nullifier : Contract H Unit) := by
  unfold spend
  infer_instance

instance keeps_accrueFees {writer token : Address} {insurance treasury : I128} :
    Keeps (accrueFees writer token insurance treasury : Contract H Unit) := by
  unfold accrueFees
  repeat refine Respects.andThen inferInstance fun _ => ?_
  exact keeps_modify (fun _ => rfl) fun _ => rfl

instance keeps_distributeFeeReserve {token : Address} {insurance : Bool} :
    Keeps (distributeFeeReserve token insurance : Contract H I128) := by
  unfold distributeFeeReserve
  refine Respects.andThen inferInstance fun _ => Respects.andThen inferInstance fun _ => ?_
  refine @Respects.ite _ _ _ _ _ _ _ _ _ inferInstance ?_
  refine Respects.andThen (keeps_modify (fun _ => rfl) fun _ => rfl) fun _ => ?_
  repeat refine Respects.andThen inferInstance fun _ => ?_
  exact Respects.andThen (keeps_modify (fun _ => rfl) fun _ => rfl) fun _ => inferInstance

instance keeps_withdraw {root nullifier tokenDigest recipient change : BytesN32} {amount : I128}
    {proof : ProofMeta} :
    Keeps (withdraw root nullifier tokenDigest recipient amount proof change : Contract H Unit) := by
  unfold withdraw
  repeat refine Respects.andThen inferInstance fun _ => ?_
  exact Respects.andThen (keeps_modify (fun _ => rfl) fun _ => rfl) fun _ => inferInstance

instance keeps_withdrawAsset {token recipient : Address} {root nullifier change : BytesN32}
    {amount : I128} {proof : ProofMeta} :
    Keeps (withdrawAsset token root nullifier recipient amount proof change : Contract H Unit) := by
  unfold withdrawAsset
  repeat refine Respects.andThen inferInstance fun _ => ?_
  exact Respects.andThen (keeps_modify (fun _ => rfl) fun _ => rfl) fun _ => inferInstance

/-! ## Frames -/

instance sameOutside_deposit {commitment : BytesN32} :
    Respects (Chain.SameOutside .shieldedPool) (deposit commitment : Contract H Unit) := by
  unfold deposit recordCommitment
  infer_instance

instance sameOutside_spend {writer : Address} {nullifier : BytesN32} :
    Respects (Chain.SameOutside .shieldedPool) (spend writer nullifier : Contract H Unit) := by
  unfold spend recordNullifier
  infer_instance

/-! ## What a successful withdrawal has checked and done -/

section Withdrawn

variable {env : Env} {c c' : Chain H} {u : Unit}

theorem returns_validateProof {circuitKey : ShieldedPoolStorage → Option BytesN32}
    {proof : ProofMeta} (h : Returns (validateProof circuitKey proof) env c u c') :
    circuitKey (c.storage .shieldedPool env.current) = some proof.circuitId ∧
      ∃ ledger, (c.storage .shieldedPool env.current).proofLedger = some ledger ∧
        (c.storage .proofLedger ledger).proof proof.key := by
  unfold validateProof at h
  simp only [returns_bind, returns_load, exists_eq_left, exists_and_left, and_assoc] at h
  exact Pnlx.returns_validateProof h

@[simp] theorem returns_recordCommitment {commitment : BytesN32} :
    Returns (recordCommitment commitment) env c u c' ↔
      (c.storage .shieldedPool env.current).commitment commitment = false ∧
        c' = c.modify .shieldedPool env.current fun s =>
          { s with commitment := Function.update s.commitment commitment true } := by
  simp [recordCommitment]

@[simp] theorem returns_recordNullifier {nullifier : BytesN32} :
    Returns (recordNullifier nullifier) env c u c' ↔
      (c.storage .shieldedPool env.current).nullifier nullifier = false ∧
        c' = c.modify .shieldedPool env.current fun s =>
          { s with nullifier := Function.update s.nullifier nullifier true } := by
  simp [recordNullifier]

@[simp] theorem returns_transfer {token sender recipient : Address} {amount : I128} :
    Returns (transfer token sender recipient amount) env c u c' ↔
      ∃ e, H.tokenTransfer c.external token sender recipient amount = .ok e ∧
        c' = { c with external := e } := by
  unfold transfer
  rw [returns_runExternal]
  cases H.tokenTransfer c.external token sender recipient amount with
  | error m => simp [Except.map]
  | ok e => simp [Except.map]

/-- A withdrawal with a recorded proof has found its nullifier fresh and has recorded it. -/
structure Withdrawn (pool : Address) (c c' : Chain H) (w : Withdrawal) : Prop where
  amount_pos : 0 < w.amount.toInt
  hash : w.proof.publicInputHash = H.sha256 (encodePublicInputs w.publicInputs)
  circuit : (c.storage .shieldedPool pool).withdrawCircuit = some w.proof.circuitId
  proof : ∃ ledger, (c.storage .shieldedPool pool).proofLedger = some ledger ∧
    (c.storage .proofLedger ledger).proof w.proof.key
  fresh : (c.storage .shieldedPool pool).nullifier w.nullifier = false
  spent : (c'.storage .shieldedPool pool).nullifier w.nullifier

theorem withdraw_returns {root nullifier tokenDigest recipient change : BytesN32} {amount : I128}
    {proof : ProofMeta}
    (h : Returns (withdraw root nullifier tokenDigest recipient amount proof change) env c u c') :
    Withdrawn env.current c c' ⟨amount, root, nullifier, tokenDigest, recipient, change, proof⟩ := by
  unfold withdraw validatePublicInputs at h
  simp only [returns_bind, returns_failIf, returns_recordNullifier, exists_eq_left, exists_and_left,
    returns_modifyStorage, and_assoc, exists_const, not_not, ne_eq, not_le] at h
  obtain ⟨hpos, _, c₁, hproof, hhash, hfresh, hchange⟩ := h
  obtain rfl := ReadOnly.eq hproof
  obtain ⟨hcircuit, hledger⟩ := returns_validateProof hproof
  have hgrows := Respects.rel (R := Chain.Grows) hchange
  have hspent := (hgrows .shieldedPool env.current).2 nullifier (by simp)
  exact ⟨hpos, by rw [hhash, ← withdrawPublicInputs_eq], hcircuit, hledger, hfresh, hspent⟩

/-- The proven amount of `token` goes from the pool to `recipient`. -/
def Paid (pool : Address) (c c' : Chain H) (token recipient : Address) (amount : I128) : Prop :=
  H.tokenTransfer c.external token pool recipient amount = .ok c'.external

theorem external_recordChangeCommitment {change : BytesN32}
    (h : Returns (recordChangeCommitment change) env c u c') : c'.external = c.external := by
  unfold recordChangeCommitment at h
  simp only [returns_doIf, returns_recordCommitment] at h
  rcases h with ⟨-, -, rfl⟩ | ⟨-, rfl⟩
  · rfl
  · rfl

theorem withdrawAsset_returns {token recipient : Address} {root nullifier change : BytesN32}
    {amount : I128} {proof : ProofMeta}
    (h : Returns (withdrawAsset token root nullifier recipient amount proof change) env c u c') :
    Withdrawn env.current c c' ⟨amount, root, nullifier, addressDigest H token,
        addressDigest H recipient, change, proof⟩ ∧ Paid env.current c c' token recipient amount := by
  unfold withdrawAsset validatePublicInputs balance at h
  simp only [returns_bind, returns_failIf, returns_recordNullifier, returns_load, returns_unwrapOr,
    returns_currentContract, returns_queryExternal, returns_transfer, returns_modifyStorage,
    exists_eq_left, exists_and_left, and_assoc, exists_const, not_not, ne_eq, not_le] at h
  obtain ⟨hpos, _, c₁, hproof, hhash, hfresh, _, -, _, -, -, _, ⟨e, htransfer, rfl⟩,
    hchange⟩ := h
  obtain rfl := ReadOnly.eq hproof
  obtain ⟨hcircuit, hledger⟩ := returns_validateProof hproof
  have hgrows := Respects.rel (R := Chain.Grows) hchange
  have hspent := (hgrows .shieldedPool env.current).2 nullifier (by simp)
  refine ⟨⟨hpos, by rw [hhash, ← withdrawPublicInputs_eq], hcircuit, hledger, hfresh, hspent⟩, ?_⟩
  unfold Paid
  rw [external_recordChangeCommitment hchange]
  exact htransfer

end Withdrawn

end Pnlx.ShieldedPool
