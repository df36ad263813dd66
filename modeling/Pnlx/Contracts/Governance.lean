import Pnlx.Contracts.Chain

/-!
# Governance, the proof ledger and the proof check

Governance names the admin, the pause switch and the verifier of each circuit. The proof ledger
records what the verifiers report. `validateProof` is the check that every contract with a circuit
makes: `returns_validateProof` says what it gives.
-/

namespace Pnlx

open Program

variable {H : Host}

/-! ## Governance -/

namespace Governance

abbrev admin : Contract H Address :=
  stored .governance (·.admin) "not initialized"

abbrev upgradeAuthority : Contract H Address :=
  stored .governance (·.upgradeAuthority) "upgrade authority not configured"

abbrev paused : Contract H Bool := load .governance (·.paused.getD false)

abbrev verifier (circuitId : BytesN32) : Contract H BytesN32 :=
  stored .governance (·.verifier circuitId) "unknown verifier"

abbrev verifierAuthority (circuitId : BytesN32) : Contract H Address :=
  stored .governance (·.verifierAuthority circuitId) "unknown verifier"

def init (admin : Address) : Contract H Unit := do
  failIf (← load .governance (·.admin.isSome)) "already initialized"
  modifyStorage .governance fun s => { s with admin := some admin, paused := some false }

def setPaused (paused : Bool) : Contract H Unit := do
  requireAuth (← admin)
  modifyStorage .governance fun s => { s with paused := some paused }

def setUpgradeAuthority (authority : Address) : Contract H Unit := do
  let admin ← admin
  requireAuth admin
  failIf (authority = admin ∨ (← load .governance (·.upgradeAuthority.isSome)))
    "invalid upgrade authority"
  modifyStorage .governance fun s => { s with upgradeAuthority := some authority }

def rotateUpgradeAuthority (authority : Address) : Contract H Unit := do
  requireAuth (← upgradeAuthority)
  failIf (authority = (← admin)) "upgrade authority must differ from admin"
  modifyStorage .governance fun s => { s with upgradeAuthority := some authority }

def setVerifier (circuitId verifierHash : BytesN32) (authority : Address) : Contract H Unit := do
  requireAuth (← admin)
  failIf (circuitId = 0) "invalid hash"
  failIf (verifierHash = 0) "invalid hash"
  modifyStorage .governance fun s =>
    { s with
      verifier := Function.update s.verifier circuitId (some verifierHash)
      verifierAuthority := Function.update s.verifierAuthority circuitId (some authority) }

instance keeps_init {a : Address} : Keeps (init a : Contract H Unit) := by
  unfold init
  exact Respects.andThen inferInstance fun _ =>
    Respects.andThen inferInstance fun _ => keeps_modifyStorage fun _ => trivial

instance keeps_setPaused {b : Bool} : Keeps (setPaused b : Contract H Unit) := by
  unfold setPaused
  repeat refine Respects.andThen inferInstance fun _ => ?_
  exact keeps_modifyStorage fun _ => trivial

instance keeps_setUpgradeAuthority {a : Address} :
    Keeps (setUpgradeAuthority a : Contract H Unit) := by
  unfold setUpgradeAuthority
  repeat refine Respects.andThen inferInstance fun _ => ?_
  exact keeps_modifyStorage fun _ => trivial

instance keeps_rotateUpgradeAuthority {a : Address} :
    Keeps (rotateUpgradeAuthority a : Contract H Unit) := by
  unfold rotateUpgradeAuthority
  repeat refine Respects.andThen inferInstance fun _ => ?_
  exact keeps_modifyStorage fun _ => trivial

instance keeps_setVerifier {circuitId verifierHash : BytesN32} {a : Address} :
    Keeps (setVerifier circuitId verifierHash a : Contract H Unit) := by
  unfold setVerifier
  repeat refine Respects.andThen inferInstance fun _ => ?_
  exact keeps_modifyStorage fun _ => trivial

end Governance

/-! ## The proof ledger -/

namespace ProofLedger

abbrev governance : Contract H Address := stored .proofLedger (·.governance) "not initialized"

def init (governance : Address) : Contract H Unit := do
  failIf (← load .proofLedger (·.governance.isSome)) "already initialized"
  modifyStorage .proofLedger fun s => { s with governance := some governance }

def record (verifierAuthority : Address) (key : ProofKey) : Contract H Unit := do
  requireAuth verifierAuthority
  validateHash key.circuitId
  validateHash key.verifierHash
  validateHash key.publicInputHash
  validateHash key.proofDigest
  let governance ← governance
  failIf (← call governance Governance.paused) "paused"
  failIf ((← call governance (Governance.verifier key.circuitId)) ≠ key.verifierHash)
    "verifier mismatch"
  failIf ((← call governance (Governance.verifierAuthority key.circuitId)) ≠ verifierAuthority)
    "unauthorized verifier"
  modifyStorage .proofLedger fun s => { s with proof := Function.update s.proof key true }

abbrev hasProof (key : ProofKey) : Contract H Bool := load .proofLedger (·.proof key)

instance keeps_init {a : Address} : Keeps (init a : Contract H Unit) := by
  unfold init
  repeat refine Respects.andThen inferInstance fun _ => ?_
  exact keeps_modifyStorage fun _ _ h => h

instance keeps_record {a : Address} {key : ProofKey} : Keeps (record a key : Contract H Unit) := by
  unfold record
  repeat refine Respects.andThen inferInstance fun _ => ?_
  exact keeps_modifyStorage fun _ _ h => record_true key h

end ProofLedger

/-! ## The check of a proof -/

/-- The record that a proof needs. -/
def ProofMeta.key (proof : ProofMeta) : ProofKey :=
  ⟨proof.circuitId, proof.verifierHash, proof.publicInputHash, proof.proofDigest⟩

/-- `validate_proof` of the contracts, which differ only in where they keep the three values. -/
def validateProof (circuit : Option BytesN32) (governance proofLedger : Option Address)
    (proof : ProofMeta) : Contract H Unit := do
  validateHash proof.circuitId
  validateHash proof.circuitHash
  validateHash proof.verifierHash
  validateHash proof.publicInputHash
  validateHash proof.proofDigest
  let circuitId ← unwrapOr circuit "not initialized"
  failIf (proof.circuitId ≠ circuitId) "circuit mismatch"
  let governance ← unwrapOr governance "not initialized"
  failIf (← call governance Governance.paused) "paused"
  let expected ← call governance (Governance.verifier circuitId)
  failIf (proof.verifierHash ≠ expected) "verifier mismatch"
  let proofLedger ← unwrapOr proofLedger "not initialized"
  failIf (¬ (← call proofLedger (ProofLedger.hasProof proof.key))) "unverified proof"

section ValidateProof

variable {circuit : Option BytesN32} {governance proofLedger : Option Address} {proof : ProofMeta}

instance {R : Chain H → Chain H → Prop} [Std.Refl R] [IsTrans _ R] :
    Respects R (validateProof circuit governance proofLedger proof) := by
  unfold validateProof
  repeat refine Respects.andThen inferInstance fun _ => ?_
  infer_instance

/-- A checked proof is one for the configured circuit, and the ledger has its record. -/
theorem returns_validateProof {env : Env} {c c' : Chain H} {u : Unit}
    (h : Returns (validateProof circuit governance proofLedger proof) env c u c') :
    circuit = some proof.circuitId ∧
      ∃ ledger, proofLedger = some ledger ∧ (c.storage .proofLedger ledger).proof proof.key := by
  unfold validateProof at h
  simp only [returns_bind, returns_validateHash, returns_unwrapOr, returns_failIf, returns_call,
    returns_load, returns_stored, exists_eq_left, exists_and_left, and_assoc, exists_const, not_not,
    ne_eq, Env.current_invoke] at h
  obtain ⟨-, -, -, -, -, circuitId, hcircuit, hid, _, -, -, _, -, -, ledger, hledger, hproof, -⟩ := h
  exact ⟨by rw [hcircuit, hid], ledger, hledger, hproof⟩

end ValidateProof

end Pnlx
