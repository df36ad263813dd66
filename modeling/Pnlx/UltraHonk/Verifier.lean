import Pnlx.Lib.Script
import Pnlx.UltraHonk.Openings
import Pnlx.UltraHonk.PublicInputs
import Pnlx.UltraHonk.Transcript

/-!
# The verifier

`contracts/ultrahonk-verifier/src/verifier.rs`, over what the host computes of bytes and points.

1. `verify`: the proof is loaded, the public inputs are counted, and the checks are made at the
   challenges of the transcript.
2. `Checked`: the checks at given challenges. `verify_iff`: the proofs that are accepted are those
   that pass them at the challenges that they are hashed to.
-/

namespace Pnlx.UltraHonk

/-- The functions of `env.crypto()`. The host stops at bytes that are no point, so `toPoint` is about
those that are. -/
structure Crypto (G : Type) where
  keccak256 : Bytes → Bytes
  toPoint : Bytes → G
  generator : G
  pairingCheck : G → G → Bool

inductive VerifyError where
  | invalidInput
  | sumcheckFailed
  | shplonkFailed
  deriving DecidableEq

/-- `t.rel_params.public_inputs_delta = delta`. -/
def Transcript.withDelta (t : Transcript) (delta : Fr) : Transcript :=
  { t with relParams := { t.relParams with publicInputsDelta := delta } }

variable {G : Type} [AddCommGroup G] [Module Fr G]

def verify (crypto : Crypto G) (vk : VerificationKey Bytes) (proofBytes publicInputsBytes : Bytes) :
    Except VerifyError Unit := do
  let proof ← (loadProof proofBytes).mapError fun _ => .invalidInput
  if publicInputsBytes.length % 32 ≠ 0 then .error .invalidInput
  else
    let provided := publicInputsBytes.length / 32
    -- `checked_sub` of the pairing point object
    if vk.publicInputsSize < pairingPointsSize then .error .invalidInput
    else if vk.publicInputsSize - pairingPointsSize ≠ provided then .error .invalidInput
    else do
      let t ← (generateTranscript crypto.keccak256 proof publicInputsBytes vk.circuitSize
        (provided + pairingPointsSize) vk.pubInputsOffset).mapError fun _ => .invalidInput
      let delta ← (computePublicInputDelta publicInputsBytes proof.pairingPointObject
        t.relParams.beta t.relParams.gamma vk.pubInputsOffset vk.circuitSize).mapError
          fun _ => .invalidInput
      let t := t.withDelta delta
      (verifySumcheck proof t vk).mapError fun _ => .sumcheckFailed
      (verifyShplemini (proof.map crypto.toPoint) (vk.map crypto.toPoint) t crypto.generator
        crypto.pairingCheck).mapError fun _ => .shplonkFailed

/-! ## What is accepted -/

/-- With the pairing point object the public inputs are as many words as the key says. -/
def Sized (vk : VerificationKey Bytes) (publicInputsBytes : Bytes) : Prop :=
  publicInputsBytes.length + 32 * pairingPointsSize = 32 * vk.publicInputsSize

/-- The challenges that a proof is hashed to. -/
def challengesOf (keccak256 : Bytes → Bytes) (vk : VerificationKey Bytes) (proof : Proof Bytes)
    (publicInputsBytes : Bytes) : Transcript :=
  (transcriptAndDigest keccak256 proof publicInputsBytes vk.circuitSize vk.publicInputsSize
    vk.pubInputsOffset).1

/-- The checks of a proof at the challenges `tp`. -/
def Checked (generator : G) (pairingCheck : G → G → Bool) (vk : VerificationKey G)
    (publicInputsBytes : Bytes) (proof : Proof G) (tp : Transcript) : Prop :=
  ∃ delta, computePublicInputDelta publicInputsBytes proof.pairingPointObject tp.relParams.beta
      tp.relParams.gamma vk.pubInputsOffset vk.circuitSize = .ok delta ∧
    verifySumcheck proof (tp.withDelta delta) vk = .ok () ∧
      verifyShplemini proof vk (tp.withDelta delta) generator pairingCheck = .ok ()

omit [AddCommGroup G] [Module Fr G] in
/-- The sumcheck does not read the points. -/
theorem verifySumcheck_map {H : Type} (f : G → H) (proof : Proof G) (tp : Transcript)
    (vk : VerificationKey G) :
    verifySumcheck (proof.map f) tp (vk.map f) = verifySumcheck proof tp vk := rfl

theorem verify_iff (crypto : Crypto G) (vk : VerificationKey Bytes)
    (proofBytes publicInputsBytes : Bytes) :
    verify crypto vk proofBytes publicInputsBytes = .ok () ↔
      Sized vk publicInputsBytes ∧ ∃ proof, loadProof proofBytes = .ok proof ∧
        Checked crypto.generator crypto.pairingCheck (vk.map crypto.toPoint) publicInputsBytes
          (proof.map crypto.toPoint) (challengesOf crypto.keccak256 vk proof publicInputsBytes) := by
  simp only [verify, Script.except_bind_eq_ok, Script.mapError_eq_ok]
  rw [← exists_and_left]
  refine exists_congr fun proof => ?_
  rw [and_left_comm]
  refine and_congr_right fun _ => ?_
  by_cases hsized : Sized vk publicInputsBytes
  · have hlength := hsized
    unfold Sized pairingPointsSize at hlength
    have hwords : publicInputsBytes.length / 32 + pairingPointsSize = vk.publicInputsSize := by
      unfold pairingPointsSize
      omega
    rw [if_neg (by omega), if_neg (by unfold pairingPointsSize; omega),
      if_neg (by unfold pairingPointsSize; omega), hwords, and_iff_right hsized]
    simp only [Script.except_bind_eq_ok, Script.mapError_eq_ok, generateTranscript, Except.ok.injEq,
      exists_eq_left', Checked, verifySumcheck_map, challengesOf]
    refine exists_congr fun delta => and_congr_right fun _ => ?_
    exact ⟨fun ⟨_, h⟩ => h, fun h => ⟨(), h⟩⟩
  · unfold Sized at hsized
    refine iff_of_false (fun h => hsized ?_) fun h => hsized h.1
    split_ifs at h with hwhole hfits hcount
    have hwhole := not_not.mp hwhole
    have hcount := not_not.mp hcount
    omega

end Pnlx.UltraHonk
