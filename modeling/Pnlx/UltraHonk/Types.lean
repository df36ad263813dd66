import Pnlx.UltraHonk.Field

/-!
# Proofs, keys and challenges

`contracts/ultrahonk-verifier/src/types.rs`. An array of the source is a function of its indices. A
point of the curve is the host's, so its type is a parameter.
-/

namespace Pnlx.UltraHonk

abbrev constProofSizeLogN : ℕ := 28
abbrev numberOfSubrelations : ℕ := 26
abbrev batchedRelationPartialLength : ℕ := 8
abbrev numberOfEntities : ℕ := 40
abbrev numberUnshifted : ℕ := 35
abbrev pairingPointsSize : ℕ := 16
abbrev numberOfAlphas : ℕ := numberOfSubrelations - 1

/-- The polynomials of the circuit, in the order of their evaluations. -/
inductive Wire where
  | qm | qc | ql | qr | qo | q4 | qLookup | qArith | qRange | qElliptic | qAux
  | qPoseidon2External | qPoseidon2Internal
  | sigma1 | sigma2 | sigma3 | sigma4 | id1 | id2 | id3 | id4
  | table1 | table2 | table3 | table4 | lagrangeFirst | lagrangeLast
  | wl | wr | wo | w4 | zPerm | lookupInverses | lookupReadCounts | lookupReadTags
  | wlShift | wrShift | woShift | w4Shift | zPermShift
  deriving DecidableEq

/-- `Wire::index`. -/
def Wire.index (w : Wire) : Fin numberOfEntities := ⟨w.ctorIdx, by cases w <;> decide⟩

structure RelationParameters (R : Type*) where
  eta : R
  etaTwo : R
  etaThree : R
  beta : R
  gamma : R
  publicInputsDelta : R

/-- The parameters in another ring. -/
def RelationParameters.map {R S : Type*} (f : R → S) (rp : RelationParameters R) :
    RelationParameters S :=
  ⟨f rp.eta, f rp.etaTwo, f rp.etaThree, f rp.beta, f rp.gamma, f rp.publicInputsDelta⟩

namespace RelationParameters

variable {R S : Type*} (f : R → S) (rp : RelationParameters R)

@[simp] theorem map_eta : (rp.map f).eta = f rp.eta := rfl

@[simp] theorem map_etaTwo : (rp.map f).etaTwo = f rp.etaTwo := rfl

@[simp] theorem map_etaThree : (rp.map f).etaThree = f rp.etaThree := rfl

@[simp] theorem map_beta : (rp.map f).beta = f rp.beta := rfl

@[simp] theorem map_gamma : (rp.map f).gamma = f rp.gamma := rfl

@[simp] theorem map_publicInputsDelta : (rp.map f).publicInputsDelta = f rp.publicInputsDelta := rfl

end RelationParameters

/-- The header of the key and its points, in the order of the first 27 entities. -/
@[ext] structure VerificationKey (G : Type) where
  circuitSize : ℕ
  logCircuitSize : ℕ
  publicInputsSize : ℕ
  pubInputsOffset : ℕ
  points : Fin 27 → G

@[ext] structure Proof (G : Type) where
  pairingPointObject : Fin pairingPointsSize → Fr
  w1 : G
  w2 : G
  w3 : G
  w4 : G
  lookupReadCounts : G
  lookupReadTags : G
  lookupInverses : G
  zPerm : G
  sumcheckUnivariates : Fin constProofSizeLogN → Fin batchedRelationPartialLength → Fr
  sumcheckEvaluations : Fin numberOfEntities → Fr
  geminiFoldComms : Fin (constProofSizeLogN - 1) → G
  geminiAEvaluations : Fin constProofSizeLogN → Fr
  shplonkQ : G
  kzgQuotient : G

structure Transcript where
  relParams : RelationParameters Fr
  alphas : Fin numberOfAlphas → Fr
  gateChallenges : Fin constProofSizeLogN → Fr
  sumcheckUChallenges : Fin constProofSizeLogN → Fr
  rho : Fr
  geminiR : Fr
  shplonkNu : Fr
  shplonkZ : Fr

end Pnlx.UltraHonk
