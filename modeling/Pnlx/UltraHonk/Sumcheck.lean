import Mathlib.LinearAlgebra.Lagrange
import Pnlx.Lib.Sumcheck
import Pnlx.UltraHonk.Relations

/-!
# The sumcheck verifier

`contracts/ultrahonk-verifier/src/sumcheck.rs`.

1. `computeNextTargetSum`: the message of a round at the challenge, by the barycentric formula.
   `computeNextTargetSum_eq`: the value of the polynomial through the eight places of the message,
   at every challenge.
2. `verifySumcheck`: the rounds and the check of the claimed evaluations. `verifySumcheck_iff`: what
   it accepts, in terms of the protocol.
-/

open Polynomial

namespace Pnlx.UltraHonk

/-! ## One round -/

/-- A message of the prover, its values at the first eight points. -/
abbrev Univariate := Fin batchedRelationPartialLength → Fr

/-- `BARY_BYTES`. -/
def baryBytes : Fin batchedRelationPartialLength → ℕ :=
  ![0x30644e72e131a029b85045b68181585d2833e84879b9709143e1f593efffec51,
    0x00000000000000000000000000000000000000000000000000000000000002d0,
    0x30644e72e131a029b85045b68181585d2833e84879b9709143e1f593efffff11,
    0x0000000000000000000000000000000000000000000000000000000000000090,
    0x30644e72e131a029b85045b68181585d2833e84879b9709143e1f593efffff71,
    0x00000000000000000000000000000000000000000000000000000000000000f0,
    0x30644e72e131a029b85045b68181585d2833e84879b9709143e1f593effffd31,
    0x00000000000000000000000000000000000000000000000000000000000013b0]

def barycentricWeights : Univariate := fun i => (baryBytes i : Fr)

def pointIndices : Univariate := fun i => (i.val : Fr)

def checkSum (roundUnivariate : Univariate) (roundTarget : Fr) : Prop :=
  roundUnivariate 0 + roundUnivariate 1 = roundTarget

instance (roundUnivariate : Univariate) (roundTarget : Fr) :
    Decidable (checkSum roundUnivariate roundTarget) := inferInstanceAs (Decidable (_ = _))

/-- The value at a point of the domain, or the barycentric sum. -/
def computeNextTargetSum (roundUnivariate : Univariate) (roundChallenge : Fr)
    (barycentricWeights pointIndices : Univariate) : Except String Fr :=
  match (List.finRange batchedRelationPartialLength).find? fun i =>
      roundChallenge = pointIndices i with
  | some i => .ok (roundUnivariate i)
  | none =>
    let diffs := List.ofFn fun i => roundChallenge - pointIndices i
    let bPoly := diffs.foldl (· * ·) 1
    let denoms := List.ofFn fun i => barycentricWeights i * (roundChallenge - pointIndices i)
    match batchInverse denoms with
    | .error _ => .error "sumcheck: barycentric denominator is zero"
    | .ok invDenoms =>
      .ok (bPoly * ((List.ofFn roundUnivariate).zip invDenoms).foldl
        (fun acc ui => acc + ui.1 * ui.2) 0)

def partiallyEvaluatePow (gateChallenge powPartialEvaluation roundChallenge : Fr) : Fr :=
  powPartialEvaluation * (1 + roundChallenge * (gateChallenge - 1))

/-! ## The verifier -/

variable {G : Type}

/-- One round of the loop, from the target and the separator before it. -/
def sumcheckRound (proof : Proof G) (tp : Transcript) (state : Fr × Fr)
    (round : Fin constProofSizeLogN) : Except String (Fr × Fr) :=
  let roundUnivariate := proof.sumcheckUnivariates round
  if checkSum roundUnivariate state.1 then
    match computeNextTargetSum roundUnivariate (tp.sumcheckUChallenges round) barycentricWeights
        pointIndices with
    | .error e => .error e
    | .ok roundTarget =>
      .ok (roundTarget,
        partiallyEvaluatePow (tp.gateChallenges round) state.2 (tp.sumcheckUChallenges round))
  else .error "round failed"

/-- The indices below `log_n`. -/
def roundIndices (logN : ℕ) : List (Fin constProofSizeLogN) :=
  (List.finRange constProofSizeLogN).take logN

def verifySumcheck (proof : Proof G) (tp : Transcript) (vk : VerificationKey G) :
    Except String Unit :=
  let logN := vk.logCircuitSize
  if logN = 0 ∨ constProofSizeLogN < logN then
    .error "sumcheck: log_circuit_size out of range"
  else
    match (roundIndices logN).foldlM (sumcheckRound proof tp) (0, 1) with
    | .error e => .error e
    | .ok state =>
      let grandHonkRelationSum := accumulateRelationEvaluations proof.sumcheckEvaluations
        tp.relParams tp.alphas state.2
      if grandHonkRelationSum = state.1 then .ok () else .error "sumcheck final mismatch"

/-! ## Interpolation -/

theorem pointIndices_injective : Function.Injective pointIndices := by decide +kernel

/-- The weights are the denominators of the Lagrange basis. -/
theorem barycentricWeights_eq (i : Fin batchedRelationPartialLength) :
    barycentricWeights i = ∏ j ∈ Finset.univ.erase i, (pointIndices i - pointIndices j) := by
  revert i
  decide +kernel

/-- The polynomial that a message stands for. -/
noncomputable def interpolated (u : Univariate) : Fr[X] :=
  Lagrange.interpolate Finset.univ pointIndices u

theorem natDegree_interpolated_le (u : Univariate) : (interpolated u).natDegree ≤ 7 :=
  natDegree_le_of_degree_le (Lagrange.degree_interpolate_le u pointIndices_injective.injOn)

theorem eval_interpolated (u : Univariate) (i : Fin batchedRelationPartialLength) :
    (interpolated u).eval (pointIndices i) = u i :=
  Lagrange.eval_interpolate_at_node u pointIndices_injective.injOn (Finset.mem_univ i)

/-- A polynomial of the degree is the one through its values. -/
theorem interpolated_eval {p : Fr[X]} (hp : p.natDegree ≤ 7) :
    interpolated (fun i => p.eval (pointIndices i)) = p := by
  refine (Lagrange.eq_interpolate pointIndices_injective.injOn ?_).symm
  exact (degree_le_of_natDegree_le hp).trans_lt (by decide)

theorem foldl_mul_ofFn {n : ℕ} (f : Fin n → Fr) : (List.ofFn f).foldl (· * ·) 1 = ∏ i, f i := by
  rw [← List.prod_ofFn, List.prod_eq_foldl]

theorem computeNextTargetSum_eq (u : Univariate) (x : Fr) :
    computeNextTargetSum u x barycentricWeights pointIndices = .ok ((interpolated u).eval x) := by
  unfold computeNextTargetSum
  split
  · next i hi =>
    have hx : x = pointIndices i := by simpa using List.find?_some hi
    rw [hx, eval_interpolated]
  · next hnone =>
    have hx : ∀ i, x ≠ pointIndices i := by simpa using hnone
    have hdiff : ∀ i, x - pointIndices i ≠ 0 := fun i => sub_ne_zero.mpr (hx i)
    have hweight : ∀ i, barycentricWeights i ≠ 0 := by
      intro i
      rw [barycentricWeights_eq, Finset.prod_ne_zero_iff]
      intro j hj
      exact sub_ne_zero.mpr fun h => Finset.ne_of_mem_erase hj (pointIndices_injective h).symm
    have hdenoms : (0 : Fr) ∉ List.ofFn fun i => barycentricWeights i * (x - pointIndices i) := by
      rw [List.mem_ofFn]
      rintro ⟨i, hi⟩
      exact mul_ne_zero (hweight i) (hdiff i) hi
    simp only [batchInverse_eq, if_neg hdenoms, List.map_ofFn, foldl_zip_ofFn, foldl_mul_ofFn,
      zero_add]
    rw [interpolated, Lagrange.eval_interpolate_not_at_node u fun i _ => hx i,
      Lagrange.eval_nodal]
    refine congrArg (fun s => Except.ok (_ * s)) (Finset.sum_congr rfl fun i _ => ?_)
    rw [Function.comp_apply, Lagrange.nodalWeight, Finset.prod_inv_distrib,
      ← barycentricWeights_eq, mul_inv]
    ring

/-! ## What the verifier accepts -/

section Verifier

variable (proof : Proof G) (tp : Transcript) (vk : VerificationKey G)

/-- The messages and challenges of the rounds. -/
noncomputable def messages (rounds : List (Fin constProofSizeLogN)) : List (Fr[X] × Fr) :=
  rounds.map fun r => (interpolated (proof.sumcheckUnivariates r), tp.sumcheckUChallenges r)

/-- The separator after the rounds. -/
def powAfter (rounds : List (Fin constProofSizeLogN)) (powPartialEvaluation : Fr) : Fr :=
  rounds.foldl (fun pow r =>
    partiallyEvaluatePow (tp.gateChallenges r) pow (tp.sumcheckUChallenges r)) powPartialEvaluation

theorem sumcheckRound_eq (state : Fr × Fr) (round : Fin constProofSizeLogN) :
    sumcheckRound proof tp state round =
      if (interpolated (proof.sumcheckUnivariates round)).eval 0 +
          (interpolated (proof.sumcheckUnivariates round)).eval 1 = state.1 then
        .ok ((interpolated (proof.sumcheckUnivariates round)).eval (tp.sumcheckUChallenges round),
          partiallyEvaluatePow (tp.gateChallenges round) state.2 (tp.sumcheckUChallenges round))
      else .error "round failed" := by
  have hzero : (interpolated (proof.sumcheckUnivariates round)).eval 0 =
      proof.sumcheckUnivariates round 0 := by
    simpa [pointIndices] using eval_interpolated (proof.sumcheckUnivariates round) 0
  have hone : (interpolated (proof.sumcheckUnivariates round)).eval 1 =
      proof.sumcheckUnivariates round 1 := by
    simpa [pointIndices] using eval_interpolated (proof.sumcheckUnivariates round) 1
  simp only [sumcheckRound, checkSum, computeNextTargetSum_eq, hzero, hone]

theorem foldlM_sumcheckRound (rounds : List (Fin constProofSizeLogN)) (claim pow : Fr)
    (state : Fr × Fr) :
    rounds.foldlM (sumcheckRound proof tp) (claim, pow) = .ok state ↔
      Sumcheck.Passes claim (messages proof tp rounds) state.1 ∧
        state.2 = powAfter tp rounds pow := by
  induction rounds generalizing claim pow with
  | nil =>
    rw [List.foldlM_nil]
    constructor
    · rintro h
      obtain rfl := Except.ok.inj h
      exact ⟨rfl, rfl⟩
    · rintro ⟨hclaim, hpow⟩
      exact congrArg Except.ok (Prod.ext hclaim.symm hpow.symm)
  | cons r rounds ih =>
    rw [List.foldlM_cons, sumcheckRound_eq]
    split_ifs with hsum
    · refine (ih _ _).trans (and_congr_left' ?_)
      exact (and_iff_right hsum).symm
    · refine iff_of_false (fun h => ?_) fun h => hsum h.1.1
      cases h

/-- The verifier accepts when the messages pass, with the relations at the claimed evaluations as
the row that is left. -/
theorem verifySumcheck_iff :
    verifySumcheck proof tp vk = .ok () ↔
      (1 ≤ vk.logCircuitSize ∧ vk.logCircuitSize ≤ constProofSizeLogN) ∧
        Sumcheck.Passes 0 (messages proof tp (roundIndices vk.logCircuitSize))
          (accumulateRelationEvaluations proof.sumcheckEvaluations tp.relParams tp.alphas
            (powAfter tp (roundIndices vk.logCircuitSize) 1)) := by
  unfold verifySumcheck
  by_cases hrange : vk.logCircuitSize = 0 ∨ constProofSizeLogN < vk.logCircuitSize
  · simp only [if_pos hrange]
    refine iff_of_false (fun h => by cases h) fun h => ?_
    omega
  · simp only [if_neg hrange]
    rw [and_iff_right (by omega)]
    have hfold := foldlM_sumcheckRound proof tp (roundIndices vk.logCircuitSize) 0 1
    cases hstate : (roundIndices vk.logCircuitSize).foldlM (sumcheckRound proof tp) (0, 1) with
    | error e =>
      refine iff_of_false (fun h => by cases h) fun h => ?_
      rw [(hfold (_, _)).mpr ⟨h, rfl⟩] at hstate
      cases hstate
    | ok state =>
      obtain ⟨hpass, hpow⟩ := (hfold state).mp hstate
      simp only [hpow]
      generalize accumulateRelationEvaluations proof.sumcheckEvaluations tp.relParams tp.alphas
        (powAfter tp (roundIndices vk.logCircuitSize) 1) = row
      constructor
      · intro h
        split_ifs at h with hsum
        rwa [hsum]
      · intro h
        have hsame := (hfold (row, _)).mpr ⟨h, rfl⟩
        rw [hstate] at hsame
        exact if_pos (congrArg Prod.fst (Except.ok.inj hsame)).symm

end Verifier

end Pnlx.UltraHonk
