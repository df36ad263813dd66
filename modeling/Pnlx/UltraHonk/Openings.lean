import Pnlx.Lib.Openings
import Pnlx.UltraHonk.Shplemini

/-!
# Commitments as polynomials

The points of a proof are commitments to polynomials, and the polynomials of the wires are the
columns of a trace.

1. `Proof.map`, `VerificationKey.map`: the points under a linear map, such as the commitment.
   `openingPoint_map`: the opening point is a combination of the points.
2. `entityPoly`, `committed`: the polynomials as a trace. A shifted column is the one it shifts
   without its first row.
3. `foldChain`: the batch of the columns and its folds. `foldDefect_of_opened`: if what is claimed
   at the places is true, the rounds leave nothing.
-/

open Polynomial Sumcheck Openings

namespace Pnlx.UltraHonk

/-! ## Linear maps -/

section Map

variable {G H : Type}

def VerificationKey.map (f : G → H) (vk : VerificationKey G) : VerificationKey H where
  circuitSize := vk.circuitSize
  logCircuitSize := vk.logCircuitSize
  publicInputsSize := vk.publicInputsSize
  pubInputsOffset := vk.pubInputsOffset
  points := fun i => f (vk.points i)

def Proof.map (f : G → H) (proof : Proof G) : Proof H where
  pairingPointObject := proof.pairingPointObject
  w1 := f proof.w1
  w2 := f proof.w2
  w3 := f proof.w3
  w4 := f proof.w4
  lookupReadCounts := f proof.lookupReadCounts
  lookupReadTags := f proof.lookupReadTags
  lookupInverses := f proof.lookupInverses
  zPerm := f proof.zPerm
  sumcheckUnivariates := proof.sumcheckUnivariates
  sumcheckEvaluations := proof.sumcheckEvaluations
  geminiFoldComms := fun k => f (proof.geminiFoldComms k)
  geminiAEvaluations := proof.geminiAEvaluations
  shplonkQ := f proof.shplonkQ
  kzgQuotient := f proof.kzgQuotient

variable [AddCommGroup G] [Module Fr G] [AddCommGroup H] [Module Fr H] (f : G →ₗ[Fr] H)
  (proof : Proof G) (vk : VerificationKey G) (tp : Transcript)

theorem entityPoint_map (i : ℕ) :
    entityPoint (proof.map f) (vk.map f) i = f (entityPoint proof vk i) := by
  have hlist : List.ofFn (vk.map f).points ++ proofPoints (proof.map f) =
      (List.ofFn vk.points ++ proofPoints proof).map f := by
    rw [List.map_append, List.map_ofFn]
    rfl
  rw [entityPoint, hlist, ← map_zero f, List.getD_map]
  rfl

theorem foldPoint_map (k : ℕ) : foldPoint (proof.map f) k = f (foldPoint proof k) := by
  have hlist : List.ofFn (proof.map f).geminiFoldComms = (List.ofFn proof.geminiFoldComms).map f := by
    rw [List.map_ofFn]
    rfl
  rw [foldPoint, hlist, ← map_zero f, List.getD_map]
  rfl

theorem openedPoint_map (j : ℕ) (s : Fin 2) :
    openedPoint (proof.map f) (vk.map f) tp j s = f (openedPoint proof vk tp j s) := by
  have hbatch : batchPoint (proof.map f) (vk.map f) tp = f (batchPoint proof vk tp) := by
    simp only [batchPoint, entityPoint_map, map_sum, map_smul]
  have hshifted : shiftedPoint (proof.map f) (vk.map f) tp = f (shiftedPoint proof vk tp) := by
    simp only [shiftedPoint, entityPoint_map, map_sum, map_smul]
  cases j with
  | zero =>
    fin_cases s
    · change batchPoint _ _ _ + _ • shiftedPoint _ _ _ = f (batchPoint _ _ _ + _ • _)
      rw [hbatch, hshifted, map_add, map_smul]
    · change batchPoint _ _ _ - _ • shiftedPoint _ _ _ = f (batchPoint _ _ _ - _ • _)
      rw [hbatch, hshifted, map_sub, map_smul]
  | succ j => exact foldPoint_map f proof j

omit [AddCommGroup G] [Module Fr G] [AddCommGroup H] [Module Fr H] in
/-- The claimed values are read from the evaluations alone. -/
theorem openedValue_congr (proof' : Proof H)
    (hevaluations : proof.sumcheckEvaluations = proof'.sumcheckEvaluations)
    (hvalues : proof.geminiAEvaluations = proof'.geminiAEvaluations) (logN j : ℕ) (s : Fin 2) :
    openedValue proof tp logN j s = openedValue proof' tp logN j s := by
  have hcur : ∀ m, foldCur proof tp (inverted tp logN) m = foldCur proof' tp (inverted tp logN) m := by
    intro m
    induction m with
    | zero => rw [foldCur, foldCur, evalAcc, evalAcc, hevaluations]
    | succ m ih => rw [foldCur, foldCur, foldStep, foldStep, ih, hvalues]
  unfold openedValue foldPos
  rw [hcur, hvalues]

theorem openingPoint_map (generator : G) {logN : ℕ} (hpos : 1 ≤ logN)
    (hle : logN ≤ constProofSizeLogN) :
    openingPoint (proof.map f) (vk.map f) tp (f generator) logN =
      f (openingPoint proof vk tp generator logN) := by
  rw [openingPoint_eq _ _ _ _ hpos hle, openingPoint_eq _ _ _ _ hpos hle, map_add, map_sub, map_sum]
  have hvalue := openedValue_congr (proof.map f) tp proof rfl rfl logN
  simp only [map_smul, map_sub, openedPoint_map, hvalue]
  rfl

end Map

/-! ## Columns -/

section Columns

variable (proof : Proof Fr[X]) (vk : VerificationKey Fr[X]) (tp : Transcript)

/-- The polynomial of an entity. The shifted ones are without their first coefficient. -/
noncomputable def entityPoly (i : ℕ) : Fr[X] :=
  if i < numberUnshifted then entityPoint proof vk i else (entityPoint proof vk (i - 8)).divX

/-- The trace of the coefficients. -/
noncomputable def committed : Trace := fun i w => (entityPoly proof vk w.index).coeff i

/-- The batch of all entities. -/
noncomputable def batchPoly : Fr[X] :=
  ∑ i : Fin numberOfEntities, C (tp.rho ^ i.val) * entityPoly proof vk i

/-- The coefficient at which the batch of the shifted entities has a pole. -/
noncomputable def pole : Fr := (shiftedPoint proof vk tp).coeff 0

theorem batchPoly_eq :
    batchPoly proof vk tp = batchPoint proof vk tp + (shiftedPoint proof vk tp).divX := by
  ext n
  have hsplit : batchPoly proof vk tp =
      ∑ i ∈ Finset.range (numberUnshifted + 5), C (tp.rho ^ i) * entityPoly proof vk i :=
    (Finset.sum_range fun i => C (tp.rho ^ i) * entityPoly proof vk i).symm
  rw [hsplit, Finset.sum_range_add, coeff_add, coeff_add, coeff_divX, batchPoint, shiftedPoint]
  simp only [finsetSum_coeff, coeff_smul, coeff_C_mul, smul_eq_mul]
  refine congrArg₂ _ (Finset.sum_congr rfl fun i hi => ?_) (Finset.sum_congr rfl fun k _ => ?_)
  · rw [entityPoly, if_pos (Finset.mem_range.mp hi)]
  · have hindex : 35 + k - 8 = 27 + k := by omega
    rw [entityPoly, if_neg (Nat.not_lt.mpr (Nat.le_add_right _ _)), coeff_divX, hindex]

/-- The folds of the batch are the batch of the columns at the challenges. -/
theorem coeff_foldPolys_batchPoly (us : List Fr) :
    (foldPolys us (batchPoly proof vk tp)).coeff 0 =
      ∑ i : Fin numberOfEntities, tp.rho ^ i.val *
        foldAll us (fun k (i : Fin numberOfEntities) => (entityPoly proof vk i).coeff k) 0 i := by
  rw [← foldAll_sum, coeff_foldPolys us (fun _ : Unit => batchPoly proof vk tp) 0 ()]
  simp only [batchPoly, finsetSum_coeff, coeff_C_mul]

/-! ## Rounds -/

/-- The batch, the folds that the prover sent, and the constant of the claimed evaluations. -/
noncomputable def foldChain (logN : ℕ) : ℕ → Fr[X]
  | 0 => batchPoly proof vk tp
  | j + 1 => if j + 1 < logN then foldPoint proof j else C (evalAcc proof tp)

variable {proof vk tp} {logN : ℕ}

theorem getD_roundChallenges (hle : logN ≤ constProofSizeLogN) {j : ℕ} (hj : j < logN) :
    (roundChallenges tp logN).getD j 0 = entry tp.sumcheckUChallenges j := by
  have hlt : j < constProofSizeLogN := hj.trans_le hle
  have hlength : j < (roundChallenges tp logN).length := by simp [roundChallenges, hle, hj]
  rw [List.getD_eq_getElem _ _ hlength, entry, dif_pos hlt]
  simp [roundChallenges, roundIndices]

/-- A round of the loop, without its division. -/
theorem foldPos_round {j : ℕ} (hj : j < logN) (hne : foldDenominator tp (j + 1) ≠ 0) :
    foldPos proof tp (inverted tp logN) j * foldDenominator tp (j + 1) =
      rPows tp.geminiR j * foldPos proof tp (inverted tp logN) (j + 1) * 2 -
        entry proof.geminiAEvaluations j * (rPows tp.geminiR j *
          (1 - entry tp.sumcheckUChallenges j) - entry tp.sumcheckUChallenges j) := by
  have hlog : (inverted tp logN).logN = logN := rfl
  obtain ⟨m, hm⟩ : ∃ m, logN - j = m + 1 := Nat.exists_eq_add_one_of_ne_zero (by omega)
  have hnext : logN - (j + 1) = m := by omega
  have hindex : logN - m = j + 1 := by omega
  rw [foldPos, foldPos, hlog, hm, hnext, foldCur, hlog, hindex]
  simp only [foldStep, Nat.add_sub_cancel]
  rw [inverted_fold hj, mul_assoc, inv_mul_cancel₀ hne, mul_one, show fromU64 2 = 2 from rfl]

theorem foldPos_last : foldPos proof tp (inverted tp logN) logN = evalAcc proof tp := by
  rw [foldPos, show (inverted tp logN).logN = logN from rfl, Nat.sub_self, foldCur]

/-- The claims at the places of every round are true. -/
def Opened (proof : Proof Fr[X]) (vk : VerificationKey Fr[X]) (tp : Transcript) (logN : ℕ) : Prop :=
  ∀ j < logN, ∀ s, (openedPoint proof vk tp j s).eval (place tp j s) = openedValue proof tp logN j s

/-- The two polynomials of the first round are the batch with its pole. -/
theorem eval_openedPoint_zero (hr : tp.geminiR ≠ 0) :
    (openedPoint proof vk tp 0 0).eval tp.geminiR =
        (batchPoly proof vk tp).eval tp.geminiR + tp.geminiR⁻¹ * pole proof vk tp ∧
      (openedPoint proof vk tp 0 1).eval (-tp.geminiR) =
        (batchPoly proof vk tp).eval (-tp.geminiR) - tp.geminiR⁻¹ * pole proof vk tp := by
  have hshifted : ∀ x, (shiftedPoint proof vk tp).eval x =
      x * (shiftedPoint proof vk tp).divX.eval x + pole proof vk tp := by
    intro x
    conv_lhs => rw [← divX_mul_X_add (shiftedPoint proof vk tp)]
    rw [eval_add, eval_mul, eval_X, eval_C, mul_comm, pole]
  rw [batchPoly_eq]
  simp only [openedPoint, eval_add, eval_sub, eval_smul, smul_eq_mul, hshifted]
  refine ⟨?_, ?_⟩
  · field_simp
    ring
  · field_simp
    ring

/-- If the claims are true, what the rounds leave vanishes at the places. -/
theorem foldDefect_of_opened (hle : logN ≤ constProofSizeLogN) (hne : (0 : Fr) ∉ toInvert tp logN)
    (hopened : Opened proof vk tp logN) {j : ℕ} (hj : j < logN) :
    (foldDefect (roundChallenges tp logN) (foldChain proof vk tp logN) (pole proof vk tp) j).eval
      (tp.geminiR ^ 2 ^ (j + 1)) = 0 := by
  have hr : tp.geminiR ≠ 0 := fun h => hne (h ▸ geminiR_mem_toInvert)
  have htwo : (2 : Fr) ≠ 0 := by decide
  set x := tp.geminiR ^ 2 ^ j with hx
  have hx0 : x ≠ 0 := pow_ne_zero _ hr
  have hsquare : tp.geminiR ^ 2 ^ (j + 1) = x ^ 2 := by
    rw [hx, ← pow_mul, pow_succ]
  have hround := @foldPos_round proof tp logN j hj fun h => hne (h ▸ mem_toInvert_fold hj)
  rw [foldDenominator, Nat.add_sub_cancel, rPows_eq, ← hx] at hround
  -- the next polynomial at the square
  have hnext : (foldChain proof vk tp logN (j + 1)).eval (x ^ 2) =
      foldPos proof tp (inverted tp logN) (j + 1) := by
    rw [foldChain]
    split_ifs with hlt
    · have h := hopened (j + 1) hlt 0
      rwa [place, if_pos rfl, rPows_eq, hsquare, openedValue, if_pos rfl] at h
    · obtain rfl : logN = j + 1 := by omega
      rw [eval_C, foldPos_last]
  have hpositive := hopened j hj 0
  have hnegative := hopened j hj 1
  rw [place, if_pos rfl, rPows_eq, ← hx, openedValue, if_pos rfl] at hpositive
  rw [place, if_neg (by decide), rPows_eq, ← hx, openedValue, if_neg (by decide)] at hnegative
  rw [← hpositive, ← hnegative, ← hnext] at hround
  have hfold := foldPoly_eval (entry tp.sumcheckUChallenges j) x (foldChain proof vk tp logN j)
  rw [foldDefect, hsquare, getD_roundChallenges hle hj]
  cases j with
  | zero =>
    have hx1 : x = tp.geminiR := by rw [hx, pow_zero, pow_one]
    obtain ⟨h0, h1⟩ := @eval_openedPoint_zero proof vk tp hr
    rw [← hx1] at h0 h1
    rw [h0, h1] at hround
    rw [getD_roundChallenges hle hj, if_pos rfl, eval_sub, eval_mul, eval_X, eval_sub, eval_C]
    have hcancel : x * x⁻¹ = 1 := mul_inv_cancel₀ hx0
    rw [show foldChain proof vk tp logN 0 = batchPoly proof vk tp from rfl] at hfold ⊢
    refine mul_left_cancel₀ htwo ?_
    linear_combination (-x) * hround - x * hfold +
      2 * entry tp.sumcheckUChallenges 0 * pole proof vk tp * hcancel
  | succ j =>
    have hfolded : foldChain proof vk tp logN (j + 1) = foldPoint proof j := if_pos hj
    rw [if_neg (by omega), sub_zero, eval_mul, eval_X, eval_sub]
    rw [hfolded] at hfold ⊢
    simp only [openedPoint] at hround
    refine mul_left_cancel₀ htwo ?_
    linear_combination (-x) * hround - x * hfold

end Columns

end Pnlx.UltraHonk
