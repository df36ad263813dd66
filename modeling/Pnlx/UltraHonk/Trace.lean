import Pnlx.UltraHonk.Sumcheck

/-!
# The trace of a circuit

What the verifier is to be convinced of: a table with a value of every wire in every row satisfies
the subrelations.

1. `Satisfies`: every subrelation but the one of the lookups holds in every row, and that one in the
   sum. `batched`: the sum over the rows that the protocol is about, `batched_eq`.
2. `rowRelation` on the columns of the wires and of the separator; `ofDegree_rowRelation`.
3. `honestUnivariate`: the message of the honest prover. `Honest`: a proof for a trace.
-/

open Polynomial Sumcheck Challenges

namespace Pnlx.UltraHonk

/-- The value of every wire in every row. -/
abbrev Trace := ℕ → Wire → Fr

/-- The first `2 ^ logN` rows satisfy the circuit. -/
def Satisfies (logN : ℕ) (rp : RelationParameters Fr) (trace : Trace) : Prop :=
  ∀ k : Fin numberOfSubrelations,
    if k = lookupSum then ∑ i ∈ Finset.range (2 ^ logN), subrelation (trace i) rp k = 0
    else ∀ i < 2 ^ logN, subrelation (trace i) rp k = 0

/-- The columns of the trace and that of the separator. -/
def withPow (trace : Trace) (gates : List Fr) : ℕ → Option Wire → Fr
  | i, none => bitProduct gates i
  | i, some w => trace i w

/-- The relation of a row with its separator. -/
def rowRelation (rp : RelationParameters Fr) (alphas : Fin numberOfAlphas → Fr)
    (row : Option Wire → Fr) : Fr :=
  scaleAndBatchSubrelations (evaluateRelations (fun w => row (some w)) rp (row none))
    (List.ofFn alphas)

/-- What the sumcheck protocol proves to be zero. -/
def batched (logN : ℕ) (rp : RelationParameters Fr) (alphas : Fin numberOfAlphas → Fr)
    (gates : List Fr) (trace : Trace) : Fr :=
  total (rowRelation rp alphas) logN (withPow trace gates)

/-- The part of a subrelation in the batch. -/
def separated (logN : ℕ) (rp : RelationParameters Fr) (gates : List Fr) (trace : Trace)
    (k : Fin numberOfSubrelations) : Fr :=
  ∑ i ∈ Finset.range (2 ^ logN), subrelation (trace i) rp k *
    if k = lookupSum then 1 else bitProduct gates i

theorem rowRelation_eq (rp : RelationParameters Fr) (alphas : Fin numberOfAlphas → Fr)
    (row : Option Wire → Fr) :
    rowRelation rp alphas row = ∑ k, (Fin.cons 1 alphas : Fin numberOfSubrelations → Fr) k *
      (subrelation (fun w => row (some w)) rp k * if k = lookupSum then 1 else row none) :=
  scaleAndBatch_evaluateRelations _ rp alphas _

theorem batched_eq (logN : ℕ) (rp : RelationParameters Fr) (alphas : Fin numberOfAlphas → Fr)
    (gates : List Fr) (trace : Trace) :
    batched logN rp alphas gates trace =
      ∑ k, (Fin.cons 1 alphas : Fin numberOfSubrelations → Fr) k *
        separated logN rp gates trace k := by
  unfold batched total separated
  simp only [rowRelation_eq, Finset.mul_sum]
  rw [Finset.sum_comm]
  rfl

/-- The batch of a trace that satisfies the circuit is zero. -/
theorem Satisfies.batched_eq_zero {logN : ℕ} {rp : RelationParameters Fr} {trace : Trace}
    (h : Satisfies logN rp trace) (alphas : Fin numberOfAlphas → Fr) (gates : List Fr) :
    batched logN rp alphas gates trace = 0 := by
  rw [batched_eq]
  refine Finset.sum_eq_zero fun k _ => mul_eq_zero_of_right _ ?_
  have hk := h k
  unfold separated
  split_ifs at hk ⊢ with hlookup
  · simpa using hk
  · exact Finset.sum_eq_zero fun i hi => mul_eq_zero_of_left (hk i (Finset.mem_range.mp hi)) _

/-! ## Degree -/

theorem map_scaleAndBatchSubrelations {R S : Type*} [CommRing R] [CommRing S] (f : R →+* S)
    (evaluations challenges : List R) :
    f (scaleAndBatchSubrelations evaluations challenges) =
      scaleAndBatchSubrelations (evaluations.map f) (challenges.map f) := by
  have hfold : ∀ (l : List (R × R)) (acc : R),
      f (l.foldl (fun acc ea => acc + ea.1 * ea.2) acc) =
        (l.map (Prod.map f f)).foldl (fun acc ea => acc + ea.1 * ea.2) (f acc) := by
    intro l
    induction l with
    | nil => intro acc; rfl
    | cons ea l ih => intro acc; simp [ih]
  unfold scaleAndBatchSubrelations
  rw [hfold, ← List.map_drop, List.zip_map]
  cases evaluations with
  | nil => simp
  | cons e evaluations => rfl

theorem natDegree_scaleAndBatchSubrelations_le {d : ℕ} {evaluations : List Fr[X]}
    (h : ∀ q ∈ evaluations, q.natDegree ≤ d) (challenges : List Fr) :
    (scaleAndBatchSubrelations evaluations (challenges.map C)).natDegree ≤ d := by
  have hfold : ∀ (l : List (Fr[X] × Fr[X])) (acc : Fr[X]), acc.natDegree ≤ d →
      (∀ ea ∈ l, ea.1.natDegree ≤ d ∧ ea.2.natDegree = 0) →
      (l.foldl (fun acc ea => acc + ea.1 * ea.2) acc).natDegree ≤ d := by
    intro l
    induction l with
    | nil => exact fun acc hacc _ => hacc
    | cons ea l ih =>
      intro acc hacc hl
      obtain ⟨hea, hrest⟩ := List.forall_mem_cons.mp hl
      refine ih _ (natDegree_add_le_of_degree_le hacc ?_) hrest
      exact natDegree_mul_le.trans (by omega)
  refine hfold _ _ ?_ fun ea hea => ?_
  · cases evaluations with
    | nil => simp
    | cons e evaluations => exact h e List.mem_cons_self
  · obtain ⟨hmem, hchallenge⟩ := List.of_mem_zip hea
    obtain ⟨c, -, hc⟩ := List.mem_map.mp hchallenge
    exact ⟨h _ (List.mem_of_mem_drop hmem), hc ▸ natDegree_C c⟩

theorem ofDegree_rowRelation (rp : RelationParameters Fr) (alphas : Fin numberOfAlphas → Fr) :
    OfDegree (batchedRelationPartialLength - 1) (rowRelation rp alphas) := by
  intro a b
  -- the line itself, as a row of polynomials
  let row : Option Wire → Fr[X] := fun c => C (a c) + X * C (b c - a c)
  have hrow : ∀ c, Degrees.Bounded (row c) 1 := fun c => ⟨Degrees.natDegree_le (by decide)⟩
  refine ⟨scaleAndBatchSubrelations
    (evaluateRelations (fun w => row (some w)) (rp.map C) (row none)) ((List.ofFn alphas).map C),
    ?_, fun x => ?_⟩
  · have : ∀ w, Degrees.Bounded (row (some w)) 1 := fun w => hrow (some w)
    have := hrow none
    exact natDegree_scaleAndBatchSubrelations_le (natDegree_evaluateRelations_le rp) _
  · have heval : ∀ c, evalRingHom x (row c) = line a b x c := by
      intro c
      simp [row, line]
    have hparams : (rp.map C).map (evalRingHom x) = rp := by
      simp [RelationParameters.map]
    rw [← coe_evalRingHom, map_scaleAndBatchSubrelations, map_evaluateRelations, hparams]
    simp only [heval, List.map_map]
    have hconst : (evalRingHom x : Fr[X] → Fr) ∘ C = id := by
      funext c
      simp
    rw [hconst, List.map_id]
    rfl

/-! ## The honest prover -/

/-- The sum over the rows with the variable of the round at each of the eight points. -/
def honestUnivariate (rp : RelationParameters Fr) (alphas : Fin numberOfAlphas → Fr)
    (us : List Fr) (t : ℕ → Option Wire → Fr) (k : ℕ) : Univariate := fun e =>
  total (rowRelation rp alphas) (us.length - 1 - k) (fold (pointIndices e) (foldAll (us.take k) t))

variable {G : Type}

/-- The challenges of the rounds. -/
def roundChallenges (tp : Transcript) (logN : ℕ) : List Fr :=
  (roundIndices logN).map tp.sumcheckUChallenges

def roundGates (tp : Transcript) (logN : ℕ) : List Fr := (roundIndices logN).map tp.gateChallenges

/-- The claimed evaluations are those of the trace at the challenges. -/
def Evaluates (trace : Trace) (us : List Fr) (proof : Proof G) : Prop :=
  ∀ w : Wire, proof.sumcheckEvaluations w.index = foldAll us trace 0 w

/-- The proof is the honest one for the trace. -/
structure Honest (trace : Trace) (logN : ℕ) (tp : Transcript) (proof : Proof G) : Prop where
  univariates : ∀ k ∈ roundIndices logN, proof.sumcheckUnivariates k =
    honestUnivariate tp.relParams tp.alphas (roundChallenges tp logN)
      (withPow trace (roundGates tp logN)) k
  evaluations : Evaluates trace (roundChallenges tp logN) proof

@[simp] theorem length_roundIndices {logN : ℕ} (h : logN ≤ constProofSizeLogN) :
    (roundIndices logN).length = logN := by
  rw [roundIndices, List.length_take, List.length_finRange, min_eq_left h]

/-- The row that is left is the one at the challenges, with the separator of the verifier. -/
theorem accumulate_of_evaluates {trace : Trace} {logN : ℕ} {tp : Transcript} {proof : Proof G}
    (h : Evaluates trace (roundChallenges tp logN) proof) :
    accumulateRelationEvaluations proof.sumcheckEvaluations tp.relParams tp.alphas
        (powAfter tp (roundIndices logN) 1) =
      rowRelation tp.relParams tp.alphas (foldAll (roundChallenges tp logN)
        (withPow trace (roundGates tp logN)) 0) := by
  have hpow : foldAll (roundChallenges tp logN) (withPow trace (roundGates tp logN)) 0 none =
      powAfter tp (roundIndices logN) 1 := by
    have hlength : (roundGates tp logN).length = (roundChallenges tp logN).length := by
      simp [roundGates, roundChallenges]
    rw [foldAll_bitProduct (k := 1) hlength fun i => (one_mul _).symm]
    unfold roundGates roundChallenges powAfter partiallyEvaluatePow
    rw [List.zip_map', List.foldl_map]
  have hwire : ∀ w, foldAll (roundChallenges tp logN) (withPow trace (roundGates tp logN)) 0
      (some w) = proof.sumcheckEvaluations w.index := by
    intro w
    rw [h w, foldAll_comp some]
    rfl
  unfold accumulateRelationEvaluations rowRelation
  rw [hpow]
  simp only [hwire]

/-! ## A circuit of one gate -/

/-- The entities of two rows, the first one a gate that adds three times the first wire and the
constant. -/
def gateEntities (wire constant : Fr) : ℕ → Fin numberOfEntities → Fr
  | 0, i => if i = Wire.qArith.index then 1 else if i = Wire.ql.index then fromU64 3
    else if i = Wire.wl.index then wire else if i = Wire.qc.index then constant else 0
  | _, _ => 0

def gateTrace (wire constant : Fr) : Trace := fun i w => gateEntities wire constant i w.index

/-- A proof without points, with the entities at the challenges as its evaluations. -/
def proofOf (univariates : Fin constProofSizeLogN → Univariate) (us : List Fr)
    (entities : ℕ → Fin numberOfEntities → Fr) : Proof Unit :=
  ⟨fun _ => 0, (), (), (), (), (), (), (), (), univariates, foldAll us entities 0, fun _ => (),
    fun _ => 0, (), ()⟩

theorem evaluates_proofOf (univariates : Fin constProofSizeLogN → Univariate) (us : List Fr)
    (wire constant : Fr) :
    Evaluates (gateTrace wire constant) us
      (proofOf univariates us (gateEntities wire constant)) :=
  fun w => foldAll_comp Wire.index us (gateEntities wire constant) 0 w

def sampleTranscript : Transcript :=
  ⟨⟨fromU64 2, fromU64 3, fromU64 5, fromU64 7, fromU64 11, fromU64 13⟩,
    fun k => fromU64 (k.val + 2), fun r => fromU64 (r.val + 3), fun r => fromU64 (r.val + 17),
    1, fromU64 2, fromU64 3, fromU64 4⟩

def sampleKey : VerificationKey Unit := ⟨2, 1, 16, 1, fun _ => ()⟩

end Pnlx.UltraHonk
