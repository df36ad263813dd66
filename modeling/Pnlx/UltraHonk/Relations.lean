import Mathlib.Algebra.BigOperators.Fin
import Pnlx.Lib.Degrees
import Pnlx.UltraHonk.Types

/-!
# The relations of a row

`contracts/ultrahonk-verifier/src/relations.rs`: 26 subrelations of eight families, over any
commutative ring, so that a row may be a row of polynomials. Each accumulator returns the values
that the source writes to its places of the array.

`map_evaluateRelations`: the relations commute with homomorphisms. `evaluateRelations_eq`: the
separator of the row multiplies all of them but the one at place 5. `natDegree_evaluateRelations_le`:
on a row of linear polynomials they have degree at most 7.
-/

open Polynomial

namespace Pnlx.UltraHonk

variable {R : Type*} [CommRing R]

/-- Places 0 and 1. -/
def accumulateArithmeticRelation (p : Wire → R) (domainSep : R) : List R :=
  let negHalf : R :=
    ((0x183227397098d014dc2822db40c0ac2e9419f4243cdcb848a1f0fac9f8000000 : ℕ) : R)
  let accum₀ := (p .qArith - 3) * p .qm * p .wr * p .wl * negHalf
  let accum₁ := accum₀ + p .ql * p .wl + p .qr * p .wr + p .qo * p .wo + p .q4 * p .w4 + p .qc
  let accum₂ := (accum₁ + (p .qArith - 1) * p .w4Shift) * p .qArith * domainSep
  let accum₃ := p .wl + p .w4 - p .wlShift + p .qm
  let accum₄ := accum₃ * (p .qArith - 2) * (p .qArith - 1) * p .qArith * domainSep
  [accum₂, accum₄]

/-- The product over the four wires of a row. -/
def grandProduct (p : Wire → R) (rp : RelationParameters R) (a b c d : Wire) : R :=
  (p .wl + p a * rp.beta + rp.gamma) * (p .wr + p b * rp.beta + rp.gamma) *
    (p .wo + p c * rp.beta + rp.gamma) * (p .w4 + p d * rp.beta + rp.gamma)

def grandProductNumerator (p : Wire → R) (rp : RelationParameters R) : R :=
  grandProduct p rp .id1 .id2 .id3 .id4

def grandProductDenominator (p : Wire → R) (rp : RelationParameters R) : R :=
  grandProduct p rp .sigma1 .sigma2 .sigma3 .sigma4

/-- Places 2 and 3. -/
def accumulatePermutationRelation (p : Wire → R) (rp : RelationParameters R) (domainSep : R) :
    List R :=
  [((p .zPerm + p .lagrangeFirst) * grandProductNumerator p rp -
      (p .zPermShift + p .lagrangeLast * rp.publicInputsDelta) * grandProductDenominator p rp) *
      domainSep,
    p .lagrangeLast * p .zPermShift * domainSep]

/-- Places 4 and 5. The second is not separated by the row. -/
def accumulateLogDerivativeLookupRelation (p : Wire → R) (rp : RelationParameters R)
    (domainSep : R) : List R :=
  let writeTerm := p .table1 + rp.gamma + p .table2 * rp.eta + p .table3 * rp.etaTwo +
    p .table4 * rp.etaThree
  let derivedEntry₂ := p .wr + p .qm * p .wrShift
  let derivedEntry₃ := p .wo + p .qc * p .woShift
  let readTerm := p .wl + rp.gamma + p .qr * p .wlShift + derivedEntry₂ * rp.eta +
    derivedEntry₃ * rp.etaTwo + p .qo * rp.etaThree
  let inv := p .lookupInverses
  let invExists := p .lookupReadTags + p .qLookup - p .lookupReadTags * p .qLookup
  [(readTerm * writeTerm * inv - invExists) * domainSep,
    p .qLookup * (writeTerm * inv) - p .lookupReadCounts * (readTerm * inv)]

/-- The range check of one difference. -/
def deltaRange (delta qRangeDom : R) : R :=
  let minusOne : R :=
    ((0x30644e72e131a029b85045b68181585d2833e84879b9709143e1f593f0000000 : ℕ) : R)
  let minusTwo : R :=
    ((0x30644e72e131a029b85045b68181585d2833e84879b9709143e1f593efffffff : ℕ) : R)
  let minusThree : R :=
    ((0x30644e72e131a029b85045b68181585d2833e84879b9709143e1f593effffffe : ℕ) : R)
  delta * (delta + minusOne) * (delta + minusTwo) * (delta + minusThree) * qRangeDom

/-- Places 6 to 9. -/
def accumulateDeltaRangeRelation (p : Wire → R) (domainSep : R) : List R :=
  let qRangeDom := p .qRange * domainSep
  [deltaRange (p .wr - p .wl) qRangeDom, deltaRange (p .wo - p .wr) qRangeDom,
    deltaRange (p .w4 - p .wo) qRangeDom, deltaRange (p .wlShift - p .w4) qRangeDom]

/-- Places 10 and 11. -/
def accumulateEllipticRelation (p : Wire → R) (domainSep : R) : List R :=
  let x₁ := p .wr
  let y₁ := p .wo
  let x₂ := p .wlShift
  let y₂ := p .w4Shift
  let x₃ := p .wrShift
  let y₃ := p .woShift
  let qSign := p .ql
  let qDouble := p .qm
  let deltaX := x₂ - x₁
  let y₁Sq := y₁ * y₁
  let y₁y₂ := y₁ * y₂ * qSign
  let xAddId := (x₃ + x₂ + x₁) * deltaX * deltaX - y₂ * y₂ - y₁Sq + y₁y₂ + y₁y₂
  let yDiff := y₂ * qSign - y₁
  let yAddId := (y₁ + y₃) * deltaX + (x₃ - x₁) * yDiff
  let xPow₄ := (y₁Sq + 17) * x₁
  let y₁SqrMul₄ := y₁Sq + y₁Sq + y₁Sq + y₁Sq
  let xDoubleId := (x₃ + x₁ + x₁) * y₁SqrMul₄ - xPow₄ * 9
  let x₁SqrMul₃ := (x₁ + x₁ + x₁) * x₁
  let yDoubleId := x₁SqrMul₃ * (x₁ - x₃) - (y₁ + y₁) * (y₁ + y₃)
  let qGateDom := p .qElliptic * domainSep
  let addFactor := (1 - qDouble) * qGateDom
  let doubleFactor := qDouble * qGateDom
  [xAddId * addFactor + xDoubleId * doubleFactor, yAddId * addFactor + yDoubleId * doubleFactor]

def nonNativeFieldIdentity (p : Wire → R) : R :=
  let limbSize : R := ((0x100000000000000000 : ℕ) : R)
  let limbSubproduct := p .wl * p .wrShift + p .wlShift * p .wr
  let gate₂ := ((p .wl * p .w4 + p .wr * p .wo - p .woShift) * limbSize - p .w4Shift +
    limbSubproduct) * p .q4
  let limbSubproduct' := limbSize * limbSubproduct + p .wlShift * p .wrShift
  let gate₁ := (limbSubproduct' - (p .wo + p .w4)) * p .qo
  let gate₃ := (p .w4 - (p .woShift + p .w4Shift) + limbSubproduct') * p .qm
  (gate₁ + gate₂ + gate₃) * p .qr

def limbAccumulatorIdentity (p : Wire → R) : R :=
  let sublimbShift : R := ((2 ^ 14 : ℕ) : R)
  let limbAccumulator₁ :=
    ((((p .wrShift * sublimbShift + p .wlShift) * sublimbShift + p .wo) * sublimbShift + p .wr) *
      sublimbShift + p .wl - p .w4) * p .q4
  let limbAccumulator₂ :=
    ((((p .woShift * sublimbShift + p .wrShift) * sublimbShift + p .wlShift) * sublimbShift +
      p .w4) * sublimbShift + p .wo - p .w4Shift) * p .qm
  (limbAccumulator₁ + limbAccumulator₂) * p .qo

/-- Places 12 to 17. -/
def accumulateAuxiliaryRelation (p : Wire → R) (rp : RelationParameters R) (domainSep : R) :
    List R :=
  let recordCheck := p .wo * rp.etaThree + p .wr * rp.etaTwo + p .wl * rp.eta + p .qc
  let accessType := p .w4 - recordCheck
  let memoryRecordCheck := recordCheck - p .w4
  let indexDelta := p .wlShift - p .wl
  let recordDelta := p .w4Shift - p .w4
  let indexIsMonotonicallyIncreasing := indexDelta * indexDelta - indexDelta
  let adjacentValuesMatch := (1 - indexDelta) * recordDelta
  let romGateCommon := p .ql * p .qr * p .qAux * domainSep
  let accessCheck := accessType * accessType - accessType
  let nextGateAccessType :=
    p .w4Shift - (p .woShift * rp.etaThree + p .wrShift * rp.etaTwo + p .wlShift * rp.eta)
  let valueDelta := p .woShift - p .wo
  let adjacentValuesMatchOnRead :=
    (1 - indexDelta) * valueDelta * (1 - nextGateAccessType)
  let ramGateCommon := p .qArith * p .qAux * domainSep
  let romConsistencyCheckIdentity := memoryRecordCheck * p .ql * p .qr
  let ramTimestampCheckIdentity := (1 - indexDelta) * (p .wrShift - p .wr) - p .wo
  let ramConsistencyCheckIdentity := accessCheck * p .qArith
  let memoryIdentity := romConsistencyCheckIdentity +
    ramTimestampCheckIdentity * p .q4 * p .ql + memoryRecordCheck * p .qm * p .ql +
    ramConsistencyCheckIdentity
  let auxiliaryIdentity := memoryIdentity + nonNativeFieldIdentity p + limbAccumulatorIdentity p
  [auxiliaryIdentity * p .qAux * domainSep,
    adjacentValuesMatch * romGateCommon,
    indexIsMonotonicallyIncreasing * romGateCommon,
    adjacentValuesMatchOnRead * ramGateCommon,
    indexIsMonotonicallyIncreasing * ramGateCommon,
    (nextGateAccessType * nextGateAccessType - nextGateAccessType) * ramGateCommon]

/-- Places 18 to 21. -/
def accumulatePoseidonExternalRelation (p : Wire → R) (domainSep : R) : List R :=
  let u₁ := (p .wl + p .ql) ^ 5
  let u₂ := (p .wr + p .qr) ^ 5
  let u₃ := (p .wo + p .qo) ^ 5
  let u₄ := (p .w4 + p .q4) ^ 5
  let t₀ := u₁ + u₂
  let t₁ := u₃ + u₄
  let t₂ := u₂ + u₂ + t₁
  let t₃ := u₄ + u₄ + t₀
  let v₄ := t₁ + t₁ + t₁ + t₁ + t₃
  let v₂ := t₀ + t₀ + t₀ + t₀ + t₂
  let v₁ := t₃ + v₂
  let v₃ := t₂ + v₄
  let qPoseidonDom := p .qPoseidon2External * domainSep
  [(v₁ - p .wlShift) * qPoseidonDom, (v₂ - p .wrShift) * qPoseidonDom,
    (v₃ - p .woShift) * qPoseidonDom, (v₄ - p .w4Shift) * qPoseidonDom]

/-- `Fr::internal_matrix_diagonal`. -/
def internalMatrixDiagonal : List ℕ :=
  [0x10dc6e9c006ea38b04b1e03b4bd9490c0d03f98929ca1d7fb56821fd19d3b6e7,
    0x0c28145b6a44df3e0149b3d0a30b3bb599df9756d4dd9b84a86b38cfb45a740b,
    0x00544b8338791518b2c7645a50392798b21f75bb60e3596170067d00141cac15,
    0x222c01175718386f2e2e82eb122789e352e105a3b8fa852613bc534433ee428b]

/-- Places 22 to 25. -/
def accumulatePoseidonInternalRelation (p : Wire → R) (domainSep : R) : List R :=
  let u₁ := (p .wl + p .ql) ^ 5
  let qPoseidonDom := p .qPoseidon2Internal * domainSep
  let uSum := u₁ + p .wr + p .wo + p .w4
  let diagonal : ℕ → R := fun i => (internalMatrixDiagonal.getD i 0 : ℕ)
  [(u₁ * diagonal 0 + uSum - p .wlShift) * qPoseidonDom,
    (p .wr * diagonal 1 + uSum - p .wrShift) * qPoseidonDom,
    (p .wo * diagonal 2 + uSum - p .woShift) * qPoseidonDom,
    (p .w4 * diagonal 3 + uSum - p .w4Shift) * qPoseidonDom]

/-- The array of all subrelations. -/
def evaluateRelations (p : Wire → R) (rp : RelationParameters R) (domainSep : R) : List R :=
  accumulateArithmeticRelation p domainSep ++ accumulatePermutationRelation p rp domainSep ++
    accumulateLogDerivativeLookupRelation p rp domainSep ++
    accumulateDeltaRangeRelation p domainSep ++ accumulateEllipticRelation p domainSep ++
    accumulateAuxiliaryRelation p rp domainSep ++
    accumulatePoseidonExternalRelation p domainSep ++ accumulatePoseidonInternalRelation p domainSep

/-- The first value as it is, each other one with its challenge. -/
def scaleAndBatchSubrelations (evaluations subrelationChallenges : List R) : R :=
  ((evaluations.drop 1).zip subrelationChallenges).foldl (fun acc ea => acc + ea.1 * ea.2)
    (evaluations.headD 0)

/-- `accumulate_relation_evaluations`. -/
def accumulateRelationEvaluations (purportedEvaluations : Fin numberOfEntities → R)
    (rp : RelationParameters R) (alphas : Fin numberOfAlphas → R) (powPartialEval : R) : R :=
  scaleAndBatchSubrelations
    (evaluateRelations (fun w => purportedEvaluations w.index) rp powPartialEval) (List.ofFn alphas)

/-- The value of the repository's own test. -/
example : accumulateRelationEvaluations (R := Fr) (fun i => (i.val : Fr))
    ⟨100, 101, 102, 103, 104, 105⟩ (fun i => ((200 + i.val : ℕ) : Fr)) 300 =
    ((0x1ec606befa857100f90267ac1dc687413b93e8586fdbb4682dfda24b864515aa : ℕ) : Fr) := by
  decide +kernel

/-! ## Homomorphisms -/

theorem map_evaluateRelations {S : Type*} [CommRing S] (f : R →+* S) (p : Wire → R)
    (rp : RelationParameters R) (domainSep : R) :
    (evaluateRelations p rp domainSep).map f =
      evaluateRelations (fun w => f (p w)) (rp.map f) (f domainSep) := by
  simp only [evaluateRelations, accumulateArithmeticRelation, accumulatePermutationRelation,
    accumulateLogDerivativeLookupRelation, accumulateDeltaRangeRelation, deltaRange,
    accumulateEllipticRelation, accumulateAuxiliaryRelation, accumulatePoseidonExternalRelation,
    accumulatePoseidonInternalRelation, grandProductNumerator, grandProductDenominator,
    grandProduct, nonNativeFieldIdentity, limbAccumulatorIdentity, RelationParameters.map,
    List.map_append, List.map_cons, List.map_nil, map_add, map_sub, map_mul, map_pow, map_one,
    map_ofNat, map_natCast]

/-! ## The separator -/

section Separator

variable (p : Wire → R) (rp : RelationParameters R) (domainSep : R)

theorem accumulateArithmeticRelation_sep : accumulateArithmeticRelation p domainSep =
    (accumulateArithmeticRelation p 1).map (· * domainSep) := by
  simp only [accumulateArithmeticRelation, List.map_cons, List.map_nil, mul_one]

theorem accumulatePermutationRelation_sep : accumulatePermutationRelation p rp domainSep =
    (accumulatePermutationRelation p rp 1).map (· * domainSep) := by
  simp only [accumulatePermutationRelation, List.map_cons, List.map_nil, mul_one]

theorem accumulateLogDerivativeLookupRelation_sep :
    accumulateLogDerivativeLookupRelation p rp domainSep =
      List.zipWith (· * ·) (accumulateLogDerivativeLookupRelation p rp 1) [domainSep, 1] := by
  simp only [accumulateLogDerivativeLookupRelation, List.zipWith_cons_cons, List.zipWith_nil_left,
    mul_one]

theorem accumulateDeltaRangeRelation_sep : accumulateDeltaRangeRelation p domainSep =
    (accumulateDeltaRangeRelation p 1).map (· * domainSep) := by
  simp only [accumulateDeltaRangeRelation, deltaRange, List.map_cons, List.map_nil, mul_one,
    mul_assoc]

theorem accumulateEllipticRelation_sep : accumulateEllipticRelation p domainSep =
    (accumulateEllipticRelation p 1).map (· * domainSep) := by
  simp only [accumulateEllipticRelation, List.map_cons, List.map_nil, mul_one, mul_assoc,
    add_mul _ _ domainSep]

theorem accumulateAuxiliaryRelation_sep : accumulateAuxiliaryRelation p rp domainSep =
    (accumulateAuxiliaryRelation p rp 1).map (· * domainSep) := by
  simp only [accumulateAuxiliaryRelation, List.map_cons, List.map_nil, mul_one, mul_assoc]

theorem accumulatePoseidonExternalRelation_sep : accumulatePoseidonExternalRelation p domainSep =
    (accumulatePoseidonExternalRelation p 1).map (· * domainSep) := by
  simp only [accumulatePoseidonExternalRelation, List.map_cons, List.map_nil, mul_one, mul_assoc]

theorem accumulatePoseidonInternalRelation_sep : accumulatePoseidonInternalRelation p domainSep =
    (accumulatePoseidonInternalRelation p 1).map (· * domainSep) := by
  simp only [accumulatePoseidonInternalRelation, List.map_cons, List.map_nil, mul_one, mul_assoc]

/-- A subrelation of a row, without the separator of the row. -/
def subrelation (k : Fin numberOfSubrelations) : R := (evaluateRelations p rp 1).get k

/-- The subrelation of the lookups is about the sum over all rows, each other one about every
row. -/
def lookupSum : Fin numberOfSubrelations := 5

theorem evaluateRelations_eq : evaluateRelations p rp domainSep =
    List.ofFn fun k => subrelation p rp k * if k = lookupSum then 1 else domainSep := by
  rw [evaluateRelations, accumulateArithmeticRelation_sep, accumulatePermutationRelation_sep,
    accumulateLogDerivativeLookupRelation_sep, accumulateDeltaRangeRelation_sep,
    accumulateEllipticRelation_sep, accumulateAuxiliaryRelation_sep,
    accumulatePoseidonExternalRelation_sep, accumulatePoseidonInternalRelation_sep]
  rfl

end Separator

/-! ## The batch -/

theorem foldl_zip_ofFn {n : ℕ} (f g : Fin n → R) (acc : R) :
    ((List.ofFn f).zip (List.ofFn g)).foldl (fun acc ea => acc + ea.1 * ea.2) acc =
      acc + ∑ k, f k * g k := by
  have hfold : ∀ (l : List (R × R)) (acc : R),
      l.foldl (fun acc ea => acc + ea.1 * ea.2) acc = acc + (l.map fun ea => ea.1 * ea.2).sum := by
    intro l
    induction l with
    | nil => simp
    | cons ea l ih => simp [ih, add_assoc]
  have hzip : (List.ofFn f).zip (List.ofFn g) = List.ofFn fun k => (f k, g k) :=
    List.ext_getElem (by simp) fun i h₁ h₂ => by simp
  rw [hfold, hzip, List.map_ofFn, List.sum_ofFn]
  rfl

theorem scaleAndBatchSubrelations_ofFn {n : ℕ} (evaluations : Fin (n + 1) → R)
    (challenges : Fin n → R) :
    scaleAndBatchSubrelations (List.ofFn evaluations) (List.ofFn challenges) =
      evaluations 0 + ∑ k, evaluations k.succ * challenges k := by
  rw [scaleAndBatchSubrelations, List.ofFn_succ, List.drop_one, List.tail_cons, List.headD_cons,
    foldl_zip_ofFn]

/-- The batch is linear in the challenges and, but for the lookups, in the separator. -/
theorem scaleAndBatch_evaluateRelations (p : Wire → R) (rp : RelationParameters R)
    (alphas : Fin numberOfAlphas → R) (domainSep : R) :
    scaleAndBatchSubrelations (evaluateRelations p rp domainSep) (List.ofFn alphas) =
      ∑ k, (Fin.cons 1 alphas : Fin numberOfSubrelations → R) k *
        (subrelation p rp k * if k = lookupSum then 1 else domainSep) := by
  have hsum : ∀ {n : ℕ} (a : Fin n → R) (e : Fin (n + 1) → R),
      ∑ k, (Fin.cons 1 a : Fin (n + 1) → R) k * e k = e 0 + ∑ k, e k.succ * a k := by
    intro n a e
    simp [Fin.sum_univ_succ, mul_comm]
  rw [evaluateRelations_eq]
  exact (scaleAndBatchSubrelations_ofFn _ alphas).trans (hsum alphas fun k =>
    subrelation p rp k * if k = lookupSum then 1 else domainSep).symm

/-! ## Degrees -/

section Degree

open Degrees

variable {p : Wire → R[X]} {domainSep : R[X]} (rp : RelationParameters R)

instance [∀ w, Bounded (p w) 1] : Bounded (nonNativeFieldIdentity p) 4 :=
  ⟨by
    unfold nonNativeFieldIdentity
    exact natDegree_le (by decide)⟩

instance [∀ w, Bounded (p w) 1] : Bounded (limbAccumulatorIdentity p) 3 :=
  ⟨by
    unfold limbAccumulatorIdentity
    exact natDegree_le (by decide)⟩

instance {rp : RelationParameters R} [∀ w, Bounded (p w) 1] (a b c d : Wire) :
    Bounded (grandProduct p (rp.map C) a b c d) 4 :=
  ⟨by
    simp only [grandProduct, RelationParameters.map_beta, RelationParameters.map_gamma]
    exact natDegree_le (by decide)⟩

/-- On a line through two rows the relations have as many degrees of freedom as a message of the
prover has places. -/
theorem natDegree_evaluateRelations_le [∀ w, Bounded (p w) 1] [Bounded domainSep 1] :
    ∀ q ∈ evaluateRelations p (rp.map C) domainSep,
      q.natDegree ≤ batchedRelationPartialLength - 1 := by
  simp only [evaluateRelations, List.forall_mem_append]
  refine ⟨⟨⟨⟨⟨⟨⟨?_, ?_⟩, ?_⟩, ?_⟩, ?_⟩, ?_⟩, ?_⟩, ?_⟩
  all_goals
    simp only [accumulateArithmeticRelation, accumulatePermutationRelation,
      accumulateLogDerivativeLookupRelation, accumulateDeltaRangeRelation, deltaRange,
      accumulateEllipticRelation, accumulateAuxiliaryRelation, accumulatePoseidonExternalRelation,
      accumulatePoseidonInternalRelation, grandProductNumerator, grandProductDenominator,
      RelationParameters.map_eta, RelationParameters.map_etaTwo, RelationParameters.map_etaThree,
      RelationParameters.map_gamma, RelationParameters.map_publicInputsDelta,
      List.forall_mem_cons, List.not_mem_nil, false_imp_iff, implies_true, and_true]
  all_goals repeat' apply And.intro
  all_goals exact natDegree_le (by decide)

end Degree

end Pnlx.UltraHonk
