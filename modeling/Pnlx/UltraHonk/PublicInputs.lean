import Pnlx.Lib.Copies
import Pnlx.UltraHonk.Parsing
import Pnlx.UltraHonk.Trace

/-!
# Public inputs and the permutation

`compute_public_input_delta` of `contracts/ultrahonk-verifier/src/verifier.rs`, and what its value is
for: the product over the cells of the trace and the public inputs.

1. `computePublicInputDelta`, `computePublicInputDelta_eq`: the quotient of two products.
2. `Laid`: the columns of the running product and of the first and last row.
   `prod_grandProduct_eq`: what the permutation subrelations say of the whole trace, if they hold
   in every row (`Permuted`).
3. `cellValue`, `cellName`, `cellMark`: the cells of the copy argument.
-/

open Copies

namespace Pnlx.UltraHonk

/-! ## The delta -/

/-- The words of the public inputs, and after them the pairing point object. -/
def publicInputWords (publicInputs : Bytes) (pairingPointObject : Fin pairingPointsSize → Fr) :
    List Fr :=
  (List.range (publicInputs.length / 32)).map (frWord32 publicInputs) ++
    List.ofFn pairingPointObject

structure DeltaState where
  numerator : Fr
  denominator : Fr
  numeratorAcc : Fr
  denominatorAcc : Fr

/-- One public input in the loop. -/
def deltaStep (beta : Fr) (s : DeltaState) (publicInput : Fr) : DeltaState where
  numerator := s.numerator * (s.numeratorAcc + publicInput)
  denominator := s.denominator * (s.denominatorAcc + publicInput)
  numeratorAcc := s.numeratorAcc + beta
  denominatorAcc := s.denominatorAcc - beta

def computePublicInputDelta (publicInputs : Bytes)
    (pairingPointObject : Fin pairingPointsSize → Fr) (beta gamma : Fr) (offset n : ℕ) :
    Except String Fr :=
  let betaN := beta * ((n + offset : ℕ) : Fr)
  let betaOff := beta * ((offset + 1 : ℕ) : Fr)
  let s := (publicInputWords publicInputs pairingPointObject).foldl (deltaStep beta)
    ⟨1, 1, gamma + betaN, gamma - betaOff⟩
  if s.denominator = 0 then .error "denominator is zero in public_input_delta"
  else .ok (s.numerator * s.denominator⁻¹)

theorem foldl_deltaStep (beta : Fr) (words : List Fr) (s : DeltaState) :
    (words.foldl (deltaStep beta) s).numerator =
        s.numerator * ∏ i : Fin words.length, (s.numeratorAcc + beta * i.val + words.get i) ∧
      (words.foldl (deltaStep beta) s).denominator =
        s.denominator * ∏ i : Fin words.length, (s.denominatorAcc - beta * i.val + words.get i) := by
  induction words generalizing s with
  | nil => simp
  | cons x words ih =>
    have hget : ∀ i : Fin words.length, (x :: words).get i.succ = words.get i := fun i => rfl
    rw [List.foldl_cons, (ih _).1, (ih _).2]
    simp only [deltaStep, List.length_cons, Fin.prod_univ_succ, List.get_cons_zero, Fin.val_zero,
      Fin.val_succ, Nat.cast_zero, mul_zero, add_zero, sub_zero, Nat.cast_add, Nat.cast_one,
      mul_assoc]
    refine ⟨?_, ?_⟩
    · refine congrArg _ (congrArg _ (Finset.prod_congr rfl fun i _ => ?_))
      rw [hget]
      ring
    · refine congrArg _ (congrArg _ (Finset.prod_congr rfl fun i _ => ?_))
      rw [hget]
      ring

/-- The names of the public inputs, which no cell of the trace has. -/
def publicName (offset : ℕ) (i : ℕ) : Fr := -((offset + 1 + i : ℕ) : Fr)

/-- The names that the public inputs are marked with, those of the cells that hold them. -/
def publicMark (offset n : ℕ) (i : ℕ) : Fr := ((n + offset + i : ℕ) : Fr)

theorem computePublicInputDelta_eq (publicInputs : Bytes)
    (pairingPointObject : Fin pairingPointsSize → Fr) (beta gamma : Fr) (offset n : ℕ) :
    computePublicInputDelta publicInputs pairingPointObject beta gamma offset n =
      let words := publicInputWords publicInputs pairingPointObject
      if namedProduct words.get (fun i => publicName offset i) beta gamma = 0 then
        .error "denominator is zero in public_input_delta"
      else .ok (namedProduct words.get (fun i => publicMark offset n i) beta gamma *
        (namedProduct words.get (fun i => publicName offset i) beta gamma)⁻¹) := by
  have hloop := foldl_deltaStep beta (publicInputWords publicInputs pairingPointObject)
    ⟨1, 1, gamma + beta * ((n + offset : ℕ) : Fr), gamma - beta * ((offset + 1 : ℕ) : Fr)⟩
  have hmark : ∀ words : List Fr, ∏ i : Fin words.length,
      (gamma + beta * ((n + offset : ℕ) : Fr) + beta * i.val + words.get i) =
        namedProduct words.get (fun i => publicMark offset n i) beta gamma := by
    intro words
    refine Finset.prod_congr rfl fun i _ => ?_
    unfold publicMark
    push_cast
    ring
  have hname : ∀ words : List Fr, ∏ i : Fin words.length,
      (gamma - beta * ((offset + 1 : ℕ) : Fr) - beta * i.val + words.get i) =
        namedProduct words.get (fun i => publicName offset i) beta gamma := by
    intro words
    refine Finset.prod_congr rfl fun i _ => ?_
    unfold publicName
    push_cast
    ring
  simp only [one_mul, hmark, hname] at hloop
  simp only [computePublicInputDelta, hloop.1, hloop.2]

/-! ## The running product -/

/-- The columns of the first and last row are what their names say, and the running product starts
at zero and is shifted by a row. -/
structure Laid (logN : ℕ) (trace : Trace) : Prop where
  first : ∀ i < 2 ^ logN, trace i .lagrangeFirst = if i = 0 then 1 else 0
  last : ∀ i < 2 ^ logN, trace i .lagrangeLast = if i + 1 = 2 ^ logN then 1 else 0
  start : trace 0 .zPerm = 0
  shift : ∀ i, i + 1 < 2 ^ logN → trace i .zPermShift = trace (i + 1) .zPerm

/-- The permutation subrelations hold in every row. -/
def Permuted (logN : ℕ) (rp : RelationParameters Fr) (trace : Trace) : Prop :=
  ∀ i < 2 ^ logN, ∀ e ∈ accumulatePermutationRelation (trace i) rp 1, e = 0

theorem permuted_iff {logN : ℕ} {rp : RelationParameters Fr} {trace : Trace} :
    Permuted logN rp trace ↔ ∀ i < 2 ^ logN,
      (trace i .zPerm + trace i .lagrangeFirst) * grandProductNumerator (trace i) rp =
        (trace i .zPermShift + trace i .lagrangeLast * rp.publicInputsDelta) *
          grandProductDenominator (trace i) rp ∧
      trace i .lagrangeLast * trace i .zPermShift = 0 := by
  simp only [Permuted, accumulatePermutationRelation, mul_one, List.forall_mem_cons,
    List.not_mem_nil, false_imp_iff, implies_true, and_true, sub_eq_zero]

theorem Satisfies.permuted {logN : ℕ} {rp : RelationParameters Fr} {trace : Trace}
    (h : Satisfies logN rp trace) : Permuted logN rp trace := by
  have hproduct := h 2
  have hend := h 3
  rw [if_neg (by decide)] at hproduct hend
  intro i hi e he
  rcases List.mem_cons.mp he with rfl | he
  · exact hproduct i hi
  · obtain rfl := List.mem_singleton.mp he
    exact hend i hi

/-- The permutation subrelations of all rows together say that the two grand products differ by the
factor of the public inputs. -/
theorem prod_grandProduct_eq {logN : ℕ} {rp : RelationParameters Fr} {trace : Trace}
    (hlaid : Laid logN trace) (hpermuted : Permuted logN rp trace) :
    ∏ i ∈ Finset.range (2 ^ logN), grandProductNumerator (trace i) rp =
      rp.publicInputsDelta *
        ∏ i ∈ Finset.range (2 ^ logN), grandProductDenominator (trace i) rp := by
  obtain ⟨last, hlast⟩ : ∃ last, 2 ^ logN = last + 1 :=
    Nat.exists_eq_add_one_of_ne_zero (by positivity)
  have hproduct : ∀ i < 2 ^ logN, (trace i .zPerm + trace i .lagrangeFirst) *
      grandProductNumerator (trace i) rp = (trace i .zPermShift +
        trace i .lagrangeLast * rp.publicInputsDelta) * grandProductDenominator (trace i) rp :=
    fun i hi => (permuted_iff.mp hpermuted i hi).1
  have hend : trace last .zPermShift = 0 := by
    have hi := (permuted_iff.mp hpermuted last (by omega)).2
    rwa [hlaid.last last (by omega), if_pos hlast.symm, one_mul] at hi
  -- the running product, one at the first row
  let z : ℕ → Fr := fun i => trace i .zPerm + trace i .lagrangeFirst
  have hstart : z 0 = 1 := by
    simp [z, hlaid.start, hlaid.first 0 (by omega)]
  have hstep : ∀ i < last, z i * grandProductNumerator (trace i) rp =
      z (i + 1) * grandProductDenominator (trace i) rp := by
    intro i hi
    have h := hproduct i (by omega)
    rw [hlaid.shift i (by omega), hlaid.last i (by omega), if_neg (by omega), zero_mul,
      add_zero] at h
    simpa [z, hlaid.first (i + 1) (by omega)] using h
  have htelescope := prod_of_telescope hstart hstep
  have hfinal := hproduct last (by omega)
  rw [hend, hlaid.last last (by omega), if_pos hlast.symm, one_mul, zero_add] at hfinal
  rw [hlast, Finset.prod_range_succ, Finset.prod_range_succ, htelescope]
  linear_combination
    (∏ i ∈ Finset.range last, grandProductDenominator (trace i) rp) * hfinal

/-! ## Cells -/

/-- The cells of the four wires, and the public inputs. -/
abbrev Cell (logN publicCount : ℕ) := (Fin (2 ^ logN) × Fin 4) ⊕ Fin publicCount

def wireOf : Fin 4 → Wire := ![.wl, .wr, .wo, .w4]

def idOf : Fin 4 → Wire := ![.id1, .id2, .id3, .id4]

def sigmaOf : Fin 4 → Wire := ![.sigma1, .sigma2, .sigma3, .sigma4]

variable (logN : ℕ) (trace : Trace) (words : List Fr) (offset : ℕ)

def cellValue : Cell logN words.length → Fr
  | .inl (i, j) => trace i (wireOf j)
  | .inr k => words.get k

def cellName : Cell logN words.length → Fr
  | .inl (i, j) => trace i (idOf j)
  | .inr k => publicName offset k

def cellMark : Cell logN words.length → Fr
  | .inl (i, j) => trace i (sigmaOf j)
  | .inr k => publicMark offset (2 ^ logN) k

theorem namedProduct_cellName (rp : RelationParameters Fr) :
    namedProduct (cellValue logN trace words) (cellName logN trace words offset) rp.beta rp.gamma =
      (∏ i ∈ Finset.range (2 ^ logN), grandProductNumerator (trace i) rp) *
        namedProduct words.get (fun i => publicName offset i) rp.beta rp.gamma := by
  unfold namedProduct
  rw [Fintype.prod_sum_type, Fintype.prod_prod_type, Finset.prod_range]
  refine congrArg₂ _ (Finset.prod_congr rfl fun i _ => ?_) rfl
  simp only [cellValue, cellName, Fin.prod_univ_four, wireOf, idOf, grandProductNumerator,
    grandProduct, mul_comm rp.beta]
  rfl

theorem namedProduct_cellMark (rp : RelationParameters Fr) :
    namedProduct (cellValue logN trace words) (cellMark logN trace words offset) rp.beta rp.gamma =
      (∏ i ∈ Finset.range (2 ^ logN), grandProductDenominator (trace i) rp) *
        namedProduct words.get (fun i => publicMark offset (2 ^ logN) i) rp.beta rp.gamma := by
  unfold namedProduct
  rw [Fintype.prod_sum_type, Fintype.prod_prod_type, Finset.prod_range]
  refine congrArg₂ _ (Finset.prod_congr rfl fun i _ => ?_) rfl
  simp only [cellValue, cellMark, Fin.prod_univ_four, wireOf, sigmaOf, grandProductDenominator,
    grandProduct, mul_comm rp.beta]
  rfl

end Pnlx.UltraHonk
