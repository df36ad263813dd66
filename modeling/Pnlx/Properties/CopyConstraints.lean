import Mathlib.Data.Fintype.Sum
import Mathlib.Data.Sum.Basic
import Pnlx.Properties.SumcheckSoundness
import Pnlx.UltraHonk.PublicInputs

/-!
# Copy constraints and public inputs

`count_satisfying_le`: if a cell or a public input differs from the cell that it is wired to, then
for few of the challenges of the permutation there is a running product with which the trace
satisfies the permutation relations, with the delta that the verifier computes from the public
inputs.
-/

open Copies Challenges

namespace Pnlx.UltraHonk

/-- The columns of the identities and of the permutation describe a wiring of the cells and the
public inputs: the names are different ones, and every cell is marked with the name of the cell that
it is wired to. -/
structure Wired (logN : ℕ) (trace : Trace) (words : List Fr) (offset : ℕ)
    (wiring : Cell logN words.length → Cell logN words.length) : Prop where
  injective : Function.Injective wiring
  names : Function.Injective (cellName logN trace words offset)
  marks : ∀ c, cellMark logN trace words offset c = cellName logN trace words offset (wiring c)

/-- Another trace with the same cells. -/
def SameCells (logN : ℕ) (trace trace' : Trace) : Prop :=
  ∀ i < 2 ^ logN, ∀ j, trace i (wireOf j) = trace' i (wireOf j) ∧
    trace i (idOf j) = trace' i (idOf j) ∧ trace i (sigmaOf j) = trace' i (sigmaOf j)

namespace SameCells

variable {logN : ℕ} {trace trace' : Trace} (h : SameCells logN trace trace') (words : List Fr)
  (offset : ℕ)

include h

theorem cellValue_eq : cellValue logN trace words = cellValue logN trace' words := by
  funext c
  cases c with
  | inl ij => exact (h ij.1 ij.1.isLt ij.2).1
  | inr k => rfl

theorem cellName_eq : cellName logN trace words offset = cellName logN trace' words offset := by
  funext c
  cases c with
  | inl ij => exact (h ij.1 ij.1.isLt ij.2).2.1
  | inr k => rfl

theorem cellMark_eq : cellMark logN trace words offset = cellMark logN trace' words offset := by
  funext c
  cases c with
  | inl ij => exact (h ij.1 ij.1.isLt ij.2).2.2
  | inr k => rfl

end SameCells

/-- With the delta of the verifier, the products of all cells and public inputs are equal. -/
theorem namedProduct_eq_of_permuted {logN : ℕ} {trace : Trace} {rp : RelationParameters Fr}
    {publicInputs : Bytes} {pairingPointObject : Fin pairingPointsSize → Fr} {offset : ℕ}
    (hlaid : Laid logN trace) (hpermuted : Permuted logN rp trace)
    (hdelta : computePublicInputDelta publicInputs pairingPointObject rp.beta rp.gamma offset
      (2 ^ logN) = .ok rp.publicInputsDelta) :
    namedProduct (cellValue logN trace (publicInputWords publicInputs pairingPointObject))
        (cellName logN trace (publicInputWords publicInputs pairingPointObject) offset) rp.beta
        rp.gamma =
      namedProduct (cellValue logN trace (publicInputWords publicInputs pairingPointObject))
        (cellMark logN trace (publicInputWords publicInputs pairingPointObject) offset) rp.beta
        rp.gamma := by
  rw [computePublicInputDelta_eq] at hdelta
  generalize publicInputWords publicInputs pairingPointObject = words at hdelta ⊢
  dsimp only at hdelta
  split_ifs at hdelta with hzero
  have hvalue := Except.ok.inj hdelta
  rw [namedProduct_cellName, namedProduct_cellMark, prod_grandProduct_eq hlaid hpermuted, ← hvalue]
  field_simp

/-- A table with a wrong copy or a wrong public input can be completed for few challenges. -/
theorem count_satisfying_le {logN : ℕ} {cells : Trace} {publicInputs : Bytes}
    {pairingPointObject : Fin pairingPointsSize → Fr} {offset : ℕ}
    {wiring : Cell logN (publicInputWords publicInputs pairingPointObject).length →
      Cell logN (publicInputWords publicInputs pairingPointObject).length}
    (hwired : Wired logN cells (publicInputWords publicInputs pairingPointObject) offset wiring)
    (hwrong : ∃ c, cellValue logN cells (publicInputWords publicInputs pairingPointObject)
      (wiring c) ≠ cellValue logN cells (publicInputWords publicInputs pairingPointObject) c) :
    count (fun βγ : HalfDigest × HalfDigest => ∃ trace rp, SameCells logN trace cells ∧
      Laid logN trace ∧ rp.beta = ofChallenge βγ.1 ∧ rp.gamma = ofChallenge βγ.2 ∧
      computePublicInputDelta publicInputs pairingPointObject rp.beta rp.gamma offset (2 ^ logN) =
        .ok rp.publicInputsDelta ∧ Permuted logN rp trace) ≤
      2 * (2 ^ logN * 4 + publicInputs.length / 32 + pairingPointsSize) * 2 ^ 128 := by
  have hcard := card_prod_named_le ofChallenge_injective hwired.injective hwired.names hwired.marks
    hwrong
  have hcells : Fintype.card (Cell logN (publicInputWords publicInputs pairingPointObject).length) =
      2 ^ logN * 4 + publicInputs.length / 32 + pairingPointsSize := by
    simp [publicInputWords, add_assoc]
  rw [hcells, Fintype.card_fin] at hcard
  refine (count_mono fun βγ h => ?_).trans hcard
  obtain ⟨trace, rp, hsame, hlaid, hbeta, hgamma, hdelta, hpermuted⟩ := h
  have hproduct := namedProduct_eq_of_permuted hlaid hpermuted hdelta
  rwa [hsame.cellValue_eq, hsame.cellName_eq, hsame.cellMark_eq, hbeta, hgamma] at hproduct

/-! ## Sixteen cells that hold the pairing point object -/

/-- Every cell is wired to a word of the pairing point object, and the first one is wrong. -/
def copyCells : Trace := fun i w => match w with
  | .wl => if i = 0 then 1 else 0
  | .id1 => (4 + 4 * i : ℕ)
  | .id2 => (5 + 4 * i : ℕ)
  | .id3 => (6 + 4 * i : ℕ)
  | .id4 => (7 + 4 * i : ℕ)
  | .sigma1 => -(1 + 4 * i : ℕ)
  | .sigma2 => -(2 + 4 * i : ℕ)
  | .sigma3 => -(3 + 4 * i : ℕ)
  | .sigma4 => -(4 + 4 * i : ℕ)
  | _ => 0

def copyWiring : Cell 2 16 → Cell 2 16
  | .inl (i, j) => .inr ⟨4 * i + j, by omega⟩
  | .inr k => .inl (⟨k / 4, by omega⟩, ⟨k % 4, by omega⟩)

theorem copyWiring_injective : Function.Injective copyWiring := by decide

theorem wired_copyCells :
    Wired 2 copyCells (publicInputWords [] fun _ => 0) 0 copyWiring where
  injective := copyWiring_injective
  names := by decide +kernel
  marks := by decide +kernel

theorem count_satisfying_le_copy :
    count (fun βγ : HalfDigest × HalfDigest => ∃ trace rp, SameCells 2 trace copyCells ∧
      Laid 2 trace ∧ rp.beta = ofChallenge βγ.1 ∧ rp.gamma = ofChallenge βγ.2 ∧
      computePublicInputDelta [] (fun _ => 0) rp.beta rp.gamma 0 (2 ^ 2) =
        .ok rp.publicInputsDelta ∧ Permuted 2 rp trace) ≤
      2 * (2 ^ 2 * 4 + ([] : Bytes).length / 32 + pairingPointsSize) * 2 ^ 128 :=
  count_satisfying_le wired_copyCells ⟨.inr ⟨0, by decide⟩, by decide +kernel⟩

end Pnlx.UltraHonk
