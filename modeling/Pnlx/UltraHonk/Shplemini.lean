import Mathlib.Algebra.Module.LinearMap.Basic
import Mathlib.Data.List.GetD
import Mathlib.Tactic.Module
import Pnlx.UltraHonk.Trace

/-!
# The opening verifier

`contracts/ultrahonk-verifier/src/shplemini.rs` and `ec.rs`, over any module of the field in place
of the points, with the pairing check of the host as a parameter.

1. `toInvert`, `foldCur`, `constAcc`, `msmTerms`: the scalars of the one multiplication.
2. `verifyShplemini`, and `verifyShplemini_iff`: no denominator vanishes and the pairing check
   passes for `openingPoint`.
3. `openingPoint_eq`: the point is the quotient less the claims about the batch and the folds, each
   at a place and its negative.
-/

namespace Pnlx.UltraHonk

variable {G : Type} [AddCommGroup G] [Module Fr G]

/-! ## Scalars -/

/-- The entry of an array, or zero beyond its end. -/
def entry {n : ℕ} (f : Fin n → Fr) (i : ℕ) : Fr := if h : i < n then f ⟨i, h⟩ else 0

/-- `r_pows`: the challenge, squared again and again. -/
def rPows (geminiR : Fr) : ℕ → Fr
  | 0 => geminiR
  | i + 1 => rPows geminiR i * rPows geminiR i

/-- The denominator of the fold round `j`. -/
def foldDenominator (tp : Transcript) (j : ℕ) : Fr :=
  rPows tp.geminiR (j - 1) * (1 - entry tp.sumcheckUChallenges (j - 1)) +
    entry tp.sumcheckUChallenges (j - 1)

/-- The denominators in the layout of the batch: the fold rounds from the last one down, and then a
pair for every further fold. -/
def toInvert (tp : Transcript) (logN : ℕ) : List Fr :=
  [tp.shplonkZ - rPows tp.geminiR 0, tp.shplonkZ + rPows tp.geminiR 0, tp.geminiR] ++
    (List.range logN).map (fun m => foldDenominator tp (logN - m)) ++
    (List.range (logN - 1)).flatMap fun m =>
      [tp.shplonkZ - rPows tp.geminiR (m + 1), tp.shplonkZ + rPows tp.geminiR (m + 1)]

/-- The inverses that the loops read. -/
structure Inverted where
  values : List Fr
  logN : ℕ

namespace Inverted

variable (inv : Inverted)

def pos₀ : Fr := inv.values.getD 0 0

def neg₀ : Fr := inv.values.getD 1 0

def geminiRInv : Fr := inv.values.getD 2 0

def fold (j : ℕ) : Fr := inv.values.getD (3 + (inv.logN - j)) 0

def pos (j : ℕ) : Fr := inv.values.getD (3 + inv.logN + 2 * (j - 1)) 0

def neg (j : ℕ) : Fr := inv.values.getD (3 + inv.logN + 2 * (j - 1) + 1) 0

end Inverted

variable (proof : Proof G) (vk : VerificationKey G) (tp : Transcript) (inv : Inverted)

def unshifted : Fr := tp.shplonkNu * inv.neg₀ + inv.pos₀

def shifted : Fr := inv.geminiRInv * (inv.pos₀ - tp.shplonkNu * inv.neg₀)

/-- The batch of the claimed evaluations. -/
def evalAcc : Fr := ∑ i : Fin numberOfEntities, proof.sumcheckEvaluations i * tp.rho ^ i.val

def evalScalar (idx : ℕ) : Fr :=
  (if idx < numberUnshifted then -unshifted tp inv else -shifted tp inv) * tp.rho ^ idx

/-- The scalar of a commitment. Those that are also opened shifted have both scalars. -/
def mergedScalar (idx : ℕ) : Fr :=
  if 27 ≤ idx ∧ idx < 32 then evalScalar tp inv idx + evalScalar tp inv (idx + 8)
  else evalScalar tp inv idx

/-- One fold round: the value of a fold at the positive point, from its value at the negative one and
the value of the next fold. -/
def foldStep (j : ℕ) (cur : Fr) : Fr :=
  let r₂ := rPows tp.geminiR (j - 1)
  let u := entry tp.sumcheckUChallenges (j - 1)
  let foldLin := r₂ * (1 - u) - u
  let num := r₂ * cur * fromU64 2 - entry proof.geminiAEvaluations (j - 1) * foldLin
  num * inv.fold j

/-- The accumulator after `m` fold rounds, from the last one down. -/
def foldCur : ℕ → Fr
  | 0 => evalAcc proof tp
  | m + 1 => foldStep proof tp inv (inv.logN - m) (foldCur m)

def foldPos (j : ℕ) : Fr := foldCur proof tp inv (inv.logN - j)

def posScalar (j : ℕ) : Fr := (tp.shplonkNu * tp.shplonkNu) ^ j * inv.pos j

def negScalar (j : ℕ) : Fr := (tp.shplonkNu * tp.shplonkNu) ^ j * tp.shplonkNu * inv.neg j

def constAcc : Fr :=
  foldPos proof tp inv 0 * inv.pos₀ +
    entry proof.geminiAEvaluations 0 * tp.shplonkNu * inv.neg₀ +
    ∑ j ∈ Finset.Ico 1 inv.logN, (entry proof.geminiAEvaluations j * negScalar tp inv j +
      foldPos proof tp inv j * posScalar tp inv j)

/-! ## The multiplication -/

/-- The commitments of the prover among the unshifted entities. -/
def proofPoints : List G :=
  [proof.w1, proof.w2, proof.w3, proof.w4, proof.zPerm, proof.lookupInverses,
    proof.lookupReadCounts, proof.lookupReadTags]

/-- The arrays of commitments and scalars. The folds beyond the circuit have the scalar zero. -/
def msmTerms (generator : G) : List (G × Fr) :=
  (proof.shplonkQ, 1) ::
    (List.ofFn vk.points ++ proofPoints proof).mapIdx
      (fun idx point => (point, mergedScalar tp inv idx)) ++
    (List.ofFn proof.geminiFoldComms).mapIdx
      (fun k point => (point, if k + 1 < inv.logN then
        -(posScalar tp inv (k + 1) + negScalar tp inv (k + 1)) else 0)) ++
    [(generator, constAcc proof tp inv), (proof.kzgQuotient, tp.shplonkZ)]

/-- `g1_msm`: terms with the scalar zero are skipped. -/
def g1Msm (terms : List (G × Fr)) : G :=
  ((terms.filter fun t => t.2 ≠ 0).map fun t => t.2 • t.1).sum

def verifyShplemini (generator : G) (pairingCheck : G → G → Bool) : Except String Unit :=
  let logN := vk.logCircuitSize
  if logN = 0 ∨ constProofSizeLogN < logN then
    .error "shplemini: log_circuit_size out of range"
  else
    match batchInverse (toInvert tp logN) with
    | .error _ => .error "shplemini: batch inversion failed (zero denominator in shplonk/gemini/fold)"
    | .ok values =>
      if values.any (· = 0) then .error "shplemini: batch inversion produced zero result"
      else
        let p₀ := g1Msm (msmTerms proof vk tp ⟨values, logN⟩ generator)
        if pairingCheck p₀ (-proof.kzgQuotient) then .ok ()
        else .error "Shplonk pairing check failed"

/-! ## What is checked -/

/-- The inverses of the denominators. -/
def inverted (logN : ℕ) : Inverted := ⟨(toInvert tp logN).map (·⁻¹), logN⟩

/-- The left point of the pairing check. -/
def openingPoint (generator : G) (logN : ℕ) : G :=
  g1Msm (msmTerms proof vk tp (inverted tp logN) generator)

theorem g1Msm_eq (terms : List (G × Fr)) : g1Msm terms = (terms.map fun t => t.2 • t.1).sum := by
  unfold g1Msm
  induction terms with
  | nil => rfl
  | cons t terms ih =>
    rw [List.filter_cons]
    split_ifs with h
    · rw [List.map_cons, List.sum_cons, ih, List.map_cons, List.sum_cons]
    · have hzero : t.2 = 0 := by simpa using h
      rw [ih, List.map_cons, List.sum_cons, hzero, zero_smul, zero_add]

theorem verifyShplemini_iff (generator : G) (pairingCheck : G → G → Bool) :
    verifyShplemini proof vk tp generator pairingCheck = .ok () ↔
      (1 ≤ vk.logCircuitSize ∧ vk.logCircuitSize ≤ constProofSizeLogN) ∧
        (0 : Fr) ∉ toInvert tp vk.logCircuitSize ∧
        pairingCheck (openingPoint proof vk tp generator vk.logCircuitSize)
          (-proof.kzgQuotient) := by
  unfold verifyShplemini
  by_cases hrange : vk.logCircuitSize = 0 ∨ constProofSizeLogN < vk.logCircuitSize
  · simp only [if_pos hrange]
    refine iff_of_false (fun h => by cases h) fun h => ?_
    omega
  · simp only [if_neg hrange]
    rw [and_iff_right (by omega), batchInverse_eq]
    by_cases hzero : (0 : Fr) ∈ toInvert tp vk.logCircuitSize
    · simp only [if_pos hzero]
      refine iff_of_false (fun h => by cases h) fun h => h.1 hzero
    · have hvalues : ((toInvert tp vk.logCircuitSize).map (·⁻¹)).any (· = 0) = false := by
        rw [List.any_eq_false]
        rintro x hx h
        obtain ⟨d, hd, rfl⟩ := List.mem_map.mp hx
        have hd0 : d = 0 := inv_eq_zero.mp (of_decide_eq_true h)
        exact hzero (hd0 ▸ hd)
      simp only [if_neg hzero, hvalues, Bool.false_eq_true, if_false]
      unfold openingPoint inverted
      split_ifs with hcheck
      · exact iff_of_true rfl ⟨hzero, hcheck⟩
      · exact iff_of_false (fun h => by cases h) fun h => hcheck h.2

/-! ## The inverses -/

theorem rPows_eq (geminiR : Fr) (i : ℕ) : rPows geminiR i = geminiR ^ 2 ^ i := by
  induction i with
  | zero => rw [rPows, pow_zero, pow_one]
  | succ i ih => rw [rPows, ih, ← pow_add, ← two_mul, ← pow_succ']

theorem getElem?_flatMap_pairs {α β : Type*} (f g : α → β) (l : List α) (j : ℕ) :
    (l.flatMap fun a => [f a, g a])[2 * j]? = l[j]?.map f ∧
      (l.flatMap fun a => [f a, g a])[2 * j + 1]? = l[j]?.map g := by
  induction l generalizing j with
  | nil => exact ⟨rfl, rfl⟩
  | cons a l ih =>
    cases j with
    | zero => exact ⟨rfl, rfl⟩
    | succ j => exact ih j

section Inverses

variable {logN : ℕ} {tp : Transcript}

theorem inverted_pos₀ : (inverted tp logN).pos₀ = (tp.shplonkZ - tp.geminiR)⁻¹ := rfl

theorem inverted_neg₀ : (inverted tp logN).neg₀ = (tp.shplonkZ + tp.geminiR)⁻¹ := rfl

theorem inverted_geminiRInv : (inverted tp logN).geminiRInv = tp.geminiR⁻¹ := rfl

theorem inverted_fold {j : ℕ} (hj : j < logN) :
    (inverted tp logN).fold (j + 1) = (foldDenominator tp (j + 1))⁻¹ := by
  have hindex : 3 + (logN - (j + 1)) = logN - (j + 1) + 1 + 1 + 1 := by omega
  have hround : logN - (logN - (j + 1)) = j + 1 := by omega
  simp only [Inverted.fold, inverted, toInvert, List.map_append, List.map_cons,
    List.cons_append, List.nil_append, hindex, List.getD_cons_succ]
  rw [List.getD_append _ _ _ _ (by simp; omega), List.getD_eq_getElem _ _ (by simp; omega)]
  simp [hround]

theorem inverted_pairs {j : ℕ} (hj : j + 1 < logN) :
    (inverted tp logN).pos (j + 1) = (tp.shplonkZ - rPows tp.geminiR (j + 1))⁻¹ ∧
      (inverted tp logN).neg (j + 1) = (tp.shplonkZ + rPows tp.geminiR (j + 1))⁻¹ := by
  have hpairs := getElem?_flatMap_pairs (fun m => tp.shplonkZ - rPows tp.geminiR (m + 1))
    (fun m => tp.shplonkZ + rPows tp.geminiR (m + 1)) (List.range (logN - 1)) j
  rw [List.getElem?_range (by omega)] at hpairs
  have hbefore : ∀ i, (toInvert tp logN)[3 + logN + i]? = ((List.range (logN - 1)).flatMap fun m =>
      [tp.shplonkZ - rPows tp.geminiR (m + 1), tp.shplonkZ + rPows tp.geminiR (m + 1)])[i]? := by
    intro i
    rw [toInvert, List.getElem?_append_right (by simp; omega)]
    refine congrArg _ ?_
    simp
    omega
  unfold Inverted.pos Inverted.neg inverted
  simp only [List.getD_eq_getElem?_getD, List.getElem?_map, add_tsub_cancel_right, add_assoc (3 + logN),
    hbefore, hpairs.1, hpairs.2, Option.map_some, Option.getD_some, and_self]

theorem mem_toInvert_fold {j : ℕ} (hj : j < logN) :
    foldDenominator tp (j + 1) ∈ toInvert tp logN := by
  refine List.mem_append_left _ (List.mem_append_right _ (List.mem_map.mpr
    ⟨logN - (j + 1), List.mem_range.mpr (by omega), ?_⟩))
  rw [Nat.sub_sub_self hj]

theorem geminiR_mem_toInvert : tp.geminiR ∈ toInvert tp logN := by
  simp [toInvert]

theorem mem_toInvert_places {j : ℕ} (hj : j < logN) :
    tp.shplonkZ - rPows tp.geminiR j ∈ toInvert tp logN ∧
      tp.shplonkZ + rPows tp.geminiR j ∈ toInvert tp logN := by
  cases j with
  | zero => simp [toInvert]
  | succ j =>
    have hpair : ∀ x, x ∈ [tp.shplonkZ - rPows tp.geminiR (j + 1),
        tp.shplonkZ + rPows tp.geminiR (j + 1)] → x ∈ toInvert tp logN := fun x hx =>
      List.mem_append_right _ (List.mem_flatMap.mpr ⟨j, List.mem_range.mpr (by omega), hx⟩)
    exact ⟨hpair _ (by simp), hpair _ (by simp)⟩

end Inverses

/-! ## The claims -/

/-- The commitment of an entity that is not shifted. -/
def entityPoint (i : ℕ) : G := (List.ofFn vk.points ++ proofPoints proof).getD i 0

def foldPoint (k : ℕ) : G := (List.ofFn proof.geminiFoldComms).getD k 0

/-- The batch of the entities, and the batch of those that are also opened shifted. -/
def batchPoint : G := ∑ i ∈ Finset.range numberUnshifted, tp.rho ^ i • entityPoint proof vk i

def shiftedPoint : G :=
  ∑ k ∈ Finset.range 5, tp.rho ^ (numberUnshifted + k) • entityPoint proof vk (27 + k)

/-- What is opened at the places of a round: the positive one and the negative one. -/
def openedPoint : ℕ → Fin 2 → G
  | 0, 0 => batchPoint proof vk tp + tp.geminiR⁻¹ • shiftedPoint proof vk tp
  | 0, 1 => batchPoint proof vk tp - tp.geminiR⁻¹ • shiftedPoint proof vk tp
  | j + 1, _ => foldPoint proof j

/-- The place of an opening. -/
def place (j : ℕ) (s : Fin 2) : Fr := if s = 0 then rPows tp.geminiR j else -rPows tp.geminiR j

/-- The value that is claimed there. -/
def openedValue (logN j : ℕ) (s : Fin 2) : Fr :=
  if s = 0 then foldPos proof tp (inverted tp logN) j else entry proof.geminiAEvaluations j

theorem sum_map_mapIdx (l : List G) (f : ℕ → Fr) :
    ((l.mapIdx fun i point => (point, f i)).map fun t => t.2 • t.1).sum =
      ∑ i ∈ Finset.range l.length, f i • l.getD i 0 := by
  induction l generalizing f with
  | nil => rfl
  | cons a l ih =>
    rw [List.mapIdx_cons, List.map_cons, List.sum_cons, ih fun i => f (i + 1), List.length_cons,
      Finset.sum_range_succ']
    exact add_comm _ _

/-- The merged scalars are those of the entities and of the shifted ones. -/
theorem sum_mergedScalar (f : ℕ → G) :
    ∑ i ∈ Finset.range numberUnshifted, mergedScalar tp inv i • f i =
      -(unshifted tp inv • ∑ i ∈ Finset.range numberUnshifted, tp.rho ^ i • f i) -
        shifted tp inv • ∑ k ∈ Finset.range 5, tp.rho ^ (numberUnshifted + k) • f (27 + k) := by
  have hmerged : ∀ i ∈ Finset.range numberUnshifted, mergedScalar tp inv i • f i =
      -(unshifted tp inv • tp.rho ^ i • f i) -
        if 27 ≤ i ∧ i < 32 then shifted tp inv • tp.rho ^ (i + 8) • f i else 0 := by
    intro i hi
    have hlt : i < numberUnshifted := Finset.mem_range.mp hi
    unfold mergedScalar evalScalar
    rw [if_pos hlt]
    split_ifs with hmerged hshifted
    · have hunshifted : numberUnshifted = 35 := rfl
      omega
    · module
    · module
  have hshifted : (Finset.range numberUnshifted).filter (fun i => 27 ≤ i ∧ i < 32) =
      Finset.Ico 27 32 := by decide
  rw [Finset.sum_congr rfl hmerged, Finset.sum_sub_distrib, Finset.sum_neg_distrib,
    ← Finset.sum_filter, hshifted, Finset.sum_Ico_eq_sum_range, Finset.smul_sum, Finset.smul_sum]
  refine congrArg _ (Finset.sum_congr rfl fun k _ => ?_)
  rw [show 27 + k + 8 = 35 + k by omega]

/-- The left point of the pairing check: the quotient less the claims, each by its denominator. -/
theorem openingPoint_eq (generator : G) {logN : ℕ} (hpos : 1 ≤ logN) (hle : logN ≤ constProofSizeLogN) :
    openingPoint proof vk tp generator logN = proof.shplonkQ -
      ∑ js : Fin logN × Fin 2, (tp.shplonkNu ^ (2 * js.1.val + js.2.val) *
        (tp.shplonkZ - place tp js.1 js.2)⁻¹) • (openedPoint proof vk tp js.1 js.2 -
          openedValue proof tp logN js.1 js.2 • generator) + tp.shplonkZ • proof.kzgQuotient := by
  obtain ⟨m, rfl⟩ := Nat.exists_eq_add_of_le' hpos
  set inv := inverted tp (m + 1) with hinv
  have hentities : (List.ofFn vk.points ++ proofPoints proof).length = numberUnshifted := by
    rw [List.length_append, List.length_ofFn]
    rfl
  have hfolds : ∑ k ∈ Finset.range (List.ofFn proof.geminiFoldComms).length,
      (if k + 1 < m + 1 then -(posScalar tp inv (k + 1) + negScalar tp inv (k + 1)) else 0) •
        (List.ofFn proof.geminiFoldComms).getD k 0 =
      -∑ k ∈ Finset.range m, (posScalar tp inv (k + 1) + negScalar tp inv (k + 1)) •
        foldPoint proof k := by
    rw [List.length_ofFn, ← Finset.sum_neg_distrib]
    refine (Finset.sum_subset (Finset.range_mono (Nat.le_of_succ_le_succ hle))
      fun k _ hk => ?_).symm.trans (Finset.sum_congr rfl fun k hk => ?_)
    · rw [if_neg (by simpa using hk), zero_smul]
    · rw [if_pos (by simpa using hk), neg_smul]
      rfl
  -- a later round, in the scalars of the loop
  have hround : ∀ k ∈ Finset.range m,
      ∑ s : Fin 2, (tp.shplonkNu ^ (2 * (k + 1) + s.val) * (tp.shplonkZ - place tp (k + 1) s)⁻¹) •
        (openedPoint proof vk tp (k + 1) s - openedValue proof tp (m + 1) (k + 1) s • generator) =
      (posScalar tp inv (k + 1) + negScalar tp inv (k + 1)) • foldPoint proof k -
        (entry proof.geminiAEvaluations (k + 1) * negScalar tp inv (k + 1) +
          foldPos proof tp inv (k + 1) * posScalar tp inv (k + 1)) • generator := by
    intro k hk
    have hpairs := @inverted_pairs (m + 1) tp k
      (Nat.succ_lt_succ (Finset.mem_range.mp hk))
    have hpositive : place tp (k + 1) 0 = rPows tp.geminiR (k + 1) := if_pos rfl
    have hnegative : place tp (k + 1) 1 = -rPows tp.geminiR (k + 1) := if_neg (by decide)
    have hvalue : openedValue proof tp (m + 1) (k + 1) 0 = foldPos proof tp inv (k + 1) := if_pos rfl
    have hvalue' : openedValue proof tp (m + 1) (k + 1) 1 = entry proof.geminiAEvaluations (k + 1) :=
      if_neg (by decide)
    rw [Fin.sum_univ_two, hpositive, hnegative, hvalue, hvalue', sub_neg_eq_add, openedPoint,
      openedPoint, posScalar, negScalar, ← hpairs.1, ← hpairs.2, ← hinv]
    simp only [Fin.val_zero, Fin.val_one]
    module
  have hsum : openingPoint proof vk tp generator (m + 1) = proof.shplonkQ +
      ∑ i ∈ Finset.range numberUnshifted, mergedScalar tp inv i • entityPoint proof vk i -
      ∑ k ∈ Finset.range m, (posScalar tp inv (k + 1) + negScalar tp inv (k + 1)) •
        foldPoint proof k + constAcc proof tp inv • generator +
      tp.shplonkZ • proof.kzgQuotient := by
    rw [openingPoint, g1Msm_eq, msmTerms]
    simp only [List.cons_append, List.map_cons, List.map_append, List.sum_cons, List.sum_append,
      sum_map_mapIdx, List.map_nil, List.sum_nil, hentities]
    rw [← hinv, show inv.logN = m + 1 from rfl, hfolds]
    unfold entityPoint
    module
  have hconst : constAcc proof tp inv = foldPos proof tp inv 0 * inv.pos₀ +
      entry proof.geminiAEvaluations 0 * tp.shplonkNu * inv.neg₀ +
      ∑ k ∈ Finset.range m, (entry proof.geminiAEvaluations (k + 1) * negScalar tp inv (k + 1) +
        foldPos proof tp inv (k + 1) * posScalar tp inv (k + 1)) := by
    rw [constAcc, show inv.logN = m + 1 from rfl, Finset.sum_Ico_eq_sum_range, Nat.add_sub_cancel]
    simp only [add_comm 1]
  have hclaims : ∑ js : Fin (m + 1) × Fin 2, (tp.shplonkNu ^ (2 * js.1.val + js.2.val) *
      (tp.shplonkZ - place tp js.1 js.2)⁻¹) • (openedPoint proof vk tp js.1 js.2 -
        openedValue proof tp (m + 1) js.1 js.2 • generator) =
      ∑ k ∈ Finset.range m, ∑ s : Fin 2, (tp.shplonkNu ^ (2 * (k + 1) + s.val) *
        (tp.shplonkZ - place tp (k + 1) s)⁻¹) • (openedPoint proof vk tp (k + 1) s -
          openedValue proof tp (m + 1) (k + 1) s • generator) +
      ∑ s : Fin 2, (tp.shplonkNu ^ s.val * (tp.shplonkZ - place tp 0 s)⁻¹) •
        (openedPoint proof vk tp 0 s - openedValue proof tp (m + 1) 0 s • generator) := by
    rw [Fintype.sum_prod_type, ← Finset.sum_range fun j => ∑ s : Fin 2,
      (tp.shplonkNu ^ (2 * j + s.val) * (tp.shplonkZ - place tp j s)⁻¹) •
        (openedPoint proof vk tp j s - openedValue proof tp (m + 1) j s • generator),
      Finset.sum_range_succ']
    simp only [mul_zero, zero_add]
  rw [hsum, hconst, sum_mergedScalar, hclaims, Finset.sum_congr rfl hround,
    Finset.sum_sub_distrib, ← Finset.sum_smul, Fin.sum_univ_two]
  have hpositive : place tp 0 0 = tp.geminiR := if_pos rfl
  have hnegative : place tp 0 1 = -tp.geminiR := if_neg (by decide)
  have hvalue : openedValue proof tp (m + 1) 0 0 = foldPos proof tp inv 0 := if_pos rfl
  have hvalue' : openedValue proof tp (m + 1) 0 1 = entry proof.geminiAEvaluations 0 :=
    if_neg (by decide)
  rw [hpositive, hnegative, hvalue, hvalue', sub_neg_eq_add, openedPoint, openedPoint, unshifted,
    shifted, ← @inverted_pos₀ (m + 1), ← @inverted_neg₀ (m + 1),
    ← @inverted_geminiRInv (m + 1), ← hinv]
  unfold batchPoint shiftedPoint
  simp only [Fin.val_zero, Fin.val_one, pow_zero, pow_one, one_mul]
  module

end Pnlx.UltraHonk
