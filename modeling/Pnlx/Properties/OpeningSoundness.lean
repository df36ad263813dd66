import Pnlx.Properties.SumcheckSoundness
import Pnlx.UltraHonk.Openings

/-!
# What an accepted opening says of the columns

`count_verifyShplemini_le`: if the claimed evaluations are not those of the committed columns, a
prover whose messages depend on the challenges before them is accepted for few of the challenges and
of the secrets of the reference string.
-/

open Polynomial Challenges Sumcheck Openings

namespace Pnlx.UltraHonk

/-- The challenges of the opening and the secret of the reference string. -/
abbrev OpeningDraw := HalfDigest × HalfDigest × HalfDigest × HalfDigest × Fr

/-- The transcript with the challenges of the opening. -/
def openingTranscript (base : Transcript) (ρ r ν z : HalfDigest) : Transcript :=
  { base with
    rho := ofChallenge ρ
    geminiR := ofChallenge r
    shplonkNu := ofChallenge ν
    shplonkZ := ofChallenge z }

/-- A prover who sends polynomials of the size of the reference string, each after the challenges
before it. -/
structure Opener (d : ℕ) where
  start : Proof Fr[X]
  folds : HalfDigest → Fin (constProofSizeLogN - 1) → Fr[X]
  values : HalfDigest → HalfDigest → Fin constProofSizeLogN → Fr
  quotient : HalfDigest → HalfDigest → HalfDigest → Fr[X]
  witness : HalfDigest → HalfDigest → HalfDigest → HalfDigest → Fr[X]
  natDegree_start : ∀ p ∈ proofPoints start, p.natDegree ≤ d
  natDegree_folds : ∀ ρ k, (folds ρ k).natDegree ≤ d
  natDegree_quotient : ∀ ρ r ν, (quotient ρ r ν).natDegree ≤ d
  natDegree_witness : ∀ ρ r ν z, (witness ρ r ν z).natDegree ≤ d

namespace Opener

variable {d : ℕ} (s : Opener d)

/-- The proof that is sent in the end. -/
def proof (ρ r ν z : HalfDigest) : Proof Fr[X] :=
  { s.start with
    geminiFoldComms := s.folds ρ
    geminiAEvaluations := s.values ρ r
    shplonkQ := s.quotient ρ r ν
    kzgQuotient := s.witness ρ r ν z }

end Opener

/-- The host's check of a pairing for the secret of the reference string. -/
def IsPairing {G : Type} [AddCommGroup G] [Module Fr G] (generator : G)
    (pairingCheck : Fr → G → G → Bool) : Prop :=
  ∀ τ a b : Fr, pairingCheck τ (a • generator) (b • generator) = true ↔ a + τ * b = 0

/-- The commitment to a polynomial: its value at the secret, in the group. -/
noncomputable def commit {G : Type} [AddCommGroup G] [Module Fr G] (generator : G) (τ : Fr) :
    Fr[X] →ₗ[Fr] G := (leval τ).smulRight generator

/-- The claimed evaluations are those of the committed columns, and the shifted columns start with
zero. The first round does not see the start if its challenge is zero. -/
def OpensTo (proof : Proof Fr[X]) (vk : VerificationKey Fr[X]) (tp : Transcript) (logN : ℕ) : Prop :=
  Evaluates (committed proof vk) (roundChallenges tp logN) proof ∧
    (entry tp.sumcheckUChallenges 0 = 0 ∨ ∀ k < 5, (entityPoint proof vk (27 + k)).coeff 0 = 0)

/-! ## Degrees -/

section Degree

variable {d : ℕ} {vk : VerificationKey Fr[X]} (hvk : ∀ i, (vk.points i).natDegree ≤ d)
  (s : Opener d) (tp : Transcript) (ρ r ν z : HalfDigest)

theorem natDegree_getD_le {l : List Fr[X]} (h : ∀ p ∈ l, p.natDegree ≤ d) (i : ℕ) :
    (l.getD i 0).natDegree ≤ d := by
  rw [List.getD_eq_getElem?_getD]
  cases hi : l[i]? with
  | none => simp
  | some p => exact h p (List.mem_of_getElem? hi)

include hvk in
theorem natDegree_entityPoint_le (i : ℕ) :
    (entityPoint (s.proof ρ r ν z) vk i).natDegree ≤ d := by
  refine natDegree_getD_le (fun p hp => ?_) i
  rcases List.mem_append.mp hp with hp | hp
  · obtain ⟨k, rfl⟩ := List.mem_ofFn.mp hp
    exact hvk k
  · exact s.natDegree_start p hp

theorem natDegree_foldPoint_le (k : ℕ) : (foldPoint (s.proof ρ r ν z) k).natDegree ≤ d := by
  refine natDegree_getD_le (fun p hp => ?_) k
  obtain ⟨i, rfl⟩ := List.mem_ofFn.mp hp
  exact s.natDegree_folds ρ i

include hvk in
theorem natDegree_openedPoint_le (j : ℕ) (i : Fin 2) :
    (openedPoint (s.proof ρ r ν z) vk tp j i).natDegree ≤ d := by
  have hbatch : (batchPoint (s.proof ρ r ν z) vk tp).natDegree ≤ d := by
    rw [batchPoint]
    exact natDegree_sum_le_of_forall_le _ _ fun k _ =>
      (natDegree_smul_le _ _).trans (natDegree_entityPoint_le hvk s ρ r ν z k)
  have hshifted : (tp.geminiR⁻¹ • shiftedPoint (s.proof ρ r ν z) vk tp).natDegree ≤ d := by
    refine (natDegree_smul_le _ _).trans ?_
    rw [shiftedPoint]
    exact natDegree_sum_le_of_forall_le _ _ fun k _ =>
      (natDegree_smul_le _ _).trans (natDegree_entityPoint_le hvk s ρ r ν z _)
  cases j with
  | zero =>
    fin_cases i
    · exact (natDegree_add_le _ _).trans (max_le hbatch hshifted)
    · exact (natDegree_sub_le _ _).trans (max_le hbatch hshifted)
  | succ j => exact natDegree_foldPoint_le s ρ r ν z j

include hvk in
theorem natDegree_foldChain_le (logN j : ℕ) :
    (foldChain (s.proof ρ r ν z) vk tp logN j).natDegree ≤ d := by
  cases j with
  | zero =>
    rw [foldChain, batchPoly]
    refine natDegree_sum_le_of_forall_le _ _ fun i _ => (natDegree_C_mul_le _ _).trans ?_
    unfold entityPoly
    split_ifs
    · exact natDegree_entityPoint_le hvk s ρ r ν z _
    · rw [natDegree_divX_eq_natDegree_tsub_one]
      exact (Nat.sub_le _ _).trans (natDegree_entityPoint_le hvk s ρ r ν z _)
  | succ j =>
    rw [foldChain]
    split_ifs
    · exact natDegree_foldPoint_le s ρ r ν z j
    · rw [natDegree_C]
      exact Nat.zero_le _

end Degree

/-! ## Acceptance -/

section Accepted

variable {d : ℕ} (s : Opener d) (vk : VerificationKey Fr[X]) (base : Transcript)

/-- What has to vanish at the secret. -/
noncomputable def openingDefect (ρ r ν z : HalfDigest) : Fr[X] :=
  openingPoint (s.proof ρ r ν z) vk (openingTranscript base ρ r ν z) 1 vk.logCircuitSize -
    X * s.witness ρ r ν z

/-- The claims, as polynomials that have to vanish at their places. -/
noncomputable def openingClaim (ρ r ν z : HalfDigest) (js : Fin vk.logCircuitSize × Fin 2) : Fr[X] :=
  openedPoint (s.proof ρ r ν z) vk (openingTranscript base ρ r ν z) js.1 js.2 -
    C (openedValue (s.proof ρ r ν z) (openingTranscript base ρ r ν z) vk.logCircuitSize js.1 js.2)

/-- The verifier accepts the commitments. -/
def Accepts {G : Type} [AddCommGroup G] [Module Fr G] (generator : G)
    (pairingCheck : Fr → G → G → Bool) (ρ r ν z : HalfDigest) (τ : Fr) : Prop :=
  verifyShplemini ((s.proof ρ r ν z).map (commit generator τ)) (vk.map (commit generator τ))
    (openingTranscript base ρ r ν z) generator (pairingCheck τ) = .ok ()

variable {s vk base} {ρ r ν z : HalfDigest}

theorem openingDefect_eq (hpos : 1 ≤ vk.logCircuitSize) (hle : vk.logCircuitSize ≤ constProofSizeLogN)
    (x : Fr) : (openingDefect s vk base ρ r ν z).eval x = (s.quotient ρ r ν).eval x -
      ∑ js : Fin vk.logCircuitSize × Fin 2, ofChallenge ν ^ (2 * js.1.val + js.2.val) *
        (ofChallenge z - place (openingTranscript base ρ r ν z) js.1 js.2)⁻¹ *
          (openingClaim s vk base ρ r ν z js).eval x +
      (ofChallenge z - x) * (s.witness ρ r ν z).eval x := by
  have hone : ∀ c : Fr, c • (1 : Fr[X]) = C c := fun c => by rw [smul_eq_C_mul, mul_one]
  rw [openingDefect, openingPoint_eq _ _ _ _ hpos hle]
  simp only [eval_sub, eval_add, eval_finsetSum, eval_smul, smul_eq_mul, eval_mul, eval_X, hone,
    openingClaim]
  change (s.quotient ρ r ν).eval x - _ + ofChallenge z * (s.witness ρ r ν z).eval x - _ = _
  simp only [openingTranscript]
  ring

theorem natDegree_openingDefect_le (hvk : ∀ i, (vk.points i).natDegree ≤ d)
    (hpos : 1 ≤ vk.logCircuitSize) (hle : vk.logCircuitSize ≤ constProofSizeLogN) :
    (openingDefect s vk base ρ r ν z).natDegree ≤ d + 1 := by
  have hone : ∀ c : Fr, (c • (1 : Fr[X])).natDegree ≤ d := fun c => by
    rw [smul_eq_C_mul, mul_one, natDegree_C]
    exact Nat.zero_le _
  rw [openingDefect, openingPoint_eq _ _ _ _ hpos hle]
  refine (natDegree_sub_le _ _).trans (max_le (le_trans ?_ (Nat.le_succ d)) ?_)
  · refine (natDegree_add_le _ _).trans (max_le ((natDegree_sub_le _ _).trans (max_le ?_ ?_)) ?_)
    · exact s.natDegree_quotient ρ r ν
    · refine natDegree_sum_le_of_forall_le _ _ fun js _ => (natDegree_smul_le _ _).trans ?_
      exact (natDegree_sub_le _ _).trans
        (max_le (natDegree_openedPoint_le hvk s _ ρ r ν z js.1 js.2) (hone _))
    · exact (natDegree_smul_le _ _).trans (s.natDegree_witness ρ r ν z)
  · rw [add_comm]
    exact natDegree_mul_le_of_le natDegree_X_le (s.natDegree_witness ρ r ν z)

variable {G : Type} [AddCommGroup G] [Module Fr G] {generator : G}
  {pairingCheck : Fr → G → G → Bool}

theorem accepts_iff (hpairing : IsPairing generator pairingCheck) (τ : Fr) :
    Accepts s vk base generator pairingCheck ρ r ν z τ ↔
      (1 ≤ vk.logCircuitSize ∧ vk.logCircuitSize ≤ constProofSizeLogN) ∧
        (0 : Fr) ∉ toInvert (openingTranscript base ρ r ν z) vk.logCircuitSize ∧
          (openingDefect s vk base ρ r ν z).eval τ = 0 := by
  unfold Accepts
  rw [verifyShplemini_iff]
  refine and_congr_right fun hrange => and_congr_right fun _ => ?_
  have hgenerator : commit generator τ 1 = generator := by simp [commit]
  have hpoint := openingPoint_map (commit generator τ) (s.proof ρ r ν z) vk
    (openingTranscript base ρ r ν z) 1 hrange.1 hrange.2
  rw [hgenerator] at hpoint
  have hwitness : -((s.proof ρ r ν z).map (commit generator τ)).kzgQuotient =
      (-(s.witness ρ r ν z).eval τ) • generator := by
    rw [neg_smul]
    rfl
  have hdefect : (openingDefect s vk base ρ r ν z).eval τ = (openingPoint (s.proof ρ r ν z) vk
      (openingTranscript base ρ r ν z) 1 vk.logCircuitSize).eval τ +
        τ * -(s.witness ρ r ν z).eval τ := by
    rw [openingDefect, eval_sub, eval_mul, eval_X]
    ring
  rw [hdefect, ← hpairing, hwitness]
  exact Eq.congr_left (congrArg (fun x => pairingCheck τ x _) hpoint)

end Accepted

/-! ## Counting -/

section Count

variable {d : ℕ} {s : Opener d} {vk : VerificationKey Fr[X]} {base : Transcript} {G : Type}
  [AddCommGroup G] [Module Fr G] {generator : G} {pairingCheck : Fr → G → G → Bool}
  {ρ r ν : HalfDigest}

/-- The claims do not depend on the later challenges. -/
theorem openedValue_eq (ν z : HalfDigest) (logN j : ℕ) (i : Fin 2) :
    openedValue (s.proof ρ r ν z) (openingTranscript base ρ r ν z) logN j i =
      openedValue (s.proof ρ r 0 0) (openingTranscript base ρ r 0 0) logN j i := by
  have hcur : ∀ m ≤ logN, foldCur (s.proof ρ r ν z) (openingTranscript base ρ r ν z)
      (inverted (openingTranscript base ρ r ν z) logN) m =
        foldCur (s.proof ρ r 0 0) (openingTranscript base ρ r 0 0)
          (inverted (openingTranscript base ρ r 0 0) logN) m := by
    intro m hm
    induction m with
    | zero => rfl
    | succ m ih =>
      have hround : logN - m = logN - m - 1 + 1 := by omega
      unfold foldCur foldStep
      rw [ih (Nat.le_of_succ_le hm), show (inverted _ logN).logN = logN from rfl,
        show (inverted _ logN).logN = logN from rfl, hround, inverted_fold (by omega),
        inverted_fold (by omega)]
      rfl
  unfold openedValue
  split_ifs
  · exact hcur (logN - j) (Nat.sub_le _ _)
  · rfl

theorem openingClaim_eq (ν z : HalfDigest) :
    openingClaim s vk base ρ r ν z = openingClaim s vk base ρ r 0 0 := by
  funext js
  unfold openingClaim
  rw [openedValue_eq ν z]
  rfl

/-- The places of the claims. -/
def openingPlace (vk : VerificationKey Fr[X]) (base : Transcript) (r : HalfDigest)
    (js : Fin vk.logCircuitSize × Fin 2) : Fr :=
  place (openingTranscript base r r r r) js.1 js.2

/-- The powers that a claim is batched with. -/
def openingExponent (vk : VerificationKey Fr[X]) (js : Fin vk.logCircuitSize × Fin 2) : ℕ :=
  2 * js.1.val + js.2.val

variable (hpairing : IsPairing generator pairingCheck) (hvk : ∀ i, (vk.points i).natDegree ≤ d)

include hpairing hvk

/-- After the batch of the claims has left something at a place. -/
theorem count_quotients_le {k₀ : Fin vk.logCircuitSize × Fin 2}
    (hresidue : residue (fun js => ofChallenge ν ^ openingExponent vk js) (openingPlace vk base r)
      (openingClaim s vk base ρ r 0 0) (openingPlace vk base r k₀) ≠ 0) :
    count (fun zτ : HalfDigest × Fr =>
      Accepts s vk base generator pairingCheck ρ r ν zτ.1 zτ.2) ≤
      (d + 2 * vk.logCircuitSize) * bn254ScalarModulus + 2 ^ 128 * (d + 1) := by
  by_cases hrange : 1 ≤ vk.logCircuitSize ∧ vk.logCircuitSize ≤ constProofSizeLogN
  swap
  · exact (count_eq_zero fun zτ h => hrange ((accepts_iff hpairing _).mp h).1).trans_le
      (Nat.zero_le _)
  have hclaim : ∀ js, (openingClaim s vk base ρ r 0 0 js).natDegree ≤ d := fun js =>
    (natDegree_sub_le _ _).trans (max_le (natDegree_openedPoint_le hvk s _ ρ r 0 0 _ _)
      ((natDegree_C _).trans_le (Nat.zero_le _)))
  have hquotient := count_quotient_le ofChallenge_injective hresidue
    (s.natDegree_quotient ρ r ν) hclaim
  have hcard : d + Fintype.card (Fin vk.logCircuitSize × Fin 2) = d + 2 * vk.logCircuitSize := by
    rw [Fintype.card_prod, Fintype.card_fin, Fintype.card_fin, mul_comm]
  rw [hcard] at hquotient
  rw [count_prod]
  refine (sum_count_le (d + 1) hquotient fun z hz => ?_).trans (le_of_eq ?_)
  · by_cases hdefect : openingDefect s vk base ρ r ν z = 0
    · -- an opening for every secret is one at the challenge itself
      refine (count_eq_zero fun τ h => hz ?_).trans_le (Nat.zero_le _)
      have hne := ((accepts_iff hpairing τ).mp h).2.1
      have heval : (openingDefect s vk base ρ r ν z).eval (ofChallenge z) = _ :=
        openingDefect_eq hrange.1 hrange.2 (ofChallenge z)
      rw [hdefect, eval_zero, sub_self, zero_mul, add_zero, openingClaim_eq] at heval
      refine ⟨fun js h => ?_, (sub_eq_zero.mp heval.symm)⟩
      have hplaces := @mem_toInvert_places vk.logCircuitSize (openingTranscript base ρ r ν z) js.1
        js.1.isLt
      unfold openingPlace place at h
      split_ifs at h
      · exact hne (sub_eq_zero.mpr h ▸ hplaces.1)
      · exact hne ((add_eq_zero_iff_eq_neg.mpr h) ▸ hplaces.2)
    · refine (count_mono fun τ h => ?_).trans (card_eval_eq_le Function.injective_id
        (natDegree_openingDefect_le hvk hrange.1 hrange.2) (q := 0) (by simp) hdefect)
      rw [eval_zero]
      exact ((accepts_iff hpairing τ).mp h).2.2
  · rw [ZMod.card, Fintype.card_fin]

/-- After a wrong claim at a place. -/
theorem count_claims_le {k₀ : Fin vk.logCircuitSize × Fin 2}
    (hwrong : (openingClaim s vk base ρ r 0 0 k₀).eval (openingPlace vk base r k₀) ≠ 0) :
    count (fun νzτ : HalfDigest × HalfDigest × Fr =>
      Accepts s vk base generator pairingCheck ρ r νzτ.1 νzτ.2.1 νzτ.2.2) ≤
      2 * vk.logCircuitSize * (2 ^ 128 * bn254ScalarModulus) + 2 ^ 128 *
        ((d + 2 * vk.logCircuitSize) * bn254ScalarModulus + 2 ^ 128 * (d + 1)) := by
  have hexponent : Function.Injective (openingExponent vk) := by
    rintro ⟨j, i⟩ ⟨j', i'⟩ h
    unfold openingExponent at h
    refine Prod.ext (Fin.ext ?_) (Fin.ext ?_) <;> dsimp only at h ⊢ <;> omega
  have hresidue := count_residue_le ofChallenge_injective hexponent (m := 2 * vk.logCircuitSize)
    (fun js => by unfold openingExponent; omega) hwrong
  rw [count_prod]
  refine (sum_count_le _ hresidue fun ν hν => count_quotients_le hpairing hvk hν).trans
    (le_of_eq ?_)
  rw [Fintype.card_prod, ZMod.card, Fintype.card_fin]

/-- After a batch that is not the one of the columns. -/
theorem count_folds_accepts_le
    (hwrong : foldChain (s.proof ρ 0 0 0) vk (openingTranscript base ρ 0 0 0) vk.logCircuitSize
        vk.logCircuitSize ≠ foldPolys (roundChallenges base vk.logCircuitSize)
          (batchPoly (s.proof ρ 0 0 0) vk (openingTranscript base ρ 0 0 0)) ∨
      (roundChallenges base vk.logCircuitSize).getD 0 0 *
        pole (s.proof ρ 0 0 0) vk (openingTranscript base ρ 0 0 0) ≠ 0) :
    count (fun rνzτ : HalfDigest × HalfDigest × HalfDigest × Fr =>
      Accepts s vk base generator pairingCheck ρ rνzτ.1 rνzτ.2.1 rνzτ.2.2.1 rνzτ.2.2.2) ≤
      (d + 1) * 2 ^ vk.logCircuitSize * (2 ^ 128 * (2 ^ 128 * bn254ScalarModulus)) + 2 ^ 128 *
        (2 * vk.logCircuitSize * (2 ^ 128 * bn254ScalarModulus) + 2 ^ 128 *
          ((d + 2 * vk.logCircuitSize) * bn254ScalarModulus + 2 ^ 128 * (d + 1))) := by
  by_cases hrange : 1 ≤ vk.logCircuitSize ∧ vk.logCircuitSize ≤ constProofSizeLogN
  swap
  · exact (count_eq_zero fun x h => hrange ((accepts_iff hpairing _).mp h).1).trans_le
      (Nat.zero_le _)
  have hlength : (roundChallenges base vk.logCircuitSize).length = vk.logCircuitSize := by
    rw [roundChallenges, List.length_map, length_roundIndices hrange.2]
  have hfolds := count_folds_le ofChallenge_injective hlength hwrong hrange.1
    fun j => natDegree_foldChain_le hvk s (openingTranscript base ρ 0 0 0) ρ 0 0 0 _ j
  rw [count_prod]
  refine (sum_count_le (2 * vk.logCircuitSize * (2 ^ 128 * bn254ScalarModulus) + 2 ^ 128 *
    ((d + 2 * vk.logCircuitSize) * bn254ScalarModulus + 2 ^ 128 * (d + 1))) hfolds
    fun r hr => ?_).trans (le_of_eq ?_)
  · by_cases hopened : Opened (s.proof ρ r 0 0) vk (openingTranscript base ρ r 0 0)
      vk.logCircuitSize
    · -- true claims, but then the folds are right at this challenge
      refine (count_eq_zero fun νzτ h => hr fun j hj => ?_).trans_le (Nat.zero_le _)
      have hne := ((accepts_iff hpairing _).mp h).2.1
      refine @foldDefect_of_opened (s.proof ρ r νzτ.1 νzτ.2.1) vk _ _ hrange.2 hne
        (fun j hj i => ?_) j hj
      rw [openedValue_eq νzτ.1 νzτ.2.1]
      exact hopened j hj i
    · unfold Opened at hopened
      push Not at hopened
      obtain ⟨j, hj, i, hne⟩ := hopened
      have hwrong : (openingClaim s vk base ρ r 0 0 (⟨j, hj⟩, i)).eval
          (openingPlace vk base r (⟨j, hj⟩, i)) ≠ 0 := by
        rw [openingClaim, eval_sub, eval_C]
        exact sub_ne_zero.mpr hne
      exact count_claims_le hpairing hvk hwrong
  · rw [Fintype.card_prod, Fintype.card_prod, ZMod.card, Fintype.card_fin]

omit hpairing hvk [AddCommGroup G] [Module Fr G] in
/-- Wrong evaluations are those of the batch for few of the challenges. -/
theorem count_batches_le (hpos : 1 ≤ vk.logCircuitSize) (hle : vk.logCircuitSize ≤ constProofSizeLogN)
    (hwrong : ¬ OpensTo s.start vk base vk.logCircuitSize) :
    count (fun ρ : HalfDigest =>
      ¬ (foldChain (s.proof ρ 0 0 0) vk (openingTranscript base ρ 0 0 0) vk.logCircuitSize
          vk.logCircuitSize ≠ foldPolys (roundChallenges base vk.logCircuitSize)
            (batchPoly (s.proof ρ 0 0 0) vk (openingTranscript base ρ 0 0 0)) ∨
        (roundChallenges base vk.logCircuitSize).getD 0 0 *
          pole (s.proof ρ 0 0 0) vk (openingTranscript base ρ 0 0 0) ≠ 0)) ≤ 39 := by
  rcases not_and_or.mp hwrong with hevaluations | hstart
  · unfold Evaluates at hevaluations
    push Not at hevaluations
    obtain ⟨w, hw⟩ := hevaluations
    have hcolumn := foldAll_comp Wire.index (roundChallenges base vk.logCircuitSize)
      (fun k (i : Fin numberOfEntities) => (entityPoly s.start vk i).coeff k) 0 w
    refine (count_mono fun ρ h => ?_).trans (card_powers_le ofChallenge_injective
      (@Fin.val_injective numberOfEntities) (fun i => Nat.le_of_lt_succ i.isLt)
      (c := fun i => s.start.sumcheckEvaluations i -
        foldAll (roundChallenges base vk.logCircuitSize)
          (fun k (i : Fin numberOfEntities) => (entityPoly s.start vk i).coeff k) 0 i)
      (sub_ne_zero.mpr fun h => hw (h.trans hcolumn)))
    rw [not_or, not_not] at h
    have hlast : foldChain (s.proof ρ 0 0 0) vk (openingTranscript base ρ 0 0 0) vk.logCircuitSize
        vk.logCircuitSize = C (evalAcc (s.proof ρ 0 0 0) (openingTranscript base ρ 0 0 0)) := by
      obtain ⟨m, hm⟩ := Nat.exists_eq_add_of_le' hpos
      rw [hm]
      exact if_neg (lt_irrefl _)
    have hbatch := congrArg (fun p => p.coeff 0) (hlast.symm.trans h.1)
    simp only [coeff_C_zero, coeff_foldPolys_batchPoly] at hbatch
    simp only [mul_sub, Finset.sum_sub_distrib]
    rw [sub_eq_zero]
    exact (Finset.sum_congr rfl fun i _ => mul_comm _ _).trans hbatch
  · push Not at hstart
    obtain ⟨hu, k, hk, hne⟩ := hstart
    have hexponent : Function.Injective fun k : Fin 5 => numberUnshifted + k.val := fun k k' h =>
      Fin.ext (Nat.add_left_cancel h)
    refine (count_mono fun ρ h => ?_).trans (card_powers_le ofChallenge_injective hexponent
      (fun k => Nat.add_le_add_left (Nat.le_of_lt_succ k.isLt) _) (i := ⟨k, hk⟩)
      (c := fun k => (entityPoint s.start vk (27 + k)).coeff 0) hne)
    rw [not_or, not_not, getD_roundChallenges hle hpos, not_not] at h
    have hpole := (mul_eq_zero.mp h.2).resolve_left hu
    rw [pole, shiftedPoint, finsetSum_coeff, Finset.sum_range] at hpole
    exact hpole

/-- Wrong evaluations are accepted for few of the challenges and secrets. -/
theorem count_verifyShplemini_le
    (hwrong : ¬ OpensTo s.start vk base vk.logCircuitSize) :
    count (fun c : OpeningDraw =>
      Accepts s vk base generator pairingCheck c.1 c.2.1 c.2.2.1 c.2.2.2.1 c.2.2.2.2) ≤
      (39 + (d + 1) * 2 ^ vk.logCircuitSize + 4 * vk.logCircuitSize + d) * (2 ^ 128) ^ 3 *
        bn254ScalarModulus + (d + 1) * (2 ^ 128) ^ 4 := by
  by_cases hrange : 1 ≤ vk.logCircuitSize ∧ vk.logCircuitSize ≤ constProofSizeLogN
  swap
  · exact (count_eq_zero fun c h => hrange ((accepts_iff hpairing _).mp h).1).trans_le
      (Nat.zero_le _)
  rw [count_prod]
  refine (sum_count_le _ (count_batches_le hrange.1 hrange.2 hwrong) fun ρ hρ =>
    count_folds_accepts_le hpairing hvk (not_not.mp hρ)).trans (le_of_eq ?_)
  rw [Fintype.card_prod, Fintype.card_prod, Fintype.card_prod, ZMod.card, Fintype.card_fin]
  generalize 2 ^ 128 = K
  ring

end Count

/-! ## A proof of zeros that claims ones -/

noncomputable def zeroKey : VerificationKey Fr[X] := ⟨2, 1, 16, 1, fun _ => 0⟩

noncomputable def onesProof : Proof Fr[X] :=
  ⟨fun _ => 0, 0, 0, 0, 0, 0, 0, 0, 0, fun _ _ => 0, fun _ => 1, fun _ => 0, fun _ => 0, 0, 0⟩

noncomputable def onesOpener : Opener 0 where
  start := onesProof
  folds := fun _ _ => 0
  values := fun _ _ _ => 0
  quotient := fun _ _ _ => 0
  witness := fun _ _ _ _ => 0
  natDegree_start := fun p hp => by
    have hzero : p = 0 := by simpa [proofPoints, onesProof] using hp
    rw [hzero, natDegree_zero]
  natDegree_folds := fun _ _ => natDegree_zero.le
  natDegree_quotient := fun _ _ _ => natDegree_zero.le
  natDegree_witness := fun _ _ _ _ => natDegree_zero.le

theorem entityPoint_zeroKey (i : ℕ) : entityPoint onesProof zeroKey i = 0 := by
  have hall : ∀ p ∈ List.ofFn zeroKey.points ++ proofPoints onesProof, p = 0 := by
    intro p hp
    rcases List.mem_append.mp hp with hp | hp
    · obtain ⟨k, rfl⟩ := List.mem_ofFn.mp hp
      rfl
    · simpa [proofPoints, onesProof] using hp
  rw [entityPoint, List.getD_eq_getElem?_getD]
  cases hi : (List.ofFn zeroKey.points ++ proofPoints onesProof)[i]? with
  | none => rfl
  | some p => exact hall p (List.mem_of_getElem? hi)

theorem not_opensTo_onesProof :
    ¬ OpensTo onesOpener.start zeroKey sampleTranscript zeroKey.logCircuitSize := by
  intro h
  have hcolumns : committed onesProof zeroKey = fun _ _ => 0 := by
    funext k w
    simp [committed, entityPoly, entityPoint_zeroKey]
  have hfold : ∀ us : List Fr, foldAll us (fun _ (_ : Wire) => (0 : Fr)) 0 Wire.qm = 0 := by
    intro us
    induction us with
    | nil => rfl
    | cons u us ih =>
      refine (congrFun (congrFun (congrArg (foldAll us) ?_) 0) Wire.qm).trans ih
      funext k w
      simp [fold, line]
  have hone := h.1 Wire.qm
  rw [show onesOpener.start = onesProof from rfl, hcolumns, hfold] at hone
  exact one_ne_zero hone

/-- The check on the discrete logarithms. -/
def logarithmCheck (τ a b : Fr) : Bool := a + τ * b = 0

theorem isPairing_logarithmCheck : IsPairing (1 : Fr) logarithmCheck := by
  intro τ a b
  simp [logarithmCheck]

theorem count_verifyShplemini_le_ones :
    count (fun c : OpeningDraw => Accepts onesOpener zeroKey sampleTranscript (1 : Fr)
      logarithmCheck c.1 c.2.1 c.2.2.1 c.2.2.2.1 c.2.2.2.2) ≤
      (39 + (0 + 1) * 2 ^ zeroKey.logCircuitSize + 4 * zeroKey.logCircuitSize + 0) *
        (2 ^ 128) ^ 3 * bn254ScalarModulus + (0 + 1) * (2 ^ 128) ^ 4 :=
  count_verifyShplemini_le isPairing_logarithmCheck (fun _ => natDegree_zero.le)
    not_opensTo_onesProof

end Pnlx.UltraHonk
