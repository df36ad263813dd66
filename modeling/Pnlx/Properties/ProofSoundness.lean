import Pnlx.Properties.CopyConstraints
import Pnlx.Properties.OpeningSoundness
import Pnlx.Properties.TranscriptBinding
import Pnlx.UltraHonk.Verifier

/-!
# What an accepted proof says

1. `verify_unique`: two accepted proofs with one last digest are the same proof of the same public
   inputs, or two of the buffers that were hashed collide, or the secret of the reference string is
   a challenge.
2. `count_checked_le`: a prover of wrong public inputs or wrong copies passes all checks of the
   verifier for few of the challenges and of the secrets.
-/

open Polynomial Challenges Sumcheck

namespace Pnlx.UltraHonk

variable {G : Type} [AddCommGroup G] [Module Fr G]

/-! ## One transcript, one proof -/

section Unique

variable {crypto : Crypto G} {vk : VerificationKey Bytes} {τ : Fr}

/-- The proof with another last quotient. -/
def Proof.withQuotient {G : Type} (proof : Proof G) (quotient : G) : Proof G :=
  { proof with kzgQuotient := quotient }

theorem Proof.withQuotient_self {G : Type} (proof : Proof G) :
    proof.withQuotient proof.kzgQuotient = proof := rfl

theorem Proof.map_withQuotient {G H : Type} (f : G → H) (proof : Proof G) (quotient : G) :
    (proof.withQuotient quotient).map f = (proof.map f).withQuotient (f quotient) := rfl

/-- The last quotient is not hashed. -/
theorem challengesOf_withQuotient (keccak256 : Bytes → Bytes) (vk : VerificationKey Bytes)
    (proof : Proof Bytes) (publicInputs quotient : Bytes) :
    challengesOf keccak256 vk (proof.withQuotient quotient) publicInputs =
      challengesOf keccak256 vk proof publicInputs := by
  have hdigest : ∀ d n, sumcheckDigest keccak256 (proof.withQuotient quotient) d n =
      sumcheckDigest keccak256 proof d n := by
    intro d n
    induction n with
    | zero => rfl
    | succ n ih => rw [sumcheckDigest, sumcheckDigest, ih]; rfl
  have hrounds : ∀ d, generateSumcheckChallenges keccak256 (proof.withQuotient quotient) d =
      generateSumcheckChallenges keccak256 proof d := by
    intro d
    simp only [generateSumcheckChallenges, hdigest]
  simp only [challengesOf, transcriptAndDigest, hrounds]
  rfl

theorem openingPoint_withQuotient (generator : G) (proof : Proof G) (vk : VerificationKey G)
    (tp : Transcript) (quotient : G) {n : ℕ} (hpos : 1 ≤ n) (hle : n ≤ constProofSizeLogN) :
    openingPoint (proof.withQuotient quotient) vk tp generator n =
      openingPoint (proof.withQuotient 0) vk tp generator n + tp.shplonkZ • quotient := by
  have hvalue := openedValue_congr (proof.withQuotient quotient) tp (proof.withQuotient 0) rfl rfl n
  have hpoint : ∀ (j : ℕ) (i : Fin 2), openedPoint (proof.withQuotient quotient) vk tp j i =
      openedPoint (proof.withQuotient 0) vk tp j i := by
    intro j i
    cases j <;> rfl
  have hzero : tp.shplonkZ • (proof.withQuotient 0).kzgQuotient = 0 := smul_zero _
  rw [openingPoint_eq _ _ _ _ hpos hle, openingPoint_eq _ _ _ _ hpos hle, hzero, add_zero]
  simp only [hvalue, hpoint]
  rfl

/-- The digest of all that was sent. -/
def digestOf (keccak256 : Bytes → Bytes) (vk : VerificationKey Bytes) (proof : Proof Bytes)
    (publicInputs : Bytes) : Fr :=
  (transcriptAndDigest keccak256 proof publicInputs vk.circuitSize vk.publicInputsSize
    vk.pubInputsOffset).2

/-- What is hashed on the way to it. -/
def absorbedOf (keccak256 : Bytes → Bytes) (vk : VerificationKey Bytes) (proof : Proof Bytes)
    (publicInputs : Bytes) : List Bytes :=
  absorbed keccak256 proof publicInputs vk.circuitSize vk.publicInputsSize vk.pubInputsOffset

/-- The rest of the proof determines the last quotient. -/
theorem quotient_eq_of_checked {generator : G} {pairingCheck : G → G → Bool}
    (hpairing : ∀ a b, pairingCheck a b = true ↔ a + τ • b = 0) {vk : VerificationKey G}
    {publicInputs : Bytes} {proof : Proof G} {tp : Transcript} {quotient quotient' : G}
    (h : Checked generator pairingCheck vk publicInputs (proof.withQuotient quotient) tp)
    (h' : Checked generator pairingCheck vk publicInputs (proof.withQuotient quotient') tp)
    (hz : tp.shplonkZ ≠ τ) : quotient = quotient' := by
  obtain ⟨delta, hdelta, -, hopening⟩ := h
  obtain ⟨delta', hdelta', -, hopening'⟩ := h'
  obtain rfl : delta = delta' := Except.ok.inj (hdelta.symm.trans hdelta')
  have hopened : ∀ {q : G}, verifyShplemini (proof.withQuotient q) vk (tp.withDelta delta) generator
      pairingCheck = .ok () → openingPoint (proof.withQuotient 0) vk (tp.withDelta delta) generator
        vk.logCircuitSize + (tp.shplonkZ - τ) • q = 0 := by
    intro q hq
    obtain ⟨hrange, -, hpair⟩ := (verifyShplemini_iff _ _ _ _ _).mp hq
    have hquotient : (proof.withQuotient q).kzgQuotient = q := rfl
    have hchallenge : (tp.withDelta delta).shplonkZ = tp.shplonkZ := rfl
    rw [hpairing, openingPoint_withQuotient _ _ _ _ _ hrange.1 hrange.2, hquotient, hchallenge,
      smul_neg] at hpair
    rw [sub_smul, sub_eq_add_neg, ← add_assoc, hpair]
  have hsame := add_left_cancel ((hopened hopening).trans (hopened hopening').symm)
  exact smul_right_injective G (sub_ne_zero.mpr hz) hsame

/-- Two accepted proofs with one digest. -/
theorem verify_unique (hpairing : ∀ a b, crypto.pairingCheck a b = true ↔ a + τ • b = 0)
    (hvk : vk.WellFormed) {proofBytes proofBytes' publicInputs publicInputs' : Bytes}
    {p p' : Proof Bytes} (hp : loadProof proofBytes = .ok p) (hp' : loadProof proofBytes' = .ok p')
    (h : verify crypto vk proofBytes publicInputs = .ok ())
    (h' : verify crypto vk proofBytes' publicInputs' = .ok ())
    (hdigest : digestOf crypto.keccak256 vk p publicInputs =
      digestOf crypto.keccak256 vk p' publicInputs') :
    Collide crypto.keccak256 (absorbedOf crypto.keccak256 vk p publicInputs)
        (absorbedOf crypto.keccak256 vk p' publicInputs') ∨
      (challengesOf crypto.keccak256 vk p publicInputs).shplonkZ = τ ∨
        publicInputs = publicInputs' ∧ p.map crypto.toPoint = p'.map crypto.toPoint := by
  have hsizes : vk.circuitSize < 2 ^ 64 ∧ vk.publicInputsSize < 2 ^ 64 ∧
      vk.pubInputsOffset < 2 ^ 64 := by
    have hcircuit : vk.circuitSize ≤ 2 ^ constProofSizeLogN :=
      hvk.circuitSize ▸ Nat.pow_le_pow_right two_pos hvk.logCircuitSize.2
    have hlt : vk.circuitSize < 2 ^ 64 := hcircuit.trans_lt (by decide)
    exact ⟨hlt, hvk.publicInputsSize.2, hvk.pubInputsOffset.trans_lt hlt⟩
  refine (transcript_binding (wellFormed_of_loadProof hp) (wellFormed_of_loadProof hp') hsizes
    hsizes hdigest).imp_right ?_
  rintro ⟨-, rfl, hsame⟩
  obtain ⟨-, q, hq, hchecked⟩ := (verify_iff _ _ _ _).mp h
  obtain ⟨-, q', hq', hchecked'⟩ := (verify_iff _ _ _ _).mp h'
  obtain rfl := Except.ok.inj (hp.symm.trans hq)
  obtain rfl := Except.ok.inj (hp'.symm.trans hq')
  refine or_iff_not_imp_left.mpr fun hz => ⟨rfl, ?_⟩
  obtain ⟨quotient, rfl⟩ : ∃ quotient, p.withQuotient quotient = p' := ⟨_, hsame⟩
  rw [← (p.map crypto.toPoint).withQuotient_self] at hchecked ⊢
  rw [Proof.map_withQuotient, challengesOf_withQuotient] at hchecked'
  rw [Proof.map_withQuotient, quotient_eq_of_checked hpairing hchecked hchecked' hz]

end Unique

/-! ## Soundness -/

/-- The draws after those of the relation parameters. -/
abbrev LaterDraw (n : ℕ) := Draw n × OpeningDraw

/-- The transcript of the draws. -/
def LaterDraw.transcript {n : ℕ} (x : LaterDraw n) (base : Transcript) : Transcript :=
  openingTranscript (x.1.transcript base) x.2.1 x.2.2.1 x.2.2.2.1 x.2.2.2.2.1

/-- The columns that are also opened shifted start with zero. -/
def Started (trace : Trace) : Prop := ∀ w ∈ [Wire.wl, .wr, .wo, .w4, .zPerm], trace 0 w = 0

/-- The columns of the first and the last row in the key. -/
def Edged (vk : VerificationKey Fr[X]) : Prop := ∀ i < 2 ^ vk.logCircuitSize,
  ((vk.points 25).coeff i = if i = 0 then 1 else 0) ∧
    (vk.points 26).coeff i = if i + 1 = 2 ^ vk.logCircuitSize then 1 else 0

section Columns

variable {proof : Proof Fr[X]} {vk : VerificationKey Fr[X]}

theorem started_committed (h : ∀ k < 5, (entityPoint proof vk (27 + k)).coeff 0 = 0) :
    Started (committed proof vk) := by
  have hcolumn : ∀ w : Wire, ∀ k < 5, w.index.val = 27 + k → committed proof vk 0 w = 0 := by
    intro w k hk hw
    have hunshifted : 27 + k < numberUnshifted := by unfold numberUnshifted; omega
    rw [committed, entityPoly, hw, if_pos hunshifted]
    exact h k hk
  intro w hw
  simp only [List.mem_cons, List.not_mem_nil, or_false] at hw
  rcases hw with rfl | rfl | rfl | rfl | rfl
  · exact hcolumn .wl 0 (by decide) rfl
  · exact hcolumn .wr 1 (by decide) rfl
  · exact hcolumn .wo 2 (by decide) rfl
  · exact hcolumn .w4 3 (by decide) rfl
  · exact hcolumn .zPerm 4 (by decide) rfl

theorem committed_key (w : Wire) (h : w.index.val < 27) (i : ℕ) :
    committed proof vk i w = (vk.points ⟨w.index.val, h⟩).coeff i := by
  have hunshifted : w.index.val < numberUnshifted := by unfold numberUnshifted; omega
  rw [committed, entityPoly, if_pos hunshifted, entityPoint,
    List.getD_append _ _ _ _ (by simpa using h), List.getD_eq_getElem _ _ (by simpa using h),
    List.getElem_ofFn]

theorem laid_committed (hedged : Edged vk) (h : Started (committed proof vk)) :
    Laid vk.logCircuitSize (committed proof vk) where
  first i hi := (committed_key .lagrangeFirst (by decide) i).trans (hedged i hi).1
  last i hi := (committed_key .lagrangeLast (by decide) i).trans (hedged i hi).2
  start := h .zPerm (by simp)
  shift i _ := coeff_divX

end Columns

/-- The columns are sent before the draws, and a message of the sumcheck before the challenges of
its round and of later ones. -/
structure Staged {d : ℕ} (vk : VerificationKey Fr[X]) (trace : Trace)
    (prover : Draw vk.logCircuitSize → Opener d) : Prop where
  columns : ∀ c, committed (prover c).start vk = trace
  rounds : Adaptive fun c => (prover c).start

section Later

variable {d : ℕ} {vk : VerificationKey Fr[X]} {trace : Trace} {base : Transcript}
  {prover : Draw vk.logCircuitSize → Opener d}

theorem roundChallenges_draw (hle : vk.logCircuitSize ≤ constProofSizeLogN)
    (c : Draw vk.logCircuitSize) : roundChallenges (c.transcript base) vk.logCircuitSize =
      (List.ofFn c.2).map ofChallenge :=
  map_drawn hle c.2 _

/-- For few of the draws does the sumcheck accept the evaluations of columns that do not satisfy the
circuit. -/
theorem count_satisfied_le (hstaged : Staged vk trace prover)
    (hsat : ¬ Satisfies vk.logCircuitSize base.relParams trace) :
    count (fun c => verifySumcheck (prover c).start (c.transcript base) vk = .ok () ∧
      Evaluates trace ((List.ofFn c.2).map ofChallenge) (prover c).start) * 2 ^ 128 ≤
      (8 * vk.logCircuitSize + 1) * Fintype.card (Draw vk.logCircuitSize) := by
  classical
  -- the prover with the right evaluations
  let honest : Draw vk.logCircuitSize → Proof Fr[X] := fun c =>
    if Evaluates trace ((List.ofFn c.2).map ofChallenge) (prover c).start then (prover c).start
    else { (prover c).start with
      sumcheckEvaluations := foldAll ((List.ofFn c.2).map ofChallenge)
        (fun k (i : Fin numberOfEntities) => (entityPoly (prover c).start vk i).coeff k) 0 }
  have hunivariates : ∀ c, (honest c).sumcheckUnivariates = (prover c).start.sumcheckUnivariates := by
    intro c
    dsimp only [honest]
    split_ifs <;> rfl
  have hadaptive : Adaptive honest := by
    intro first us us' r h
    rw [hunivariates, hunivariates]
    exact hstaged.rounds first us us' r h
  have heval : ∀ c, Evaluates trace ((List.ofFn c.2).map ofChallenge) (honest c) := by
    intro c
    dsimp only [honest]
    split_ifs with h
    · exact h
    · intro w
      rw [← hstaged.columns c]
      exact foldAll_comp Wire.index ((List.ofFn c.2).map ofChallenge)
        (fun k (i : Fin numberOfEntities) => (entityPoly (prover c).start vk i).coeff k) 0 w
  refine (Nat.mul_le_mul_right _ (count_mono fun c h => ?_)).trans
    (count_verifySumcheck_le hsat hadaptive heval)
  have hhonest : honest c = (prover c).start := if_pos h.2
  rw [hhonest]
  exact h.1

/-- For few of the draws is the first challenge of the sumcheck zero. -/
theorem count_zero_le {n : ℕ} (hn : 0 < n) :
    count (fun c : Draw n => ofChallenge (c.2 ⟨0, hn⟩) = 0) * 2 ^ 128 ≤ Fintype.card (Draw n) := by
  obtain ⟨m, rfl⟩ := Nat.exists_eq_add_of_le' hn
  have hrounds : count (fun us : Fin (m + 1) → HalfDigest => ofChallenge (us 0) = 0) ≤
      (2 ^ 128) ^ m := by
    have haffine := card_affine_le ofChallenge_injective (a := (0 : Fr))
      (b := fun k : Fin (m + 1) => if k = 0 then 1 else 0) (Or.inr ⟨0, by simp⟩)
    simpa using haffine
  have hnone : count (fun _ : (Fin (m + 1) → HalfDigest) × (Fin numberOfAlphas → HalfDigest) =>
      False) ≤ 0 := (count_eq_zero fun _ => id).le
  rw [count_prod]
  refine (Nat.mul_le_mul_right _ (sum_count_le ((2 ^ 128) ^ m) hnone fun _ _ => hrounds)).trans
    (le_of_eq ?_)
  simp only [Fintype.card_prod, Fintype.card_fun, Fintype.card_fin]
  ring

/-- For few of the draws does the sumcheck accept columns that do not satisfy the circuit or do not
start with zero, with what they open to. -/
theorem count_opened_le (hstaged : Staged vk trace prover)
    (hwrong : ¬ (Satisfies vk.logCircuitSize base.relParams trace ∧ Started trace)) :
    count (fun c => verifySumcheck (prover c).start (c.transcript base) vk = .ok () ∧
      OpensTo (prover c).start vk (c.transcript base) vk.logCircuitSize) * 2 ^ 128 ≤
      (8 * vk.logCircuitSize + 1) * Fintype.card (Draw vk.logCircuitSize) := by
  by_cases hrange : 1 ≤ vk.logCircuitSize ∧ vk.logCircuitSize ≤ constProofSizeLogN
  swap
  · rw [count_eq_zero fun c h => hrange ((verifySumcheck_iff _ _ _).mp h.1).1, zero_mul]
    exact Nat.zero_le _
  rcases not_and_or.mp hwrong with hsat | hstart
  · refine (Nat.mul_le_mul_right _ (count_mono fun c h => ?_)).trans (count_satisfied_le hstaged hsat)
    have hevaluates := h.2.1
    rw [hstaged.columns c, roundChallenges_draw hrange.2] at hevaluates
    exact ⟨h.1, hevaluates⟩
  · refine (Nat.mul_le_mul_right _ (count_mono fun c h => ?_)).trans
      ((count_zero_le hrange.1).trans (Nat.le_mul_of_pos_left _ (Nat.succ_pos _)))
    refine h.2.2.elim (fun hzero => ?_) fun hzero =>
      absurd (hstaged.columns c ▸ started_committed hzero) hstart
    have hfirst : 0 < constProofSizeLogN := by decide
    rw [entry, dif_pos hfirst] at hzero
    exact (dif_pos hrange.1).symm.trans hzero

/-- For few of the draws are all checks passed for columns that do not satisfy the circuit or do not
start with zero. -/
theorem count_later_le {G : Type} [AddCommGroup G] [Module Fr G] {generator : G}
    {pairingCheck : Fr → G → G → Bool} (hpairing : IsPairing generator pairingCheck)
    (hvk : ∀ i, (vk.points i).natDegree ≤ d) (hstaged : Staged vk trace prover)
    (hwrong : ¬ (Satisfies vk.logCircuitSize base.relParams trace ∧ Started trace)) :
    count (fun x : LaterDraw vk.logCircuitSize =>
      verifySumcheck (prover x.1).start (x.1.transcript base) vk = .ok () ∧
        Accepts (prover x.1) vk (x.1.transcript base) generator pairingCheck x.2.1 x.2.2.1 x.2.2.2.1
          x.2.2.2.2.1 x.2.2.2.2.2) * 2 ^ 128 ≤
      Fintype.card (Draw vk.logCircuitSize) * ((12 * vk.logCircuitSize + 40 +
        (d + 1) * 2 ^ vk.logCircuitSize + d) * Fintype.card OpeningDraw +
          (d + 1) * (2 ^ 128) ^ 5) := by
  have hcard : Fintype.card OpeningDraw = (2 ^ 128) ^ 4 * bn254ScalarModulus := by
    simp only [Fintype.card_prod, ZMod.card, Fintype.card_fin]
    ring
  have hopening : ∀ c, ¬ (verifySumcheck (prover c).start (c.transcript base) vk = .ok () ∧
      OpensTo (prover c).start vk (c.transcript base) vk.logCircuitSize) →
      count (fun o : OpeningDraw =>
        verifySumcheck (prover c).start (c.transcript base) vk = .ok () ∧
          Accepts (prover c) vk (c.transcript base) generator pairingCheck o.1 o.2.1 o.2.2.1 o.2.2.2.1
            o.2.2.2.2) * 2 ^ 128 ≤
        (39 + (d + 1) * 2 ^ vk.logCircuitSize + 4 * vk.logCircuitSize + d) *
          Fintype.card OpeningDraw + (d + 1) * (2 ^ 128) ^ 5 := by
    intro c hc
    by_cases hsumcheck : verifySumcheck (prover c).start (c.transcript base) vk = .ok ()
    · have hwrong : ¬ OpensTo (prover c).start vk (c.transcript base) vk.logCircuitSize :=
        fun h => hc ⟨hsumcheck, h⟩
      refine (Nat.mul_le_mul_right _ ((count_mono fun o h => h.2).trans
        (count_verifyShplemini_le hpairing hvk hwrong))).trans (le_of_eq ?_)
      rw [hcard]
      generalize 2 ^ 128 = K
      ring
    · rw [count_eq_zero fun o h => hsumcheck h.1, zero_mul]
      exact Nat.zero_le _
  rw [count_prod]
  refine (sum_count_scaled_le _ (count_opened_le hstaged hwrong) hopening).trans (le_of_eq ?_)
  generalize Fintype.card OpeningDraw = O
  generalize Fintype.card (Draw vk.logCircuitSize) = D
  generalize 2 ^ 128 = K
  ring

end Later

/-! ## Wrong public inputs -/

section Inputs

variable {d : ℕ} {generator : G} {pairingCheck : Fr → G → G → Bool} {vk : VerificationKey Fr[X]}

/-- The transcript with the challenges of the permutation. -/
def Transcript.withPermutation (base : Transcript) (βγ : HalfDigest × HalfDigest) : Transcript :=
  { base with relParams := { base.relParams with
      beta := ofChallenge βγ.1
      gamma := ofChallenge βγ.2 } }

/-- The commitments of the prover pass the checks of the verifier. -/
def Convinces (generator : G) (pairingCheck : Fr → G → G → Bool) (vk : VerificationKey Fr[X])
    (publicInputs : Bytes) (prover : Draw vk.logCircuitSize → Opener d) (base : Transcript)
    (x : LaterDraw vk.logCircuitSize) : Prop :=
  let τ := x.2.2.2.2.2
  Checked generator (pairingCheck τ) (vk.map (commit generator τ)) publicInputs
    (((prover x.1).proof x.2.1 x.2.2.1 x.2.2.2.1 x.2.2.2.2.1).map (commit generator τ))
    (x.transcript base)

theorem convinces_iff (publicInputs : Bytes) (prover : Draw vk.logCircuitSize → Opener d)
    (base : Transcript) (x : LaterDraw vk.logCircuitSize) :
    Convinces generator pairingCheck vk publicInputs prover base x ↔
      ∃ delta, computePublicInputDelta publicInputs (prover x.1).start.pairingPointObject
          base.relParams.beta base.relParams.gamma vk.pubInputsOffset vk.circuitSize = .ok delta ∧
        verifySumcheck (prover x.1).start (x.1.transcript (base.withDelta delta)) vk = .ok () ∧
          Accepts (prover x.1) vk (x.1.transcript (base.withDelta delta)) generator pairingCheck
            x.2.1 x.2.2.1 x.2.2.2.1 x.2.2.2.2.1 x.2.2.2.2.2 := Iff.rfl

/-- A prover of wrong public inputs, or of cells that differ from those that they are wired to,
passes the checks for few of the challenges and of the secrets. -/
theorem count_checked_le (hpairing : IsPairing generator pairingCheck)
    (hvk : ∀ i, (vk.points i).natDegree ≤ d) (hsize : vk.circuitSize = 2 ^ vk.logCircuitSize)
    (hedged : Edged vk) {publicInputs : Bytes} {pairingPointObject : Fin pairingPointsSize → Fr}
    {cells : Trace}
    {wiring : Cell vk.logCircuitSize (publicInputWords publicInputs pairingPointObject).length →
      Cell vk.logCircuitSize (publicInputWords publicInputs pairingPointObject).length}
    (hwired : Wired vk.logCircuitSize cells (publicInputWords publicInputs pairingPointObject)
      vk.pubInputsOffset wiring)
    (hwrong : ∃ c, cellValue vk.logCircuitSize cells
      (publicInputWords publicInputs pairingPointObject) (wiring c) ≠
        cellValue vk.logCircuitSize cells (publicInputWords publicInputs pairingPointObject) c)
    {prover : HalfDigest × HalfDigest → Draw vk.logCircuitSize → Opener d}
    {columns : HalfDigest × HalfDigest → Trace} (hstaged : ∀ βγ, Staged vk (columns βγ) (prover βγ))
    (hcells : ∀ βγ, SameCells vk.logCircuitSize (columns βγ) cells)
    (hobject : ∀ βγ c, (prover βγ c).start.pairingPointObject = pairingPointObject)
    (base : Transcript) :
    count (fun x : (HalfDigest × HalfDigest) × LaterDraw vk.logCircuitSize =>
      Convinces generator pairingCheck vk publicInputs (prover x.1) (base.withPermutation x.1) x.2) *
        2 ^ 128 ≤
      (2 ^ 128) ^ 2 * Fintype.card (Draw vk.logCircuitSize) *
        ((2 * (2 ^ vk.logCircuitSize * 4 + publicInputs.length / 32 + pairingPointsSize) +
          (12 * vk.logCircuitSize + 40 + (d + 1) * 2 ^ vk.logCircuitSize + d)) *
            Fintype.card OpeningDraw + (d + 1) * (2 ^ 128) ^ 5) := by
  have hpermutation := Nat.mul_le_mul_right (2 ^ 128) (count_satisfying_le hwired hwrong)
  rw [count_prod]
  refine (sum_count_scaled_le (Fintype.card (Draw vk.logCircuitSize) * ((12 * vk.logCircuitSize +
    40 + (d + 1) * 2 ^ vk.logCircuitSize + d) * Fintype.card OpeningDraw + (d + 1) * (2 ^ 128) ^ 5))
      hpermutation fun βγ hβγ => ?_).trans (le_of_eq ?_)
  · cases hdelta : computePublicInputDelta publicInputs pairingPointObject (ofChallenge βγ.1)
        (ofChallenge βγ.2) vk.pubInputsOffset vk.circuitSize with
    | error e =>
      rw [count_eq_zero fun x h => ?_, zero_mul]
      · exact Nat.zero_le _
      obtain ⟨delta, h, -⟩ := (convinces_iff _ _ _ _).mp h
      rw [hobject] at h
      cases hdelta.symm.trans h
    | ok delta =>
      have hcheats : ¬ (Satisfies vk.logCircuitSize
          ((base.withPermutation βγ).withDelta delta).relParams (columns βγ) ∧
            Started (columns βγ)) := by
        rintro ⟨hsat, hstarted⟩
        refine hβγ ⟨columns βγ, ((base.withPermutation βγ).withDelta delta).relParams, hcells βγ, ?_,
          rfl, rfl, hsize ▸ hdelta, hsat.permuted⟩
        have hcolumns := (hstaged βγ).columns ⟨⟨fun _ => 0, fun _ => 0⟩, fun _ => 0⟩
        rw [← hcolumns] at hstarted ⊢
        exact laid_committed hedged hstarted
      refine (Nat.mul_le_mul_right _ (count_mono fun x h => ?_)).trans
        (count_later_le hpairing hvk (hstaged βγ) hcheats)
      obtain ⟨delta', hdelta', hchecks⟩ := (convinces_iff _ _ _ _).mp h
      rw [hobject] at hdelta'
      obtain rfl := Except.ok.inj (hdelta.symm.trans hdelta')
      exact hchecks
  · have hfirst : Fintype.card (HalfDigest × HalfDigest) = 2 ^ 128 * 2 ^ 128 := by
      rw [Fintype.card_prod, Fintype.card_fin]
    have hlater : Fintype.card (LaterDraw vk.logCircuitSize) =
        Fintype.card (Draw vk.logCircuitSize) * Fintype.card OpeningDraw := Fintype.card_prod _ _
    rw [hfirst, hlater]
    generalize Fintype.card OpeningDraw = O
    generalize Fintype.card (Draw vk.logCircuitSize) = D
    generalize 2 ^ 128 = K
    ring

end Inputs

end Pnlx.UltraHonk
