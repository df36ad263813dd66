import Pnlx.UltraHonk.Trace

/-!
# Sumcheck: what an accepted proof says of the trace

1. `verifySumcheck_of_satisfies`: for a trace that satisfies the circuit, the honest messages are
   accepted, whatever the challenges.
2. `count_verifySumcheck_le`: for a trace that does not, a prover whose messages depend on the
   challenges before them is accepted for few of the challenges, if its evaluations are those of
   the trace.
-/

open Polynomial Sumcheck Challenges

namespace Pnlx.UltraHonk

variable {G : Type}

/-! ## Completeness -/

section Honest

variable {trace : Trace} {logN : ℕ} {tp : Transcript} {proof : Proof G}

theorem getElem_roundIndices (k : ℕ) (hk : k < (roundIndices logN).length) :
    ((roundIndices logN)[k] : ℕ) = k := by
  simp [roundIndices]

theorem messages_of_honest (h : Honest trace logN tp proof) :
    messages proof tp (roundIndices logN) =
      honest (ofDegree_rowRelation tp.relParams tp.alphas) (roundChallenges tp logN)
        (withPow trace (roundGates tp logN)) := by
  refine List.ext_getElem (by simp [messages, roundChallenges]) fun k hk hk' => ?_
  rw [getElem_honest _ _ _ _ hk' (by simpa using hk')]
  simp only [messages, List.getElem_map, roundChallenges]
  refine Prod.ext ?_ rfl
  have hround : k < (roundIndices logN).length := by simpa [messages] using hk
  dsimp only
  rw [h.univariates _ (List.getElem_mem hround)]
  unfold honestUnivariate
  simp only [← eval_roundPoly (ofDegree_rowRelation tp.relParams tp.alphas)]
  rw [interpolated_eval (natDegree_roundPoly_le _ _ _), getElem_roundIndices k hround]
  rfl

/-- A trace that satisfies the circuit convinces the verifier. -/
theorem verifySumcheck_of_satisfies {vk : VerificationKey G} (hpos : 1 ≤ vk.logCircuitSize)
    (hle : vk.logCircuitSize ≤ constProofSizeLogN)
    (hsat : Satisfies vk.logCircuitSize tp.relParams trace)
    (h : Honest trace vk.logCircuitSize tp proof) : verifySumcheck proof tp vk = .ok () := by
  refine (verifySumcheck_iff proof tp vk).mpr ⟨⟨hpos, hle⟩, ?_⟩
  have hzero := hsat.batched_eq_zero tp.alphas (roundGates tp vk.logCircuitSize)
  have hlength : (roundChallenges tp vk.logCircuitSize).length = vk.logCircuitSize := by
    rw [roundChallenges, List.length_map, length_roundIndices hle]
  have hpasses := passes_honest (ofDegree_rowRelation tp.relParams tp.alphas)
    (roundChallenges tp vk.logCircuitSize) (withPow trace (roundGates tp vk.logCircuitSize))
  rw [accumulate_of_evaluates h.evaluations, messages_of_honest h, ← hzero]
  rwa [hlength] at hpasses

end Honest

theorem verifySumcheck_of_satisfies_gate :
    verifySumcheck (proofOf (fun k => honestUnivariate sampleTranscript.relParams
      sampleTranscript.alphas (roundChallenges sampleTranscript 1)
      (withPow (gateTrace (fromU64 5) (-fromU64 15)) (roundGates sampleTranscript 1)) k)
      (roundChallenges sampleTranscript 1) (gateEntities (fromU64 5) (-fromU64 15))) sampleTranscript sampleKey =
      .ok () :=
  verifySumcheck_of_satisfies (by decide) (by decide)
    (show Satisfies 1 sampleTranscript.relParams (gateTrace (fromU64 5) (-fromU64 15)) by
      unfold Satisfies
      decide +kernel)
    ⟨fun _ _ => rfl, evaluates_proofOf _ _ _ _⟩

/-! ## Soundness -/

/-- A challenge is half a digest. -/
abbrev HalfDigest := Fin (2 ^ 128)

def ofChallenge (x : HalfDigest) : Fr := (x.val : Fr)

theorem ofChallenge_injective : Function.Injective ofChallenge := by
  intro x y h
  have hmodulus : 2 ^ 128 < bn254ScalarModulus := by decide
  have hval := congrArg ZMod.val h
  rw [ofChallenge, ofChallenge, ZMod.val_natCast_of_lt (x.isLt.trans hmodulus),
    ZMod.val_natCast_of_lt (y.isLt.trans hmodulus)] at hval
  exact Fin.ext hval

/-- The challenges of the separator, of the subrelations and of the rounds. -/
abbrev Draw (logN : ℕ) := ((Fin logN → HalfDigest) × (Fin numberOfAlphas → HalfDigest)) × (Fin logN → HalfDigest)

/-- An array of the transcript that starts with the challenges. -/
def drawn {logN : ℕ} (xs : Fin logN → HalfDigest) (rest : Fin constProofSizeLogN → Fr)
    (r : Fin constProofSizeLogN) : Fr :=
  if h : r.val < logN then ofChallenge (xs ⟨r.val, h⟩) else rest r

/-- The transcript with the challenges. Those of later rounds are not used. -/
def Draw.transcript {logN : ℕ} (c : Draw logN) (base : Transcript) : Transcript :=
  { base with
    alphas := fun k => ofChallenge (c.1.2 k)
    gateChallenges := drawn c.1.1 base.gateChallenges
    sumcheckUChallenges := drawn c.2 base.sumcheckUChallenges }

/-- A message depends on the challenges before it alone. -/
def Adaptive {logN : ℕ} (prover : Draw logN → Proof G) : Prop :=
  ∀ (first : (Fin logN → HalfDigest) × (Fin numberOfAlphas → HalfDigest)) (us us' : Fin logN → HalfDigest)
    (r : Fin constProofSizeLogN), (∀ k : Fin logN, k.val < r.val → us k = us' k) →
    (prover (first, us)).sumcheckUnivariates r = (prover (first, us')).sumcheckUnivariates r

variable {logN : ℕ}

theorem map_drawn (hle : logN ≤ constProofSizeLogN) (xs : Fin logN → HalfDigest)
    (rest : Fin constProofSizeLogN → Fr) :
    (roundIndices logN).map (drawn xs rest) = (List.ofFn xs).map ofChallenge := by
  refine List.ext_getElem (by simp [hle]) fun k hk hk' => ?_
  have hlt : k < logN := by simpa using hk'
  simp [drawn, getElem_roundIndices, hlt]

/-- The challenges of the rounds, from a list of those before a round. -/
def extend (before : List HalfDigest) (k : Fin logN) : HalfDigest := before.getD k 0

/-- The message of an adaptive prover after the challenges before its round. -/
noncomputable def adaptiveMessage (prover : Draw logN → Proof G)
    (first : (Fin logN → HalfDigest) × (Fin numberOfAlphas → HalfDigest))
    (before : List HalfDigest) : Fr[X] :=
  if h : before.length < constProofSizeLogN then
    interpolated ((prover (first, extend before)).sumcheckUnivariates ⟨before.length, h⟩)
  else 0

/-- The messages of an adaptive prover, as those of the protocol. -/
theorem messages_of_adaptive (hle : logN ≤ constProofSizeLogN) {prover : Draw logN → Proof G}
    (hprover : Adaptive prover) (base : Transcript)
    (first : (Fin logN → HalfDigest) × (Fin numberOfAlphas → HalfDigest)) (us : Fin logN → HalfDigest) :
    messages (prover (first, us)) (Draw.transcript (first, us) base) (roundIndices logN) =
      played ofChallenge (adaptiveMessage prover first) (List.ofFn us) := by
  refine List.ext_getElem (by simp [messages, hle]) fun k hk hk' => ?_
  have hlt : k < logN := by simpa using hk'
  have hround : k < (roundIndices logN).length := by simpa [hle] using hlt
  have hlength : ((List.ofFn us).take k).length = k := by simp [hlt.le]
  rw [getElem_played _ _ _ _ (by simpa using hlt)]
  simp only [messages, List.getElem_map]
  have hindex : (roundIndices logN)[k] = ⟨k, hlt.trans_le hle⟩ :=
    Fin.ext (getElem_roundIndices k hround)
  rw [hindex]
  refine Prod.ext ?_ ?_
  · simp only [adaptiveMessage, hlength, dif_pos (hlt.trans_le hle)]
    refine congrArg interpolated (hprover first us _ _ fun j hj => ?_)
    have hj' : j.val < k := hj
    simp [extend, hj']
  · simp [Draw.transcript, drawn, hlt]

/-- A prover who has to prove a sum that is not zero convinces the verifier for few of the
challenges of the rounds. -/
theorem count_rounds_le {trace : Trace} {base : Transcript} {vk : VerificationKey G}
    (hvk : vk.logCircuitSize = logN) {prover : Draw logN → Proof G} (hprover : Adaptive prover)
    (heval : ∀ c, Evaluates trace ((List.ofFn c.2).map ofChallenge) (prover c))
    (first : (Fin logN → HalfDigest) × (Fin numberOfAlphas → HalfDigest))
    (hbatched : batched logN base.relParams (fun k => ofChallenge (first.2 k))
      ((List.ofFn first.1).map ofChallenge) trace ≠ 0) :
    count (fun us => verifySumcheck (prover (first, us)) (Draw.transcript (first, us) base) vk =
      .ok ()) ≤ logN * 7 * (2 ^ 128) ^ (logN - 1) := by
  by_cases hle : logN ≤ constProofSizeLogN
  swap
  · refine (count_eq_zero fun us h => hle ?_).trans_le (Nat.zero_le _)
    exact hvk ▸ ((verifySumcheck_iff _ _ _).mp h).1.2
  have hdegree : ∀ before, (adaptiveMessage prover first before).natDegree ≤
      batchedRelationPartialLength - 1 := by
    intro before
    unfold adaptiveMessage
    split_ifs
    · exact natDegree_interpolated_le _
    · simp
  have hcard := card_passes_le ofChallenge_injective
    (ofDegree_rowRelation base.relParams fun k => ofChallenge (first.2 k))
    (withPow trace ((List.ofFn first.1).map ofChallenge)) hbatched.symm hdegree
  rw [Fintype.card_fin] at hcard
  refine (count_mono fun us h => ?_).trans hcard
  have hpass := ((verifySumcheck_iff _ _ _).mp h).2
  have hus : roundChallenges (Draw.transcript (first, us) base) logN =
      (List.ofFn us).map ofChallenge := map_drawn hle us _
  have hgates : roundGates (Draw.transcript (first, us) base) logN =
      (List.ofFn first.1).map ofChallenge := map_drawn hle first.1 _
  have hrow := heval (first, us)
  rw [← hus] at hrow
  rw [hvk, accumulate_of_evaluates hrow, messages_of_adaptive hle hprover, hus, hgates] at hpass
  exact hpass

/-- A trace that does not satisfy the circuit has a batch of zero for few of the challenges of the
separator and of the subrelations. -/
theorem count_batched_le {rp : RelationParameters Fr} {trace : Trace}
    (hsat : ¬ Satisfies logN rp trace) :
    count (fun first : (Fin logN → HalfDigest) × (Fin numberOfAlphas → HalfDigest) =>
      batched logN rp (fun k => ofChallenge (first.2 k)) ((List.ofFn first.1).map ofChallenge)
        trace = 0) ≤ (logN + 1) * (2 ^ 128) ^ (logN + 24) := by
  unfold Satisfies at hsat
  push Not at hsat
  obtain ⟨k, hk⟩ := hsat
  -- for few separators the violated subrelation cancels over the rows
  have hgates : count (fun gates : Fin logN → HalfDigest =>
      separated logN rp ((List.ofFn gates).map ofChallenge) trace k = 0) ≤
        logN * (2 ^ 128) ^ (logN - 1) := by
    unfold separated
    split_ifs at hk ⊢ with hlookup
    · simp only [mul_one]
      exact (count_eq_zero fun _ => hk).trans_le (Nat.zero_le _)
    · push Not at hk
      simpa using card_bitSum_le ofChallenge_injective hk
  -- for each other one, few challenges of the subrelations cancel it against the others
  have halphas : ∀ gates : Fin logN → HalfDigest,
      separated logN rp ((List.ofFn gates).map ofChallenge) trace k ≠ 0 →
      count (fun alphas : Fin numberOfAlphas → HalfDigest =>
        batched logN rp (fun k => ofChallenge (alphas k)) ((List.ofFn gates).map ofChallenge)
          trace = 0) ≤ (2 ^ 128) ^ 24 := by
    intro gates hne
    have haffine := card_affine_le ofChallenge_injective
      (a := separated logN rp ((List.ofFn gates).map ofChallenge) trace 0)
      (b := fun j : Fin numberOfAlphas =>
        separated logN rp ((List.ofFn gates).map ofChallenge) trace j.succ) (by
        cases k using Fin.cases with
        | zero => exact Or.inl hne
        | succ j => exact Or.inr ⟨j, hne⟩)
    simp only [Fintype.card_fin] at haffine
    refine (count_mono fun alphas h => ?_).trans haffine
    rwa [batched_eq, Fin.sum_univ_succ, Fin.cons_zero, one_mul] at h
  rw [count_prod]
  refine (sum_count_le ((2 ^ 128) ^ 24) hgates halphas).trans (le_of_eq ?_)
  simp only [Fintype.card_fun, Fintype.card_fin]
  rcases logN with _ | n
  · simp
  · rw [Nat.add_sub_cancel]
    ring

/-- A prover whose trace does not satisfy the circuit convinces the verifier for at most `8 n + 1`
of every `2 ^ 128` challenges. -/
theorem count_verifySumcheck_le {trace : Trace} {base : Transcript} {vk : VerificationKey G}
    (hsat : ¬ Satisfies vk.logCircuitSize base.relParams trace)
    {prover : Draw vk.logCircuitSize → Proof G} (hprover : Adaptive prover)
    (heval : ∀ c, Evaluates trace ((List.ofFn c.2).map ofChallenge) (prover c)) :
    count (fun c => verifySumcheck (prover c) (Draw.transcript c base) vk = .ok ()) * 2 ^ 128 ≤
      (8 * vk.logCircuitSize + 1) * Fintype.card (Draw vk.logCircuitSize) := by
  rw [count_prod]
  have hrounds := @count_rounds_le G vk.logCircuitSize trace base vk rfl prover hprover heval
  refine (Nat.mul_le_mul_right _
    (sum_count_le _ (count_batched_le hsat) hrounds)).trans (le_of_eq ?_)
  simp only [Fintype.card_prod, Fintype.card_fun, Fintype.card_fin]
  generalize hK : 2 ^ 128 = K
  rcases vk.logCircuitSize with _ | n
  · ring
  · rw [Nat.add_sub_cancel]
    ring

theorem not_satisfies_gate :
    ¬ Satisfies sampleKey.logCircuitSize sampleTranscript.relParams (gateTrace (fromU64 5) (-fromU64 14)) := by
  intro h
  have hgate := h 0
  rw [if_neg (by decide)] at hgate
  exact absurd (hgate 0 (by decide)) (by decide +kernel)

/-- A prover who claims the gate with the wrong constant and sends zeros. -/
def gateProver (c : Draw sampleKey.logCircuitSize) : Proof Unit :=
  proofOf (fun _ _ => 0) ((List.ofFn c.2).map ofChallenge) (gateEntities (fromU64 5) (-fromU64 14))

theorem adaptive_gateProver : Adaptive gateProver := by
  intro first us us' r _
  simp only [gateProver, proofOf]

theorem count_verifySumcheck_le_gate :
    count (fun c => verifySumcheck (gateProver c) (Draw.transcript c sampleTranscript) sampleKey =
      .ok ()) * 2 ^ 128 ≤
      (8 * sampleKey.logCircuitSize + 1) * Fintype.card (Draw sampleKey.logCircuitSize) :=
  count_verifySumcheck_le not_satisfies_gate adaptive_gateProver
    fun _ => evaluates_proofOf _ _ _ _

end Pnlx.UltraHonk
