import Pnlx.UltraHonk.Transcript

/-!
# What the challenges are bound to

1. `loaded_iff_wellFormed`: which proofs and keys are read, and from which bytes.
2. `transcript_binding`: if the digests of two transcripts agree, then everything but the last
   quotient agrees, or two of the buffers that were hashed collide.
-/

namespace Pnlx.UltraHonk

/-- The proofs that are loaded are the well-formed ones, each of them from its encoding, and a key is
loaded from its encoding and from no other bytes. -/
theorem loaded_iff_wellFormed :
    (∀ p, (∃ bytes, loadProof bytes = .ok p) ↔ p.WellFormed) ∧
      (∀ p, p.WellFormed → loadProof (encodeProof p) = .ok p) ∧
        ∀ bytes vk, loadVkFromBytes bytes = .ok vk ↔ vk.WellFormed ∧ bytes = encodeVk vk := by
  refine ⟨fun p => ⟨?_, fun h => ⟨_, loadProof_encodeProof h⟩⟩, fun p h => loadProof_encodeProof h,
    fun bytes vk => loadVkFromBytes_iff⟩
  rintro ⟨bytes, h⟩
  exact wellFormed_of_loadProof h

/-! ## Encodings -/

theorem frToBytes_injective : Function.Injective frToBytes := by
  intro x y h
  rw [← value_frToBytes x, h, value_frToBytes]

theorem words_inj {xs ys : List Fr} (hlength : xs.length = ys.length) (h : words xs = words ys) :
    xs = ys := by
  refine List.ext_getElem hlength fun i hi hi' => ?_
  rw [← frWord32_words hi, h, frWord32_words hi']

theorem points_inj {ps qs : List Bytes} (hps : ∀ pt ∈ ps, pt.length = 64)
    (hqs : ∀ pt ∈ qs, pt.length = 64) (hlength : ps.length = qs.length) (h : points ps = points qs) :
    ps = qs := by
  refine List.ext_getElem hlength fun i hi hi' => ?_
  rw [← g1FromProofBlobAt_points hps hi, h, g1FromProofBlobAt_points hqs hi']

theorem length_u64ToBe32 (x : ℕ) : (u64ToBe32 x).length = 32 := by
  rw [u64ToBe32, List.length_append, List.length_replicate, BigEndian.length_bytes]

theorem u64ToBe32_inj {x y : ℕ} (hx : x < 2 ^ 64) (hy : y < 2 ^ 64)
    (h : u64ToBe32 x = u64ToBe32 y) : x = y :=
  BigEndian.bytes_inj (hx.trans_le (by decide)) (hy.trans_le (by decide))
    (List.append_cancel_left h)

/-! ## Digests -/

section Digest

variable {keccak256 : Bytes → Bytes} {bs bs' cs cs' : List Bytes}

/-- Two different buffers, one of each list, have one digest. -/
def Collide (keccak256 : Bytes → Bytes) (bs bs' : List Bytes) : Prop :=
  ∃ b ∈ bs, ∃ b' ∈ bs', b ≠ b' ∧ hashToFr keccak256 b = hashToFr keccak256 b'

section Places

variable {a b c d : Bytes} {rest : List Bytes}

theorem mem_second : b ∈ a :: b :: rest := .tail _ (.head _)

theorem mem_third : c ∈ a :: b :: c :: rest := .tail _ mem_second

theorem mem_fourth : d ∈ a :: b :: c :: d :: rest := .tail _ mem_third

end Places

theorem not_collide_of_subset (hfree : ¬ Collide keccak256 bs bs') (hcs : cs ⊆ bs)
    (hcs' : cs' ⊆ bs') : ¬ Collide keccak256 cs cs' := by
  rintro ⟨b, hb, b', hb', h⟩
  exact hfree ⟨b, hcs hb, b', hcs' hb', h⟩

theorem not_collide_append {as as' : List Bytes}
    (hfree : ¬ Collide keccak256 (bs ++ as) (bs' ++ as')) :
    ¬ Collide keccak256 bs bs' ∧ ¬ Collide keccak256 as as' :=
  ⟨not_collide_of_subset hfree (List.subset_append_left _ _) (List.subset_append_left _ _),
    not_collide_of_subset hfree (List.subset_append_right _ _) (List.subset_append_right _ _)⟩

theorem buffer_eq {b b' : Bytes} (hfree : ¬ Collide keccak256 bs bs') (hb : b ∈ bs)
    (hb' : b' ∈ bs') (h : hashToFr keccak256 b = hashToFr keccak256 b') : b = b' := by
  by_contra hne
  exact hfree ⟨b, hb, b', hb', hne, h⟩

/-- A round is bound to the digest before it and to what was sent. -/
theorem round_eq {d d' : Fr} {sent sent' : Bytes} (hfree : ¬ Collide keccak256 bs bs')
    (hb : frToBytes d ++ sent ∈ bs) (hb' : frToBytes d' ++ sent' ∈ bs')
    (h : hashToFr keccak256 (frToBytes d ++ sent) = hashToFr keccak256 (frToBytes d' ++ sent')) :
    d = d' ∧ sent = sent' := by
  obtain ⟨hd, hsent⟩ := List.append_inj (buffer_eq hfree hb hb' h) (by simp)
  exact ⟨frToBytes_injective hd, hsent⟩

theorem mem_rehashed {d : Fr} {n : ℕ} : frToBytes (rehash keccak256 d n) ∈
    rehashed keccak256 d (n + 1) :=
  List.mem_map.mpr ⟨n, List.mem_range.mpr n.lt_succ_self, rfl⟩

theorem rehashed_subset {d : Fr} {n : ℕ} : rehashed keccak256 d n ⊆ rehashed keccak256 d (n + 1) :=
  List.map_subset _ (List.range_subset.mpr n.le_succ)

theorem rehash_inj {d d' : Fr} {n : ℕ}
    (hfree : ¬ Collide keccak256 (rehashed keccak256 d n) (rehashed keccak256 d' n))
    (h : rehash keccak256 d n = rehash keccak256 d' n) : d = d' := by
  induction n with
  | zero => exact h
  | succ n ih =>
    exact ih (not_collide_of_subset hfree rehashed_subset rehashed_subset)
      (frToBytes_injective (buffer_eq hfree mem_rehashed mem_rehashed h))

theorem mem_roundBuffers {p : Proof Bytes} {d : Fr} {n : ℕ} :
    frToBytes (sumcheckDigest keccak256 p d n) ++ words (univariate p n) ∈
      roundBuffers keccak256 p d (n + 1) :=
  List.mem_map.mpr ⟨n, List.mem_range.mpr n.lt_succ_self, rfl⟩

theorem roundBuffers_subset {p : Proof Bytes} {d : Fr} {n : ℕ} :
    roundBuffers keccak256 p d n ⊆ roundBuffers keccak256 p d (n + 1) :=
  List.map_subset _ (List.range_subset.mpr n.le_succ)

theorem sumcheckDigest_inj {p p' : Proof Bytes} {d d' : Fr} {n : ℕ} (hn : n ≤ constProofSizeLogN)
    (hfree : ¬ Collide keccak256 (roundBuffers keccak256 p d n) (roundBuffers keccak256 p' d' n))
    (h : sumcheckDigest keccak256 p d n = sumcheckDigest keccak256 p' d' n) :
    d = d' ∧ ∀ r : Fin constProofSizeLogN, r.val < n →
      p.sumcheckUnivariates r = p'.sumcheckUnivariates r := by
  induction n with
  | zero => exact ⟨h, fun r hr => absurd hr (Nat.not_lt_zero _)⟩
  | succ n ih =>
    obtain ⟨hdigest, hsent⟩ := round_eq hfree mem_roundBuffers mem_roundBuffers h
    obtain ⟨hd, hbefore⟩ := ih (Nat.le_of_succ_le hn)
      (not_collide_of_subset hfree roundBuffers_subset roundBuffers_subset) hdigest
    refine ⟨hd, fun r hr => ?_⟩
    rcases Nat.lt_succ_iff_lt_or_eq.mp hr with hlt | heq
    · exact hbefore r hlt
    · have hlt : n < constProofSizeLogN := hn
      rw [univariate, univariate, dif_pos hlt, dif_pos hlt] at hsent
      have hrow := List.ofFn_injective (words_inj (by simp) hsent)
      have hindex : r = ⟨n, hlt⟩ := Fin.ext heq
      rw [hindex]
      exact hrow

end Digest

/-! ## The parts of a proof -/

section Parts

variable {p : Proof Bytes}

theorem Proof.WellFormed.part (h : p.WellFormed) {pts : List Bytes}
    (hpts : pts ⊆ [p.w1, p.w2, p.w3, p.lookupReadCounts, p.lookupReadTags, p.w4, p.lookupInverses,
      p.zPerm]) : ∀ pt ∈ pts, pt.length = 64 :=
  fun pt hpt => h.head pt (hpts hpt)

theorem Proof.WellFormed.wires (h : p.WellFormed) : ∀ pt ∈ [p.w1, p.w2, p.w3], pt.length = 64 :=
  h.part (by simp only [List.cons_subset, List.mem_cons]; simp)

theorem Proof.WellFormed.lookups (h : p.WellFormed) :
    ∀ pt ∈ [p.lookupReadCounts, p.lookupReadTags, p.w4], pt.length = 64 :=
  h.part (by simp only [List.cons_subset, List.mem_cons]; simp)

theorem Proof.WellFormed.products (h : p.WellFormed) :
    ∀ pt ∈ [p.lookupInverses, p.zPerm], pt.length = 64 :=
  h.part (by simp only [List.cons_subset, List.mem_cons]; simp)

theorem Proof.WellFormed.foldComms (h : p.WellFormed) :
    ∀ pt ∈ List.ofFn p.geminiFoldComms, pt.length = 64 := by
  intro pt hpt
  obtain ⟨i, rfl⟩ := List.mem_ofFn.mp hpt
  exact h.folds i

theorem Proof.WellFormed.quotient (h : p.WellFormed) : ∀ pt ∈ [p.shplonkQ], pt.length = 64 := by
  intro pt hpt
  exact h.tail pt (List.mem_cons.mpr (Or.inl (List.mem_singleton.mp hpt)))

end Parts

section Binding

variable {keccak256 : Bytes → Bytes} {p p' : Proof Bytes} {publicInputs publicInputs' : Bytes}
  {circuitSize circuitSize' publicInputsSize publicInputsSize' offset offset' : ℕ}

/-- The first buffer determines the sizes, the public inputs and the first wires. -/
theorem etaBuffer_inj (hp : p.WellFormed) (hp' : p'.WellFormed)
    (hsizes : circuitSize < 2 ^ 64 ∧ publicInputsSize < 2 ^ 64 ∧ offset < 2 ^ 64)
    (hsizes' : circuitSize' < 2 ^ 64 ∧ publicInputsSize' < 2 ^ 64 ∧ offset' < 2 ^ 64)
    (h : etaBuffer p publicInputs circuitSize publicInputsSize offset =
      etaBuffer p' publicInputs' circuitSize' publicInputsSize' offset') :
    (circuitSize = circuitSize' ∧ publicInputsSize = publicInputsSize' ∧ offset = offset') ∧
      publicInputs = publicInputs' ∧ p.pairingPointObject = p'.pairingPointObject ∧
        [p.w1, p.w2, p.w3] = [p'.w1, p'.w2, p'.w3] := by
  unfold etaBuffer at h
  obtain ⟨h, hpoints⟩ := List.append_inj' h
    (by rw [length_points hp.wires, length_points hp'.wires]; rfl)
  obtain ⟨h, hobject⟩ := List.append_inj' h (by rw [length_words, length_words]; simp)
  obtain ⟨hheader, hinputs⟩ := List.append_inj h (by simp [length_u64ToBe32])
  obtain ⟨hheader, hoffset⟩ := List.append_inj hheader (by simp [length_u64ToBe32])
  obtain ⟨hcircuit, hpublic⟩ := List.append_inj hheader (by simp [length_u64ToBe32])
  exact ⟨⟨u64ToBe32_inj hsizes.1 hsizes'.1 hcircuit, u64ToBe32_inj hsizes.2.1 hsizes'.2.1 hpublic,
    u64ToBe32_inj hsizes.2.2 hsizes'.2.2 hoffset⟩, hinputs,
    List.ofFn_injective (words_inj (by simp) hobject),
    points_inj hp.wires hp'.wires rfl hpoints⟩

/-- One digest of two transcripts: they are those of the same statement and of proofs that differ in
the last quotient at most, or two of the buffers that they hash collide. -/
theorem transcript_binding (hp : p.WellFormed) (hp' : p'.WellFormed)
    (hsizes : circuitSize < 2 ^ 64 ∧ publicInputsSize < 2 ^ 64 ∧ offset < 2 ^ 64)
    (hsizes' : circuitSize' < 2 ^ 64 ∧ publicInputsSize' < 2 ^ 64 ∧ offset' < 2 ^ 64)
    (h : (transcriptAndDigest keccak256 p publicInputs circuitSize publicInputsSize offset).2 =
      (transcriptAndDigest keccak256 p' publicInputs' circuitSize' publicInputsSize' offset').2) :
    Collide keccak256 (absorbed keccak256 p publicInputs circuitSize publicInputsSize offset)
        (absorbed keccak256 p' publicInputs' circuitSize' publicInputsSize' offset') ∨
      ((circuitSize = circuitSize' ∧ publicInputsSize = publicInputsSize' ∧ offset = offset') ∧
        publicInputs = publicInputs' ∧ { p with kzgQuotient := p'.kzgQuotient } = p') := by
  by_cases hcollide : Collide keccak256
      (absorbed keccak256 p publicInputs circuitSize publicInputsSize offset)
      (absorbed keccak256 p' publicInputs' circuitSize' publicInputsSize' offset')
  · exact Or.inl hcollide
  refine Or.inr ?_
  obtain ⟨hfree, htail⟩ := not_collide_append hcollide
  obtain ⟨hfree, hrounds⟩ := not_collide_append hfree
  obtain ⟨hfree, hgates⟩ := not_collide_append hfree
  obtain ⟨hhead, hrehash⟩ := not_collide_append hfree
  -- from the last round back to the first one
  obtain ⟨h, hz⟩ := round_eq htail mem_fourth mem_fourth h
  obtain ⟨h, hnu⟩ := round_eq htail mem_third mem_third h
  obtain ⟨h, hr⟩ := round_eq htail mem_second mem_second h
  obtain ⟨h, hrho⟩ := round_eq htail (.head _) (.head _) h
  obtain ⟨h, hunivariates⟩ := sumcheckDigest_inj le_rfl hrounds h
  have h := rehash_inj hrehash (rehash_inj hgates h)
  obtain ⟨h, halpha⟩ := round_eq hhead mem_fourth mem_fourth h
  obtain ⟨h, hbeta⟩ := round_eq hhead mem_third mem_third h
  have h := buffer_eq hhead (.head _) (.head _)
    (frToBytes_injective (buffer_eq hhead mem_second mem_second h))
  obtain ⟨hsame, hinputs, hobject, hwires⟩ := etaBuffer_inj hp hp' hsizes hsizes' h
  have halpha := points_inj hp.products hp'.products rfl halpha
  have hbeta := points_inj hp.lookups hp'.lookups rfl hbeta
  have hz := points_inj hp.quotient hp'.quotient rfl hz
  have hrho := List.ofFn_injective (words_inj (by simp) hrho)
  have hr := List.ofFn_injective (points_inj hp.foldComms hp'.foldComms (by simp) hr)
  have hnu := List.ofFn_injective (words_inj (by simp) hnu)
  simp only [List.cons.injEq, and_true] at halpha hbeta hz hwires
  exact ⟨hsame, hinputs, Proof.ext hobject hwires.1 hwires.2.1 hwires.2.2 hbeta.2.2 hbeta.1
    hbeta.2.1 halpha.1 halpha.2 (funext fun r => hunivariates r r.isLt) hrho hr hnu hz rfl⟩

end Binding

/-- The empty proof: its points are at infinity. -/
def zeroProof : Proof Bytes :=
  let infinity := List.replicate 64 0
  ⟨fun _ => 0, infinity, infinity, infinity, infinity, infinity, infinity, infinity, infinity,
    fun _ _ => 0, fun _ => 0, fun _ => infinity, fun _ => 0, infinity, infinity⟩

theorem wellFormed_zeroProof : zeroProof.WellFormed :=
  ⟨by decide, fun _ => rfl, by decide⟩

/-- The empty proof with another last quotient. -/
def oneQuotient : Proof Bytes := { zeroProof with kzgQuotient := List.replicate 64 1 }

theorem wellFormed_oneQuotient : oneQuotient.WellFormed :=
  ⟨by decide, fun _ => rfl, by decide⟩

theorem transcript_binding_zero :
    Collide (fun bytes => bytes.take 32) (absorbed (fun bytes => bytes.take 32) zeroProof [] 2 16 1)
        (absorbed (fun bytes => bytes.take 32) oneQuotient [] 2 16 1) ∨
      ((2 = 2 ∧ 16 = 16 ∧ 1 = 1) ∧ ([] : Bytes) = [] ∧
        { zeroProof with kzgQuotient := oneQuotient.kzgQuotient } = oneQuotient) :=
  transcript_binding wellFormed_zeroProof wellFormed_oneQuotient (by decide) (by decide) rfl

end Pnlx.UltraHonk
