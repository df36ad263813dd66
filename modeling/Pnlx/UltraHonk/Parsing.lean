import Mathlib.Data.List.OfFn
import Mathlib.Logic.Equiv.Fin.Basic
import Pnlx.Lib.BigEndian
import Pnlx.UltraHonk.Types

/-!
# The bytes of proofs and keys

`contracts/ultrahonk-verifier/src/utils.rs`, and the serialisation of points and scalars in
`transcript.rs`. A point of the host is its 64 bytes.

1. `loadProof`, `loadVkFromBytes`.
2. `encodeProof`, `encodeVk`: the bytes that a prover writes. `loadProof_encodeProof`,
   `wellFormed_of_loadProof`, `loadVkFromBytes_iff`: what is loaded is well formed, and its encoding
   is loaded as what it encodes.
-/

namespace Pnlx.UltraHonk

/-! ## Reading -/

/-- `PROOF_BYTES`. -/
abbrev proofBytesLength : ℕ := 456 * 32

/-- `read_bytes`: the bytes at the boundary, and the boundary after them. -/
def readBytes (n : ℕ) (bytes : Bytes) (idx : ℕ) : Bytes × ℕ := ((bytes.drop idx).take n, idx + n)

def combineLimbs (lo hi : Bytes) : Bytes := hi.drop 17 ++ lo.drop 15

/-- `fr_word32`: the word at an index of a blob, as an element of the field. -/
def frWord32 (blob : Bytes) (wordIdx : ℕ) : Fr :=
  (BigEndian.value ((blob.drop (wordIdx * 32)).take 32) : Fr)

def g1FromProofChunk128 (b : Bytes) : Bytes :=
  combineLimbs (b.take 32) ((b.drop 32).take 32) ++
    combineLimbs ((b.drop 64).take 32) ((b.drop 96).take 32)

def g1FromProofBlobAt (blob : Bytes) (pointIdx : ℕ) : Bytes :=
  g1FromProofChunk128 ((blob.drop (pointIdx * 128)).take 128)

def loadProof (proofBytes : Bytes) : Except String (Proof Bytes) :=
  if proofBytes.length ≠ proofBytesLength then .error "proof bytes length mismatch"
  else
    let ppo := readBytes (pairingPointsSize * 32) proofBytes 0
    let g1Head := readBytes (8 * 128) proofBytes ppo.2
    let su := readBytes (constProofSizeLogN * batchedRelationPartialLength * 32) proofBytes g1Head.2
    let se := readBytes (numberOfEntities * 32) proofBytes su.2
    let gf := readBytes ((constProofSizeLogN - 1) * 128) proofBytes se.2
    let ga := readBytes (constProofSizeLogN * 32) proofBytes gf.2
    let tailG1 := readBytes (2 * 128) proofBytes ga.2
    .ok {
      pairingPointObject := fun i => frWord32 ppo.1 i
      w1 := g1FromProofBlobAt g1Head.1 0
      w2 := g1FromProofBlobAt g1Head.1 1
      w3 := g1FromProofBlobAt g1Head.1 2
      lookupReadCounts := g1FromProofBlobAt g1Head.1 3
      lookupReadTags := g1FromProofBlobAt g1Head.1 4
      w4 := g1FromProofBlobAt g1Head.1 5
      lookupInverses := g1FromProofBlobAt g1Head.1 6
      zPerm := g1FromProofBlobAt g1Head.1 7
      sumcheckUnivariates := fun r c => frWord32 su.1 (r * batchedRelationPartialLength + c)
      sumcheckEvaluations := fun i => frWord32 se.1 i
      geminiFoldComms := fun i => g1FromProofBlobAt gf.1 i
      geminiAEvaluations := fun i => frWord32 ga.1 i
      shplonkQ := g1FromProofChunk128 (tailG1.1.take 128)
      kzgQuotient := g1FromProofChunk128 ((tailG1.1.drop 128).take 128) }

inductive VkLoadError where
  | wrongLength
  | invalidParameters
  deriving DecidableEq

def readU64 (bytes : Bytes) (idx : ℕ) : ℕ × ℕ :=
  (BigEndian.value (readBytes 8 bytes idx).1, (readBytes 8 bytes idx).2)

/-- `load_vk_from_bytes`. -/
def loadVkFromBytes (bytes : Bytes) : Except VkLoadError (VerificationKey Bytes) :=
  if bytes.length ≠ 4 * 8 + 27 * 64 then .error .wrongLength
  else
    let circuitSize := readU64 bytes 0
    let logCircuitSize := readU64 bytes circuitSize.2
    let publicInputsSize := readU64 bytes logCircuitSize.2
    let pubInputsOffset := readU64 bytes publicInputsSize.2
    if logCircuitSize.1 = 0 ∨ constProofSizeLogN < logCircuitSize.1 then .error .invalidParameters
    else if publicInputsSize.1 < pairingPointsSize then .error .invalidParameters
    else if circuitSize.1 ≠ 2 ^ logCircuitSize.1 then .error .invalidParameters
    else if circuitSize.1 < pubInputsOffset.1 then .error .invalidParameters
    else
      let points := readBytes (27 * 64) bytes pubInputsOffset.2
      .ok ⟨circuitSize.1, logCircuitSize.1, publicInputsSize.1, pubInputsOffset.1,
        fun i => (points.1.drop (i * 64)).take 64⟩

/-! ## Writing -/

/-- `Fr::to_bytes`. -/
def frToBytes (x : Fr) : Bytes := BigEndian.bytes 32 x.val

/-- `push_coord_halves`: the low 136 bits, and the others. -/
def pushCoordHalves (coord : Bytes) : Bytes :=
  (List.replicate 15 0 ++ coord.drop 15) ++ (List.replicate 17 0 ++ coord.take 15)

def pushPoint (pt : Bytes) : Bytes := pushCoordHalves (pt.take 32) ++ pushCoordHalves (pt.drop 32)

def words (xs : List Fr) : Bytes := (xs.map frToBytes).flatten

def points (pts : List Bytes) : Bytes := (pts.map pushPoint).flatten

/-- The parts of a proof, in the order in which they are read. -/
def proofParts (p : Proof Bytes) : List Bytes :=
  [words (List.ofFn p.pairingPointObject),
    points [p.w1, p.w2, p.w3, p.lookupReadCounts, p.lookupReadTags, p.w4, p.lookupInverses, p.zPerm],
    words (List.ofFn fun k : Fin (constProofSizeLogN * batchedRelationPartialLength) =>
      p.sumcheckUnivariates k.divNat k.modNat),
    words (List.ofFn p.sumcheckEvaluations), points (List.ofFn p.geminiFoldComms),
    words (List.ofFn p.geminiAEvaluations), points [p.shplonkQ, p.kzgQuotient]]

/-- The bytes that a prover writes. -/
def encodeProof (p : Proof Bytes) : Bytes := (proofParts p).flatten

def vkParts (vk : VerificationKey Bytes) : List Bytes :=
  [BigEndian.bytes 8 vk.circuitSize, BigEndian.bytes 8 vk.logCircuitSize,
    BigEndian.bytes 8 vk.publicInputsSize, BigEndian.bytes 8 vk.pubInputsOffset,
    (List.ofFn vk.points).flatten]

def encodeVk (vk : VerificationKey Bytes) : Bytes := (vkParts vk).flatten

/-- Every point has its 64 bytes. -/
structure Proof.WellFormed (p : Proof Bytes) : Prop where
  head : ∀ pt ∈ [p.w1, p.w2, p.w3, p.lookupReadCounts, p.lookupReadTags, p.w4, p.lookupInverses,
    p.zPerm], pt.length = 64
  folds : ∀ i, (p.geminiFoldComms i).length = 64
  tail : ∀ pt ∈ [p.shplonkQ, p.kzgQuotient], pt.length = 64

structure VerificationKey.WellFormed (vk : VerificationKey Bytes) : Prop where
  logCircuitSize : 1 ≤ vk.logCircuitSize ∧ vk.logCircuitSize ≤ constProofSizeLogN
  circuitSize : vk.circuitSize = 2 ^ vk.logCircuitSize
  publicInputsSize : pairingPointsSize ≤ vk.publicInputsSize ∧ vk.publicInputsSize < 2 ^ 64
  pubInputsOffset : vk.pubInputsOffset ≤ vk.circuitSize
  points : ∀ i, (vk.points i).length = 64

/-! ## Round trips -/

@[simp] theorem length_frToBytes (x : Fr) : (frToBytes x).length = 32 := BigEndian.length_bytes 32 _

theorem value_frToBytes (x : Fr) : ((BigEndian.value (frToBytes x) : ℕ) : Fr) = x := by
  have hsize : bn254ScalarModulus < 256 ^ 32 := by decide
  rw [frToBytes, BigEndian.value_bytes, Nat.mod_eq_of_lt ((ZMod.val_lt x).trans hsize),
    ZMod.natCast_zmod_val]

theorem length_pushPoint {pt : Bytes} (h : pt.length = 64) : (pushPoint pt).length = 128 := by
  simp only [pushPoint, pushCoordHalves, List.length_append, List.length_replicate,
    List.length_drop, List.length_take, h]
  omega

/-- A part of a concatenation, from the lengths of those before it. -/
theorem slice_part {parts : List Bytes} {part : Bytes} {i idx n : ℕ} (hi : parts[i]? = some part)
    (hidx : ((parts.map List.length).take i).sum = idx) (hn : part.length = n) :
    (parts.flatten.drop idx).take n = part := by
  induction parts generalizing i idx with
  | nil => cases hi
  | cons first parts ih =>
    cases i with
    | zero =>
      obtain rfl : first = part := Option.some.inj hi
      obtain rfl : 0 = idx := hidx
      rw [List.drop_zero, List.flatten_cons]
      exact List.take_left' hn
    | succ i =>
      rw [List.map_cons, List.take_succ_cons, List.sum_cons] at hidx
      rw [List.flatten_cons, ← hidx, ← List.drop_drop, List.drop_left' rfl]
      exact ih hi rfl

theorem map_length_of_width {w : ℕ} {parts : List Bytes} (hw : ∀ part ∈ parts, part.length = w) :
    parts.map List.length = List.replicate parts.length w := by
  rw [List.map_congr_left hw, List.map_const']

/-- A part of a concatenation of parts of one width. -/
theorem slice_width {w : ℕ} {parts : List Bytes} (hw : ∀ part ∈ parts, part.length = w) {i : ℕ}
    (hi : i < parts.length) : (parts.flatten.drop (i * w)).take w = parts[i] := by
  refine slice_part (List.getElem?_eq_getElem hi) ?_ (hw _ (List.getElem_mem hi))
  rw [map_length_of_width hw, List.take_replicate, List.sum_replicate, min_eq_left hi.le,
    smul_eq_mul]

theorem length_flatten_of_width {w : ℕ} {parts : List Bytes} (hw : ∀ part ∈ parts, part.length = w) :
    parts.flatten.length = parts.length * w := by
  rw [List.length_flatten, map_length_of_width hw, List.sum_replicate, smul_eq_mul]

theorem length_words (xs : List Fr) : (words xs).length = xs.length * 32 := by
  rw [words, length_flatten_of_width (w := 32), List.length_map]
  intro part hpart
  obtain ⟨x, -, rfl⟩ := List.mem_map.mp hpart
  exact length_frToBytes x

theorem length_points {pts : List Bytes} (h : ∀ pt ∈ pts, pt.length = 64) :
    (points pts).length = pts.length * 128 := by
  rw [points, length_flatten_of_width (w := 128), List.length_map]
  intro part hpart
  obtain ⟨pt, hpt, rfl⟩ := List.mem_map.mp hpart
  exact length_pushPoint (h pt hpt)

theorem frWord32_words {xs : List Fr} {i : ℕ} (hi : i < xs.length) :
    frWord32 (words xs) i = xs[i] := by
  have hw : ∀ part ∈ xs.map frToBytes, part.length = 32 := by
    intro part hpart
    obtain ⟨x, -, rfl⟩ := List.mem_map.mp hpart
    exact length_frToBytes x
  rw [frWord32, words, slice_width hw (by simpa using hi), List.getElem_map, value_frToBytes]

/-- A point is put together from the limbs that it is written as. -/
theorem g1FromProofChunk128_pushPoint {pt : Bytes} (h : pt.length = 64) :
    g1FromProofChunk128 (pushPoint pt) = pt := by
  have hcoord : ∀ coord rest : Bytes, coord.length = 32 →
      combineLimbs ((pushCoordHalves coord ++ rest).take 32)
        (((pushCoordHalves coord ++ rest).drop 32).take 32) = coord := by
    intro coord rest hcoord
    have hlow : (List.replicate 15 (0 : UInt8) ++ coord.drop 15).length = 32 := by simp [hcoord]
    have hhigh : (List.replicate 17 (0 : UInt8) ++ coord.take 15).length = 32 := by simp [hcoord]
    rw [pushCoordHalves, List.append_assoc, List.take_left' hlow, List.drop_left' hlow,
      List.take_left' hhigh, combineLimbs, List.drop_left' (by simp), List.drop_left' (by simp),
      List.take_append_drop]
  have hx : (pt.take 32).length = 32 := by simp [h]
  have hy : (pt.drop 32).length = 32 := by simp [h]
  have hhalf : (pushCoordHalves (pt.take 32)).length = 64 := by
    simp [pushCoordHalves, h]
  have hsecond : (pushPoint pt).drop 64 = pushCoordHalves (pt.drop 32) ++ [] := by
    rw [pushPoint, List.drop_left' hhalf, List.append_nil]
  have hlast : (pushPoint pt).drop 96 = ((pushPoint pt).drop 64).drop 32 := by
    rw [List.drop_drop]
  rw [g1FromProofChunk128, hlast, hsecond, hcoord _ _ hy, pushPoint, hcoord _ _ hx,
    List.take_append_drop]

theorem g1FromProofBlobAt_points {pts : List Bytes} (h : ∀ pt ∈ pts, pt.length = 64) {i : ℕ}
    (hi : i < pts.length) : g1FromProofBlobAt (points pts) i = pts[i] := by
  have hw : ∀ part ∈ pts.map pushPoint, part.length = 128 := by
    intro part hpart
    obtain ⟨pt, hpt, rfl⟩ := List.mem_map.mp hpart
    exact length_pushPoint (h pt hpt)
  rw [g1FromProofBlobAt, points, slice_width hw (by simpa using hi), List.getElem_map,
    g1FromProofChunk128_pushPoint (h _ (List.getElem_mem hi))]

/-- The lengths of the parts of a proof. -/
def partLengths : List ℕ := [512, 1024, 7168, 1280, 3456, 896, 256]

theorem map_length_proofParts {p : Proof Bytes} (h : p.WellFormed) :
    (proofParts p).map List.length = partLengths := by
  have hfolds : ∀ pt ∈ List.ofFn p.geminiFoldComms, pt.length = 64 := by
    intro pt hpt
    obtain ⟨i, rfl⟩ := List.mem_ofFn.mp hpt
    exact h.folds i
  simp only [proofParts, List.map_cons, List.map_nil, length_words, length_points h.head,
    length_points hfolds, length_points h.tail, List.length_ofFn, List.length_cons,
    List.length_nil]
  rfl

theorem readBytes_encodeProof {p : Proof Bytes} (h : p.WellFormed) {i idx n : ℕ} {part : Bytes}
    (hpart : (proofParts p)[i]? = some part) (hidx : (partLengths.take i).sum = idx)
    (hn : partLengths[i]? = some n) : readBytes n (encodeProof p) idx = (part, idx + n) := by
  rw [← map_length_proofParts h, List.getElem?_map, hpart] at hn
  rw [← map_length_proofParts h] at hidx
  exact Prod.ext (slice_part hpart hidx (Option.some.inj hn)) rfl

theorem loadProof_encodeProof {p : Proof Bytes} (h : p.WellFormed) :
    loadProof (encodeProof p) = .ok p := by
  have hlength : (encodeProof p).length = proofBytesLength := by
    rw [encodeProof, List.length_flatten, map_length_proofParts h]
    rfl
  have h0 : readBytes (pairingPointsSize * 32) (encodeProof p) 0 =
      (words (List.ofFn p.pairingPointObject), 512) :=
    readBytes_encodeProof h (i := 0) rfl rfl rfl
  have h1 : readBytes (8 * 128) (encodeProof p) 512 = (points [p.w1, p.w2, p.w3,
      p.lookupReadCounts, p.lookupReadTags, p.w4, p.lookupInverses, p.zPerm], 1536) :=
    readBytes_encodeProof h (i := 1) rfl rfl rfl
  have h2 : readBytes (constProofSizeLogN * batchedRelationPartialLength * 32) (encodeProof p) 1536 =
      (words (List.ofFn fun k : Fin (constProofSizeLogN * batchedRelationPartialLength) =>
        p.sumcheckUnivariates k.divNat k.modNat), 8704) :=
    readBytes_encodeProof h (i := 2) rfl rfl rfl
  have h3 : readBytes (numberOfEntities * 32) (encodeProof p) 8704 =
      (words (List.ofFn p.sumcheckEvaluations), 9984) :=
    readBytes_encodeProof h (i := 3) rfl rfl rfl
  have h4 : readBytes ((constProofSizeLogN - 1) * 128) (encodeProof p) 9984 =
      (points (List.ofFn p.geminiFoldComms), 13440) :=
    readBytes_encodeProof h (i := 4) rfl rfl rfl
  have h5 : readBytes (constProofSizeLogN * 32) (encodeProof p) 13440 =
      (words (List.ofFn p.geminiAEvaluations), 14336) :=
    readBytes_encodeProof h (i := 5) rfl rfl rfl
  have h6 : readBytes (2 * 128) (encodeProof p) 14336 = (points [p.shplonkQ, p.kzgQuotient], 14592) :=
    readBytes_encodeProof h (i := 6) rfl rfl rfl
  have hfolds : ∀ pt ∈ List.ofFn p.geminiFoldComms, pt.length = 64 := by
    intro pt hpt
    obtain ⟨i, rfl⟩ := List.mem_ofFn.mp hpt
    exact h.folds i
  have hword : ∀ {n : ℕ} (f : Fin n → Fr) (i : Fin n), frWord32 (words (List.ofFn f)) i = f i := by
    intro n f i
    rw [frWord32_words (by simp), List.getElem_ofFn]
  have hhead : ∀ i (hi : i < 8), g1FromProofBlobAt (points [p.w1, p.w2, p.w3, p.lookupReadCounts,
      p.lookupReadTags, p.w4, p.lookupInverses, p.zPerm]) i = [p.w1, p.w2, p.w3, p.lookupReadCounts,
      p.lookupReadTags, p.w4, p.lookupInverses, p.zPerm][i] := fun i hi =>
    g1FromProofBlobAt_points h.head hi
  have htail : ∀ i (hi : i < 2), g1FromProofBlobAt (points [p.shplonkQ, p.kzgQuotient]) i =
      [p.shplonkQ, p.kzgQuotient][i] := fun i hi => g1FromProofBlobAt_points h.tail hi
  simp only [loadProof, hlength, not_true_eq_false, if_false, h0, h1, h2, h3, h4, h5, h6, ne_eq]
  refine congrArg Except.ok (Proof.ext ?_ ?_ ?_ ?_ ?_ ?_ ?_ ?_ ?_ ?_ ?_ ?_ ?_ ?_ ?_)
  · exact funext fun i => hword _ i
  · exact hhead 0 (by decide)
  · exact hhead 1 (by decide)
  · exact hhead 2 (by decide)
  · exact hhead 5 (by decide)
  · exact hhead 3 (by decide)
  · exact hhead 4 (by decide)
  · exact hhead 6 (by decide)
  · exact hhead 7 (by decide)
  · funext r c
    have hindex : r.val * batchedRelationPartialLength + c.val =
        (finProdFinEquiv (r, c)).val := by
      rw [finProdFinEquiv_apply_val, mul_comm, add_comm]
    have hpair : (finProdFinEquiv (r, c)).divNat = r ∧ (finProdFinEquiv (r, c)).modNat = c := by
      have h := finProdFinEquiv.symm_apply_apply (r, c)
      exact ⟨congrArg Prod.fst h, congrArg Prod.snd h⟩
    dsimp only
    rw [hindex, hword, hpair.1, hpair.2]
  · exact funext fun i => hword _ i
  · funext i
    dsimp only
    rw [g1FromProofBlobAt_points hfolds (by simp), List.getElem_ofFn]
  · exact funext fun i => hword _ i
  · exact htail 0 (by decide)
  · exact htail 1 (by decide)

theorem length_g1FromProofChunk128 {b : Bytes} (h : b.length = 128) :
    (g1FromProofChunk128 b).length = 64 := by
  simp [g1FromProofChunk128, combineLimbs, h]

/-- What is loaded is well formed. -/
theorem wellFormed_of_loadProof {bytes : Bytes} {p : Proof Bytes} (h : loadProof bytes = .ok p) :
    p.WellFormed := by
  by_cases hlength : bytes.length = proofBytesLength
  swap
  · rw [loadProof, if_pos hlength] at h
    cases h
  have hread : ∀ {n idx : ℕ}, idx + n ≤ proofBytesLength → (readBytes n bytes idx).1.length = n := by
    intro n idx hle
    rw [readBytes, List.length_take, List.length_drop, hlength]
    omega
  have hblob : ∀ {blob : Bytes} {i n : ℕ}, blob.length = n * 128 → i < n →
      (g1FromProofBlobAt blob i).length = 64 := by
    intro blob i n hblob hi
    refine length_g1FromProofChunk128 ?_
    rw [List.length_take, List.length_drop, hblob]
    omega
  rw [loadProof, if_neg (not_not.mpr hlength)] at h
  obtain rfl := Except.ok.inj h
  refine ⟨?_, fun i => hblob (hread (by simp only [readBytes]; decide)) i.isLt, ?_⟩
  · have hhead : (readBytes (8 * 128) bytes
        (readBytes (pairingPointsSize * 32) bytes 0).2).1.length = 8 * 128 :=
      hread (by simp only [readBytes]; decide)
    simp only [List.forall_mem_cons, List.not_mem_nil, false_imp_iff, implies_true, and_true]
    exact ⟨hblob hhead (by decide), hblob hhead (by decide), hblob hhead (by decide),
      hblob hhead (by decide), hblob hhead (by decide), hblob hhead (by decide),
      hblob hhead (by decide), hblob hhead (by decide)⟩
  · simp only [List.forall_mem_cons, List.not_mem_nil, false_imp_iff, implies_true, and_true]
    refine ⟨length_g1FromProofChunk128 ?_, length_g1FromProofChunk128 ?_⟩
    · rw [List.length_take, hread (by simp only [readBytes]; decide)]
      rfl
    · rw [List.length_take, List.length_drop, hread (by simp only [readBytes]; decide)]
      rfl

/-! ## Keys -/

theorem map_length_vkParts {vk : VerificationKey Bytes} (h : ∀ i, (vk.points i).length = 64) :
    (vkParts vk).map List.length = [8, 8, 8, 8, 1728] := by
  have hpoints : ∀ pt ∈ List.ofFn vk.points, pt.length = 64 := by
    intro pt hpt
    obtain ⟨i, rfl⟩ := List.mem_ofFn.mp hpt
    exact h i
  simp only [vkParts, List.map_cons, List.map_nil, BigEndian.length_bytes,
    length_flatten_of_width hpoints, List.length_ofFn]

theorem readBytes_encodeVk {vk : VerificationKey Bytes} (h : ∀ i, (vk.points i).length = 64)
    {i idx n : ℕ} {part : Bytes} (hpart : (vkParts vk)[i]? = some part)
    (hidx : (([8, 8, 8, 8, 1728] : List ℕ).take i).sum = idx)
    (hn : ([8, 8, 8, 8, 1728] : List ℕ)[i]? = some n) :
    readBytes n (encodeVk vk) idx = (part, idx + n) := by
  rw [← map_length_vkParts h, List.getElem?_map, hpart] at hn
  rw [← map_length_vkParts h] at hidx
  exact Prod.ext (slice_part hpart hidx (Option.some.inj hn)) rfl

theorem value_bytes_of_lt {n : ℕ} (h : n < 2 ^ 64) : BigEndian.value (BigEndian.bytes 8 n) = n := by
  rw [BigEndian.value_bytes, Nat.mod_eq_of_lt (h.trans_le (by decide))]

theorem readU64_encodeVk {vk : VerificationKey Bytes} (h : ∀ i, (vk.points i).length = 64)
    {i idx n : ℕ} (hpart : (vkParts vk)[i]? = some (BigEndian.bytes 8 n))
    (hidx : (([8, 8, 8, 8, 1728] : List ℕ).take i).sum = idx)
    (hi : ([8, 8, 8, 8, 1728] : List ℕ)[i]? = some 8) (hn : n < 2 ^ 64) :
    readU64 (encodeVk vk) idx = (n, idx + 8) := by
  rw [readU64, readBytes_encodeVk h hpart hidx hi, value_bytes_of_lt hn]

theorem loadVkFromBytes_encodeVk {vk : VerificationKey Bytes} (h : vk.WellFormed) :
    loadVkFromBytes (encodeVk vk) = .ok vk := by
  have hlength : (encodeVk vk).length = 4 * 8 + 27 * 64 := by
    rw [encodeVk, List.length_flatten, map_length_vkParts h.points]
    rfl
  have hsize : vk.circuitSize < 2 ^ 64 := by
    rw [h.circuitSize]
    exact (Nat.pow_le_pow_right two_pos h.logCircuitSize.2).trans_lt (by decide)
  have h0 : readU64 (encodeVk vk) 0 = (vk.circuitSize, 8) :=
    readU64_encodeVk h.points (i := 0) rfl rfl rfl hsize
  have h1 : readU64 (encodeVk vk) 8 = (vk.logCircuitSize, 16) :=
    readU64_encodeVk h.points (i := 1) rfl rfl rfl (h.logCircuitSize.2.trans_lt (by decide))
  have h2 : readU64 (encodeVk vk) 16 = (vk.publicInputsSize, 24) :=
    readU64_encodeVk h.points (i := 2) rfl rfl rfl h.publicInputsSize.2
  have h3 : readU64 (encodeVk vk) 24 = (vk.pubInputsOffset, 32) :=
    readU64_encodeVk h.points (i := 3) rfl rfl rfl (h.pubInputsOffset.trans_lt hsize)
  have h4 : readBytes (27 * 64) (encodeVk vk) 32 = ((List.ofFn vk.points).flatten, 1760) :=
    readBytes_encodeVk h.points (i := 4) rfl rfl rfl
  have hlog : ¬ (vk.logCircuitSize = 0 ∨ constProofSizeLogN < vk.logCircuitSize) := by
    have := h.logCircuitSize
    omega
  simp only [loadVkFromBytes, hlength, ne_eq, not_true_eq_false, if_false, h0, h1, h2, h3, h4, hlog,
    Nat.not_lt.mpr h.publicInputsSize.1, not_not.mpr h.circuitSize,
    Nat.not_lt.mpr h.pubInputsOffset]
  refine congrArg Except.ok (VerificationKey.ext rfl rfl rfl rfl (funext fun i => ?_))
  have hpoints : ∀ pt ∈ List.ofFn vk.points, pt.length = 64 := by
    intro pt hpt
    obtain ⟨i, rfl⟩ := List.mem_ofFn.mp hpt
    exact h.points i
  exact (slice_width hpoints (by simp)).trans (List.getElem_ofFn _)

/-- The parts of one width that a byte string is cut into. -/
theorem flatten_chunks (w n : ℕ) {l : Bytes} (h : l.length = n * w) :
    (List.ofFn fun i : Fin n => (l.drop (i * w)).take w).flatten = l := by
  induction n generalizing l with
  | zero =>
    rw [zero_mul, List.length_eq_zero_iff] at h
    rw [h]
    rfl
  | succ n ih =>
    have hrest : (l.drop w).length = n * w := by
      rw [List.length_drop, h, Nat.succ_mul, Nat.add_sub_cancel]
    have htail := ih hrest
    simp only [List.drop_drop] at htail
    rw [List.ofFn_succ, List.flatten_cons, Fin.val_zero, zero_mul, List.drop_zero]
    simp only [Fin.val_succ, Nat.succ_mul, Nat.add_comm _ w]
    rw [htail, List.take_append_drop]

/-- A key is loaded from its encoding and from no other bytes. -/
theorem loadVkFromBytes_iff {bytes : Bytes} {vk : VerificationKey Bytes} :
    loadVkFromBytes bytes = .ok vk ↔ vk.WellFormed ∧ bytes = encodeVk vk := by
  refine ⟨fun h => ?_, fun h => h.2 ▸ loadVkFromBytes_encodeVk h.1⟩
  unfold loadVkFromBytes at h
  dsimp only at h
  split_ifs at h with hlength hlog hpublic hcircuit hoffset
  have hbytes : bytes.length = 4 * 8 + 27 * 64 := not_not.mp hlength
  have hread : ∀ {n idx : ℕ}, idx + n ≤ 4 * 8 + 27 * 64 → (readBytes n bytes idx).1.length = n := by
    intro n idx hle
    rw [readBytes, List.length_take, List.length_drop, hbytes]
    omega
  have hword : ∀ {idx : ℕ}, idx + 8 ≤ 4 * 8 + 27 * 64 →
      BigEndian.bytes 8 (readU64 bytes idx).1 = (readBytes 8 bytes idx).1 := by
    intro idx hle
    have h := BigEndian.bytes_value (readBytes 8 bytes idx).1
    rwa [hread hle] at h
  obtain rfl := Except.ok.inj h
  refine ⟨⟨⟨Nat.pos_of_ne_zero fun h => hlog (Or.inl h), Nat.not_lt.mp fun h => hlog (Or.inr h)⟩,
    not_not.mp hcircuit, ⟨Nat.not_lt.mp hpublic, ?_⟩, Nat.not_lt.mp hoffset, fun i => ?_⟩, ?_⟩
  · have hvalue := congrArg BigEndian.value (@hword 16 (by decide))
    rw [BigEndian.value_bytes] at hvalue
    have hlt := Nat.mod_lt (readU64 bytes 16).1 (show 0 < 256 ^ 8 by decide)
    rw [hvalue] at hlt
    exact hlt.trans_eq (by norm_num)
  · dsimp only
    rw [List.length_take, List.length_drop, hread (by simp only [readU64, readBytes]; decide)]
    omega
  · have hcut : ∀ a n, (bytes.drop a).take n ++ bytes.drop (a + n) = bytes.drop a := by
      intro a n
      rw [← List.drop_drop, List.take_append_drop]
    have hlast : (bytes.drop (0 + 8 + 8 + 8 + 8)).take (27 * 64) = bytes.drop (0 + 8 + 8 + 8 + 8) :=
      List.take_of_length_le (by rw [List.length_drop, hbytes])
    simp only [encodeVk, vkParts, List.flatten_cons, List.flatten_nil, List.append_nil]
    rw [hword (by decide), hword (by simp only [readU64, readBytes]; decide),
      hword (by simp only [readU64, readBytes]; decide),
      hword (by simp only [readU64, readBytes]; decide),
      flatten_chunks 64 27 (hread (by simp only [readU64, readBytes]; decide))]
    simp only [readU64, readBytes]
    rw [hlast, hcut, hcut, hcut, hcut, List.drop_zero]

end Pnlx.UltraHonk
