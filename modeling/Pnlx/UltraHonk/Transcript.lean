import Pnlx.UltraHonk.Parsing

/-!
# The challenges of a proof

`contracts/ultrahonk-verifier/src/transcript.rs`, over the hash function of the host. Every round
hashes the digest of the round before it with what the prover has sent since.

1. `generateEtaChallenge` to `generateShplonkZChallenge`, `generateTranscript`.
2. `absorbed`: the buffers that are hashed on the way to the last digest.
-/

namespace Pnlx.UltraHonk

variable (keccak256 : Bytes → Bytes)

/-- `split_challenge`: the low and the high half of a digest. -/
def splitChallenge (challenge : Fr) : Fr × Fr :=
  ((BigEndian.value ((frToBytes challenge).drop 16) : Fr),
    (BigEndian.value ((frToBytes challenge).take 16) : Fr))

/-- `hash_to_fr`. -/
def hashToFr (bytes : Bytes) : Fr := (BigEndian.value (keccak256 bytes) : Fr)

/-- `u64_to_be32`. -/
def u64ToBe32 (x : ℕ) : Bytes := List.replicate 24 0 ++ BigEndian.bytes 8 x

variable (proof : Proof Bytes)

/-- The first buffer: the sizes, the public inputs and the first three wires. -/
def etaBuffer (publicInputs : Bytes) (circuitSize publicInputsSize pubInputsOffset : ℕ) : Bytes :=
  u64ToBe32 circuitSize ++ u64ToBe32 publicInputsSize ++ u64ToBe32 pubInputsOffset ++
    publicInputs ++ words (List.ofFn proof.pairingPointObject) ++
      points [proof.w1, proof.w2, proof.w3]

/-- The challenges of the round and the digest to go on with. -/
def generateEtaChallenge (publicInputs : Bytes)
    (circuitSize publicInputsSize pubInputsOffset : ℕ) : (Fr × Fr × Fr) × Fr :=
  let first := hashToFr keccak256
    (etaBuffer proof publicInputs circuitSize publicInputsSize pubInputsOffset)
  let second := hashToFr keccak256 (frToBytes first)
  (((splitChallenge first).1, (splitChallenge first).2, (splitChallenge second).1), second)

def generateBetaAndGammaChallenges (previousChallenge : Fr) : (Fr × Fr) × Fr :=
  let next := hashToFr keccak256 (frToBytes previousChallenge ++
    points [proof.lookupReadCounts, proof.lookupReadTags, proof.w4])
  (splitChallenge next, next)

/-- The digest after `i` more hashes of nothing but the digest before. -/
def rehash (digest : Fr) : ℕ → Fr
  | 0 => digest
  | i + 1 => hashToFr keccak256 (frToBytes (rehash digest i))

/-- Each digest gives two challenges, but the last one gives one. -/
def generateAlphaChallenges (previousChallenge : Fr) : (Fin numberOfAlphas → Fr) × Fr :=
  let first := hashToFr keccak256 (frToBytes previousChallenge ++
    points [proof.lookupInverses, proof.zPerm])
  (fun k => if k.val % 2 = 0 then (splitChallenge (rehash keccak256 first (k / 2))).1
    else (splitChallenge (rehash keccak256 first (k / 2))).2,
    rehash keccak256 first (numberOfAlphas / 2))

def generateRelationParametersChallenges (publicInputs : Bytes)
    (circuitSize publicInputsSize pubInputsOffset : ℕ) : RelationParameters Fr × Fr :=
  let eta := generateEtaChallenge keccak256 proof publicInputs circuitSize publicInputsSize
    pubInputsOffset
  let betaGamma := generateBetaAndGammaChallenges keccak256 proof eta.2
  (⟨eta.1.1, eta.1.2.1, eta.1.2.2, betaGamma.1.1, betaGamma.1.2, 0⟩, betaGamma.2)

def generateGateChallenges (previousChallenge : Fr) : (Fin constProofSizeLogN → Fr) × Fr :=
  (fun r => (splitChallenge (rehash keccak256 previousChallenge (r + 1))).1,
    rehash keccak256 previousChallenge constProofSizeLogN)

/-- The coefficients of a round. -/
def univariate (r : ℕ) : List Fr :=
  if h : r < constProofSizeLogN then List.ofFn (proof.sumcheckUnivariates ⟨r, h⟩) else []

/-- The digest after the first `r` rounds. -/
def sumcheckDigest (previousChallenge : Fr) : ℕ → Fr
  | 0 => previousChallenge
  | r + 1 => hashToFr keccak256
      (frToBytes (sumcheckDigest previousChallenge r) ++ words (univariate proof r))

def generateSumcheckChallenges (previousChallenge : Fr) : (Fin constProofSizeLogN → Fr) × Fr :=
  (fun r => (splitChallenge (sumcheckDigest keccak256 proof previousChallenge (r + 1))).1,
    sumcheckDigest keccak256 proof previousChallenge constProofSizeLogN)

/-- One challenge from the digest and what was sent after it. -/
def generateChallenge (sent : Bytes) (previousChallenge : Fr) : Fr × Fr :=
  let next := hashToFr keccak256 (frToBytes previousChallenge ++ sent)
  ((splitChallenge next).1, next)

def generateRhoChallenge (previousChallenge : Fr) : Fr × Fr :=
  generateChallenge keccak256 (words (List.ofFn proof.sumcheckEvaluations)) previousChallenge

def generateGeminiRChallenge (previousChallenge : Fr) : Fr × Fr :=
  generateChallenge keccak256 (points (List.ofFn proof.geminiFoldComms)) previousChallenge

def generateShplonkNuChallenge (previousChallenge : Fr) : Fr × Fr :=
  generateChallenge keccak256 (words (List.ofFn proof.geminiAEvaluations)) previousChallenge

def generateShplonkZChallenge (previousChallenge : Fr) : Fr × Fr :=
  generateChallenge keccak256 (points [proof.shplonkQ]) previousChallenge

/-- The transcript, and the digest of all that was sent. The checks of `validate_proof` are those of
the types. -/
def transcriptAndDigest (publicInputs : Bytes)
    (circuitSize publicInputsSize pubInputsOffset : ℕ) : Transcript × Fr :=
  let rp := generateRelationParametersChallenges keccak256 proof publicInputs circuitSize
    publicInputsSize pubInputsOffset
  let alphas := generateAlphaChallenges keccak256 proof rp.2
  let gates := generateGateChallenges keccak256 alphas.2
  let us := generateSumcheckChallenges keccak256 proof gates.2
  let rho := generateRhoChallenge keccak256 proof us.2
  let geminiR := generateGeminiRChallenge keccak256 proof rho.2
  let nu := generateShplonkNuChallenge keccak256 proof geminiR.2
  let z := generateShplonkZChallenge keccak256 proof nu.2
  (⟨rp.1, alphas.1, gates.1, us.1, rho.1, geminiR.1, nu.1, z.1⟩, z.2)

/-! ## The buffers -/

/-- The buffers of `n` hashes of nothing but the digest before. -/
def rehashed (digest : Fr) (n : ℕ) : List Bytes :=
  (List.range n).map fun i => frToBytes (rehash keccak256 digest i)

/-- The buffers of the rounds of the sumcheck. -/
def roundBuffers (previousChallenge : Fr) (n : ℕ) : List Bytes :=
  (List.range n).map fun r =>
    frToBytes (sumcheckDigest keccak256 proof previousChallenge r) ++ words (univariate proof r)

/-- All that `transcriptAndDigest` hashes, in its order. -/
def absorbed (publicInputs : Bytes) (circuitSize publicInputsSize pubInputsOffset : ℕ) :
    List Bytes :=
  let first := etaBuffer proof publicInputs circuitSize publicInputsSize pubInputsOffset
  let eta := generateEtaChallenge keccak256 proof publicInputs circuitSize publicInputsSize
    pubInputsOffset
  let betaGamma := generateBetaAndGammaChallenges keccak256 proof eta.2
  let inverses := frToBytes betaGamma.2 ++ points [proof.lookupInverses, proof.zPerm]
  let alphas := generateAlphaChallenges keccak256 proof betaGamma.2
  let gates := generateGateChallenges keccak256 alphas.2
  let us := generateSumcheckChallenges keccak256 proof gates.2
  let rho := generateRhoChallenge keccak256 proof us.2
  let geminiR := generateGeminiRChallenge keccak256 proof rho.2
  let nu := generateShplonkNuChallenge keccak256 proof geminiR.2
  [first, frToBytes (hashToFr keccak256 first),
    frToBytes eta.2 ++ points [proof.lookupReadCounts, proof.lookupReadTags, proof.w4],
    inverses] ++
  rehashed keccak256 (hashToFr keccak256 inverses) (numberOfAlphas / 2) ++
  rehashed keccak256 alphas.2 constProofSizeLogN ++
  roundBuffers keccak256 proof gates.2 constProofSizeLogN ++
  [frToBytes us.2 ++ words (List.ofFn proof.sumcheckEvaluations),
    frToBytes rho.2 ++ points (List.ofFn proof.geminiFoldComms),
    frToBytes geminiR.2 ++ words (List.ofFn proof.geminiAEvaluations),
    frToBytes nu.2 ++ points [proof.shplonkQ]]

/-! ## The transcript -/

def generateTranscript (publicInputs : Bytes)
    (circuitSize publicInputsSize pubInputsOffset : ℕ) : Except String Transcript :=
  .ok (transcriptAndDigest keccak256 proof publicInputs circuitSize publicInputsSize
    pubInputsOffset).1

end Pnlx.UltraHonk
