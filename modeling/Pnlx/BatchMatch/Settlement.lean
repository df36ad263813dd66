import Pnlx.BatchMatch.Checked
import Pnlx.Journal

/-!
# The settlement of a batch

`proveRequest` is the guest program: it matches the orders of a request, compares the settlement
with the one the request expects, and makes its public inputs the journal of the proof.

1. `matchingPayloadCommitment`, `residualPayloadCommitment`: what binds the data of an order.
2. `batchPublicInputBytes_eq_some`: the byte string of a settlement is the byte string of a journal.
3. `proveRequest_eq_some`: what a proven request has computed.
-/

namespace Pnlx.BatchMatch

variable {H : Host}

def feeEpoch : U128 := 1

def maxPublicItems : ℕ := 8

/-! ## Data -/

structure SettlementDraft where
  aggregateVolume : Text
  batchId : Text
  fillCount : ℕ
  feeConfigHash : Text
  grossTakerFee : Text
  makerRebate : Text
  insuranceFee : Text
  treasuryFee : Text
  makerIntents : List Text
  takerIntents : List Text
  marginChangeCommitments : List Text
  matchingPayloadCommitments : List Text
  residualCommitments : List Text
  residualMargins : List Text
  residualPayloadCommitments : List Text
  marketId : Text
  matchTranscriptDigest : Text
  newCommitments : List Text
  openInterestDelta : Text
  orderUpdates : List OrderUpdate
  residualSize : Text
  settlementDigest : Text
  spentNullifiers : List Text
  deriving DecidableEq

structure ProofRequest where
  batchId : Text
  intents : List RecoveredIntent
  market : MarketInput
  expected : SettlementDraft
  deriving DecidableEq

structure ProvedSettlement where
  draft : SettlementDraft
  journal : Bytes
  journalDigest : Text
  deriving DecidableEq

/-! ## Commitments -/

def matchingPayloadCommitment (H : Host) (intent : RecoveredIntent) : Option Text := do
  let signedSize ← parseI128 intent.signedSize
  let limitPrice ← parseU128 intent.limitPrice
  let margin ← parseU128 intent.margin
  some (hashFieldsHex H "matching-payload"
    [.text intent.intentCommitment, .text intent.marketId, .text intent.ownerCommitment,
      .i128 signedSize, .num limitPrice, .num margin, .text intent.noteNullifier,
      .text intent.noteChangeCommitment,
      .text (intent.sourceIntentCommitment.getD "0x0".toList)])

def residualPayloadCommitment (H : Host) (residual : Residual) : Text :=
  hashFieldsHex H "matching-payload"
    [.text residual.intentCommitment, .text residual.marketId, .text residual.ownerCommitment,
      .i128 residual.signedSize, .num residual.limitPrice, .num residual.margin,
      .text residual.noteNullifier, .text "0x0".toList, .text residual.sourceIntentCommitment]

def orderUpdateNorm (update : OrderUpdate) : Norm :=
  .object ([("intentCommitment", .text update.intentCommitment), ("status", .text update.status)] ++
    match update.residualCommitment with
    | some residual => [("residualCommitment", .text residual)]
    | none => [])

def settlementDigest (H : Host) (batchId marketId : Text) (output : MatchOutput) : Text :=
  hashFieldsHex H "risc0-settlement"
    [.text batchId, .text marketId, .text output.matchTranscriptDigest,
      .array (output.orderUpdates.map orderUpdateNorm),
      .array (output.fills.map fun fill => .text fill.positionCommitment),
      .array (output.marginChangeCommitments.map .text),
      .array (output.spentNullifiers.map .text), .num output.aggregateVolume,
      .num output.openInterestDelta, .num output.residualSize]

def feeConfigHash (H : Host) : Text :=
  hexText (H.sha256 (u128Be feeEpoch ++ u128Be takerFeePpm ++ u128Be makerRebatePpm ++
    u128Be insuranceFeePpm)).toNat

/-! ## The byte string -/

/-- `append_field`. -/
def fieldInput (value : Text) : Option Bytes := (toFieldBiguint value).map fieldBe

/-- `append_u128` on a printed amount. -/
def amountInput (value : Text) : Option Bytes := (parseU128 value).map u128Be

/-- `append_public_vec`. -/
def publicVec (values : List Text) : Option Bytes := do
  assert (values.length ≤ maxPublicItems)
  let items ← values.mapM fieldInput
  let free ← fieldInput "0x0".toList
  some (u128Be (BitVec.ofNat 128 values.length) ++ items.flatten ++
    (List.replicate (maxPublicItems - values.length) free).flatten)

/-- `append_public_amounts`. -/
def publicAmounts (values : List Text) : Option Bytes := do
  assert (values.length ≤ maxPublicItems)
  let items ← values.mapM amountInput
  some (u128Be (BitVec.ofNat 128 values.length) ++ items.flatten ++
    (List.replicate (maxPublicItems - values.length) (u128Be 0)).flatten)

def batchPublicInputBytes (H : Host) (draft : SettlementDraft) : Option Bytes := do
  let batchId ← fieldInput (hashFieldsHex H "batch-id" [.text draft.batchId])
  let marketId ← fieldInput (hashFieldsHex H "market-id" [.text draft.marketId])
  let settlementDigest ← fieldInput draft.settlementDigest
  let filledIntents ← publicVec (draft.orderUpdates.map (·.intentCommitment))
  let newCommitments ← publicVec draft.newCommitments
  let marginChangeCommitments ← publicVec draft.marginChangeCommitments
  let spentNullifiers ← publicVec draft.spentNullifiers
  let matchingPayloadCommitments ← publicVec draft.matchingPayloadCommitments
  let residualCommitments ← publicVec draft.residualCommitments
  let residualMargins ← publicAmounts draft.residualMargins
  let residualPayloadCommitments ← publicVec draft.residualPayloadCommitments
  let residualSize ← amountInput draft.residualSize
  let aggregateVolume ← amountInput draft.aggregateVolume
  let feeConfigHash ← fieldInput draft.feeConfigHash
  let grossTakerFee ← amountInput draft.grossTakerFee
  let makerRebate ← amountInput draft.makerRebate
  let insuranceFee ← amountInput draft.insuranceFee
  let treasuryFee ← amountInput draft.treasuryFee
  let makerIntents ← publicVec draft.makerIntents
  let takerIntents ← publicVec draft.takerIntents
  some (batchId ++ marketId ++ settlementDigest ++ filledIntents ++ newCommitments ++
    marginChangeCommitments ++ spentNullifiers ++ matchingPayloadCommitments ++
    residualCommitments ++ residualMargins ++ residualPayloadCommitments ++ residualSize ++
    aggregateVolume ++ feeConfigHash ++ grossTakerFee ++ makerRebate ++ insuranceFee ++
    treasuryFee ++ makerIntents ++ takerIntents)

/-! ## The guest program -/

/-- The residual that the match has made of an order. -/
def residualOf (output : MatchOutput) (update : OrderUpdate) : Option Residual :=
  output.residuals.find? fun residual => residual.sourceIntentCommitment = update.intentCommitment

/-- The settlement of a match of the request. -/
def createDraft (H : Host) (request : ProofRequest) (matched : MatchOutput) :
    Option SettlementDraft := do
  let matchingPayloadCommitments ← matched.orderUpdates.mapM fun update => do
    let intent ← request.intents.find? fun intent => intent.intentCommitment = update.intentCommitment
    matchingPayloadCommitment H intent
  some
    { aggregateVolume := decimal matched.aggregateVolume.toNat
      batchId := request.batchId
      fillCount := matched.fills.length % 2 ^ 32
      feeConfigHash := feeConfigHash H
      grossTakerFee := decimal matched.fees.grossTakerFee.toNat
      makerRebate := decimal matched.fees.makerRebate.toNat
      insuranceFee := decimal matched.fees.insurance.toNat
      treasuryFee := decimal matched.fees.treasury.toNat
      makerIntents := matched.executions.map (·.makerIntentCommitment)
      takerIntents := matched.executions.map (·.takerIntentCommitment)
      marginChangeCommitments := matched.marginChangeCommitments
      matchingPayloadCommitments
      residualCommitments :=
        matched.orderUpdates.map (·.residualCommitment.getD "0x0".toList)
      residualMargins := matched.orderUpdates.map fun update =>
        ((residualOf matched update).map fun residual => decimal residual.margin.toNat).getD
          "0".toList
      residualPayloadCommitments := matched.orderUpdates.map fun update =>
        ((residualOf matched update).map (residualPayloadCommitment H)).getD "0x0".toList
      marketId := request.market.marketId
      matchTranscriptDigest := matched.matchTranscriptDigest
      newCommitments := matched.fills.map (·.positionCommitment)
      openInterestDelta := decimal matched.openInterestDelta.toNat
      orderUpdates := matched.orderUpdates
      residualSize := decimal matched.residualSize.toNat
      settlementDigest := settlementDigest H request.batchId request.market.marketId matched
      spentNullifiers := matched.spentNullifiers }

def proveRequest (H : Host) (request : ProofRequest) : Option ProvedSettlement := do
  let matched ← matchBatch H .release request.market request.intents
  let draft ← createDraft H request matched
  -- `assert_settlement` compares every field
  assert (draft = request.expected)
  let journal ← batchPublicInputBytes H draft
  some ⟨draft, journal, hexText (H.sha256 journal).toNat⟩

/-! ## The journal of a settlement -/

/-- The journal that a settlement stands for. -/
structure JournalOf (H : Host) (draft : SettlementDraft) (j : Journal) : Prop where
  batchId : j.batchId = toField (hashFields H "batch-id" [String.ofList draft.batchId])
  marketId : j.marketId = toField (hashFields H "market-id" [String.ofList draft.marketId])
  settlementDigest : toFieldBiguint draft.settlementDigest = some j.settlementDigest
  filledIntents : (draft.orderUpdates.map (·.intentCommitment)).mapM toFieldBiguint =
    some j.filledIntents
  newCommitments : draft.newCommitments.mapM toFieldBiguint = some j.newCommitments
  marginChangeCommitments : draft.marginChangeCommitments.mapM toFieldBiguint =
    some j.marginChangeCommitments
  spentNullifiers : draft.spentNullifiers.mapM toFieldBiguint = some j.spentNullifiers
  matchingPayloadCommitments : draft.matchingPayloadCommitments.mapM toFieldBiguint =
    some j.matchingPayloadCommitments
  residualCommitments : draft.residualCommitments.mapM toFieldBiguint = some j.residualCommitments
  residualMargins : draft.residualMargins.mapM parseU128 = some j.residualMargins
  residualPayloadCommitments : draft.residualPayloadCommitments.mapM toFieldBiguint =
    some j.residualPayloadCommitments
  residualSize : parseU128 draft.residualSize = some j.residualSize
  aggregateVolume : parseU128 draft.aggregateVolume = some j.aggregateVolume
  feeConfigHash : toFieldBiguint draft.feeConfigHash = some j.feeConfigHash
  grossTakerFee : parseU128 draft.grossTakerFee = some j.grossTakerFee
  makerRebate : parseU128 draft.makerRebate = some j.makerRebate
  insuranceFee : parseU128 draft.insuranceFee = some j.insuranceFee
  treasuryFee : parseU128 draft.treasuryFee = some j.treasuryFee
  makerIntents : draft.makerIntents.mapM toFieldBiguint = some j.makerIntents
  takerIntents : draft.takerIntents.mapM toFieldBiguint = some j.takerIntents

open Journal

theorem flatten_slots {α : Type} (f : α → Bytes) (values : List α) (fill : α) :
    (values.map f).flatten ++ (List.replicate (maxPublicItems - values.length) (f fill)).flatten =
      (values ++ List.replicate (maxPublicItems - values.length) fill).flatMap f := by
  rw [List.flatMap_append, ← List.flatMap_def, List.flatMap_def, List.flatMap_def,
    List.map_replicate]

theorem encodePublicInputs_frame (values : List Fr) :
    encodePublicInputs (slots values) = u128Be (BitVec.ofNat 128 values.length) ++
      ((values.map fieldBe).flatten ++
        (List.replicate (maxPublicItems - values.length) (fieldBe 0)).flatten) := by
  rw [flatten_slots]
  rfl

theorem publicVec_eq_some {values : List Text} {bytes : Bytes} : publicVec values = some bytes ↔
    ∃ xs, values.mapM toFieldBiguint = some xs ∧ xs.length ≤ maxItems ∧
      bytes = encodePublicInputs (slots xs) := by
  have hfree : fieldInput "0x0".toList = some (fieldBe 0) := by decide +kernel
  unfold publicVec
  simp only [Option.bind_eq_bind, Option.bind_eq_some_iff, assert_eq_some, hfree, Option.some.injEq,
    exists_eq_left']
  unfold fieldInput
  simp only [mapM_option_map, Option.map_eq_some_iff]
  constructor
  · rintro ⟨-, hlen, _, ⟨xs, hxs, rfl⟩, rfl⟩
    have hlength := length_of_mapM hxs
    refine ⟨xs, hxs, by rw [hlength]; exact hlen, ?_⟩
    rw [encodePublicInputs_frame, hlength, List.append_assoc]
  · rintro ⟨xs, hxs, hlen, hbytes⟩
    have hlength := length_of_mapM hxs
    refine ⟨(), by rw [← hlength]; exact hlen, _, ⟨xs, hxs, rfl⟩, ?_⟩
    rw [hbytes, encodePublicInputs_frame, hlength, List.append_assoc]

theorem publicAmounts_eq_some {values : List Text} {bytes : Bytes} :
    publicAmounts values = some bytes ↔
      ∃ xs, values.mapM parseU128 = some xs ∧ xs.length ≤ maxItems ∧
        bytes = encodePublicInputs (slots (xs.map asField)) := by
  have hframe (xs : List U128) : encodePublicInputs (slots (xs.map asField)) =
      u128Be (BitVec.ofNat 128 xs.length) ++ ((xs.map u128Be).flatten ++
        (List.replicate (maxPublicItems - xs.length) (u128Be 0)).flatten) := by
    rw [encodePublicInputs_frame, List.length_map, List.map_map]
    rfl
  unfold publicAmounts
  simp only [Option.bind_eq_bind, Option.bind_eq_some_iff, assert_eq_some, Option.some.injEq]
  unfold amountInput
  simp only [mapM_option_map, Option.map_eq_some_iff]
  constructor
  · rintro ⟨-, hlen, _, ⟨xs, hxs, rfl⟩, rfl⟩
    have hlength := length_of_mapM hxs
    refine ⟨xs, hxs, by rw [hlength]; exact hlen, ?_⟩
    rw [hframe, hlength, List.append_assoc]
  · rintro ⟨xs, hxs, hlen, hbytes⟩
    have hlength := length_of_mapM hxs
    refine ⟨(), by rw [← hlength]; exact hlen, _, ⟨xs, hxs, rfl⟩, ?_⟩
    rw [hbytes, hframe, hlength, List.append_assoc]

section Bind

variable {α : Type} {texts : List Text} {text : Text} {f : Bytes → Option α} {v : α}

theorem fieldInput_bind : (fieldInput text).bind f = some v ↔
    ∃ x, toFieldBiguint text = some x ∧ f (fieldBe x) = some v := by
  unfold fieldInput
  cases toFieldBiguint text with
  | none => simp
  | some x => simp

theorem amountInput_bind : (amountInput text).bind f = some v ↔
    ∃ x, parseU128 text = some x ∧ f (u128Be x) = some v := by
  unfold amountInput
  cases parseU128 text with
  | none => simp
  | some x => simp

theorem publicVec_bind : (publicVec texts).bind f = some v ↔
    ∃ xs, texts.mapM toFieldBiguint = some xs ∧ xs.length ≤ maxItems ∧
      f (encodePublicInputs (slots xs)) = some v := by
  rw [Option.bind_eq_some_iff]
  constructor
  · rintro ⟨bytes, hbytes, h⟩
    obtain ⟨xs, hxs, hlen, heq⟩ := publicVec_eq_some.mp hbytes
    exact ⟨xs, hxs, hlen, heq ▸ h⟩
  · rintro ⟨xs, hxs, hlen, h⟩
    exact ⟨_, publicVec_eq_some.mpr ⟨xs, hxs, hlen, rfl⟩, h⟩

theorem publicAmounts_bind : (publicAmounts texts).bind f = some v ↔
    ∃ xs, texts.mapM parseU128 = some xs ∧ xs.length ≤ maxItems ∧
      f (encodePublicInputs (slots (xs.map asField))) = some v := by
  rw [Option.bind_eq_some_iff]
  constructor
  · rintro ⟨bytes, hbytes, h⟩
    obtain ⟨xs, hxs, hlen, heq⟩ := publicAmounts_eq_some.mp hbytes
    exact ⟨xs, hxs, hlen, heq ▸ h⟩
  · rintro ⟨xs, hxs, hlen, h⟩
    exact ⟨_, publicAmounts_eq_some.mpr ⟨xs, hxs, hlen, rfl⟩, h⟩

end Bind

attribute [local irreducible] encodePublicInputs fieldBe u128Be

/-- The byte string of a settlement is the byte string of its journal. -/
theorem batchPublicInputBytes_eq_some {draft : SettlementDraft} {bytes : Bytes} :
    batchPublicInputBytes H draft = some bytes ↔
      ∃ j, JournalOf H draft j ∧ j.Fits ∧ bytes = j.bytes := by
  have hkey (domain : String) (text : Text) : toFieldBiguint (hashFieldsHex H domain [.text text]) =
      some (toField (hashFields H domain [String.ofList text])) := toFieldBiguint_hashFieldsHex _ _
  constructor
  · intro h
    obtain ⟨batch, hbatch, h⟩ := fieldInput_bind.mp h
    obtain ⟨market, hmarket, h⟩ := fieldInput_bind.mp h
    obtain ⟨digest, hdigest, h⟩ := fieldInput_bind.mp h
    obtain ⟨filled, hfilled, hfilled', h⟩ := publicVec_bind.mp h
    obtain ⟨new, hnew, hnew', h⟩ := publicVec_bind.mp h
    obtain ⟨change, hchange, hchange', h⟩ := publicVec_bind.mp h
    obtain ⟨spent, hspent, hspent', h⟩ := publicVec_bind.mp h
    obtain ⟨payload, hpayload, hpayload', h⟩ := publicVec_bind.mp h
    obtain ⟨residual, hresidual, hresidual', h⟩ := publicVec_bind.mp h
    obtain ⟨margin, hmargin, hmargin', h⟩ := publicAmounts_bind.mp h
    obtain ⟨residualPayload, hresidualPayload, hresidualPayload', h⟩ := publicVec_bind.mp h
    obtain ⟨rest, hrest, h⟩ := amountInput_bind.mp h
    obtain ⟨volume, hvolume, h⟩ := amountInput_bind.mp h
    obtain ⟨config, hconfig, h⟩ := fieldInput_bind.mp h
    obtain ⟨gross, hgross, h⟩ := amountInput_bind.mp h
    obtain ⟨rebate, hrebate, h⟩ := amountInput_bind.mp h
    obtain ⟨insurance, hinsurance, h⟩ := amountInput_bind.mp h
    obtain ⟨treasury, htreasury, h⟩ := amountInput_bind.mp h
    obtain ⟨maker, hmaker, hmaker', h⟩ := publicVec_bind.mp h
    obtain ⟨taker, htaker, htaker', h⟩ := publicVec_bind.mp h
    rw [hkey, Option.some.injEq] at hbatch hmarket
    refine ⟨⟨batch, market, digest, filled, new, change, spent, payload, residual, margin,
      residualPayload, rest, volume, config, gross, rebate, insurance, treasury, maker, taker⟩,
      ⟨hbatch.symm, hmarket.symm, hdigest, hfilled, hnew, hchange, hspent, hpayload, hresidual,
        hmargin, hresidualPayload, hrest, hvolume, hconfig, hgross, hrebate, hinsurance, htreasury,
        hmaker, htaker⟩,
      ⟨hfilled', hnew', hchange', hspent', hpayload', hresidual', hmargin', hresidualPayload', hmaker',
        htaker'⟩, ?_⟩
    rw [← Option.some.inj h, Journal.bytes_eq]
  · rintro ⟨j, hj, hfits, hbytes⟩
    refine fieldInput_bind.mpr ⟨_, (hkey _ _).trans (congrArg some hj.batchId.symm), ?_⟩
    refine fieldInput_bind.mpr ⟨_, (hkey _ _).trans (congrArg some hj.marketId.symm), ?_⟩
    refine fieldInput_bind.mpr ⟨_, hj.settlementDigest, ?_⟩
    refine publicVec_bind.mpr ⟨_, hj.filledIntents, hfits.filledIntents, ?_⟩
    refine publicVec_bind.mpr ⟨_, hj.newCommitments, hfits.newCommitments, ?_⟩
    refine publicVec_bind.mpr ⟨_, hj.marginChangeCommitments, hfits.marginChangeCommitments, ?_⟩
    refine publicVec_bind.mpr ⟨_, hj.spentNullifiers, hfits.spentNullifiers, ?_⟩
    refine publicVec_bind.mpr
      ⟨_, hj.matchingPayloadCommitments, hfits.matchingPayloadCommitments, ?_⟩
    refine publicVec_bind.mpr ⟨_, hj.residualCommitments, hfits.residualCommitments, ?_⟩
    refine publicAmounts_bind.mpr ⟨_, hj.residualMargins, hfits.residualMargins, ?_⟩
    refine publicVec_bind.mpr
      ⟨_, hj.residualPayloadCommitments, hfits.residualPayloadCommitments, ?_⟩
    refine amountInput_bind.mpr ⟨_, hj.residualSize, ?_⟩
    refine amountInput_bind.mpr ⟨_, hj.aggregateVolume, ?_⟩
    refine fieldInput_bind.mpr ⟨_, hj.feeConfigHash, ?_⟩
    refine amountInput_bind.mpr ⟨_, hj.grossTakerFee, ?_⟩
    refine amountInput_bind.mpr ⟨_, hj.makerRebate, ?_⟩
    refine amountInput_bind.mpr ⟨_, hj.insuranceFee, ?_⟩
    refine amountInput_bind.mpr ⟨_, hj.treasuryFee, ?_⟩
    refine publicVec_bind.mpr ⟨_, hj.makerIntents, hfits.makerIntents, ?_⟩
    refine publicVec_bind.mpr ⟨_, hj.takerIntents, hfits.takerIntents, ?_⟩
    rw [hbytes, Journal.bytes_eq]

/-- A run of the guest program on a request: the match, its settlement and the journal. -/
structure Proves (H : Host) (request : ProofRequest) (matched : MatchOutput) (j : Journal) : Prop where
  run : matchBatch H .release request.market request.intents = some matched
  draft : createDraft H request matched = some request.expected
  journal : JournalOf H request.expected j
  fits : j.Fits

theorem proveRequest_eq_some {request : ProofRequest} {proved : ProvedSettlement} :
    proveRequest H request = some proved ↔ ∃ matched j, Proves H request matched j ∧
      proved = ⟨request.expected, j.bytes, hexText (H.sha256 j.bytes).toNat⟩ := by
  unfold proveRequest
  simp only [Option.bind_eq_bind, Option.bind_eq_some_iff, assert_eq_some, Option.some.injEq,
    batchPublicInputBytes_eq_some]
  constructor
  · rintro ⟨matched, hmatched, draft, hdraft, _, rfl, _, ⟨j, hj, hfits, rfl⟩, rfl⟩
    exact ⟨matched, j, ⟨hmatched, hdraft, hj, hfits⟩, rfl⟩
  · rintro ⟨matched, j, h, rfl⟩
    exact ⟨matched, h.run, _, h.draft, (), rfl, _, ⟨j, h.journal, h.fits, rfl⟩, rfl⟩

end Pnlx.BatchMatch
