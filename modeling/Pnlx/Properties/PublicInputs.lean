import Pnlx.SampleHost
import Pnlx.Server.Settlement

/-!
# The public inputs of a settlement

The server, the guest program and the contract each write the public inputs of a settlement.

1. `publicInputs_agree`: they write the same byte string.
2. `publicInputBytes_journal`, `batchPublicInputBytes_journal`: the byte string determines every
   section.
-/

namespace Pnlx.Server

open BatchMatch (Text decimalSigned hexText toFieldBiguint parseU128)
open Journal (slots count maxItems encodePublicInputs_append)

variable {H : Host}

/-- The lists of hashes of a settlement. -/
def BatchSettlement.hashLists (s : BatchSettlement) : List (List Text) :=
  [s.orderUpdates.map (·.intentCommitment), s.newCommitments, s.marginChangeCommitments,
    s.spentNullifiers, s.matchingPayloadCommitments, s.residualCommitments,
    s.residualPayloadCommitments, s.makerIntents, s.takerIntents,
    [s.settlementDigest, s.feeConfigHash]]

/-- The amounts of a settlement. -/
def BatchSettlement.amounts (s : BatchSettlement) : List ℤ :=
  [s.residualSize, s.aggregateVolume, s.grossTakerFee, s.makerRebate, s.insuranceFee,
    s.treasuryFee] ++ s.residualMargins

/-- A settlement within the item capacity, with hashes of 32 bytes and amounts below `2^127`. -/
structure BatchSettlement.Encodable (s : BatchSettlement) : Prop where
  capacity : assertBatchSettlementCapacity s = some ()
  payloads : ∀ n ∈ [s.matchingPayloadCommitments.length, s.residualCommitments.length,
    s.residualMargins.length, s.residualPayloadCommitments.length], n = s.orderUpdates.length
  hashes : ∀ l ∈ s.hashLists, ∀ value ∈ l, IsHex32 value
  amounts : ∀ z ∈ s.amounts, 0 ≤ z ∧ z < 2 ^ 127

/-- A settlement that the guest program reads: hashes of 32 bytes and amounts that are words. -/
structure BatchSettlement.Readable (s : BatchSettlement) : Prop where
  hashes : ∀ l ∈ s.hashLists, ∀ value ∈ l, IsHex32 value
  amounts : ∀ z ∈ s.amounts, 0 ≤ z ∧ z < 2 ^ 128

theorem BatchSettlement.Encodable.readable {s : BatchSettlement} (h : s.Encodable) : s.Readable where
  hashes := h.hashes
  amounts := fun z hz => by
    obtain ⟨hpos, hlt⟩ := h.amounts z hz
    omega

/-- The arguments of `settle` that stand for a settlement. -/
def BatchSettlement.args (H : Host) (s : BatchSettlement) (proof : ProofMeta) : SettleArgs where
  batchId := Pnlx.hashFields H "batch-id" [String.ofList s.batchId]
  marketId := Pnlx.hashFields H "market-id" [String.ofList s.marketId]
  settlementDigest := hexWord s.settlementDigest
  proof := proof
  filledIntents := (s.orderUpdates.map (·.intentCommitment)).map hexWord
  newCommitments := s.newCommitments.map hexWord
  marginChangeCommitments := s.marginChangeCommitments.map hexWord
  spentNullifiers := s.spentNullifiers.map hexWord
  matchingPayloadCommitments := s.matchingPayloadCommitments.map hexWord
  residualCommitments := s.residualCommitments.map hexWord
  residualMargins := s.residualMargins.map (BitVec.ofInt 128)
  residualPayloadCommitments := s.residualPayloadCommitments.map hexWord
  volume := BitVec.ofInt 128 s.aggregateVolume
  residual := BitVec.ofInt 128 s.residualSize
  feeConfigHash := hexWord s.feeConfigHash
  grossTakerFee := BitVec.ofInt 128 s.grossTakerFee
  makerRebate := BitVec.ofInt 128 s.makerRebate
  insuranceFee := BitVec.ofInt 128 s.insuranceFee
  treasuryFee := BitVec.ofInt 128 s.treasuryFee
  makerIntents := s.makerIntents.map hexWord
  takerIntents := s.takerIntents.map hexWord

/-! ## Single values -/

theorem toNat_ofInt_word {z : ℤ} (h : 0 ≤ z ∧ z < 2 ^ 128) :
    ((BitVec.ofInt 128 z).toNat : ℤ) = z := by
  rw [BitVec.toNat_ofInt, Int.emod_eq_of_lt h.1 (by omega)]
  exact Int.toNat_of_nonneg h.1

theorem toNat_ofInt_amount {z : ℤ} (h : 0 ≤ z ∧ z < 2 ^ 127) :
    ((BitVec.ofInt 128 z).toNat : ℤ) = z := toNat_ofInt_word (by omega)

theorem ofInt?_amount {z : ℤ} (h : 0 ≤ z ∧ z < 2 ^ 127) :
    I128.ofInt? z = some (BitVec.ofInt 128 z) :=
  if_pos ⟨by omega, h.2⟩

theorem parseU128_amount {z : ℤ} (h : 0 ≤ z ∧ z < 2 ^ 128) :
    parseU128 (decimalSigned z) = some (BitVec.ofInt 128 z) :=
  BatchMatch.parseU128_decimalSigned.mpr (toNat_ofInt_word h).symm

/-- An input whose bytes are those of a field element. -/
def ContractPublicInput.Denotes (input : ContractPublicInput) (x : Fr) : Prop :=
  input.bytes = some (fieldBe x)

open ContractPublicInput (Denotes)

theorem denotes_field {value : Text} (h : IsHex32 value) :
    Denotes (.field value) (Pnlx.toField (hexWord value)) := by
  show (toField (.hex value)).map fieldBe = _
  rw [h.reads.2.1, Option.map_some]

theorem denotes_u128 {z : ℤ} (h : 0 ≤ z ∧ z < 2 ^ 127) :
    Denotes (.u128 z) (asField (BitVec.ofInt 128 z)) := by
  have hnat : z.toNat = (BitVec.ofInt 128 z).toNat := by
    have := toNat_ofInt_amount h
    omega
  refine (if_neg (by omega)).trans ?_
  rw [hnat]
  rfl

theorem denotes_count {n : ℕ} (h : n ≤ maxItems) : Denotes (.u128 n) (count n) := by
  have hlt : n ≤ 8 := h
  exact denotes_u128 (z := n) (by omega)

/-! ## Byte strings -/

theorem contractPublicInputBytes_eq {inputs : List ContractPublicInput} {xs : List Fr}
    (h : List.Forall₂ Denotes inputs xs) :
    contractPublicInputBytes inputs = some (encodePublicInputs xs) := by
  have hbytes : inputs.mapM ContractPublicInput.bytes = some (xs.map fieldBe) :=
    mapM_eq_some.mpr (List.forall₂_map_right_iff.mpr h)
  unfold contractPublicInputBytes encodePublicInputs
  rw [hbytes, Option.map_some, List.flatMap_def]

theorem publicVec_denotes {values : List Text} (hcap : values.length ≤ maxItems)
    (h : ∀ value ∈ values, IsHex32 value) : ∃ inputs, publicVec values = some inputs ∧
      List.Forall₂ Denotes inputs (slots ((values.map hexWord).map Pnlx.toField)) := by
  have hfree : Denotes (.field "0x0".toList) 0 := by
    rw [show (0 : Fr) = Pnlx.toField (hexWord "0x0".toList) by decide +kernel]
    exact denotes_field (Or.inl rfl)
  have hitems : List.Forall₂ Denotes (values.map .field)
      ((values.map hexWord).map Pnlx.toField) := by
    rw [List.forall₂_map_left_iff, List.map_map, List.forall₂_map_right_iff]
    exact List.forall₂_same.mpr fun value hvalue => denotes_field (h value hvalue)
  refine ⟨Framing.frame (fun n => .u128 n) (.field "0x0".toList) maxItems (values.map .field), ?_,
    Framing.forall₂_frame hitems ?_ hfree⟩
  · unfold publicVec Framing.frame
    rw [show assert (¬ values.length > maxPublicItems) = some () from if_pos (Nat.not_lt.mpr hcap),
      List.length_map]
    rfl
  · rw [List.length_map]
    exact denotes_count hcap

theorem publicAmounts_denotes {values : List ℤ} (hcap : values.length ≤ maxItems)
    (h : ∀ z ∈ values, 0 ≤ z ∧ z < 2 ^ 127) : ∃ inputs, publicAmounts values = some inputs ∧
      List.Forall₂ Denotes inputs (slots ((values.map (BitVec.ofInt 128)).map asField)) := by
  have hfree : Denotes (.u128 0) 0 := denotes_u128 (by decide)
  have hitems : List.Forall₂ Denotes (values.map .u128)
      ((values.map (BitVec.ofInt 128)).map asField) := by
    rw [List.forall₂_map_left_iff, List.map_map, List.forall₂_map_right_iff]
    exact List.forall₂_same.mpr fun z hz => denotes_u128 (h z hz)
  refine ⟨Framing.frame (fun n => .u128 n) (.u128 0) maxItems (values.map .u128), ?_,
    Framing.forall₂_frame hitems ?_ hfree⟩
  · unfold publicAmounts Framing.frame
    rw [show assert (¬ values.length > maxPublicItems) = some () from if_pos (Nat.not_lt.mpr hcap),
      List.length_map]
    rfl
  · rw [List.length_map]
    exact denotes_count hcap

/-! ## The three byte strings -/

section Encodable

variable {s : BatchSettlement} {proof : ProofMeta}

theorem BatchSettlement.length_le (s : BatchSettlement) (h : assertBatchSettlementCapacity s = some ()) :
    ∀ n ∈ [s.orderUpdates.length, s.newCommitments.length, s.marginChangeCommitments.length,
      s.spentNullifiers.length, s.matchingPayloadCommitments.length, s.residualCommitments.length,
      s.residualMargins.length, s.residualPayloadCommitments.length, s.makerIntents.length,
      s.takerIntents.length], n ≤ maxItems := by
  have hcapacity := assert_eq_some.mp h
  intro n hn
  exact Nat.not_lt.mp fun hlt => hcapacity ⟨n, hn, hlt⟩

theorem BatchSettlement.withinCapacity (s : BatchSettlement)
    (h : assertBatchSettlementCapacity s = some ()) :
    (s.args H proof).WithinCapacity := by
  have hlen := s.length_le h
  simp only [List.mem_cons, List.not_mem_nil, or_false, forall_eq_or_imp, forall_eq] at hlen
  obtain ⟨hfilled, hnew, hchange, hspent, hpayload, hresidual, hmargins, hresidualPayload, hmaker,
    htaker⟩ := hlen
  refine ⟨?_, by rw [args, List.length_map]; exact hmargins⟩
  simp only [args, List.mem_cons, List.not_mem_nil, or_false, forall_eq_or_imp, forall_eq,
    List.length_map]
  exact ⟨hfilled, hnew, hchange, hspent, hpayload, hresidual, hresidualPayload, hmaker, htaker⟩

theorem hashWord (H : Host) (domain : String) (text : Text) :
    IsHex32 (hashFields H domain [.text text]) ∧
      hexWord (hashFields H domain [.text text]) = Pnlx.hashFields H domain [String.ofList text] :=
  isHex32_hexText _

/-- What holds of every list of hashes of 32 bytes holds of the lists of the settlement. -/
theorem BatchSettlement.Readable.lists (h : s.Readable) {P : List Text → Prop}
    (hP : ∀ l, (∀ value ∈ l, IsHex32 value) → P l) :
    P (s.orderUpdates.map (·.intentCommitment)) ∧ P s.newCommitments ∧
      P s.marginChangeCommitments ∧ P s.spentNullifiers ∧ P s.matchingPayloadCommitments ∧
      P s.residualCommitments ∧ P s.residualPayloadCommitments ∧ P s.makerIntents ∧
      P s.takerIntents ∧ P [s.settlementDigest, s.feeConfigHash] := by
  have hall : ∀ l ∈ s.hashLists, P l := fun l hl => hP l (h.hashes l hl)
  simpa only [hashLists, List.mem_cons, List.not_mem_nil, or_false, forall_eq_or_imp, forall_eq]
    using hall

theorem BatchSettlement.Readable.digests (h : s.Readable) :
    IsHex32 s.settlementDigest ∧ IsHex32 s.feeConfigHash := by
  obtain ⟨-, -, -, -, -, -, -, -, -, hdigests⟩ := h.lists fun l hl => hl
  exact ⟨hdigests _ List.mem_cons_self, hdigests _ (List.mem_cons_of_mem _ List.mem_cons_self)⟩

/-- What holds of all amounts of the settlement. -/
theorem BatchSettlement.amount_values {P : ℤ → Prop} (h : ∀ z ∈ s.amounts, P z) :
    P s.residualSize ∧ P s.aggregateVolume ∧ P s.grossTakerFee ∧ P s.makerRebate ∧
      P s.insuranceFee ∧ P s.treasuryFee ∧ ∀ z ∈ s.residualMargins, P z := by
  simpa only [BatchSettlement.amounts, List.cons_append, List.nil_append, List.mem_cons,
    forall_eq_or_imp] using h

/-- The server calls the contract with the arguments of the settlement. -/
theorem BatchSettlement.Encodable.settleArgs_eq (h : s.Encodable) :
    settleArgs H s proof = some (s.args H proof) := by
  have hkey (domain : String) (text : Text) : bytesN32Arg (hashFields H domain [.text text]) =
      some (Pnlx.hashFields H domain [String.ofList text]) :=
    (hashWord H domain text).1.reads.1.trans (congrArg some (hashWord H domain text).2)
  obtain ⟨hfilled, hnew, hchange, hspent, hpayload, hresidual, hresidualPayload, hmaker, htaker, -⟩ :=
    h.readable.lists (P := fun l => l.mapM bytesN32Arg = some (l.map hexWord))
      fun l hl => mapM_eq_map fun value hvalue => (hl value hvalue).reads.1
  obtain ⟨hrest, hvolume, hgross, hrebate, hinsurance, htreasury, hmargins⟩ :=
    s.amount_values fun z hz => ofInt?_amount (h.amounts z hz)
  unfold settleArgs
  rw [hkey, hkey, h.readable.digests.1.reads.1, hfilled, hnew, hchange, hspent, hpayload, hresidual,
    hresidualPayload, mapM_eq_map hmargins, hvolume, hrest, h.readable.digests.2.reads.1, hgross, hrebate,
    hinsurance, htreasury, hmaker, htaker]
  rfl

/-- The guest program reads the same journal. -/
theorem BatchSettlement.Readable.journalOf (h : s.Readable) :
    BatchMatch.JournalOf H (proverDraft s) (s.args H proof).journal := by
  obtain ⟨hfilled, hnew, hchange, hspent, hpayload, hresidual, hresidualPayload, hmaker, htaker, -⟩ :=
    h.lists (P := fun l => l.mapM toFieldBiguint = some ((l.map hexWord).map Pnlx.toField))
      fun l hl => by
        rw [List.map_map]
        exact mapM_eq_map fun value hvalue => (hl value hvalue).reads.2.2
  obtain ⟨hrest, hvolume, hgross, hrebate, hinsurance, htreasury, hmargins⟩ :=
    s.amount_values fun z hz => parseU128_amount (h.amounts z hz)
  exact
    { batchId := rfl
      marketId := rfl
      settlementDigest := h.digests.1.reads.2.2
      filledIntents := by
        rw [show (proverDraft s).orderUpdates.map (·.intentCommitment) =
          s.orderUpdates.map (·.intentCommitment) from List.map_map]
        exact hfilled
      newCommitments := hnew
      marginChangeCommitments := hchange
      spentNullifiers := hspent
      matchingPayloadCommitments := hpayload
      residualCommitments := hresidual
      residualMargins := by
        rw [show (proverDraft s).residualMargins = s.residualMargins.map decimalSigned from rfl,
          List.mapM_map]
        exact mapM_eq_map hmargins
      residualPayloadCommitments := hresidualPayload
      residualSize := hrest
      aggregateVolume := hvolume
      feeConfigHash := h.digests.2.reads.2.2
      grossTakerFee := hgross
      makerRebate := hrebate
      insuranceFee := hinsurance
      treasuryFee := htreasury
      makerIntents := hmaker
      takerIntents := htaker }

/-- The server hashes the same journal. -/
theorem BatchSettlement.Encodable.publicInputBytes_eq (h : s.Encodable) :
    batchSettlementPublicInputBytes H s = some (s.args H proof).journal.bytes := by
  have hlen := s.length_le h.capacity
  simp only [List.mem_cons, List.not_mem_nil, or_false, forall_eq_or_imp, forall_eq] at hlen
  obtain ⟨hfilled, hnew, hchange, hspent, hpayload, hresidual, hmargins, hresidualPayload, hmaker,
    htaker⟩ := hlen
  obtain ⟨hfilled', hnew', hchange', hspent', hpayload', hresidual', hresidualPayload', hmaker',
    htaker', -⟩ := h.readable.lists fun l hl => fun hcap : l.length ≤ maxItems =>
      publicVec_denotes hcap hl
  obtain ⟨hrest, hvolume, hgross, hrebate, hinsurance, htreasury, hmargins'⟩ :=
    s.amount_values h.amounts
  obtain ⟨filled, efilled, dfilled⟩ := hfilled' (by rw [List.length_map]; exact hfilled)
  obtain ⟨new, enew, dnew⟩ := hnew' hnew
  obtain ⟨change, echange, dchange⟩ := hchange' hchange
  obtain ⟨spent, espent, dspent⟩ := hspent' hspent
  obtain ⟨payload, epayload, dpayload⟩ := hpayload' hpayload
  obtain ⟨residual, eresidual, dresidual⟩ := hresidual' hresidual
  obtain ⟨margins, emargins, dmargins⟩ := publicAmounts_denotes hmargins hmargins'
  obtain ⟨residualPayload, eresidualPayload, dresidualPayload⟩ := hresidualPayload' hresidualPayload
  obtain ⟨maker, emaker, dmaker⟩ := hmaker' hmaker
  obtain ⟨taker, etaker, dtaker⟩ := htaker' htaker
  have hpayloads := h.payloads
  have hkey (domain : String) (text : Text) : Denotes (.field (hashFields H domain [.text text]))
      (Pnlx.toField (Pnlx.hashFields H domain [String.ofList text])) := by
    rw [← (hashWord H domain text).2]
    exact denotes_field (hashWord H domain text).1
  have hinputs : ∃ inputs, batchSettlementPublicInputs H s = some inputs ∧
      List.Forall₂ Denotes inputs (s.args H proof).journal.elements := by
    unfold batchSettlementPublicInputs
    rw [h.capacity, efilled, enew, echange, espent, epayload, eresidual, emargins,
      eresidualPayload, emaker, etaker, show assert (¬ ∃ count ∈ _, count ≠ s.orderUpdates.length) =
        some () from if_pos fun ⟨n, hn, hne⟩ => hne (hpayloads n hn)]
    refine ⟨_, rfl, ?_⟩
    refine List.rel_append (.cons (hkey _ _) (.cons (hkey _ _) (.cons (denotes_field h.readable.digests.1)
      .nil))) ?_
    refine List.rel_append dfilled (List.rel_append dnew (List.rel_append dchange
      (List.rel_append dspent (List.rel_append dpayload (List.rel_append dresidual
        (List.rel_append dmargins (List.rel_append dresidualPayload ?_)))))))
    refine List.rel_append ?_ (List.rel_append dmaker dtaker)
    exact .cons (denotes_u128 hrest) (.cons (denotes_u128 hvolume)
      (.cons (denotes_field h.readable.digests.2) (.cons (denotes_u128 hgross) (.cons (denotes_u128 hrebate)
        (.cons (denotes_u128 hinsurance) (.cons (denotes_u128 htreasury) .nil))))))
  obtain ⟨inputs, einputs, dinputs⟩ := hinputs
  unfold batchSettlementPublicInputBytes
  rw [einputs]
  exact contractPublicInputBytes_eq dinputs

end Encodable

/-- The server, the guest program and the contract write the same byte string for a settlement, and
the byte string determines every section, up to the field elements of its hashes. -/
theorem publicInputs_agree (H : Host) (s : BatchSettlement) (proof : ProofMeta)
    (hs : s.Encodable) :
    (∃ args bytes, settleArgs H s proof = some args ∧
      batchSettlementPublicInputBytes H s = some bytes ∧
      BatchMatch.batchPublicInputBytes H (proverDraft s) = some bytes ∧
      Pnlx.BatchSettlement.publicInputBytes args = bytes ∧ args.WithinCapacity) ∧
    (∀ args args' : SettleArgs, args.WithinCapacity → args'.WithinCapacity →
      Pnlx.BatchSettlement.publicInputBytes args = Pnlx.BatchSettlement.publicInputBytes args' →
      args.journal = args'.journal) ∧
    (∀ draft draft' bytes, BatchMatch.batchPublicInputBytes H draft = some bytes →
      BatchMatch.batchPublicInputBytes H draft' = some bytes →
      ∃ j, BatchMatch.JournalOf H draft j ∧ BatchMatch.JournalOf H draft' j) ∧
    ∀ s' : BatchSettlement, s'.Encodable →
      batchSettlementPublicInputBytes H s = batchSettlementPublicInputBytes H s' →
      (s.args H proof).journal = (s'.args H proof).journal := by
  have hfits (s : BatchSettlement) (hs : s.Encodable) : (s.args H proof).journal.Fits :=
    (s.withinCapacity hs.capacity).fits
  refine ⟨⟨s.args H proof, (s.args H proof).journal.bytes, hs.settleArgs_eq, hs.publicInputBytes_eq,
    BatchMatch.batchPublicInputBytes_eq_some.mpr ⟨_, hs.readable.journalOf, hfits s hs, rfl⟩,
    Pnlx.BatchSettlement.publicInputBytes_eq (s.withinCapacity hs.capacity),
    s.withinCapacity hs.capacity⟩, ?_, ?_, ?_⟩
  · intro args args' hcap hcap' hbytes
    rw [Pnlx.BatchSettlement.publicInputBytes_eq hcap,
      Pnlx.BatchSettlement.publicInputBytes_eq hcap'] at hbytes
    exact Journal.bytes_inj hcap.fits hcap'.fits hbytes
  · intro draft draft' bytes hbytes hbytes'
    obtain ⟨j, hj, hjfits, heq⟩ := BatchMatch.batchPublicInputBytes_eq_some.mp hbytes
    obtain ⟨j', hj', hjfits', heq'⟩ := BatchMatch.batchPublicInputBytes_eq_some.mp hbytes'
    have hsame : j' = j := Journal.bytes_inj hjfits' hjfits (heq'.symm.trans heq)
    exact ⟨j, hj, hsame ▸ hj'⟩
  · intro s' hs' hbytes
    have heq := @BatchSettlement.Encodable.publicInputBytes_eq H s proof hs
    have heq' := @BatchSettlement.Encodable.publicInputBytes_eq H s' proof hs'
    rw [heq, heq', Option.some.injEq] at hbytes
    exact Journal.bytes_inj (hfits s hs) (hfits s' hs') hbytes

/-- A settlement of two orders, one of them filled in part. -/
def sampleSettlement : BatchSettlement where
  batchId := "batch-1".toList
  marketId := "xlm-usd-perp".toList
  matchTranscriptDigest := hexText 90
  settlementDigest := hexText 91
  newCommitments := [hexText 11, hexText 12]
  marginChangeCommitments := [hexText 13]
  spentNullifiers := [hexText 14, hexText (bn254ScalarModulus + 15)]
  matchingPayloadCommitments := [hexText 16, hexText 17]
  residualCommitments := ["0x0".toList, hexText 18]
  residualMargins := [0, 700]
  residualPayloadCommitments := ["0x0".toList, hexText 19]
  fillCount := 2
  feeConfigHash := hexText 92
  grossTakerFee := 60
  makerRebate := 20
  insuranceFee := 15
  treasuryFee := 25
  makerIntents := [hexText 1]
  takerIntents := [hexText 2]
  aggregateVolume := 2 ^ 127 - 1
  openInterestDelta := 100
  orderUpdates := [⟨hexText 1, none, "filled".toList⟩,
    ⟨hexText 2, some (hexText 18), "partially-filled".toList⟩]
  residualSize := 5

theorem sampleSettlement_encodable : sampleSettlement.Encodable :=
  ⟨by decide +kernel, by decide +kernel, by decide +kernel, by decide +kernel⟩

/-- A witness of the theorem: a settlement whose commitments are not all below the modulus. -/
theorem publicInputs_agree_sample : ∃ args bytes,
    settleArgs sampleHost sampleSettlement ⟨0, 0, 0, 0, 0⟩ = some args ∧
      batchSettlementPublicInputBytes sampleHost sampleSettlement = some bytes ∧
      BatchMatch.batchPublicInputBytes sampleHost (proverDraft sampleSettlement) = some bytes ∧
      Pnlx.BatchSettlement.publicInputBytes args = bytes ∧ args.WithinCapacity :=
  (publicInputs_agree sampleHost sampleSettlement ⟨0, 0, 0, 0, 0⟩ sampleSettlement_encodable).1

end Pnlx.Server
