import Pnlx.Lib.Separators
import Pnlx.SampleHost
import Pnlx.Server.Settlement

/-!
# The payload commitment of an order

The data of an order is committed to by a hash of its fields, joined by a separator that is not
escaped. The server, and the guest program for a residual, register the commitment. The guest
program computes it again from the texts of a prover.

1. `OrderPayload.preimage_inj`: the joined text determines the data when one side is free of the
   separator.
2. `matchingPayloadCommitment_eq`, `residualPayloadCommitment_eq`: the two languages join the same
   texts.
3. `payloadCommitment_binds`: what a prover commits to is what was registered.
-/

namespace Pnlx

open BatchMatch (Text RecoveredIntent Residual parseI128 parseU128 decimal decimalSigned hexText)
open Server (PrivateMatchIntent)

variable {H : Host}

/-- The data of an order. A missing source is `0x0`. -/
structure OrderPayload where
  intentCommitment : Text
  marketId : Text
  ownerCommitment : Text
  signedSize : ℤ
  limitPrice : ℤ
  margin : ℤ
  noteNullifier : Text
  noteChangeCommitment : Text
  sourceIntentCommitment : Text
  deriving DecidableEq

/-- The data that the server registers. -/
def Server.PrivateMatchIntent.payload (r : PrivateMatchIntent) : OrderPayload where
  intentCommitment := r.intentCommitment
  marketId := r.marketId
  ownerCommitment := r.ownerCommitment
  signedSize := r.signedSize
  limitPrice := r.limitPrice
  margin := r.margin
  noteNullifier := r.noteNullifier
  noteChangeCommitment := r.noteChangeCommitment
  sourceIntentCommitment := r.sourceIntentCommitment.getD "0x0".toList

/-- The data of a residual that the guest program registers. -/
def BatchMatch.Residual.payload (r : Residual) : OrderPayload where
  intentCommitment := r.intentCommitment
  marketId := r.marketId
  ownerCommitment := r.ownerCommitment
  signedSize := r.signedSize.toInt
  limitPrice := r.limitPrice.toNat
  margin := r.margin.toNat
  noteNullifier := r.noteNullifier
  noteChangeCommitment := "0x0".toList
  sourceIntentCommitment := r.sourceIntentCommitment

/-- The order of a prover carries the data of a payload. -/
structure BatchMatch.RecoveredIntent.Carries (g : RecoveredIntent) (p : OrderPayload) : Prop where
  intentCommitment : g.intentCommitment = p.intentCommitment
  marketId : g.marketId = p.marketId
  ownerCommitment : g.ownerCommitment = p.ownerCommitment
  signedSize : (parseI128 g.signedSize).map BitVec.toInt = some p.signedSize
  limitPrice : (parseU128 g.limitPrice).map (fun v => (v.toNat : ℤ)) = some p.limitPrice
  margin : (parseU128 g.margin).map (fun v => (v.toNat : ℤ)) = some p.margin
  noteNullifier : g.noteNullifier = p.noteNullifier
  noteChangeCommitment : g.noteChangeCommitment = p.noteChangeCommitment
  sourceIntentCommitment : g.sourceIntentCommitment.getD "0x0".toList = p.sourceIntentCommitment

namespace OrderPayload

/-- The texts that are joined. -/
def fields (p : OrderPayload) : List Text :=
  [p.intentCommitment, p.marketId, p.ownerCommitment, decimalSigned p.signedSize,
    decimalSigned p.limitPrice, decimalSigned p.margin, p.noteNullifier, p.noteChangeCommitment,
    p.sourceIntentCommitment]

/-- The joined text. -/
def preimage (p : OrderPayload) : String :=
  "pnlx:" ++ "matching-payload" ++ ":" ++ "|".intercalate (p.fields.map String.ofList)

def commitment (H : Host) (p : OrderPayload) : Text := hexText (H.sha256 (utf8 p.preimage)).toNat

/-- No text of the order has a separator. -/
def Separated (p : OrderPayload) : Prop :=
  ∀ text ∈ [p.intentCommitment, p.marketId, p.ownerCommitment, p.noteNullifier,
    p.noteChangeCommitment, p.sourceIntentCommitment], '|' ∉ text

instance : DecidablePred Separated := fun p => by unfold Separated; infer_instance

/-! ## Printed integers -/

theorem separator_notMem_decimal (n : ℕ) : '|' ∉ decimal n := by
  intro h
  have hnone : Numerals.digitValue '|' = none := by decide
  obtain ⟨d, -, hvalue⟩ := BatchMatch.digits_decimal n '|' h
  exact absurd (hnone.symm.trans hvalue) (Option.some_ne_none d).symm

theorem separator_notMem_decimalSigned (z : ℤ) : '|' ∉ decimalSigned z := by
  unfold decimalSigned
  split_ifs
  · rw [List.mem_cons]
    rintro (h | h)
    · exact absurd h (by decide)
    · exact separator_notMem_decimal _ h
  · exact separator_notMem_decimal _

theorem decimal_injective : Function.Injective decimal := by
  intro m n h
  have hm := BatchMatch.readDigits_decimal m
  rw [h, BatchMatch.readDigits_decimal] at hm
  exact (Option.some.inj hm).symm

theorem decimalSigned_injective : Function.Injective decimalSigned := by
  have hsign (m n : ℕ) : '-' :: decimal m ≠ decimal n := by
    obtain ⟨c, cs, hcons, -, hminus⟩ := BatchMatch.decimal_eq_cons n
    rw [hcons]
    exact fun h => hminus (List.cons.inj h).1.symm
  intro y z h
  unfold decimalSigned at h
  split_ifs at h with hy hz hz
  · have := decimal_injective (List.cons.inj h).2
    omega
  · exact absurd h (hsign _ _)
  · exact absurd h.symm (hsign _ _)
  · have := decimal_injective h
    omega

@[simp] theorem decimalSigned_natCast (n : ℕ) : decimalSigned n = decimal n := by
  unfold decimalSigned
  rw [if_neg (by omega), Int.natAbs_natCast]

/-! ## The joined text -/

theorem Separated.fields {p : OrderPayload} (h : p.Separated) : ∀ text ∈ p.fields, '|' ∉ text := by
  unfold Separated at h
  unfold OrderPayload.fields
  simp only [List.mem_cons, List.not_mem_nil, or_false, forall_eq_or_imp, forall_eq] at h ⊢
  obtain ⟨hintent, hmarket, howner, hnullifier, hchange, hsource⟩ := h
  exact ⟨hintent, hmarket, howner, separator_notMem_decimalSigned _,
    separator_notMem_decimalSigned _, separator_notMem_decimalSigned _, hnullifier, hchange, hsource⟩

theorem fields_inj {p q : OrderPayload} (h : p.fields = q.fields) : p = q := by
  unfold fields at h
  simp only [List.cons.injEq, and_true] at h
  obtain ⟨hintent, hmarket, howner, hsize, hprice, hmargin, hnullifier, hchange, hsource⟩ := h
  obtain ⟨_, _, _, _, _, _, _, _, _⟩ := p
  obtain ⟨_, _, _, _, _, _, _, _, _⟩ := q
  rw [mk.injEq]
  exact ⟨hintent, hmarket, howner, decimalSigned_injective hsize, decimalSigned_injective hprice,
    decimalSigned_injective hmargin, hnullifier, hchange, hsource⟩

/-- The joined text determines the data when one side is free of the separator. -/
theorem preimage_inj {p q : OrderPayload} (hp : p.Separated) (h : p.preimage = q.preimage) :
    p = q := by
  have hjoin := congrArg String.toList (String.append_right_inj _ |>.mp h)
  rw [String.toList_intercalate, String.toList_intercalate, List.map_map, List.map_map] at hjoin
  have hid (l : List Text) : l.map (String.toList ∘ String.ofList) = l := by
    rw [show String.toList ∘ String.ofList = id from funext fun cs => String.toList_ofList]
    exact List.map_id l
  rw [hid, hid] at hjoin
  exact fields_inj (Separators.intercalate_inj rfl hp.fields hjoin)

theorem utf8_injective : Function.Injective utf8 := by
  intro s t h
  exact String.toByteArray_inj.mp (ByteArray.ext (Array.toList_inj.mp h))

end OrderPayload

/-! ## The two languages -/

/-- The server joins the texts of its order. -/
theorem Server.matchingPayloadCommitment_eq (r : PrivateMatchIntent) :
    Server.matchingPayloadCommitment H r = r.payload.commitment H := rfl

/-- The guest program joins the texts of its residual. -/
theorem BatchMatch.residualPayloadCommitment_eq (r : Residual) :
    BatchMatch.residualPayloadCommitment H r = r.payload.commitment H := by
  unfold OrderPayload.commitment OrderPayload.preimage OrderPayload.fields Residual.payload
  rw [OrderPayload.decimalSigned_natCast, OrderPayload.decimalSigned_natCast]
  rfl

/-- The guest program joins the texts of the data that an order carries. -/
theorem BatchMatch.matchingPayloadCommitment_eq_some {g : RecoveredIntent} {text : Text} :
    BatchMatch.matchingPayloadCommitment H g = some text ↔
      ∃ p, g.Carries p ∧ text = p.commitment H := by
  have hcommit (size : I128) (price margin : U128) : hashFieldsHex H "matching-payload"
      [.text g.intentCommitment, .text g.marketId, .text g.ownerCommitment, .i128 size, .num price,
        .num margin, .text g.noteNullifier, .text g.noteChangeCommitment,
        .text (g.sourceIntentCommitment.getD "0x0".toList)] =
      OrderPayload.commitment H ⟨g.intentCommitment, g.marketId, g.ownerCommitment, size.toInt,
        price.toNat, margin.toNat, g.noteNullifier, g.noteChangeCommitment,
        g.sourceIntentCommitment.getD "0x0".toList⟩ := by
    unfold OrderPayload.commitment OrderPayload.preimage OrderPayload.fields
    rw [OrderPayload.decimalSigned_natCast, OrderPayload.decimalSigned_natCast]
    rfl
  unfold matchingPayloadCommitment
  simp only [Option.bind_eq_bind, Option.bind_eq_some_iff, Option.some.injEq]
  constructor
  · rintro ⟨size, hsize, price, hprice, margin, hmargin, htext⟩
    refine ⟨_, ⟨rfl, rfl, rfl, ?_, ?_, ?_, rfl, rfl, rfl⟩, htext.symm.trans (hcommit _ _ _)⟩
    · rw [hsize, Option.map_some]
    · rw [hprice, Option.map_some]
    · rw [hmargin, Option.map_some]
  · rintro ⟨⟨_, _, _, _, _, _, _, _, _⟩, ⟨hintent, hmarket, howner, hsize, hprice, hmargin,
      hnullifier, hchange, hsource⟩, htext⟩
    obtain ⟨size, hsize, hsize'⟩ := Option.map_eq_some_iff.mp hsize
    obtain ⟨price, hprice, hprice'⟩ := Option.map_eq_some_iff.mp hprice
    obtain ⟨margin, hmargin, hmargin'⟩ := Option.map_eq_some_iff.mp hmargin
    refine ⟨size, hsize, price, hprice, margin, hmargin, ?_⟩
    rw [hcommit, htext, hintent, hmarket, howner, hsize', hprice', hmargin', hnullifier, hchange,
      hsource]

/-- A commitment determines the data when one side is free of the separator. -/
theorem OrderPayload.commitment_inj {p q : OrderPayload} (hp : p.Separated)
    (hsha : H.ShaInjOn {utf8 p.preimage, utf8 q.preimage}) (h : p.commitment H = q.commitment H) :
    p = q := by
  have hword (w : BytesN32) : Server.hexWord (hexText w.toNat) = w := (Server.isHex32_hexText w).2
  have hdigest := congrArg Server.hexWord h
  unfold commitment at hdigest
  rw [hword, hword] at hdigest
  exact preimage_inj hp (utf8_injective (hsha (Or.inl rfl) (Or.inr rfl) hdigest))

/-- What a prover commits to is what was registered, for an order and for a residual, and both
languages join the same text. -/
theorem payloadCommitment_binds (H : Host) (g : RecoveredIntent) :
    (∀ r : PrivateMatchIntent, r.payload.Separated →
      (∀ q, g.Carries q → H.ShaInjOn {utf8 r.payload.preimage, utf8 q.preimage}) →
      (BatchMatch.matchingPayloadCommitment H g = some (Server.matchingPayloadCommitment H r) ↔
        g.Carries r.payload)) ∧
    (∀ r : Residual, r.payload.Separated →
      (∀ q, g.Carries q → H.ShaInjOn {utf8 r.payload.preimage, utf8 q.preimage}) →
      (BatchMatch.matchingPayloadCommitment H g = some (BatchMatch.residualPayloadCommitment H r) ↔
        g.Carries r.payload)) ∧
    ∀ r : PrivateMatchIntent, g.Carries r.payload → ∃ text : String, ∀ H' : Host,
      BatchMatch.matchingPayloadCommitment H' g = some (hexText (H'.sha256 (utf8 text)).toNat) ∧
        Server.matchingPayloadCommitment H' r = hexText (H'.sha256 (utf8 text)).toNat := by
  have hbinds (p : OrderPayload) (hp : p.Separated)
      (hsha : ∀ q, g.Carries q → H.ShaInjOn {utf8 p.preimage, utf8 q.preimage}) :
      BatchMatch.matchingPayloadCommitment H g = some (p.commitment H) ↔ g.Carries p := by
    rw [BatchMatch.matchingPayloadCommitment_eq_some]
    constructor
    · rintro ⟨q, hq, heq⟩
      exact OrderPayload.commitment_inj hp (hsha q hq) heq ▸ hq
    · exact fun h => ⟨p, h, rfl⟩
  refine ⟨fun r hr hsha => ?_, fun r hr hsha => ?_, fun r hr => ?_⟩
  · rw [Server.matchingPayloadCommitment_eq]
    exact hbinds _ hr hsha
  · rw [BatchMatch.residualPayloadCommitment_eq]
    exact hbinds _ hr hsha
  · refine ⟨r.payload.preimage, fun H' => ⟨?_, Server.matchingPayloadCommitment_eq r⟩⟩
    exact BatchMatch.matchingPayloadCommitment_eq_some.mpr ⟨_, hr, rfl⟩

/-- A registered order without a source. -/
def sampleRegistered : PrivateMatchIntent where
  batchId := "batch-1".toList
  intentCommitment := "0x11".toList
  limitPrice := 250000
  margin := 900
  marketId := "xlm-usd-perp".toList
  noteChangeCommitment := "0x22".toList
  noteNullifier := "0x33".toList
  ownerCommitment := "0x44".toList
  signedSize := -7
  sourceIntentCommitment := none

/-- The same order in other texts: a source is written out, and the integers are not as printed. -/
def sampleRecovered : RecoveredIntent where
  batchId := "batch-2".toList
  intentCommitment := "0x11".toList
  limitPrice := "+00250000".toList
  margin := "0900".toList
  marketId := "xlm-usd-perp".toList
  noteChangeCommitment := "0x22".toList
  noteNullifier := "0x33".toList
  ownerCommitment := "0x44".toList
  signedSize := "-007".toList
  sourceIntentCommitment := some "0x0".toList

theorem BatchMatch.RecoveredIntent.Carries.unique {g : RecoveredIntent} {p q : OrderPayload}
    (hp : g.Carries p) (hq : g.Carries q) : p = q := by
  obtain ⟨_, _, _, _, _, _, _, _, _⟩ := p
  obtain ⟨_, _, _, _, _, _, _, _, _⟩ := q
  rw [OrderPayload.mk.injEq]
  exact ⟨hp.intentCommitment.symm.trans hq.intentCommitment, hp.marketId.symm.trans hq.marketId,
    hp.ownerCommitment.symm.trans hq.ownerCommitment,
    Option.some.inj (hp.signedSize.symm.trans hq.signedSize),
    Option.some.inj (hp.limitPrice.symm.trans hq.limitPrice),
    Option.some.inj (hp.margin.symm.trans hq.margin), hp.noteNullifier.symm.trans hq.noteNullifier,
    hp.noteChangeCommitment.symm.trans hq.noteChangeCommitment,
    hp.sourceIntentCommitment.symm.trans hq.sourceIntentCommitment⟩

theorem sampleRecovered_carries : sampleRecovered.Carries sampleRegistered.payload :=
  ⟨rfl, rfl, rfl, by decide +kernel, by decide +kernel, by decide +kernel, rfl, rfl, rfl⟩

theorem sampleRecovered_shaInjOn : ∀ q, sampleRecovered.Carries q →
    sampleHost.ShaInjOn {utf8 sampleRegistered.payload.preimage, utf8 q.preimage} := by
  intro q hq
  rw [← sampleRecovered_carries.unique hq, Set.pair_eq_singleton]
  exact Set.injOn_singleton _ _

/-- The order that was registered without a source, and its recovery with the source `0x0`. -/
theorem payloadCommitment_binds_sample :
    BatchMatch.matchingPayloadCommitment sampleHost sampleRecovered =
      some (Server.matchingPayloadCommitment sampleHost sampleRegistered) ↔
      sampleRecovered.Carries sampleRegistered.payload :=
  (payloadCommitment_binds sampleHost sampleRecovered).1 sampleRegistered (by decide +kernel)
    sampleRecovered_shaInjOn

/-- An order with a source of `0x0` has the commitment of an order that was registered without a
source. -/
theorem exists_source_unbound : ∃ (r : PrivateMatchIntent) (g : RecoveredIntent),
    r.payload.Separated ∧
      (∀ q, g.Carries q → sampleHost.ShaInjOn {utf8 r.payload.preimage, utf8 q.preimage}) ∧
      BatchMatch.matchingPayloadCommitment sampleHost g =
        some (Server.matchingPayloadCommitment sampleHost r) ∧
      g.sourceIntentCommitment ≠ r.sourceIntentCommitment :=
  ⟨sampleRegistered, sampleRecovered, by decide +kernel, sampleRecovered_shaInjOn,
    BatchMatch.matchingPayloadCommitment_eq_some.mpr ⟨_, sampleRecovered_carries, rfl⟩, by decide⟩

end Pnlx
