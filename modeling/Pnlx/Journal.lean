import Pnlx.Contracts.BatchSettlement
import Pnlx.Lib.Framing

/-!
# The journal of a batch

What a proof of the batch matcher makes public: field elements and amounts in twenty sections, of
which the lists have a count and eight slots. The matcher, the server and the contract each write a
journal as a byte string.

1. `Journal.bytes_inj`: the byte string determines the journal.
2. `publicInputBytes_eq`: the contract hashes the journal of its arguments.
-/

namespace Pnlx

open Framing

structure Journal where
  batchId : Fr
  marketId : Fr
  settlementDigest : Fr
  filledIntents : List Fr
  newCommitments : List Fr
  marginChangeCommitments : List Fr
  spentNullifiers : List Fr
  matchingPayloadCommitments : List Fr
  residualCommitments : List Fr
  residualMargins : List U128
  residualPayloadCommitments : List Fr
  residualSize : U128
  aggregateVolume : U128
  feeConfigHash : Fr
  grossTakerFee : U128
  makerRebate : U128
  insuranceFee : U128
  treasuryFee : U128
  makerIntents : List Fr
  takerIntents : List Fr
  deriving DecidableEq

namespace Journal

def maxItems : ℕ := 8

/-- Every list of the journal has at most eight items. -/
structure Fits (j : Journal) : Prop where
  filledIntents : j.filledIntents.length ≤ maxItems
  newCommitments : j.newCommitments.length ≤ maxItems
  marginChangeCommitments : j.marginChangeCommitments.length ≤ maxItems
  spentNullifiers : j.spentNullifiers.length ≤ maxItems
  matchingPayloadCommitments : j.matchingPayloadCommitments.length ≤ maxItems
  residualCommitments : j.residualCommitments.length ≤ maxItems
  residualMargins : j.residualMargins.length ≤ maxItems
  residualPayloadCommitments : j.residualPayloadCommitments.length ≤ maxItems
  makerIntents : j.makerIntents.length ≤ maxItems
  takerIntents : j.takerIntents.length ≤ maxItems

/-- The field element of a count. -/
def count (n : ℕ) : Fr := asField (BitVec.ofNat 128 n)

theorem count_injOn : Set.InjOn count {n | n ≤ maxItems} := by
  intro m hm n hn h
  have hval := congrArg BitVec.toNat (asField_injective h)
  have hlt (k : ℕ) (hk : k ≤ 8) : k % 2 ^ 128 = k := Nat.mod_eq_of_lt (by omega)
  rwa [BitVec.toNat_ofNat, BitVec.toNat_ofNat, hlt m hm, hlt n hn] at hval

/-- A count and eight slots. -/
def slots (values : List Fr) : List Fr := frame count 0 maxItems values

/-- The sections of the journal, one after the other. -/
def elements (j : Journal) : List Fr :=
  [j.batchId, j.marketId, j.settlementDigest] ++ (slots j.filledIntents ++
    (slots j.newCommitments ++ (slots j.marginChangeCommitments ++ (slots j.spentNullifiers ++
      (slots j.matchingPayloadCommitments ++ (slots j.residualCommitments ++
        (slots (j.residualMargins.map asField) ++ (slots j.residualPayloadCommitments ++
          ([asField j.residualSize, asField j.aggregateVolume, j.feeConfigHash,
            asField j.grossTakerFee, asField j.makerRebate, asField j.insuranceFee,
            asField j.treasuryFee] ++ (slots j.makerIntents ++ slots j.takerIntents))))))))))

def bytes (j : Journal) : Bytes := encodePublicInputs j.elements

theorem slots_append_inj {xs ys s t : List Fr} (hx : xs.length ≤ maxItems)
    (hy : ys.length ≤ maxItems) (h : slots xs ++ s = slots ys ++ t) : xs = ys ∧ s = t :=
  frame_append_inj count_injOn hx hy h

/-- The sections determine the journal. -/
theorem elements_inj {i j : Journal} (hi : i.Fits) (hj : j.Fits) (h : i.elements = j.elements) :
    i = j := by
  unfold elements at h
  obtain ⟨hhead, h⟩ := List.append_inj h rfl
  obtain ⟨hfilled, h⟩ := slots_append_inj hi.filledIntents hj.filledIntents h
  obtain ⟨hnew, h⟩ := slots_append_inj hi.newCommitments hj.newCommitments h
  obtain ⟨hchange, h⟩ := slots_append_inj hi.marginChangeCommitments hj.marginChangeCommitments h
  obtain ⟨hspent, h⟩ := slots_append_inj hi.spentNullifiers hj.spentNullifiers h
  obtain ⟨hpayload, h⟩ :=
    slots_append_inj hi.matchingPayloadCommitments hj.matchingPayloadCommitments h
  obtain ⟨hresidual, h⟩ := slots_append_inj hi.residualCommitments hj.residualCommitments h
  obtain ⟨hmargin, h⟩ := slots_append_inj (by rw [List.length_map]; exact hi.residualMargins)
    (by rw [List.length_map]; exact hj.residualMargins) h
  obtain ⟨hresidualPayload, h⟩ :=
    slots_append_inj hi.residualPayloadCommitments hj.residualPayloadCommitments h
  obtain ⟨hamounts, h⟩ := List.append_inj h rfl
  obtain ⟨hmaker, h⟩ := slots_append_inj hi.makerIntents hj.makerIntents h
  have htaker := frame_inj count_injOn hi.takerIntents hj.takerIntents h
  have hmargin := List.map_injective_iff.mpr asField_injective hmargin
  simp only [List.cons.injEq, and_true] at hhead hamounts
  obtain ⟨hbatch, hmarket, hdigest⟩ := hhead
  obtain ⟨hrest, hvolume, hconfig, hgross, hrebate, hinsurance, htreasury⟩ := hamounts
  obtain ⟨_, _, _, _, _, _, _, _, _, _, _, _, _, _, _, _, _, _, _, _⟩ := i
  obtain ⟨_, _, _, _, _, _, _, _, _, _, _, _, _, _, _, _, _, _, _, _⟩ := j
  rw [mk.injEq]
  exact ⟨hbatch, hmarket, hdigest, hfilled, hnew, hchange, hspent, hpayload, hresidual, hmargin,
    hresidualPayload, asField_injective hrest, asField_injective hvolume, hconfig,
    asField_injective hgross, asField_injective hrebate, asField_injective hinsurance,
    asField_injective htreasury, hmaker, htaker⟩

/-- The byte string determines the journal. -/
theorem bytes_inj {i j : Journal} (hi : i.Fits) (hj : j.Fits) (h : i.bytes = j.bytes) : i = j :=
  elements_inj hi hj (encodePublicInputs_injective h)

theorem encodePublicInputs_append (xs ys : List Fr) :
    encodePublicInputs (xs ++ ys) = encodePublicInputs xs ++ encodePublicInputs ys :=
  List.flatMap_append

/-- The sections as byte strings. -/
theorem bytes_eq (j : Journal) : j.bytes =
    fieldBe j.batchId ++ fieldBe j.marketId ++ fieldBe j.settlementDigest ++
      encodePublicInputs (slots j.filledIntents) ++ encodePublicInputs (slots j.newCommitments) ++
      encodePublicInputs (slots j.marginChangeCommitments) ++
      encodePublicInputs (slots j.spentNullifiers) ++
      encodePublicInputs (slots j.matchingPayloadCommitments) ++
      encodePublicInputs (slots j.residualCommitments) ++
      encodePublicInputs (slots (j.residualMargins.map asField)) ++
      encodePublicInputs (slots j.residualPayloadCommitments) ++ u128Be j.residualSize ++
      u128Be j.aggregateVolume ++ fieldBe j.feeConfigHash ++ u128Be j.grossTakerFee ++
      u128Be j.makerRebate ++ u128Be j.insuranceFee ++ u128Be j.treasuryFee ++
      encodePublicInputs (slots j.makerIntents) ++ encodePublicInputs (slots j.takerIntents) := by
  unfold bytes elements
  simp only [encodePublicInputs_append, List.append_assoc, u128Be_eq]
  simp only [encodePublicInputs, List.flatMap_cons, List.flatMap_nil, List.append_nil,
    List.append_assoc]

theorem encodePublicInputs_slots {values : List Fr} (h : values.length ≤ maxItems) :
    encodePublicInputs (slots values) = u128Be (BitVec.ofNat 128 values.length) ++
      (List.range maxItems).flatMap fun index => fieldBe (values.getD index 0) := by
  unfold slots frame encodePublicInputs
  rw [List.flatMap_cons, ← map_getD_range h, List.flatMap_map]
  rfl

end Journal

/-! ## The journal of the arguments of `settle` -/

/-- What the arguments of `settle` stand for. -/
def SettleArgs.journal (args : SettleArgs) : Journal where
  batchId := toField args.batchId
  marketId := toField args.marketId
  settlementDigest := toField args.settlementDigest
  filledIntents := args.filledIntents.map toField
  newCommitments := args.newCommitments.map toField
  marginChangeCommitments := args.marginChangeCommitments.map toField
  spentNullifiers := args.spentNullifiers.map toField
  matchingPayloadCommitments := args.matchingPayloadCommitments.map toField
  residualCommitments := args.residualCommitments.map toField
  residualMargins := args.residualMargins
  residualPayloadCommitments := args.residualPayloadCommitments.map toField
  residualSize := args.residual
  aggregateVolume := args.volume
  feeConfigHash := toField args.feeConfigHash
  grossTakerFee := args.grossTakerFee
  makerRebate := args.makerRebate
  insuranceFee := args.insuranceFee
  treasuryFee := args.treasuryFee
  makerIntents := args.makerIntents.map toField
  takerIntents := args.takerIntents.map toField

/-- The lists of the arguments have at most eight items. -/
structure SettleArgs.WithinCapacity (args : SettleArgs) : Prop where
  lists : ∀ l ∈ [args.filledIntents, args.newCommitments, args.marginChangeCommitments,
    args.spentNullifiers, args.matchingPayloadCommitments, args.residualCommitments,
    args.residualPayloadCommitments, args.makerIntents, args.takerIntents],
    l.length ≤ BatchSettlement.maxPublicItems
  margins : args.residualMargins.length ≤ BatchSettlement.maxPublicItems

theorem SettleArgs.WithinCapacity.fits {args : SettleArgs} (h : args.WithinCapacity) :
    args.journal.Fits := by
  have hl := h.lists
  simp only [List.mem_cons, List.not_mem_nil, or_false, forall_eq_or_imp, forall_eq] at hl
  obtain ⟨hfilled, hnew, hchange, hspent, hpayload, hresidual, hresidualPayload, hmaker, htaker⟩ := hl
  constructor <;> simp only [SettleArgs.journal, List.length_map]
  exacts [hfilled, hnew, hchange, hspent, hpayload, hresidual, h.margins, hresidualPayload, hmaker,
    htaker]

namespace BatchSettlement

open Journal

theorem publicVec_eq {values : List BytesN32} (h : values.length ≤ maxPublicItems) :
    publicVec values = encodePublicInputs (slots (values.map toField)) := by
  rw [encodePublicInputs_slots (by rw [List.length_map]; exact h), List.length_map]
  unfold publicVec
  refine congrArg _ (List.flatMap_congr fun index _ => ?_)
  show fieldBe (toField _) = fieldBe ((values.map toField).getD index (toField 0))
  rw [List.getD_map]

theorem publicAmounts_eq {values : List I128} (h : values.length ≤ maxPublicItems) :
    publicAmounts values = encodePublicInputs (slots (values.map asField)) := by
  rw [encodePublicInputs_slots (by rw [List.length_map]; exact h), List.length_map]
  unfold publicAmounts
  refine congrArg _ (List.flatMap_congr fun index _ => ?_)
  show fieldBe (asField _) = fieldBe ((values.map asField).getD index (asField 0))
  rw [List.getD_map]

/-- The contract hashes the journal of its arguments. -/
theorem publicInputBytes_eq {args : SettleArgs} (h : args.WithinCapacity) :
    publicInputBytes args = args.journal.bytes := by
  have hl := h.lists
  simp only [List.mem_cons, List.not_mem_nil, or_false, forall_eq_or_imp, forall_eq] at hl
  obtain ⟨hfilled, hnew, hchange, hspent, hpayload, hresidual, hresidualPayload, hmaker, htaker⟩ := hl
  unfold publicInputBytes
  rw [Journal.bytes_eq, publicVec_eq hfilled, publicVec_eq hnew, publicVec_eq hchange, publicVec_eq hspent,
    publicVec_eq hpayload, publicVec_eq hresidual, publicAmounts_eq h.margins,
    publicVec_eq hresidualPayload, publicVec_eq hmaker, publicVec_eq htaker]
  simp only [fieldBytes_eq]
  rfl

end BatchSettlement

end Pnlx
