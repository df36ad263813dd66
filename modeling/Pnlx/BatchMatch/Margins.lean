import Pnlx.BatchMatch.Trading

/-!
# Fees and margins of a match

The maker of a crossing gets its rebate and the taker pays the gross fee. `Allocated` says what the
orders have allocated when the sums of the build are checked, and how the fees are divided.

1. `marginAfterFee_rebate`, `marginAfterFee_fee`: the margin of a fill, in every build.
2. `Allocated.cross`: a round preserves the shares of the orders.
3. `matchLoop_allocated`: the loop establishes them.
-/

namespace Pnlx.BatchMatch

variable {H : Host} {k : Checks} {market : MarketInput}

/-! ## Sums -/

section Sums

variable {α : Type}

def sumOf (f : α → U128) (l : List α) : ℕ := (l.map fun a => (f a).toNat).sum

theorem sumOf_cons (f : α → U128) (a : α) (l : List α) :
    sumOf f (a :: l) = (f a).toNat + sumOf f l := by
  unfold sumOf
  rw [List.map_cons, List.sum_cons]

theorem sumOf_perm (f : α → U128) {l l' : List α} (h : List.Perm l l') : sumOf f l = sumOf f l' :=
  (h.map _).sum_eq

/-- The total of the fees of the executions. -/
theorem totalFees_exact (hs : k.sums = true) {executions : List Execution} {fees fees' : FillFees}
    (h : executions.foldlM (addFees k) fees = some fees') :
    fees'.insurance.toNat = fees.insurance.toNat + sumOf (·.insurance) executions ∧
      fees'.treasury.toNat = fees.treasury.toNat + sumOf (·.treasury) executions ∧
      fees'.grossTakerFee.toNat = fees.grossTakerFee.toNat + sumOf (·.grossTakerFee) executions ∧
      fees'.makerRebate.toNat = fees.makerRebate.toNat + sumOf (·.makerRebate) executions := by
  induction executions generalizing fees with
  | nil =>
    obtain rfl := Option.some.inj h
    exact ⟨rfl, rfl, rfl, rfl⟩
  | cons execution executions ih =>
    rw [List.foldlM_cons] at h
    obtain ⟨next, hnext, h⟩ := Option.bind_eq_some_iff.mp h
    obtain ⟨hinsurance, htreasury, hgross, hrebate⟩ := ih h
    unfold addFees at hnext
    simp only [Option.bind_eq_bind, Option.bind_eq_some_iff, Option.some.injEq] at hnext
    obtain ⟨gross, hg, rebate, hr, insurance, hi, treasury, ht, rfl⟩ := hnext
    have hg := (toNat_add_eq hs hg).2
    have hr := (toNat_add_eq hs hr).2
    have hi := (toNat_add_eq hs hi).2
    have ht := (toNat_add_eq hs ht).2
    rw [sumOf_cons, sumOf_cons, sumOf_cons, sumOf_cons]
    simp only at hinsurance htreasury hgross hrebate
    omega

end Sums

/-! ## The margin of a fill -/

section Fee

variable {size price margin margin' fee : U128} {fees : FillFees}

/-- Fees are far below the range of `i128`. -/
theorem fillFees_lt (h : fillFees k size price = some fees) :
    fees.grossTakerFee.toNat < 2 ^ 127 ∧ fees.makerRebate.toNat < 2 ^ 127 := by
  unfold fillFees at h
  simp only [Option.bind_eq_bind, Option.bind_eq_some_iff, Option.some.injEq] at h
  obtain ⟨value, -, takerFee, -, rebate, -, insuranceFee, -, _, -, _, -, rfl⟩ := h
  have hlt (x : U128) : (x / rateScale).toNat < 2 ^ 127 := by
    rw [BitVec.toNat_udiv]
    have hx := x.isLt
    show x.toNat / 1000000 < 2 ^ 127
    omega
  exact ⟨hlt takerFee, hlt rebate⟩

theorem toInt_neg_of_lt (h : fee.toNat < 2 ^ 127) : (-fee).toInt = -fee.toNat := by
  rw [BitVec.toInt_neg, toInt_of_lt h, Int.bmod_def]
  omega

theorem marginAfterFee_rebate (h : fee.toNat < 2 ^ 127) :
    marginAfterFee k margin fee = some margin' ↔ margin'.toNat = margin.toNat + fee.toNat := by
  have hint := toInt_of_lt h
  unfold marginAfterFee asU128
  rw [if_neg (by omega), guarded_eq_some.mpr ⟨fun _ => by omega, rfl⟩]
  exact checkedAdd_eq_some

theorem marginAfterFee_fee (h : fee.toNat < 2 ^ 127) :
    marginAfterFee k margin (-fee) = some margin' ↔ margin'.toNat + fee.toNat = margin.toNat := by
  have hint := toInt_neg_of_lt h
  by_cases hzero : fee.toNat = 0
  · have hfee : fee = 0 := BitVec.eq_of_toNat_eq hzero
    rw [hfee, show (-0 : U128) = 0 from rfl, marginAfterFee_rebate (by decide)]
    show margin'.toNat = margin.toNat + 0 ↔ margin'.toNat + 0 = margin.toNat
    omega
  · have habs : (-fee).abs = fee := by
      unfold BitVec.abs
      rw [BitVec.msb_eq_toInt, hint, if_pos (by simpa using by omega)]
      exact BitVec.neg_neg
    unfold marginAfterFee
    rw [if_pos (by omega), habs]
    exact checkedSub_eq_some

theorem feeDeltas_eq_some {longMaker : Prop} [Decidable longMaker] {deltas : I128 × I128}
    (h : feeDeltas k fees longMaker = some deltas) :
    deltas = if longMaker then (fees.makerRebate, -fees.grossTakerFee)
      else (-fees.grossTakerFee, fees.makerRebate) := by
  unfold feeDeltas at h
  simp only [Option.bind_eq_bind, Option.bind_eq_some_iff, Option.some.injEq] at h
  obtain ⟨rebate, hrebate, gross, hgross, fee, hfee, rfl⟩ := h
  obtain ⟨-, rfl⟩ := guarded_eq_some.mp hrebate
  obtain ⟨-, rfl⟩ := guarded_eq_some.mp hgross
  obtain ⟨-, rfl⟩ := guarded_eq_some.mp hfee
  rfl

end Fee

/-! ## Checked sums -/

section Checked

variable {order : BookOrder} {size price : U128}

/-- The margin that belongs to what is filled of an order, rounded up. -/
def share (margin filled size : ℕ) : ℕ := (margin * filled + size - 1) / size

theorem share_all {margin size : ℕ} (h : 0 < size) : share margin size size = margin := by
  unfold share
  rw [Nat.add_sub_assoc h, Nat.mul_comm, Nat.mul_add_div h, Nat.div_eq_of_lt (by omega),
    Nat.add_zero]

/-- The gross fee is divided without rest. -/
theorem fillFees_split (hk : k.sums = true) {fees : FillFees} (h : fillFees k size price = some fees) :
    fees.grossTakerFee.toNat = fees.makerRebate.toNat + fees.insurance.toNat + fees.treasury.toNat := by
  unfold fillFees at h
  simp only [Option.bind_eq_bind, Option.bind_eq_some_iff, Option.some.injEq] at h
  obtain ⟨value, -, takerFee, -, rebate, -, insuranceFee, -, rest, hrest, treasury, htreasury, rfl⟩ := h
  have hrest := toNat_sub_eq hk hrest
  have htreasury := toNat_sub_eq hk htreasury
  show (takerFee / rateScale).toNat = (rebate / rateScale).toNat + (insuranceFee / rateScale).toNat +
    treasury.toNat
  omega

/-- With checked products and sums an order allocates its share, and a fill gets the difference. -/
theorem allocateMargin_exact (hp : k.products = true) (hs : k.sums = true) {margin : U128}
    {filled : BookOrder} (h : allocateMargin k order size = some (margin, filled)) :
    (allocatedAfter order size).toNat =
        share order.margin.toNat (order.filled + size).toNat order.size.toNat ∧
      (fillMargin order size).toNat + order.allocatedMargin.toNat =
        (allocatedAfter order size).toNat := by
  unfold allocateMargin at h
  simp only [Option.bind_eq_bind, Option.bind_eq_some_iff, Option.some.injEq, Prod.mk.injEq] at h
  obtain ⟨nextFilled, hfilled, value, hvalue, allocated, hallocated, margin, hmargin, -, -⟩ := h
  unfold ceilDiv at hallocated
  simp only [Option.bind_eq_bind, Option.bind_eq_some_iff, Option.some.injEq] at hallocated
  obtain ⟨total, htotal, numerator, hnumerator, rfl⟩ := hallocated
  obtain ⟨-, rfl⟩ := guarded_eq_some.mp hfilled
  have hvalue' := (toNat_mul_eq hp hvalue).2
  have htotal' := (toNat_add_eq hs htotal).2
  have hnumerator' := toNat_sub_eq hs hnumerator
  have hmargin' := toNat_sub_eq hs hmargin
  obtain ⟨-, rfl⟩ := guarded_eq_some.mp hvalue
  obtain ⟨-, rfl⟩ := guarded_eq_some.mp htotal
  obtain ⟨-, rfl⟩ := guarded_eq_some.mp hnumerator
  obtain ⟨-, rfl⟩ := guarded_eq_some.mp hmargin
  refine ⟨?_, hmargin'⟩
  unfold allocatedAfter share
  rw [BitVec.toNat_udiv, ← hvalue', ← htotal', ← hnumerator']
  rfl

end Checked

/-! ## The shares of the orders -/

/-- What the orders of the book have allocated, and how the fees of the trades are divided. -/
structure Allocated (book : Book) (trades : List Trade) : Prop where
  share : ∀ order ∈ book.longs.all ++ book.shorts.all, order.allocatedMargin.toNat =
    share order.margin.toNat order.filled.toNat order.size.toNat
  fees : ∀ trade ∈ trades, trade.execution.grossTakerFee.toNat =
    trade.execution.makerRebate.toNat + trade.execution.insurance.toNat +
      trade.execution.treasury.toNat

section Allocated

variable {orders : List BookOrder} {book : Book} {trades : List Trade}

theorem Allocated.start (ho : Admitted orders) : Allocated (sortedBook orders) [] := by
  refine ⟨fun order hmem => ?_, fun trade hmem => absurd hmem List.not_mem_nil⟩
  have hmem := sortedBook_perm.mem_iff.mp hmem
  have hpos : 0 < order.size.toNat := Nat.pos_of_ne_zero fun h =>
    ho.size_ne order hmem (BitVec.eq_of_toNat_eq h)
  rw [← ho.fresh order hmem]
  show 0 = (order.margin.toNat * 0 + order.size.toNat - 1) / order.size.toNat
  rw [Nat.div_eq_of_lt (by omega)]

/-- A round preserves the shares. -/
theorem Allocated.cross (hp : k.products = true) (hs : k.sums = true) (h : Allocated book trades)
    {long short : BookOrder} {trade : Trade} {fees : FillFees} {deltas : I128 × I128}
    (hround : Crosses H k market book.fills.length long short trade fees deltas) :
    Allocated (book.cross long short trade) (trades ++ [trade]) := by
  obtain ⟨_, hlongAllocated⟩ := hround.longFill.allocated
  obtain ⟨_, hshortAllocated⟩ := hround.shortFill.allocated
  refine ⟨fun order hmem => ?_, fun t ht => ?_⟩
  · rcases List.mem_append.mp hmem with hmem | hmem
    · rcases Cursor.mem_all_put.mp hmem with rfl | hother
      · exact (allocateMargin_exact hp hs hlongAllocated).1
      · exact h.share order (List.mem_append_left _ (Cursor.mem_all_of_others hother))
    · rcases Cursor.mem_all_put.mp hmem with rfl | hother
      · exact (allocateMargin_exact hp hs hshortAllocated).1
      · exact h.share order (List.mem_append_right _ (Cursor.mem_all_of_others hother))
  · rcases List.mem_append.mp ht with ht | ht
    · exact h.fees t ht
    · rw [List.mem_singleton.mp ht, hround.execution]
      exact fillFees_split hs hround.charged

/-- The loop establishes them. -/
theorem matchLoop_allocated (hp : k.products = true) (hs : k.sums = true) (ho : Admitted orders)
    (h : matchLoop H k market (sortedBook orders) = some book) :
    ∃ trades, Trading H k market orders book trades ∧ Allocated book trades := by
  refine loop_inv (I := fun book => ∃ trades, Trading H k market orders book trades ∧
    Allocated book trades) ?_ ⟨[], Trading.start ho, Allocated.start ho⟩ h
  rintro book ⟨long, short⟩ book' ⟨trades, htrading, hallocated⟩ hcrossed hround
  obtain ⟨trade, fees, deltas, hcross, rfl⟩ := matchPair_eq_some.mp hround
  exact ⟨trades ++ [trade], htrading.cross ho hcrossed hcross, hallocated.cross hp hs hcross⟩

end Allocated

end Pnlx.BatchMatch
