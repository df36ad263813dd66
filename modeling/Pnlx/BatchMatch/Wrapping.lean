import Pnlx.BatchMatch.Exact

/-!
# Margins whose sums wrap

Where no product overflows, the sum in `ceil_div` can still wrap. An order has then allocated
nothing (`Multiplied.allocatedMargin`). A fill with which this begins gets `2 ^ 128` too much
(`Drops`), and an order that ends there loses its margin (`Loses`). Nothing else of the margins and
fees of a round wraps.

1. `fillMargin_add`: the margin of a fill, from what its order has allocated before and after it.
2. `Tallied.cross`: a round preserves the balance of margins, fees, drops and losses.
-/

namespace Pnlx.BatchMatch

variable {H : Host} {k : Checks} {market : MarketInput}

/-! ## One order -/

/-- What every build has allocated of an order. -/
def AllocatedWrapping (order : BookOrder) : Prop :=
  order.allocatedMargin = (order.margin * order.filled + order.size - 1) / order.size

/-- The sum of `ceil_div` wraps when `filled` of the order is filled. -/
def Wraps (order : BookOrder) (filled : ℕ) : Prop :=
  2 ^ 128 < order.margin.toNat * filled + order.size.toNat

instance (order : BookOrder) (filled : ℕ) : Decidable (Wraps order filled) :=
  inferInstanceAs (Decidable (_ < _))

/-- A fill with which the sum begins to wrap, of an order that has allocated something. -/
def Drops (order : BookOrder) (size : U128) : Prop :=
  order.filled.toNat ≠ 0 ∧ ¬ Wraps order order.filled.toNat ∧
    Wraps order (order.filled.toNat + size.toNat)

/-- A fill that ends its order where the sum wraps. -/
def Loses (order : BookOrder) (size : U128) : Prop :=
  order.remaining = size ∧ Wraps order (order.filled.toNat + size.toNat)

instance (order : BookOrder) (size : U128) : Decidable (Drops order size) := by
  unfold Drops; infer_instance

instance (order : BookOrder) (size : U128) : Decidable (Loses order size) := by
  unfold Loses; infer_instance

/-- What the loop keeps of an order whose products do not overflow. -/
structure Multiplied (order : BookOrder) : Prop where
  pos : 0 < order.size.toNat
  left : order.filled.toNat + order.remaining.toNat = order.size.toNat
  product : order.margin.toNat * order.filled.toNat < 2 ^ 128
  allocated : AllocatedWrapping order

section Order

variable {order : BookOrder} {size : U128}

theorem toNat_allocatedWrapping (h : AllocatedWrapping order) (hsize : 0 < order.size.toNat) :
    order.allocatedMargin.toNat =
      (order.margin.toNat * order.filled.toNat + order.size.toNat - 1) % 2 ^ 128 /
        order.size.toNat := by
  have hone : (1 : U128).toNat = 1 := rfl
  rw [h, BitVec.toNat_udiv, BitVec.toNat_sub, BitVec.toNat_add, BitVec.toNat_mul, hone]
  congr 1
  omega

theorem AllocatedWrapping.of_fresh (hfresh : fresh order = order) (hsize : order.size.toNat ≠ 0) :
    AllocatedWrapping order := by
  unfold AllocatedWrapping
  rw [← hfresh]
  refine BitVec.eq_of_toNat_eq ?_
  show 0 = ((order.margin * 0#128 + order.size - 1) / order.size).toNat
  rw [BitVec.mul_zero, BitVec.zero_add, BitVec.toNat_udiv,
    toNat_sub_of_le (show (1 : U128).toNat ≤ _ from Nat.one_le_iff_ne_zero.mpr hsize)]
  exact (Nat.div_eq_of_lt (Nat.sub_lt (Nat.pos_of_ne_zero hsize) Nat.one_pos)).symm

theorem Multiplied.of_fresh (hfresh : fresh order = order) (hsize : order.size ≠ 0) :
    Multiplied order := by
  have hne : order.size.toNat ≠ 0 := fun hzero => hsize (BitVec.eq_of_toNat_eq hzero)
  refine ⟨Nat.pos_of_ne_zero hne, ?_, ?_, AllocatedWrapping.of_fresh hfresh hne⟩
  · rw [← hfresh]
    exact Nat.zero_add _
  · rw [← hfresh]
    show order.margin.toNat * 0 < _
    omega

/-- More of an order is filled and wraps no less. -/
theorem Wraps.mono {filled filled' : ℕ} (h : Wraps order filled) (hle : filled ≤ filled') :
    Wraps order filled' := by
  have hmul := Nat.mul_le_mul_left order.margin.toNat hle
  unfold Wraps at h ⊢
  omega

theorem not_wraps_zero (order : BookOrder) : ¬ Wraps order 0 := by
  have hlt := order.size.isLt
  unfold Wraps
  omega

/-- An order has allocated its share, or nothing once its sum wraps. -/
theorem Multiplied.allocatedMargin (h : Multiplied order) : order.allocatedMargin.toNat =
    if Wraps order order.filled.toNat then 0
    else share order.margin.toNat order.filled.toNat order.size.toNat := by
  have hpos := h.pos
  have hproduct := h.product
  have hlt := order.size.isLt
  rw [toNat_allocatedWrapping h.allocated hpos]
  by_cases hwraps : Wraps order order.filled.toNat
  · rw [if_pos hwraps]
    unfold Wraps at hwraps
    -- the wrapped sum is below the size of the order
    exact Nat.div_eq_of_lt (by omega)
  · rw [if_neg hwraps, share]
    unfold Wraps at hwraps
    rw [Nat.mod_eq_of_lt (by omega)]

theorem Multiplied.le_margin (h : Multiplied order) :
    order.allocatedMargin.toNat ≤ order.margin.toNat := by
  rw [h.allocatedMargin]
  split_ifs
  · exact Nat.zero_le _
  · refine (share_le_share (Nat.le.intro h.left)).trans ?_
    rw [share_all h.pos]

/-- A fill whose product does not overflow. -/
theorem Multiplied.filledBy (h : Multiplied order) (hsize : size.toNat ≤ order.remaining.toNat)
    (hproduct : order.margin.toNat * (order.filled + size).toNat < 2 ^ 128) :
    Multiplied (filledBy order size) where
  pos := h.pos
  left := by
    have hleft := h.left
    have hlt := order.size.isLt
    show (order.filled + size).toNat + (order.remaining - size).toNat = order.size.toNat
    rw [toNat_add_of_lt (by omega), toNat_sub_of_le hsize]
    omega
  product := hproduct
  allocated := rfl

/-- What is filled of an order after a fill. -/
theorem Multiplied.toNat_filled (h : Multiplied order) (hsize : size.toNat ≤ order.remaining.toNat) :
    (BatchMatch.filledBy order size).filled.toNat = order.filled.toNat + size.toNat := by
  have hleft := h.left
  have hlt := order.size.isLt
  exact toNat_add_of_lt (by omega)

/-- The margin of a fill is the change of what its order has allocated, unless it drops. -/
theorem fillMargin_add (h : Multiplied order) (hsize : size.toNat ≤ order.remaining.toNat)
    (hnext : Multiplied (filledBy order size)) :
    (fillMargin order size).toNat + order.allocatedMargin.toNat =
      (allocatedAfter order size).toNat + if Drops order size then 2 ^ 128 else 0 := by
  have hbefore := h.allocatedMargin
  have hafter : (allocatedAfter order size).toNat = _ := hnext.allocatedMargin
  rw [h.toNat_filled hsize, show (filledBy order size).size = order.size from rfl,
    show (filledBy order size).margin = order.margin from rfl] at hafter
  have hwraps : Wraps (filledBy order size) (order.filled.toNat + size.toNat) ↔
      Wraps order (order.filled.toNat + size.toNat) := Iff.rfl
  have hlt := order.allocatedMargin.isLt
  unfold fillMargin
  rw [BitVec.toNat_sub]
  by_cases hold : Wraps order order.filled.toNat
  · have hnew := hold.mono (Nat.le_add_right _ size.toNat)
    rw [if_pos hold] at hbefore
    rw [if_pos (hwraps.mpr hnew)] at hafter
    rw [if_neg fun hdrops => hdrops.2.1 hold, hbefore, hafter]
  rw [if_neg hold] at hbefore
  by_cases hnew : Wraps order (order.filled.toNat + size.toNat)
  · rw [if_pos (hwraps.mpr hnew)] at hafter
    by_cases hzero : order.filled.toNat = 0
    · have hshare : order.allocatedMargin.toNat = 0 := by
        rw [hbefore, hzero]
        exact Nat.div_eq_of_lt (by have := h.pos; omega)
      rw [if_neg fun hdrops => hdrops.1 hzero, hshare, hafter]
    · have hmargin : 0 < order.margin.toNat := by
        refine Nat.pos_of_ne_zero fun hmargin => not_wraps_zero order ?_
        unfold Wraps at hnew ⊢
        rwa [hmargin, Nat.zero_mul] at hnew ⊢
      have hpos : 0 < order.allocatedMargin.toNat := by
        rw [hbefore]
        have hmul := Nat.mul_pos hmargin (Nat.pos_of_ne_zero hzero)
        exact Nat.div_pos (by omega) h.pos
      rw [if_pos ⟨hzero, hold, hnew⟩, hafter]
      omega
  · rw [if_neg (fun hwrap => hnew (hwraps.mp hwrap))] at hafter
    have hle : order.allocatedMargin.toNat ≤ (allocatedAfter order size).toNat := by
      rw [hbefore, hafter]
      exact share_le_share (Nat.le_add_right _ _)
    have hlt' := (allocatedAfter order size).isLt
    rw [if_neg fun hdrops => hnew hdrops.2.2]
    omega

end Order

/-! ## The orders that are crossed -/

/-- The orders that the rounds of the release build cross, each as its round finds it. -/
def crossings (H : Host) (market : MarketInput) (orders : List BookOrder) :
    List (BookOrder × BookOrder) :=
  worked Book.crossed (fun book pair => matchPair H .release market book pair.1 pair.2)
    (sortedBook orders).rounds (sortedBook orders)

/-- The value that a crossing of two orders trades. -/
def valueCrossed (pair : BookOrder × BookOrder) : ℕ :=
  valueOf (crossingSize pair.1 pair.2) (executionPrice pair.1 pair.2)

def insuranceOf (pair : BookOrder × BookOrder) : ℕ := valueCrossed pair * 100 / 1000000

/-- What a crossing leaves to the treasury. -/
def treasuryOf (pair : BookOrder × BookOrder) : ℕ :=
  valueCrossed pair * 500 / 1000000 - valueCrossed pair * 150 / 1000000 - insuranceOf pair

/-- How many fills of a crossing drop. -/
def dropsOf (pair : BookOrder × BookOrder) : ℕ :=
  (if Drops pair.1 (crossingSize pair.1 pair.2) then 1 else 0) +
    if Drops pair.2 (crossingSize pair.1 pair.2) then 1 else 0

/-- The margins of the orders that lose theirs in a crossing. -/
def lostOf (pair : BookOrder × BookOrder) : ℕ :=
  (if Loses pair.1 (crossingSize pair.1 pair.2) then pair.1.margin.toNat else 0) +
    if Loses pair.2 (crossingSize pair.1 pair.2) then pair.2.margin.toNat else 0

/-- The margin that an order has lost. -/
def lostBy (order : BookOrder) : ℕ :=
  if order.remaining.toNat = 0 ∧ Wraps order order.filled.toNat then order.margin.toNat else 0

/-- What the fills have got of the margins of the orders that are crossed. -/
structure Tallied (book : Book) (trades : List Trade) (crossed : List (BookOrder × BookOrder)) :
    Prop where
  orders : ∀ order ∈ book.longs.all ++ book.shorts.all, Multiplied order
  margins : (trades.map fun trade =>
      trade.longFill.margin.toNat + trade.shortFill.margin.toNat).sum +
      (trades.map fun trade =>
        trade.execution.insurance.toNat + trade.execution.treasury.toNat).sum =
    (book.longs.all.map (·.allocatedMargin.toNat)).sum +
      (book.shorts.all.map (·.allocatedMargin.toNat)).sum + 2 ^ 128 * (crossed.map dropsOf).sum
  lost : (book.longs.all.map lostBy).sum + (book.shorts.all.map lostBy).sum =
    (crossed.map lostOf).sum
  insurance : (trades.map (·.execution.insurance.toNat)).sum = (crossed.map insuranceOf).sum
  treasury : (trades.map (·.execution.treasury.toNat)).sum = (crossed.map treasuryOf).sum
  fees : ∀ trade ∈ trades, trade.execution.grossTakerFee.toNat =
    trade.execution.makerRebate.toNat + trade.execution.insurance.toNat +
      trade.execution.treasury.toNat

section Crossed

variable {orders : List BookOrder} {book : Book} {trades : List Trade}
  {crossed : List (BookOrder × BookOrder)}

theorem Tallied.start (ho : Admitted orders) : Tallied (sortedBook orders) [] [] := by
  have hmultiplied : ∀ order ∈ orders, Multiplied order := fun order hmem =>
    .of_fresh (ho.fresh order hmem) (ho.size_ne order hmem)
  have hzero {l : List BookOrder} (hl : ∀ order ∈ l, order ∈ orders) :
      (l.map (·.allocatedMargin.toNat)).sum = 0 ∧ (l.map lostBy).sum = 0 := by
    refine ⟨List.sum_eq_zero fun n hn => ?_, List.sum_eq_zero fun n hn => ?_⟩
    · obtain ⟨order, hmem, rfl⟩ := List.mem_map.mp hn
      rw [← ho.fresh order (hl order hmem)]
      rfl
    · obtain ⟨order, hmem, rfl⟩ := List.mem_map.mp hn
      rw [← ho.fresh order (hl order hmem)]
      exact if_neg fun hlost => not_wraps_zero (fresh order) hlost.2
  have hlongs := hzero (l := (sortedBook orders).longs.all)
    fun order hmem => (mem_sortedBook_longs.mp hmem).1
  have hshorts := hzero (l := (sortedBook orders).shorts.all)
    fun order hmem => (mem_sortedBook_shorts.mp hmem).1
  refine ⟨fun order hmem => hmultiplied order (sortedBook_perm.mem_iff.mp hmem), ?_, ?_, rfl, rfl,
    fun trade hmem => absurd hmem List.not_mem_nil⟩
  · rw [hlongs.1, hshorts.1]
    rfl
  · rw [hlongs.2, hshorts.2]
    rfl

/-- The product of a fill does not overflow. -/
theorem Fills.product_lt (hp : k.products = true) {order : BookOrder} {size price : U128}
    {fillIndex : ℕ} {feeDelta : I128} {fill : Fill}
    (h : Fills H k market order size price fillIndex feeDelta fill) :
    order.margin.toNat * (order.filled + size).toNat < 2 ^ 128 := by
  obtain ⟨filled, hallocate⟩ := h.allocated
  unfold allocateMargin at hallocate
  simp only [Option.bind_eq_bind, Option.bind_eq_some_iff] at hallocate
  obtain ⟨nextFilled, hnextFilled, value, hvalue, -⟩ := hallocate
  obtain ⟨-, rfl⟩ := guarded_eq_some.mp hnextFilled
  exact (toNat_mul_eq hp hvalue).1

/-- The margins of a trade and its costs are the margins of its fills. -/
theorem Crosses.balance (hp : k.products = true) {fillIndex : ℕ} {long short : BookOrder}
    {trade : Trade} {fees : FillFees} {deltas : I128 × I128}
    (h : Crosses H k market fillIndex long short trade fees deltas) :
    trade.longFill.margin.toNat + trade.shortFill.margin.toNat +
        (trade.execution.insurance.toNat + trade.execution.treasury.toNat) =
      (fillMargin long (crossingSize long short)).toNat +
        (fillMargin short (crossingSize long short)).toNat := by
  obtain ⟨hgross, hrebate⟩ := fillFees_lt h.charged
  obtain ⟨-, -, -, hsplit⟩ := fillFees_eq hp h.charged
  have hlong := h.longFill.margin
  have hshort := h.shortFill.margin
  rw [feeDeltas_eq_some h.shared] at hlong hshort
  rw [h.execution]
  show _ + _ + (fees.insurance.toNat + fees.treasury.toNat) = _
  split_ifs at hlong hshort with hmaker
  · rw [marginAfterFee_rebate hrebate] at hlong
    rw [marginAfterFee_fee hgross] at hshort
    omega
  · rw [marginAfterFee_fee hgross] at hlong
    rw [marginAfterFee_rebate hrebate] at hshort
    omega

/-- What an order loses with a fill. -/
theorem lostBy_filledBy {order : BookOrder} {size : U128} (h : Multiplied order)
    (hsize : size.toNat ≤ order.remaining.toNat) :
    lostBy (filledBy order size) = if Loses order size then order.margin.toNat else 0 := by
  have hremaining : (filledBy order size).remaining.toNat = order.remaining.toNat - size.toNat :=
    toNat_sub_of_le hsize
  have hended : (filledBy order size).remaining.toNat = 0 ↔ order.remaining = size := by
    rw [hremaining, BitVec.toNat_eq]
    omega
  have hwraps : Wraps (filledBy order size) (filledBy order size).filled.toNat ↔
      Wraps order (order.filled.toNat + size.toNat) := by
    rw [h.toNat_filled hsize]
    exact Iff.rfl
  have hlost : ((filledBy order size).remaining.toNat = 0 ∧
      Wraps (filledBy order size) (filledBy order size).filled.toNat) ↔ Loses order size :=
    and_congr hended hwraps
  unfold lostBy
  exact if_congr hlost rfl rfl

/-- An order that is not ended has lost nothing. -/
theorem lostBy_of_remaining {order : BookOrder} (h : order.remaining ≠ 0) : lostBy order = 0 :=
  if_neg fun hlost => h (BitVec.eq_of_toNat_eq hlost.1)

/-- The two orders of a round whose products do not overflow. -/
theorem Crosses.multiplied (hp : k.products = true) {fillIndex : ℕ} {long short : BookOrder}
    {trade : Trade} {fees : FillFees} {deltas : I128 × I128} (hlong : Multiplied long)
    (hshort : Multiplied short) (h : Crosses H k market fillIndex long short trade fees deltas) :
    Multiplied (filledBy long (crossingSize long short)) ∧
      Multiplied (filledBy short (crossingSize long short)) :=
  ⟨hlong.filledBy (crossingSize_le long short).1 (h.longFill.product_lt hp),
    hshort.filledBy (crossingSize_le long short).2 (h.shortFill.product_lt hp)⟩

theorem Tallied.long (h : Tallied book trades crossed) {long : BookOrder} {longs : List BookOrder}
    (hlong : book.longs.after = long :: longs) : Multiplied long :=
  h.orders long (List.mem_append_left _ (Cursor.mem_all hlong))

theorem Tallied.short (h : Tallied book trades crossed) {short : BookOrder}
    {shorts : List BookOrder} (hshort : book.shorts.after = short :: shorts) : Multiplied short :=
  h.orders short (List.mem_append_right _ (Cursor.mem_all hshort))

/-- A round preserves the tally. -/
theorem Tallied.cross (hp : k.products = true) (h : Tallied book trades crossed)
    (htrading : Trading H k market orders book trades) {long short : BookOrder}
    (hcrossed : book.crossed = some (long, short)) {trade : Trade} {fees : FillFees}
    {deltas : I128 × I128}
    (hround : Crosses H k market book.fills.length long short trade fees deltas) :
    Tallied (book.cross long short trade) (trades ++ [trade]) (crossed ++ [(long, short)]) := by
  obtain ⟨longs, shorts, hlong, hshort, -⟩ := Book.crossed_eq_some hcrossed
  obtain ⟨hlongLe, hshortLe⟩ := crossingSize_le long short
  obtain ⟨hlongNext, hshortNext⟩ := hround.multiplied hp (h.long hlong) (h.short hshort)
  obtain ⟨hgross, hrebate, hinsurance, hsplit⟩ := fillFees_eq hp hround.charged
  refine ⟨?_, ?_, ?_, ?_, ?_, ?_⟩
  · have hlongs : ∀ order ∈ book.longs.all, Multiplied order := fun order hmem =>
      h.orders order (List.mem_append_left _ hmem)
    have hshorts : ∀ order ∈ book.shorts.all, Multiplied order := fun order hmem =>
      h.orders order (List.mem_append_right _ hmem)
    intro order hmem
    rcases List.mem_append.mp hmem with hmem | hmem
    · exact Cursor.forall_all_put hlongs hlongNext _ order hmem
    · exact Cursor.forall_all_put hshorts hshortNext _ order hmem
  · have hlongs := Cursor.sum_map_all_put hlong (filledBy long (crossingSize long short))
      (long.remaining - crossingSize long short = 0) (·.allocatedMargin.toNat)
    have hshorts := Cursor.sum_map_all_put hshort (filledBy short (crossingSize long short))
      (short.remaining - crossingSize long short = 0) (·.allocatedMargin.toNat)
    have hlongFill := fillMargin_add (h.long hlong) hlongLe hlongNext
    have hshortFill := fillMargin_add (h.short hshort) hshortLe hshortNext
    have hmargins := h.margins
    have htrade := hround.balance hp
    have hdrops : dropsOf (long, short) =
        (if Drops long (crossingSize long short) then 1 else 0) +
          if Drops short (crossingSize long short) then 1 else 0 := rfl
    rw [List.map_append, List.map_append, List.map_append, List.sum_append, List.sum_append,
      List.sum_append]
    simp only [List.map_cons, List.map_nil, List.sum_cons, List.sum_nil]
    simp only [Book.cross, filledBy] at hlongs hshorts ⊢
    split_ifs at hlongFill hshortFill hdrops <;> omega
  · have hlongs := Cursor.sum_map_all_put hlong (filledBy long (crossingSize long short))
      (long.remaining - crossingSize long short = 0) lostBy
    have hshorts := Cursor.sum_map_all_put hshort (filledBy short (crossingSize long short))
      (short.remaining - crossingSize long short = 0) lostBy
    have hlost := h.lost
    rw [lostBy_of_remaining (htrading.longOrder.current long (by rw [hlong]; rfl)),
      lostBy_filledBy (h.long hlong) hlongLe] at hlongs
    rw [lostBy_of_remaining (htrading.shortOrder.current short (by rw [hshort]; rfl)),
      lostBy_filledBy (h.short hshort) hshortLe] at hshorts
    rw [List.map_append, List.sum_append, List.map_singleton, List.sum_singleton]
    simp only [Book.cross]
    show _ = _ + ((if Loses long (crossingSize long short) then long.margin.toNat else 0) +
      if Loses short (crossingSize long short) then short.margin.toNat else 0)
    omega
  · rw [List.map_append, List.map_append, List.sum_append, List.sum_append, h.insurance,
      List.map_singleton, List.map_singleton, List.sum_singleton, List.sum_singleton,
      hround.execution]
    exact congrArg (_ + ·) hinsurance
  · have htreasury : fees.treasury.toNat = treasuryOf (long, short) := by
      show _ = valueOf (crossingSize long short) (executionPrice long short) * 500 / 1000000 -
        valueOf (crossingSize long short) (executionPrice long short) * 150 / 1000000 -
          valueOf (crossingSize long short) (executionPrice long short) * 100 / 1000000
      omega
    rw [List.map_append, List.map_append, List.sum_append, List.sum_append, h.treasury,
      List.map_singleton, List.map_singleton, List.sum_singleton, List.sum_singleton,
      hround.execution]
    exact congrArg (_ + ·) htreasury
  · intro t ht
    rcases List.mem_append.mp ht with ht | ht
    · exact h.fees t ht
    · rw [List.mem_singleton.mp ht, hround.execution]
      exact hsplit

/-- A build whose loop returns crosses the orders that the release build crosses. -/
theorem crossings_eq (h : matchLoop H k market (sortedBook orders) = some book) :
    worked Book.crossed (fun book pair => matchPair H k market book pair.1 pair.2)
      (sortedBook orders).rounds (sortedBook orders) = crossings H market orders :=
  worked_agrees (fun book pair => matchPair_agrees market book pair.1 pair.2) h

end Crossed

end Pnlx.BatchMatch
