import Mathlib.Algebra.BigOperators.Ring.List
import Mathlib.Algebra.Order.BigOperators.Group.List
import Pnlx.BatchMatch.Wrapping

/-!
# Errors that cancel

A fill that drops gets almost `2 ^ 128`, so the maximal leverage of the market is at most three: the
product of both does not overflow. With such a leverage a first fill never wraps, so every order that
loses its margin has dropped before, and it loses less than it has got too much. Only totals of fees
that wrap could make up for the rest, and no market with fewer than `10 ^ 11` orders has them.

1. `Crosses.leverage_le`, `Crosses.not_wraps`: the maximal leverage and the fills that wrap.
2. `matchLoop_leveraged`: the orders that wrap have dropped, and a crossing has small fees.
3. `Leveraged.length_of_cancels`: how many orders it takes to cancel a drop.
-/

namespace Pnlx.BatchMatch

variable {H : Host} {k : Checks} {market : MarketInput}

/-! ## A fill -/

/-- The maximal leverage of the market is at most three. -/
def LowLeverage (market : MarketInput) : Prop :=
  ∀ leverage ∈ parseU128 market.maxLeverage, leverage.toNat ≤ 3

section Fill

variable {order : BookOrder} {size price : U128} {fillIndex : ℕ} {feeDelta : I128} {fill : Fill}

/-- What the leverage check of a fill has compared. -/
theorem Fills.leverage (hp : k.products = true)
    (h : Fills H k market order size price fillIndex feeDelta fill) :
    ∃ leverage, parseU128 market.maxLeverage = some leverage ∧
      fill.margin.toNat * leverage.toNat < 2 ^ 128 ∧ 0 < fill.margin.toNat ∧
      valueOf size price ≤ fill.margin.toNat * leverage.toNat := by
  obtain ⟨rate, leverage, -, -, hleverage, hallowed⟩ := assertFill_eq_some.mp h.checked
  obtain ⟨hvalue, hproduct⟩ := hasMaxLeverage_fits hp hallowed
  rw [hasMaxLeverage_of_lt hvalue hproduct, Option.some.injEq, decide_eq_true_eq] at hallowed
  exact ⟨leverage, hleverage, hproduct, hallowed.1, hallowed.2.2⟩

/-- An order of which at least two are filled has a margin below `2 ^ 127`. -/
theorem Multiplied.margin_lt (h : Multiplied order) (hfilled : 2 ≤ order.filled.toNat) :
    order.margin.toNat < 2 ^ 127 := by
  have hmul := Nat.mul_le_mul_left order.margin.toNat hfilled
  have hproduct := h.product
  omega

/-- The margin of a fill that drops, before its fee. -/
theorem fillMargin_of_drops (h : Multiplied order) (hsize : size.toNat ≤ order.remaining.toNat)
    (hpos : size.toNat ≠ 0) (hnext : Multiplied (filledBy order size)) (hdrops : Drops order size) :
    2 ^ 127 < (fillMargin order size).toNat := by
  have hfilled := h.toNat_filled hsize
  have hmargin : order.margin.toNat < 2 ^ 127 := hnext.margin_lt (by
    have hsome := hdrops.1
    omega)
  have hafter : (allocatedAfter order size).toNat = 0 := by
    refine hnext.allocatedMargin.trans (if_pos ?_)
    rw [hfilled]
    exact hdrops.2.2
  have hadd := fillMargin_add h hsize hnext
  have hle := h.le_margin
  rw [if_pos hdrops, hafter] at hadd
  omega

/-- The margin of a first fill that wraps, before its rebate. -/
theorem fillMargin_of_first (h : Multiplied order) (hsize : size.toNat ≤ order.remaining.toNat)
    (hnext : Multiplied (filledBy order size)) (hfirst : order.filled.toNat = 0)
    (hwraps : Wraps order (order.filled.toNat + size.toNat)) :
    (fillMargin order size).toNat = 0 := by
  have hafter : (allocatedAfter order size).toNat = 0 := by
    refine hnext.allocatedMargin.trans (if_pos ?_)
    rw [h.toNat_filled hsize]
    exact hwraps
  have hadd := fillMargin_add h hsize hnext
  rw [if_neg fun hdrops => hdrops.1 hfirst, hafter] at hadd
  omega

/-- A fill that drops has a margin that only a low leverage multiplies. -/
theorem Fills.lowLeverage (hp : k.products = true)
    (h : Fills H k market order size price fillIndex feeDelta fill)
    (hmargin : 2 ^ 126 ≤ fill.margin.toNat) : LowLeverage market := by
  obtain ⟨leverage, hleverage, hproduct, -⟩ := h.leverage hp
  intro l hl
  obtain rfl : leverage = l := Option.some.inj (hleverage.symm.trans hl)
  by_contra hlow
  have hmul := Nat.mul_le_mul hmargin (Nat.lt_of_not_le hlow)
  omega

/-- With a low leverage a rebate is no margin. -/
theorem Fills.margin_gt (hp : k.products = true) (hlow : LowLeverage market)
    (h : Fills H k market order size price fillIndex feeDelta fill) :
    valueOf size price * 150 / 1000000 < fill.margin.toNat := by
  obtain ⟨leverage, hleverage, -, hpos, hvalue⟩ := h.leverage hp
  have hmul := Nat.mul_le_mul_left fill.margin.toNat (hlow leverage hleverage)
  omega

end Fill

/-! ## A crossing -/

section Crossing

variable {fillIndex : ℕ} {long short : BookOrder} {trade : Trade} {fees : FillFees}
  {deltas : I128 × I128}

/-- The margins of a trade, up to its fee and its rebate. -/
theorem Crosses.margin_le (hp : k.products = true)
    (h : Crosses H k market fillIndex long short trade fees deltas) :
    (trade.longFill.margin.toNat ≤ (fillMargin long (crossingSize long short)).toNat +
        valueCrossed (long, short) * 150 / 1000000 ∧
      (fillMargin long (crossingSize long short)).toNat ≤
        trade.longFill.margin.toNat + valueCrossed (long, short) * 500 / 1000000) ∧
      trade.shortFill.margin.toNat ≤ (fillMargin short (crossingSize long short)).toNat +
        valueCrossed (long, short) * 150 / 1000000 ∧
      (fillMargin short (crossingSize long short)).toNat ≤
        trade.shortFill.margin.toNat + valueCrossed (long, short) * 500 / 1000000 := by
  obtain ⟨hgrossLt, hrebateLt⟩ := fillFees_lt h.charged
  obtain ⟨hgross, hrebate, -, -⟩ := fillFees_eq hp h.charged
  have hlong := h.longFill.margin
  have hshort := h.shortFill.margin
  rw [feeDeltas_eq_some h.shared] at hlong hshort
  show (_ ≤ _ + valueOf (crossingSize long short) (executionPrice long short) * 150 / 1000000 ∧
    _ ≤ _ + valueOf (crossingSize long short) (executionPrice long short) * 500 / 1000000) ∧
    _ ≤ _ + valueOf (crossingSize long short) (executionPrice long short) * 150 / 1000000 ∧
    _ ≤ _ + valueOf (crossingSize long short) (executionPrice long short) * 500 / 1000000
  split_ifs at hlong hshort with hmaker
  · rw [marginAfterFee_rebate hrebateLt] at hlong
    rw [marginAfterFee_fee hgrossLt] at hshort
    omega
  · rw [marginAfterFee_fee hgrossLt] at hlong
    rw [marginAfterFee_rebate hrebateLt] at hshort
    omega

/-- A crossing that drops has passed the checks of a market with a low leverage. -/
theorem Crosses.leverage_le (hp : k.products = true)
    (h : Crosses H k market fillIndex long short trade fees deltas) (hlong : Multiplied long)
    (hshort : Multiplied short) (hsize : (crossingSize long short).toNat ≠ 0)
    (hdrops : dropsOf (long, short) ≠ 0) : LowLeverage market := by
  obtain ⟨hlongLe, hshortLe⟩ := crossingSize_le long short
  obtain ⟨hlongNext, hshortNext⟩ := h.multiplied hp hlong hshort
  obtain ⟨⟨-, hlongMargin⟩, -, hshortMargin⟩ := h.margin_le hp
  have hvalue := valueOf_lt (fillFees_fits hp h.charged)
  have hfee : valueCrossed (long, short) * 500 / 1000000 < 2 ^ 126 := by
    unfold valueCrossed
    simp only
    omega
  by_cases hdropped : Drops long (crossingSize long short)
  · have hmargin := fillMargin_of_drops hlong hlongLe hsize hlongNext hdropped
    exact h.longFill.lowLeverage hp (by omega)
  · have hdropped : Drops short (crossingSize long short) := by
      by_contra hnot
      refine hdrops ?_
      unfold dropsOf
      rw [if_neg hdropped, if_neg hnot]
    have hmargin := fillMargin_of_drops hshort hshortLe hsize hshortNext hdropped
    exact h.shortFill.lowLeverage hp (by omega)

/-- With a low leverage a first fill does not wrap. -/
theorem Crosses.not_wraps (hp : k.products = true) (hlow : LowLeverage market)
    (h : Crosses H k market fillIndex long short trade fees deltas) (hlong : Multiplied long)
    (hshort : Multiplied short) :
    (long.filled.toNat = 0 →
        ¬ Wraps long (long.filled.toNat + (crossingSize long short).toNat)) ∧
      (short.filled.toNat = 0 →
        ¬ Wraps short (short.filled.toNat + (crossingSize long short).toNat)) := by
  obtain ⟨hlongLe, hshortLe⟩ := crossingSize_le long short
  obtain ⟨hlongNext, hshortNext⟩ := h.multiplied hp hlong hshort
  obtain ⟨⟨hlongMargin, -⟩, hshortMargin, -⟩ := h.margin_le hp
  constructor
  · intro hfirst hwraps
    have hzero := fillMargin_of_first hlong hlongLe hlongNext hfirst hwraps
    have hgt : valueCrossed (long, short) * 150 / 1000000 < _ := h.longFill.margin_gt hp hlow
    omega
  · intro hfirst hwraps
    have hzero := fillMargin_of_first hshort hshortLe hshortNext hfirst hwraps
    have hgt : valueCrossed (long, short) * 150 / 1000000 < _ := h.shortFill.margin_gt hp hlow
    omega

end Crossing

/-! ## The loop -/

/-- One for an order whose sum wraps. -/
def wrapsOf (order : BookOrder) : ℕ := if Wraps order order.filled.toNat then 1 else 0

/-- What the leverage checks of the rounds imply. -/
structure Leveraged (market : MarketInput) (book : Book) (crossed : List (BookOrder × BookOrder)) :
    Prop where
  value : ∀ pair ∈ crossed, valueCrossed pair * 100000000 < 2 ^ 128
  drops : ∀ pair ∈ crossed, dropsOf pair ≠ 0 → LowLeverage market
  wraps : LowLeverage market → (book.longs.all.map wrapsOf).sum + (book.shorts.all.map wrapsOf).sum ≤
    (crossed.map dropsOf).sum

section Loop

variable {orders : List BookOrder} {book : Book} {trades : List Trade}
  {crossed : List (BookOrder × BookOrder)}

theorem valueCrossed_lt {long short : BookOrder}
    (h : (crossingSize long short).toNat * (executionPrice long short).toNat < 2 ^ 128) :
    valueCrossed (long, short) * 100000000 < 2 ^ 128 :=
  (Nat.div_mul_le_self _ _).trans_lt h

theorem Leveraged.start (ho : Admitted orders) : Leveraged market (sortedBook orders) [] := by
  have hzero {l : List BookOrder} (hl : ∀ order ∈ l, order ∈ orders) : (l.map wrapsOf).sum = 0 := by
    refine List.sum_eq_zero fun n hn => ?_
    obtain ⟨order, hmem, rfl⟩ := List.mem_map.mp hn
    rw [← ho.fresh order (hl order hmem)]
    exact if_neg (not_wraps_zero (fresh order))
  refine ⟨fun pair hmem => absurd hmem List.not_mem_nil, fun pair hmem => absurd hmem List.not_mem_nil,
    fun _ => ?_⟩
  rw [hzero fun order hmem => (mem_sortedBook_longs.mp hmem).1,
    hzero fun order hmem => (mem_sortedBook_shorts.mp hmem).1]
  exact Nat.le_refl _

/-- An order that wraps after a fill has wrapped before it or drops with it. -/
theorem wrapsOf_filledBy {order : BookOrder} {size : U128} (h : Multiplied order)
    (hsize : size.toNat ≤ order.remaining.toNat)
    (hfirst : order.filled.toNat = 0 → ¬ Wraps order (order.filled.toNat + size.toNat)) :
    wrapsOf (filledBy order size) ≤ wrapsOf order + if Drops order size then 1 else 0 := by
  have hnext : wrapsOf (filledBy order size) =
      if Wraps order (order.filled.toNat + size.toNat) then 1 else 0 := by
    unfold wrapsOf
    rw [h.toNat_filled hsize]
    rfl
  rw [hnext]
  by_cases hwraps : Wraps order (order.filled.toNat + size.toNat)
  · by_cases hold : Wraps order order.filled.toNat
    · rw [wrapsOf, if_pos hwraps, if_pos hold]
      omega
    · rw [if_pos hwraps, if_pos ⟨fun hzero => hfirst hzero hwraps, hold, hwraps⟩]
      omega
  · rw [if_neg hwraps]
    omega

/-- A round preserves it. -/
theorem Leveraged.cross (hp : k.products = true) (h : Leveraged market book crossed)
    (htallied : Tallied book trades crossed) (htrading : Trading H k market orders book trades)
    {long short : BookOrder} (hcrossed : book.crossed = some (long, short)) {trade : Trade}
    {fees : FillFees} {deltas : I128 × I128}
    (hround : Crosses H k market book.fills.length long short trade fees deltas) :
    Leveraged market (book.cross long short trade) (crossed ++ [(long, short)]) := by
  obtain ⟨longs, shorts, hlong, hshort, -⟩ := Book.crossed_eq_some hcrossed
  obtain ⟨hlongLe, hshortLe⟩ := crossingSize_le long short
  have hlongTallied := htallied.long hlong
  have hshortTallied := htallied.short hshort
  have hsize : (crossingSize long short).toNat ≠ 0 := by
    intro hzero
    rcases crossingSize_eq long short with heq | heq
    · exact htrading.longOrder.current long (by rw [hlong]; rfl)
        (BitVec.eq_of_toNat_eq (heq ▸ hzero))
    · exact htrading.shortOrder.current short (by rw [hshort]; rfl)
        (BitVec.eq_of_toNat_eq (heq ▸ hzero))
  refine ⟨fun pair hmem => ?_, fun pair hmem => ?_, fun hlow => ?_⟩
  · rcases List.mem_append.mp hmem with hmem | hmem
    · exact h.value pair hmem
    · rw [List.mem_singleton.mp hmem]
      exact valueCrossed_lt (fillFees_fits hp hround.charged)
  · rcases List.mem_append.mp hmem with hmem | hmem
    · exact h.drops pair hmem
    · rw [List.mem_singleton.mp hmem]
      exact hround.leverage_le hp hlongTallied hshortTallied hsize
  · obtain ⟨hlongFirst, hshortFirst⟩ := hround.not_wraps hp hlow hlongTallied hshortTallied
    have hlongs := Cursor.sum_map_all_put hlong (filledBy long (crossingSize long short))
      (long.remaining - crossingSize long short = 0) wrapsOf
    have hshorts := Cursor.sum_map_all_put hshort (filledBy short (crossingSize long short))
      (short.remaining - crossingSize long short = 0) wrapsOf
    have hlongWraps := wrapsOf_filledBy hlongTallied hlongLe hlongFirst
    have hshortWraps := wrapsOf_filledBy hshortTallied hshortLe hshortFirst
    have hwraps := h.wraps hlow
    rw [List.map_append, List.sum_append, List.map_singleton, List.sum_singleton]
    simp only [Book.cross]
    show _ ≤ _ + ((if Drops long (crossingSize long short) then 1 else 0) +
      if Drops short (crossingSize long short) then 1 else 0)
    omega

/-- The loop establishes it. -/
theorem matchLoop_leveraged (hp : k.products = true) (ho : Admitted orders)
    (h : matchLoop H k market (sortedBook orders) = some book) :
    ∃ trades, Trading H k market orders book trades ∧
      Tallied book trades (crossings H market orders) ∧
        Leveraged market book (crossings H market orders) := by
  rw [← crossings_eq h, ← List.nil_append (worked _ _ _ _)]
  refine loop_inv_worked (I := fun book crossed => ∃ trades, Trading H k market orders book trades ∧
    Tallied book trades crossed ∧ Leveraged market book crossed) ?_
    ⟨[], Trading.start ho, Tallied.start ho, Leveraged.start ho⟩ h
  rintro book ⟨long, short⟩ book' crossed ⟨trades, htrading, htallied, hleveraged⟩ hcrossed hround
  obtain ⟨trade, fees, deltas, hcross, rfl⟩ := matchPair_eq_some.mp hround
  exact ⟨trades ++ [trade], htrading.cross ho hcrossed hcross,
    htallied.cross hp htrading hcrossed hcross,
    hleveraged.cross hp htallied htrading hcrossed hcross⟩

/-- An order that has lost its margin wraps, and has a margin below `2 ^ 127`. -/
theorem Multiplied.lostBy_le {order : BookOrder} (h : Multiplied order) :
    lostBy order ≤ 2 ^ 127 * wrapsOf order := by
  unfold lostBy wrapsOf
  split_ifs with hlost hwraps hwraps
  · have hleft := h.left
    have hsize : 2 ≤ order.filled.toNat := by
      -- an order of size one does not wrap
      by_contra hone
      have hpos := h.pos
      have hlt := order.margin.isLt
      have heq : order.filled.toNat = 1 := by omega
      rw [heq, Wraps] at hwraps
      omega
    have hmargin := h.margin_lt hsize
    omega
  · exact absurd hlost.2 hwraps
  · exact Nat.zero_le _
  · exact Nat.zero_le _

theorem Tallied.lost_le (h : Tallied book trades crossed) : (crossed.map lostOf).sum ≤
    2 ^ 127 * ((book.longs.all.map wrapsOf).sum + (book.shorts.all.map wrapsOf).sum) := by
  have hside {l : List BookOrder} (hl : ∀ order ∈ l, Multiplied order) :
      (l.map lostBy).sum ≤ 2 ^ 127 * (l.map wrapsOf).sum := by
    rw [← List.sum_map_mul_left]
    exact List.sum_le_sum fun order hmem => (hl order hmem).lostBy_le
  rw [← h.lost, Nat.mul_add]
  exact Nat.add_le_add (hside fun order hmem => h.orders order (List.mem_append_left _ hmem))
    (hside fun order hmem => h.orders order (List.mem_append_right _ hmem))

/-- It takes `10 ^ 11` crossings for a total of their fees to wrap. -/
theorem Leveraged.length_le (h : Leveraged market book crossed) {f : BookOrder × BookOrder → ℕ}
    (hf : ∀ pair, f pair ≤ valueCrossed pair * 500 / 1000000)
    (hwrapped : 2 ^ 128 ≤ (crossed.map f).sum) : 10 ^ 11 ≤ crossed.length := by
  have hsum : (crossed.map f).sum * 10 ^ 11 ≤ crossed.length * 2 ^ 128 := by
    rw [← List.sum_map_mul_right, ← Nat.nsmul_eq_mul, ← List.length_map (fun pair => f pair * 10 ^ 11)]
    refine List.sum_le_card_nsmul _ (2 ^ 128) fun n hn => ?_
    obtain ⟨pair, hmem, rfl⟩ := List.mem_map.mp hn
    have hvalue := h.value pair hmem
    have hle := hf pair
    omega
  omega

/-- It takes `10 ^ 11` crossings to cancel a drop. -/
theorem Leveraged.length_of_cancels (h : Leveraged market book crossed)
    (htallied : Tallied book trades crossed) (hpos : 0 < (crossed.map dropsOf).sum)
    (hequal : 2 ^ 128 * (crossed.map dropsOf).sum = (crossed.map lostOf).sum +
      2 ^ 128 * ((crossed.map insuranceOf).sum / 2 ^ 128 +
        (crossed.map treasuryOf).sum / 2 ^ 128)) : 10 ^ 11 ≤ crossed.length := by
  have hlow : LowLeverage market := by
    by_contra hhigh
    refine hpos.ne' (List.sum_eq_zero fun n hn => ?_)
    obtain ⟨pair, hmem, rfl⟩ := List.mem_map.mp hn
    exact by_contra fun hdrops => hhigh (h.drops pair hmem hdrops)
  have hwraps := h.wraps hlow
  have hlost := htallied.lost_le
  have hinsurance (pair : BookOrder × BookOrder) :
      insuranceOf pair ≤ valueCrossed pair * 500 / 1000000 := by
    unfold insuranceOf
    omega
  have htreasury (pair : BookOrder × BookOrder) :
      treasuryOf pair ≤ valueCrossed pair * 500 / 1000000 := by
    unfold treasuryOf
    omega
  -- the losses make up for half of the drops only
  by_cases hwrapped : 2 ^ 128 ≤ (crossed.map insuranceOf).sum
  · exact h.length_le hinsurance hwrapped
  · exact h.length_le htreasury (by omega)

end Loop

end Pnlx.BatchMatch
