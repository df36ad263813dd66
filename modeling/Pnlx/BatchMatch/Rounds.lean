import Pnlx.BatchMatch.Checked

/-!
# One round of the matching loop

A round crosses the orders at the two cursors. It replaces them by the orders after their fills
(`filledBy`), and adds two fills and an execution (`Trade`).

1. `createFill_eq_some`: what a fill has allocated, checked and committed to.
2. `matchPair_eq_some`: a round is `Book.cross` on a trade of the two orders.
3. `rounds_cross`: every round ends an order, so the loop stops for want of work
   (`matchLoop_crossed`).
-/

namespace Pnlx.BatchMatch

variable {H : Host} {k : Checks} {market : MarketInput}

/-! ## A fill -/

/-- The margin that is allocated when `size` more of an order is filled. -/
def allocatedAfter (order : BookOrder) (size : U128) : U128 :=
  (order.margin * (order.filled + size) + order.size - 1) / order.size

/-- The order after a fill of `size`. -/
def filledBy (order : BookOrder) (size : U128) : BookOrder :=
  { order with
    filled := order.filled + size
    allocatedMargin := allocatedAfter order size
    remaining := order.remaining - size }

/-- An order before the loop. -/
def fresh (order : BookOrder) : BookOrder :=
  { order with filled := 0, allocatedMargin := 0, remaining := order.size }

/-- The margin of a fill before its fee. -/
def fillMargin (order : BookOrder) (size : U128) : U128 :=
  allocatedAfter order size - order.allocatedMargin

/-- A fill of `order`: its margin is allocated, has passed the risk checks, and is described. -/
structure Fills (H : Host) (k : Checks) (market : MarketInput) (order : BookOrder)
    (size price : U128) (fillIndex : ℕ) (feeDelta : I128) (fill : Fill) : Prop where
  allocated : ∃ filled, allocateMargin k order size = some (fillMargin order size, filled)
  margin : marginAfterFee k (fillMargin order size) feeDelta = some fill.margin
  checked : assertFill k market size price fill.margin = some ()
  described : describeFill H market order size price fill.margin fillIndex = some fill

section

variable {order order' : BookOrder} {size price : U128} {fillIndex : ℕ} {feeDelta : I128}
  {fill : Fill}

theorem allocateMargin_eq_some {margin : U128}
    (h : allocateMargin k order size = some (margin, order')) :
    margin = fillMargin order size ∧
      order' = { filledBy order size with remaining := order.remaining } := by
  unfold allocateMargin at h
  simp only [Option.bind_eq_bind, Option.bind_eq_some_iff, Option.some.injEq, Prod.mk.injEq] at h
  obtain ⟨filled, hfilled, value, hvalue, allocated, hallocated, fillMargin, hmargin, rfl, rfl⟩ := h
  unfold ceilDiv at hallocated
  simp only [Option.bind_eq_bind, Option.bind_eq_some_iff, Option.some.injEq] at hallocated
  obtain ⟨total, htotal, numerator, hnumerator, rfl⟩ := hallocated
  obtain ⟨-, rfl⟩ := guarded_eq_some.mp hfilled
  obtain ⟨-, rfl⟩ := guarded_eq_some.mp hvalue
  obtain ⟨-, rfl⟩ := guarded_eq_some.mp htotal
  obtain ⟨-, rfl⟩ := guarded_eq_some.mp hnumerator
  obtain ⟨-, rfl⟩ := guarded_eq_some.mp hmargin
  exact ⟨rfl, rfl⟩

/-- What a fill has allocated, checked and committed to. -/
theorem createFill_eq_some
    (h : createFill H k market order size price fillIndex feeDelta = some (fill, order')) :
    Fills H k market order size price fillIndex feeDelta fill ∧
      order' = { filledBy order size with remaining := order.remaining } := by
  unfold createFill at h
  simp only [Option.bind_eq_bind, Option.bind_eq_some_iff, Option.some.injEq, Prod.mk.injEq] at h
  obtain ⟨⟨allocated, filled⟩, hallocate, margin, hmargin, _, hassert, fill, hdescribe, rfl, rfl⟩ := h
  obtain ⟨rfl, rfl⟩ := allocateMargin_eq_some hallocate
  obtain ⟨-, -, -, -, -, -, hfill⟩ := describeFill_data hdescribe
  rw [← hfill] at hmargin hassert hdescribe
  exact ⟨⟨⟨_, hallocate⟩, hmargin, hassert, hdescribe⟩, rfl⟩

theorem Fills.createFill (h : Fills H k market order size price fillIndex feeDelta fill) :
    createFill H k market order size price fillIndex feeDelta =
      some (fill, { filledBy order size with remaining := order.remaining }) := by
  obtain ⟨filled, hallocate⟩ := h.allocated
  obtain ⟨-, hfilled⟩ := allocateMargin_eq_some hallocate
  unfold BatchMatch.createFill
  rw [hallocate, hfilled]
  simp only [Option.bind_eq_bind, Option.bind_some, h.margin, h.checked, h.described]

theorem Fills.data (h : Fills H k market order size price fillIndex feeDelta fill) :
    fill.intentCommitment = order.intent.intentCommitment ∧
      fill.marketId = order.intent.marketId ∧
      fill.ownerCommitment = order.intent.ownerCommitment ∧ fill.side = order.side ∧
      fill.size = size ∧ fill.price = price := by
  obtain ⟨h₁, h₂, h₃, h₄, h₅, h₆, -⟩ := describeFill_data h.described
  exact ⟨h₁, h₂, h₃, h₄, h₅, h₆⟩

end

/-! ## A round -/

/-- The two fills of a crossing and its execution. -/
structure Trade where
  execution : Execution
  longFill : Fill
  shortFill : Fill
  deriving DecidableEq

/-- The trade of a crossing of `long` and `short` after `fillIndex` fills. -/
structure Crosses (H : Host) (k : Checks) (market : MarketInput) (fillIndex : ℕ)
    (long short : BookOrder) (trade : Trade) (fees : FillFees) (deltas : I128 × I128) : Prop where
  charged : fillFees k (crossingSize long short) (executionPrice long short) = some fees
  shared : feeDeltas k fees (long.sequence ≤ short.sequence) = some deltas
  longFill : Fills H k market long (crossingSize long short) (executionPrice long short) fillIndex
    deltas.1 trade.longFill
  shortFill : Fills H k market short (crossingSize long short) (executionPrice long short)
    (fillIndex + 1) deltas.2 trade.shortFill
  execution : trade.execution = createExecution long short (crossingSize long short)
    (executionPrice long short) trade.longFill trade.shortFill fees

/-- The book after a crossing. -/
def Book.cross (book : Book) (long short : BookOrder) (trade : Trade) : Book :=
  let size := crossingSize long short
  { longs := book.longs.put (filledBy long size) (long.remaining - size = 0)
    shorts := book.shorts.put (filledBy short size) (short.remaining - size = 0)
    fills := book.fills ++ [trade.longFill, trade.shortFill]
    executions := book.executions ++ [trade.execution]
    spentNullifiers := pushUnique
      (pushUnique book.spentNullifiers long.intent.noteNullifier) short.intent.noteNullifier }

/-- An execution repeats nothing of its orders that a fill changes. -/
theorem createExecution_fresh (long short : BookOrder) (size price : U128)
    (longFill shortFill : Fill) (fees : FillFees) :
    createExecution (fresh long) (fresh short) size price longFill shortFill fees =
      createExecution long short size price longFill shortFill fees := by
  unfold createExecution
  by_cases hmaker : long.sequence ≤ short.sequence
  · simp [fresh, hmaker]
  · simp [fresh, hmaker, show short.sequence ≠ long.sequence by omega]

theorem createExecution_congr {long long' short short' : BookOrder} (hlong : fresh long' = fresh long)
    (hshort : fresh short' = fresh short) (size price : U128) (longFill shortFill : Fill)
    (fees : FillFees) :
    createExecution long' short' size price longFill shortFill fees =
      createExecution long short size price longFill shortFill fees := by
  rw [← createExecution_fresh long', hlong, hshort, createExecution_fresh]

theorem reduce_eq_some {order order' : BookOrder} {size : U128}
    (h : reduce k order size = some order') :
    order' = { order with remaining := order.remaining - size } := by
  obtain ⟨remaining, hsub, horder⟩ := Option.bind_eq_some_iff.mp h
  obtain ⟨-, rfl⟩ := guarded_eq_some.mp hsub
  exact (Option.some.inj horder).symm

theorem crossingSize_le (long short : BookOrder) :
    (crossingSize long short).toNat ≤ long.remaining.toNat ∧
      (crossingSize long short).toNat ≤ short.remaining.toNat := by
  unfold crossingSize
  split_ifs with h
  · exact ⟨le_refl _, BitVec.le_def.mp h⟩
  · exact ⟨(not_le.mp (fun h' => h (BitVec.le_def.mpr h'))).le, le_refl _⟩

/-- A crossing takes the remaining size of one of its orders. -/
theorem crossingSize_eq (long short : BookOrder) :
    crossingSize long short = long.remaining ∨ crossingSize long short = short.remaining := by
  unfold crossingSize
  split_ifs
  · exact Or.inl rfl
  · exact Or.inr rfl

/-- `remaining -= size` is exact where no more is taken than remains. -/
theorem reduce_filledBy {order : BookOrder} {size : U128}
    (h : size.toNat ≤ order.remaining.toNat) :
    reduce k { filledBy order size with remaining := order.remaining } size =
      some (filledBy order size) := by
  unfold reduce sub
  rw [guarded_eq_some.mpr ⟨fun _ => h, rfl⟩]
  rfl

/-- A round is a crossing of the two orders. -/
theorem matchPair_eq_some {book book' : Book} {long short : BookOrder} :
    matchPair H k market book long short = some book' ↔
      ∃ trade fees deltas, Crosses H k market book.fills.length long short trade fees deltas ∧
        book' = book.cross long short trade := by
  constructor
  · intro h
    unfold matchPair at h
    simp only [Option.bind_eq_bind, Option.bind_eq_some_iff, Option.some.injEq] at h
    obtain ⟨fees, hfees, deltas, hdeltas, ⟨longFill, long'⟩, hlong, ⟨shortFill, short'⟩, hshort,
      long'', hlong'', short'', hshort'', rfl⟩ := h
    obtain ⟨hlongFill, rfl⟩ := createFill_eq_some hlong
    obtain ⟨hshortFill, rfl⟩ := createFill_eq_some hshort
    obtain rfl := reduce_eq_some hlong''
    obtain rfl := reduce_eq_some hshort''
    refine ⟨⟨createExecution long short (crossingSize long short) (executionPrice long short)
      longFill shortFill fees, longFill, shortFill⟩, fees, deltas,
      ⟨hfees, hdeltas, hlongFill, hshortFill, rfl⟩, ?_⟩
    rw [@createExecution_congr long _ short] <;> rfl
  · rintro ⟨trade, fees, deltas, h, rfl⟩
    unfold matchPair
    simp only [h.charged, h.shared, h.longFill.createFill, h.shortFill.createFill,
      Option.bind_eq_bind, Option.bind_some, reduce_filledBy (crossingSize_le long short).1,
      reduce_filledBy (crossingSize_le long short).2]
    unfold Book.cross
    rw [h.execution]
    rw [@createExecution_congr long _ short] <;> rfl

/-- A crossing determines its trade. -/
theorem Book.cross_inj {book : Book} {long short : BookOrder} {trade trade' : Trade}
    (h : book.cross long short trade = book.cross long short trade') : trade = trade' := by
  have hfills := congrArg Book.fills h
  have hexecutions := congrArg Book.executions h
  simp only [Book.cross, List.append_cancel_left_eq, List.cons.injEq, and_true] at hfills hexecutions
  obtain ⟨_, _, _⟩ := trade
  obtain ⟨_, _, _⟩ := trade'
  simp only at hfills hexecutions
  rw [hexecutions, hfills.1, hfills.2]

/-! ## The loop stops -/

theorem Book.crossed_eq_some {book : Book} {long short : BookOrder}
    (h : book.crossed = some (long, short)) :
    ∃ longs shorts, book.longs.after = long :: longs ∧ book.shorts.after = short :: shorts ∧
      ¬ long.limitPrice < short.limitPrice := by
  unfold Book.crossed at h
  split at h
  · next l longs s shorts hlongs hshorts =>
    split_ifs at h with hlt
    obtain ⟨rfl, rfl⟩ := Prod.mk.inj (Option.some.inj h)
    exact ⟨longs, shorts, hlongs, hshorts, hlt⟩
  · exact nomatch h

theorem Book.crossed_of_after {book : Book} {long short : BookOrder} {longs shorts : List BookOrder}
    (hlong : book.longs.after = long :: longs) (hshort : book.shorts.after = short :: shorts)
    (h : ¬ long.limitPrice < short.limitPrice) : book.crossed = some (long, short) := by
  unfold Book.crossed
  rw [hlong, hshort]
  exact if_neg h

/-- A crossing ends one of its orders at least. -/
theorem rounds_cross {book : Book} {long short : BookOrder} {longs shorts : List BookOrder}
    (hlong : book.longs.after = long :: longs) (hshort : book.shorts.after = short :: shorts)
    (trade : Trade) : (book.cross long short trade).rounds < book.rounds := by
  have hlongs := Cursor.length_after_put hlong (filledBy long (crossingSize long short))
    (long.remaining - crossingSize long short = 0)
  have hshorts := Cursor.length_after_put hshort (filledBy short (crossingSize long short))
    (short.remaining - crossingSize long short = 0)
  have hzero : long.remaining - crossingSize long short = 0 ∨
      short.remaining - crossingSize long short = 0 := by
    rcases crossingSize_eq long short with h | h
    · exact Or.inl (by rw [h]; exact BitVec.sub_self _)
    · exact Or.inr (by rw [h]; exact BitVec.sub_self _)
  show ((book.longs.put _ _).after.length + (book.shorts.put _ _).after.length) <
    book.longs.after.length + book.shorts.after.length
  rcases hzero with h | h
  · rw [if_pos h] at hlongs
    omega
  · rw [if_pos h] at hshorts
    omega

/-- After the loop the best orders do not cross. -/
theorem matchLoop_crossed {book book' : Book} (h : matchLoop H k market book = some book') :
    book'.crossed = none := by
  refine @loop_stops _ _ Book.crossed _ _ _ _ (fun _ => True) Book.rounds ?_ trivial (le_refl _) h ?_
  · rintro book ⟨long, short⟩ book' - hcrossed hround
    obtain ⟨longs, shorts, hlong, hshort, -⟩ := Book.crossed_eq_some hcrossed
    obtain ⟨trade, fees, deltas, -, rfl⟩ := matchPair_eq_some.mp hround
    exact ⟨trivial, rounds_cross hlong hshort trade⟩
  · intro book hzero
    unfold Book.rounds at hzero
    have hnil : book.longs.after = [] := List.length_eq_zero_iff.mp (by omega)
    unfold Book.crossed
    rw [hnil]

end Pnlx.BatchMatch
