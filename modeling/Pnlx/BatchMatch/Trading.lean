import Pnlx.BatchMatch.Rounds

/-!
# What the matching loop preserves

`Trading` says how the state of the loop follows from the orders of the request and the trades made
so far: the orders are filled in priority order, and by what their fills say.

1. `Trading.cross`: a round preserves it.
2. `matchLoop_trading`: the loop establishes it.
3. `matchBatch_eq_some`: what a match has computed, from the orders of the request on.
-/

namespace Pnlx.BatchMatch

variable {H : Host} {k : Checks} {market : MarketInput}

/-! ## Trades -/

/-- A fill of `order` at `price`. -/
structure FillOf (H : Host) (k : Checks) (market : MarketInput) (order : BookOrder) (price : U128)
    (fill : Fill) : Prop where
  checked : assertFill k market fill.size price fill.margin = some ()
  described : ∃ fillIndex, describeFill H market order fill.size price fill.margin fillIndex = some fill

/-- A trade of a long and a short order that cross. -/
structure TradeOf (H : Host) (k : Checks) (market : MarketInput) (long short : BookOrder)
    (trade : Trade) : Prop where
  crosses : ¬ long.limitPrice < short.limitPrice
  size_ne : trade.longFill.size ≠ 0
  sameSize : trade.shortFill.size = trade.longFill.size
  longFill : FillOf H k market long (executionPrice long short) trade.longFill
  shortFill : FillOf H k market short (executionPrice long short) trade.shortFill
  execution : ∃ fees, fillFees k trade.longFill.size (executionPrice long short) = some fees ∧
    trade.execution = createExecution long short trade.longFill.size (executionPrice long short)
      trade.longFill trade.shortFill fees

theorem FillOf.data {order : BookOrder} {price : U128} {fill : Fill}
    (h : FillOf H k market order price fill) :
    fill.intentCommitment = order.intent.intentCommitment ∧
      fill.marketId = order.intent.marketId ∧
      fill.ownerCommitment = order.intent.ownerCommitment ∧ fill.side = order.side ∧
      fill.price = price := by
  obtain ⟨fillIndex, hdescribe⟩ := h.described
  obtain ⟨h₁, h₂, h₃, h₄, -, h₅, -⟩ := describeFill_data hdescribe
  exact ⟨h₁, h₂, h₃, h₄, h₅⟩

theorem Fills.fillOf {order : BookOrder} {size price : U128} {fillIndex : ℕ} {feeDelta : I128}
    {fill : Fill} (h : Fills H k market order size price fillIndex feeDelta fill) :
    FillOf H k market order price fill := by
  obtain ⟨-, -, -, -, hsize, -⟩ := h.data
  refine ⟨?_, fillIndex, ?_⟩
  · rw [hsize]; exact h.checked
  · rw [hsize]; exact h.described

theorem Crosses.tradeOf {fillIndex : ℕ} {long short : BookOrder} {trade : Trade} {fees : FillFees}
    {deltas : I128 × I128} (h : Crosses H k market fillIndex long short trade fees deltas)
    (hcross : ¬ long.limitPrice < short.limitPrice) (hsize : crossingSize long short ≠ 0) :
    TradeOf H k market long short trade := by
  obtain ⟨-, -, -, -, hlong, -⟩ := h.longFill.data
  obtain ⟨-, -, -, -, hshort, -⟩ := h.shortFill.data
  refine ⟨hcross, by rwa [hlong], by rw [hlong, hshort], h.longFill.fillOf, h.shortFill.fillOf, fees, ?_, ?_⟩
  · rw [hlong]; exact h.charged
  · rw [hlong]; exact h.execution

/-- A trade does not depend on what its orders have been filled with. -/
theorem TradeOf.fresh {long short : BookOrder} {trade : Trade}
    (h : TradeOf H k market long short trade) :
    TradeOf H k market (fresh long) (fresh short) trade := by
  obtain ⟨fees, hfees, hexecution⟩ := h.execution
  refine ⟨h.crosses, h.size_ne, h.sameSize, ⟨h.longFill.checked, h.longFill.described⟩,
    ⟨h.shortFill.checked, h.shortFill.described⟩, fees, hfees, ?_⟩
  rw [createExecution_fresh]
  exact hexecution

/-- The fills of the order that spends `nullifier`. -/
def fillsOf (nullifier : Text) (trades : List Trade) : List Fill :=
  trades.flatMap fun trade =>
    (if trade.execution.longNoteNullifier = nullifier then [trade.longFill] else []) ++
      (if trade.execution.shortNoteNullifier = nullifier then [trade.shortFill] else [])

def totalSize (fills : List Fill) : ℕ := (fills.map fun fill => fill.size.toNat).sum

theorem totalSize_append (fills fills' : List Fill) :
    totalSize (fills ++ fills') = totalSize fills + totalSize fills' := by
  unfold totalSize
  rw [List.map_append, List.sum_append]

theorem fillsOf_append (nullifier : Text) (trades : List Trade) (trade : Trade) :
    fillsOf nullifier (trades ++ [trade]) = fillsOf nullifier trades ++ fillsOf nullifier [trade] := by
  unfold fillsOf
  rw [List.flatMap_append]

/-! ## The state of the loop -/

/-- What a request gives the loop. -/
structure Admitted (orders : List BookOrder) : Prop where
  fresh : ∀ order ∈ orders, fresh order = order
  size_ne : ∀ order ∈ orders, order.size ≠ 0
  nullifiers : (orders.map (·.intent.noteNullifier)).Nodup
  sequences : orders.map (·.sequence) = List.range orders.length

/-- An order that the loop has not reached. -/
def Untouched (order : BookOrder) : Prop := fresh order = order ∧ order.remaining ≠ 0

def Done (order : BookOrder) : Prop := order.remaining = 0

theorem not_done_of_untouched (order : BookOrder) (h : Untouched order) : ¬ Done order := h.2

/-- What has been filled of an order, and what is left. -/
structure Tracked (trades : List Trade) (order : BookOrder) : Prop where
  left : order.filled.toNat + order.remaining.toNat = order.size.toNat
  filled : order.filled.toNat = totalSize (fillsOf order.intent.noteNullifier trades)

/-- How the state of the loop follows from the orders and the trades made so far. -/
structure Trading (H : Host) (k : Checks) (market : MarketInput) (orders : List BookOrder)
    (book : Book) (trades : List Trade) : Prop where
  executions : book.executions = trades.map (·.execution)
  fills : book.fills = trades.flatMap fun trade => [trade.longFill, trade.shortFill]
  longs : book.longs.all.map fresh = (sortedBook orders).longs.all
  shorts : book.shorts.all.map fresh = (sortedBook orders).shorts.all
  longOrder : Cursor.InOrder Done Untouched book.longs
  shortOrder : Cursor.InOrder Done Untouched book.shorts
  longVolume : (book.longs.all.map (·.filled.toNat)).sum =
    (trades.map (·.longFill.size.toNat)).sum
  shortVolume : (book.shorts.all.map (·.filled.toNat)).sum =
    (trades.map (·.shortFill.size.toNat)).sum
  tracked : ∀ order ∈ book.longs.all ++ book.shorts.all, Tracked trades order
  traded : ∀ trade ∈ trades, ∃ long ∈ orders, ∃ short ∈ orders,
    long.side = .long ∧ short.side = .short ∧ TradeOf H k market long short trade

section Start

variable {orders : List BookOrder}

theorem mem_sortedBook_longs {order : BookOrder} :
    order ∈ (sortedBook orders).longs.all ↔ order ∈ orders ∧ order.side = .long := by
  show order ∈ [] ++ List.insertionSort longPriority (orders.filter (·.side = .long)) ↔ _
  rw [List.nil_append, List.mem_insertionSort, List.mem_filter, decide_eq_true_eq]

theorem mem_sortedBook_shorts {order : BookOrder} :
    order ∈ (sortedBook orders).shorts.all ↔ order ∈ orders ∧ order.side = .short := by
  show order ∈ [] ++ List.insertionSort shortPriority (orders.filter (·.side = .short)) ↔ _
  rw [List.nil_append, List.mem_insertionSort, List.mem_filter, decide_eq_true_eq]

/-- The two sides of the book are the orders. -/
theorem sortedBook_perm :
    List.Perm ((sortedBook orders).longs.all ++ (sortedBook orders).shorts.all) orders := by
  have hside : (orders.filter fun order => !decide (order.side = .long)) =
      orders.filter (·.side = .short) := by
    refine List.filter_congr fun order _ => ?_
    cases order.side <;> rfl
  refine ((List.perm_insertionSort _ _).append (List.perm_insertionSort _ _)).trans ?_
  rw [← hside]
  exact List.filter_append_perm _ orders

theorem Admitted.untouched (h : Admitted orders) {order : BookOrder} (hmem : order ∈ orders) :
    Untouched order := by
  refine ⟨h.fresh order hmem, ?_⟩
  rw [← h.fresh order hmem]
  exact h.size_ne order hmem

theorem Admitted.map_fresh (h : Admitted orders) {l : List BookOrder} (hl : ∀ order ∈ l, order ∈ orders) :
    l.map BatchMatch.fresh = l :=
  (List.map_congr_left fun order hmem => h.fresh order (hl order hmem)).trans (List.map_id l)

theorem Admitted.sum_filled (h : Admitted orders) {l : List BookOrder}
    (hl : ∀ order ∈ l, order ∈ orders) : (l.map (·.filled.toNat)).sum = 0 := by
  refine List.sum_eq_zero fun n hn => ?_
  obtain ⟨order, hmem, rfl⟩ := List.mem_map.mp hn
  rw [← h.fresh order (hl order hmem)]
  rfl

/-- Before the loop. -/
theorem Trading.start (h : Admitted orders) : Trading H k market orders (sortedBook orders) [] where
  executions := rfl
  fills := rfl
  longs := h.map_fresh fun _ hmem => (mem_sortedBook_longs.mp hmem).1
  shorts := h.map_fresh fun _ hmem => (mem_sortedBook_shorts.mp hmem).1
  longOrder := Cursor.InOrder.start not_done_of_untouched fun _ hmem =>
    h.untouched (mem_sortedBook_longs.mp hmem).1
  shortOrder := Cursor.InOrder.start not_done_of_untouched fun _ hmem =>
    h.untouched (mem_sortedBook_shorts.mp hmem).1
  longVolume := h.sum_filled fun _ hmem => (mem_sortedBook_longs.mp hmem).1
  shortVolume := h.sum_filled fun _ hmem => (mem_sortedBook_shorts.mp hmem).1
  tracked := by
    intro order hmem
    have hmem : order ∈ orders := sortedBook_perm.mem_iff.mp hmem
    rw [← h.fresh order hmem]
    exact ⟨Nat.zero_add _, rfl⟩
  traded := fun trade hmem => absurd hmem List.not_mem_nil

end Start

/-! ## A round -/

section Round

variable {orders : List BookOrder} {book book' : Book} {trades : List Trade}

/-- The orders of the book spend different notes. -/
theorem Trading.nullifiers (h : Trading H k market orders book trades) (ho : Admitted orders) :
    ((book.longs.all ++ book.shorts.all).map (·.intent.noteNullifier)).Nodup := by
  have hmap (l : List BookOrder) : l.map (·.intent.noteNullifier) =
      (l.map fresh).map (·.intent.noteNullifier) := by
    rw [List.map_map]
    rfl
  rw [hmap, List.map_append, h.longs, h.shorts, (sortedBook_perm.map _).nodup_iff]
  exact ho.nullifiers

/-- The order behind an order of the book. -/
theorem Trading.mem_orders (h : Trading H k market orders book trades) {order : BookOrder}
    (hmem : order ∈ book.longs.all ++ book.shorts.all) : fresh order ∈ orders := by
  rw [← sortedBook_perm.mem_iff, ← h.longs, ← h.shorts, ← List.map_append]
  exact List.mem_map_of_mem hmem

theorem Trading.side_long (h : Trading H k market orders book trades) {order : BookOrder}
    (hmem : order ∈ book.longs.all) : order.side = .long := by
  have hfresh : fresh order ∈ (sortedBook orders).longs.all := by
    rw [← h.longs]
    exact List.mem_map_of_mem hmem
  exact (mem_sortedBook_longs.mp hfresh).2

theorem Trading.side_short (h : Trading H k market orders book trades) {order : BookOrder}
    (hmem : order ∈ book.shorts.all) : order.side = .short := by
  have hfresh : fresh order ∈ (sortedBook orders).shorts.all := by
    rw [← h.shorts]
    exact List.mem_map_of_mem hmem
  exact (mem_sortedBook_shorts.mp hfresh).2

/-- A fill of an order that it does not exceed. -/
theorem Tracked.filledBy {order : BookOrder} {size : U128} {trade : Trade}
    (h : Tracked trades order) (hsize : size.toNat ≤ order.remaining.toNat)
    (hfill : totalSize (fillsOf order.intent.noteNullifier [trade]) = size.toNat) :
    Tracked (trades ++ [trade]) (filledBy order size) := by
  have hlt := order.size.isLt
  have hleft := h.left
  have hfilled : (order.filled + size).toNat = order.filled.toNat + size.toNat :=
    toNat_add_of_lt (by omega)
  have hremaining : (order.remaining - size).toNat = order.remaining.toNat - size.toNat :=
    toNat_sub_of_le hsize
  constructor
  · show (order.filled + size).toNat + (order.remaining - size).toNat = order.size.toNat
    omega
  · show (order.filled + size).toNat = totalSize (fillsOf order.intent.noteNullifier _)
    rw [fillsOf_append, totalSize_append, hfill, ← h.filled]
    exact hfilled

/-- A trade of other orders. -/
theorem Tracked.other {order : BookOrder} {trade : Trade} (h : Tracked trades order)
    (hlong : trade.execution.longNoteNullifier ≠ order.intent.noteNullifier)
    (hshort : trade.execution.shortNoteNullifier ≠ order.intent.noteNullifier) :
    Tracked (trades ++ [trade]) order := by
  refine ⟨h.left, ?_⟩
  rw [fillsOf_append, totalSize_append, ← h.filled]
  simp [fillsOf, totalSize, hlong, hshort]

/-- A round preserves it. -/
theorem Trading.cross (h : Trading H k market orders book trades) (ho : Admitted orders)
    {long short : BookOrder} (hcrossed : book.crossed = some (long, short)) {trade : Trade}
    {fees : FillFees} {deltas : I128 × I128}
    (hround : Crosses H k market book.fills.length long short trade fees deltas) :
    Trading H k market orders (book.cross long short trade) (trades ++ [trade]) := by
  obtain ⟨longs, shorts, hlong, hshort, hcross⟩ := Book.crossed_eq_some hcrossed
  have hmemLong := Cursor.mem_all hlong
  have hmemShort := Cursor.mem_all hshort
  have hsize : crossingSize long short ≠ 0 := by
    rcases crossingSize_eq long short with heq | heq
    · rw [heq]
      exact h.longOrder.current long (by rw [hlong]; rfl)
    · rw [heq]
      exact h.shortOrder.current short (by rw [hshort]; rfl)
  have htrade := hround.tradeOf hcross hsize
  obtain ⟨-, -, -, -, hlongSize, -⟩ := hround.longFill.data
  obtain ⟨-, -, -, -, hshortSize, -⟩ := hround.shortFill.data
  obtain ⟨hlongLe, hshortLe⟩ := crossingSize_le long short
  have hlongNull : trade.execution.longNoteNullifier = long.intent.noteNullifier := by
    rw [hround.execution]
    rfl
  have hshortNull : trade.execution.shortNoteNullifier = short.intent.noteNullifier := by
    rw [hround.execution]
    rfl
  have hnodup := h.nullifiers ho
  rw [List.map_append] at hnodup
  obtain ⟨hnodupLong, hnodupShort, hdisjoint⟩ := List.nodup_append.mp hnodup
  have hne {l s : BookOrder} (hl : l ∈ book.longs.all) (hs : s ∈ book.shorts.all) :
      l.intent.noteNullifier ≠ s.intent.noteNullifier :=
    hdisjoint _ (List.mem_map_of_mem hl) _ (List.mem_map_of_mem hs)
  have hlongSide : long.side = .long := h.side_long hmemLong
  have hshortSide : short.side = .short := h.side_short hmemShort
  have hlongFilled : (long.filled + crossingSize long short).toNat =
      long.filled.toNat + (crossingSize long short).toNat := by
    have hleft := (h.tracked long (List.mem_append_left _ hmemLong)).left
    have hlt := long.size.isLt
    exact toNat_add_of_lt (by omega)
  have hshortFilled : (short.filled + crossingSize long short).toNat =
      short.filled.toNat + (crossingSize long short).toNat := by
    have hleft := (h.tracked short (List.mem_append_right _ hmemShort)).left
    have hlt := short.size.isLt
    exact toNat_add_of_lt (by omega)
  refine ⟨?_, ?_, ?_, ?_, ?_, ?_, ?_, ?_, ?_, ?_⟩
  · show book.executions ++ [trade.execution] = _
    rw [h.executions, List.map_append, List.map_singleton]
  · show book.fills ++ [trade.longFill, trade.shortFill] = _
    rw [h.fills, List.flatMap_append, List.flatMap_singleton]
  · rw [← h.longs]
    exact Cursor.map_all_put hlong _ rfl
  · rw [← h.shorts]
    exact Cursor.map_all_put hshort _ rfl
  · exact h.longOrder.put not_done_of_untouched Iff.rfl
  · exact h.shortOrder.put not_done_of_untouched Iff.rfl
  · have hsum := Cursor.sum_map_all_put hlong (filledBy long (crossingSize long short))
      (long.remaining - crossingSize long short = 0) (·.filled.toNat)
    have hvolume := h.longVolume
    rw [List.map_append, List.sum_append, List.map_singleton, List.sum_singleton, hlongSize]
    simp only [Book.cross, filledBy] at hsum ⊢
    omega
  · have hsum := Cursor.sum_map_all_put hshort (filledBy short (crossingSize long short))
      (short.remaining - crossingSize long short = 0) (·.filled.toNat)
    have hvolume := h.shortVolume
    rw [List.map_append, List.sum_append, List.map_singleton, List.sum_singleton, hshortSize]
    simp only [Book.cross, filledBy] at hsum ⊢
    omega
  · intro order hmem
    rcases List.mem_append.mp hmem with hmem | hmem
    · rcases Cursor.mem_all_put.mp hmem with rfl | hother
      · refine (h.tracked long (List.mem_append_left _ hmemLong)).filledBy hlongLe ?_
        simp [fillsOf, totalSize, hlongNull, hshortNull, (hne hmemLong hmemShort).symm, hlongSize]
      · have hall := Cursor.mem_all_of_others hother
        refine (h.tracked order (List.mem_append_left _ hall)).other ?_ ?_
        · rw [hlongNull]
          exact (Cursor.ne_of_nodup hlong hnodupLong hother).symm
        · rw [hshortNull]
          exact (hne hall hmemShort).symm
    · rcases Cursor.mem_all_put.mp hmem with rfl | hother
      · refine (h.tracked short (List.mem_append_right _ hmemShort)).filledBy hshortLe ?_
        simp [fillsOf, totalSize, hlongNull, hshortNull, hne hmemLong hmemShort, hshortSize]
      · have hall := Cursor.mem_all_of_others hother
        refine (h.tracked order (List.mem_append_right _ hall)).other ?_ ?_
        · rw [hlongNull]
          exact hne hmemLong hall
        · rw [hshortNull]
          exact (Cursor.ne_of_nodup hshort hnodupShort hother).symm
  · intro t ht
    rcases List.mem_append.mp ht with ht | ht
    · exact h.traded t ht
    · rw [List.mem_singleton.mp ht]
      exact ⟨fresh long, h.mem_orders (List.mem_append_left _ hmemLong), fresh short,
        h.mem_orders (List.mem_append_right _ hmemShort), hlongSide, hshortSide, htrade.fresh⟩

/-- The loop establishes it. -/
theorem matchLoop_trading (ho : Admitted orders)
    (h : matchLoop H k market (sortedBook orders) = some book) :
    ∃ trades, Trading H k market orders book trades := by
  refine loop_inv (I := fun book => ∃ trades, Trading H k market orders book trades) ?_
    ⟨[], Trading.start ho⟩ h
  rintro book ⟨long, short⟩ book' ⟨trades, htrading⟩ hcrossed hround
  obtain ⟨trade, fees, deltas, hcross, rfl⟩ := matchPair_eq_some.mp hround
  exact ⟨trades ++ [trade], htrading.cross ho hcrossed hcross⟩

end Round

/-! ## The orders after the loop -/

section WriteBack

variable {orders : List BookOrder}

/-- `order` with what the loop has filled of `source`. -/
def withFills (order source : BookOrder) : BookOrder :=
  { order with
    filled := source.filled
    allocatedMargin := source.allocatedMargin
    remaining := source.remaining }

theorem withFills_of_fresh {order source : BookOrder} (h : fresh source = fresh order) :
    withFills order source = source := by
  obtain ⟨_, _, _, _, _, _, _, _, _⟩ := order
  obtain ⟨_, _, _, _, _, _, _, _, _⟩ := source
  simp only [fresh, BookOrder.mk.injEq, true_and] at h
  simp only [withFills, h]

/-- One order in a write-back. -/
def absorb (order source : BookOrder) : BookOrder :=
  if order.sequence = source.sequence then withFills order source else order

theorem absorb_sequence (order source : BookOrder) :
    (absorb order source).sequence = order.sequence := by
  unfold absorb
  split_ifs <;> rfl

theorem writeBack_eq_map (h : (orders.map (·.sequence)).Nodup) (source : BookOrder) :
    writeBack orders source = orders.map fun order => absorb order source := by
  induction orders with
  | nil => rfl
  | cons order orders ih =>
    rw [List.map_cons, List.nodup_cons] at h
    rw [writeBack, List.map_cons, absorb]
    split_ifs with hseq
    · -- no other order has this sequence
      have hrest : orders.map (fun order => absorb order source) = orders := by
        refine (List.map_congr_left fun o ho => if_neg fun heq => ?_).trans (List.map_id orders)
        exact h.1 (by rw [hseq, ← heq]; exact List.mem_map_of_mem ho)
      rw [hrest]
      rfl
    · rw [ih h.2]

theorem foldl_writeBack (h : (orders.map (·.sequence)).Nodup) (sources : List BookOrder) :
    sources.foldl writeBack orders = orders.map fun order => sources.foldl absorb order := by
  induction sources generalizing orders with
  | nil => exact (List.map_id orders).symm
  | cons source sources ih =>
    rw [List.foldl_cons, writeBack_eq_map h, ih, List.map_map]
    · rfl
    · rw [List.map_map, show ((fun order : BookOrder => order.sequence) ∘ fun order =>
        absorb order source) = fun order => order.sequence from funext fun order =>
          absorb_sequence order source]
      exact h

/-- An order absorbs the last source with its sequence. -/
theorem foldl_absorb (sources : List BookOrder) (order : BookOrder) :
    (∀ source ∈ sources, source.sequence ≠ order.sequence) ∧ sources.foldl absorb order = order ∨
      ∃ source ∈ sources, source.sequence = order.sequence ∧
        sources.foldl absorb order = withFills order source := by
  induction sources generalizing order with
  | nil => exact Or.inl ⟨fun _ hmem => absurd hmem List.not_mem_nil, rfl⟩
  | cons source sources ih =>
    rw [List.foldl_cons]
    by_cases hseq : order.sequence = source.sequence
    · have habsorb : absorb order source = withFills order source := if_pos hseq
      rw [habsorb]
      right
      rcases ih (withFills order source) with ⟨-, heq⟩ | ⟨s, hs, hsseq, heq⟩
      · exact ⟨source, List.mem_cons_self, hseq.symm, heq⟩
      · exact ⟨s, List.mem_cons_of_mem _ hs, hsseq, heq⟩
    · have habsorb : absorb order source = order := if_neg hseq
      rw [habsorb]
      rcases ih order with ⟨hall, heq⟩ | ⟨s, hs, hsseq, heq⟩
      · refine Or.inl ⟨fun s hs => ?_, heq⟩
        rcases List.mem_cons.mp hs with rfl | hs
        · exact fun h => hseq h.symm
        · exact hall s hs
      · exact Or.inr ⟨s, List.mem_cons_of_mem _ hs, hsseq, heq⟩

theorem Admitted.nodup_sequences (ho : Admitted orders) : (orders.map (·.sequence)).Nodup := by
  rw [ho.sequences]
  exact List.nodup_range

theorem Admitted.eq_of_sequence (ho : Admitted orders) {a b : BookOrder} (ha : a ∈ orders)
    (hb : b ∈ orders) (h : a.sequence = b.sequence) : a = b :=
  List.inj_on_of_nodup_map ho.nodup_sequences ha hb h

variable {book : Book} {trades : List Trade}

/-- The orders of the request are the orders of the book, with their fills. -/
structure WrittenBack (orders : List BookOrder) (book : Book) (filled : List BookOrder) : Prop where
  fresh : filled.map fresh = orders
  perm : List.Perm filled (book.longs.all ++ book.shorts.all)

theorem Trading.writtenBack (h : Trading H k market orders book trades) (ho : Admitted orders) :
    WrittenBack orders book ((book.longs.all ++ book.shorts.all).foldl writeBack orders) := by
  set sources := book.longs.all ++ book.shorts.all with hsources
  have hperm : List.Perm (sources.map BatchMatch.fresh) orders := by
    rw [hsources, List.map_append, h.longs, h.shorts]
    exact sortedBook_perm
  have hsame : ∀ order ∈ orders, sources.foldl absorb order ∈ sources ∧
      BatchMatch.fresh (sources.foldl absorb order) = order := by
    intro order horder
    obtain ⟨s, hs, hfresh⟩ := List.mem_map.mp (hperm.mem_iff.mpr horder)
    rcases foldl_absorb sources order with ⟨hnone, -⟩ | ⟨s', hs', hseq, heq⟩
    · exact absurd (by rw [← hfresh]; rfl) (hnone s hs)
    · have hfresh' : BatchMatch.fresh s' = order :=
        ho.eq_of_sequence (hperm.mem_iff.mp (List.mem_map_of_mem hs')) horder hseq
      rw [heq, withFills_of_fresh (hfresh'.trans (ho.fresh order horder).symm)]
      exact ⟨hs', hfresh'⟩
  have hfresh : (sources.foldl writeBack orders).map BatchMatch.fresh = orders := by
    rw [foldl_writeBack ho.nodup_sequences, List.map_map]
    exact (List.map_congr_left fun order horder => (hsame order horder).2).trans (List.map_id orders)
  have hmem : ∀ order ∈ sources.foldl writeBack orders, order ∈ sources := by
    rw [foldl_writeBack ho.nodup_sequences]
    intro order horder
    obtain ⟨o, ho', rfl⟩ := List.mem_map.mp horder
    exact (hsame o ho').1
  have hnodup : orders.Nodup := ho.nodup_sequences.of_map _
  have hinj := List.inj_on_of_nodup_map (hperm.nodup_iff.mpr hnodup)
  refine ⟨hfresh, ?_⟩
  rw [List.perm_ext_iff_of_nodup (List.Nodup.of_map _ (hfresh.symm ▸ hnodup))
    ((hperm.nodup_iff.mpr hnodup).of_map _)]
  refine fun order => ⟨hmem order, fun horder => ?_⟩
  have hback : BatchMatch.fresh order ∈ (sources.foldl writeBack orders).map BatchMatch.fresh := by
    rw [hfresh]
    exact hperm.mem_iff.mp (List.mem_map_of_mem horder)
  obtain ⟨o, ho', heq⟩ := List.mem_map.mp hback
  rw [← hinj (hmem o ho') horder heq]
  exact ho'

end WriteBack

/-! ## A request -/

section Request

variable {intents : List RecoveredIntent} {orders : List BookOrder}

theorem toBookOrders_eq_some (h : toBookOrders intents = some orders) :
    List.Forall₂ (fun (p : RecoveredIntent × ℕ) order => OrderOf p.1 p.2 order) intents.zipIdx orders :=
  (mapM_eq_some.mp h).imp fun _ _ h => toBookOrder_eq_some h

/-- The orders of a request are its intents with their places. -/
theorem toBookOrders_map (h : toBookOrders intents = some orders) :
    orders.map (·.intent) = intents ∧ orders.map (·.sequence) = List.range orders.length := by
  have hall := toBookOrders_eq_some h
  have hlen : intents.length = orders.length := by
    rw [← hall.length_eq, List.length_zipIdx]
  have hmap {α : Type} (f : RecoveredIntent × ℕ → α) (g : BookOrder → α)
      (hfg : ∀ p order, OrderOf p.1 p.2 order → f p = g order) :
      intents.zipIdx.map f = orders.map g := by
    rw [← List.forall₂_eq_eq_eq, List.forall₂_map_left_iff, List.forall₂_map_right_iff]
    exact hall.imp hfg
  constructor
  · rw [← hmap Prod.fst (·.intent) fun p order hof => hof.source.symm, List.zipIdx_map_fst]
  · rw [← hmap Prod.snd (·.sequence) fun p order hof => hof.place.symm, List.zipIdx_map_snd,
      List.range_eq_range', hlen]

theorem toBookOrders_orderOf (h : toBookOrders intents = some orders) :
    ∀ order ∈ orders, OrderOf order.intent order.sequence order := by
  intro order hmem
  obtain ⟨p, -, hof⟩ := (toBookOrders_eq_some h).exists_of_mem_right hmem
  rw [hof.source, hof.place]
  exact hof

theorem toBookOrders_admitted (h : toBookOrders intents = some orders)
    (hnodup : (orders.map (·.intent.noteNullifier)).Nodup) : Admitted orders where
  fresh := fun order hmem => by
    obtain ⟨hfilled, hallocated, hremaining⟩ := (toBookOrders_orderOf h order hmem).start
    obtain ⟨_, _, _, _, _, _, _, _, _⟩ := order
    simp only at hfilled hallocated hremaining
    rw [hfilled, hallocated, hremaining]
    rfl
  size_ne := fun order hmem => by
    have hpos := (toBookOrders_orderOf h order hmem).size_pos
    intro hzero
    rw [hzero] at hpos
    exact absurd hpos (by decide)
  nullifiers := hnodup
  sequences := (toBookOrders_map h).2

/-- What an output repeats of the book and the orders, and what it has computed from them. -/
structure OutputOf (H : Host) (k : Checks) (market : MarketInput) (book : Book)
    (orders : List BookOrder) (output : MatchOutput) : Prop where
  executions : output.executions = book.executions
  fills : output.fills = book.fills
  fees : totalFees k book.executions = some output.fees
  changes : output.marginChangeCommitments = createMarginChangeCommitments orders
  updates : output.orderUpdates = createOrderUpdates H orders
  residuals : createResiduals H k market orders = some output.residuals
  spent : output.spentNullifiers = book.spentNullifiers
  volume : sum k (book.fills.map (·.size)) = some output.aggregateVolume
  interest : output.openInterestDelta = output.aggregateVolume
  longSize : sideSize k orders .long = some output.totalLongSize
  shortSize : sideSize k orders .short = some output.totalShortSize
  residualSize : residualSize k output.totalLongSize output.totalShortSize book.fills =
    some output.residualSize
  digest : output.matchTranscriptDigest = matchTranscriptDigest H output

theorem createOutput_eq_some {book : Book} {output : MatchOutput} :
    createOutput H k market book orders = some output ↔ OutputOf H k market book orders output := by
  unfold createOutput
  simp only [Option.bind_eq_bind, Option.bind_eq_some_iff, Option.some.injEq]
  constructor
  · rintro ⟨volume, hvolume, long, hlong, short, hshort, residual, hresidual, residuals, hresiduals,
      fees, hfees, rfl⟩
    exact ⟨rfl, rfl, hfees, rfl, rfl, hresiduals, rfl, hvolume, rfl, hlong, hshort, hresidual, rfl⟩
  · intro h
    refine ⟨_, h.volume, _, h.longSize, _, h.shortSize, _, h.residualSize, _, h.residuals, _, h.fees,
      ?_⟩
    -- the transcript repeats every field but itself
    have hdigest : output.matchTranscriptDigest = _ := h.digest
    unfold matchTranscriptDigest at hdigest ⊢
    rw [h.executions, h.fills, h.changes, h.updates, h.spent, h.interest] at hdigest
    rw [← hdigest, ← h.executions, ← h.fills, ← h.changes, ← h.updates, ← h.spent]
    exact congrArg (fun delta => { output with openInterestDelta := delta }) h.interest.symm

/-- A match: the orders of the request, the loop on them, what it writes back, and the output. -/
structure Matched (H : Host) (k : Checks) (market : MarketInput) (intents : List RecoveredIntent)
    (orders : List BookOrder) (book : Book) (filled : List BookOrder) (output : MatchOutput) :
    Prop where
  request : toBookOrders intents = some orders
  admitted : Admitted orders
  loop : matchLoop H k market (sortedBook orders) = some book
  stopped : book.crossed = none
  fills_ne : book.fills ≠ []
  written : filled = (book.longs.all ++ book.shorts.all).foldl writeBack orders
  back : WrittenBack orders book filled
  output : OutputOf H k market book filled output

theorem matchBatch_eq_some {output : MatchOutput} :
    matchBatch H k market intents = some output ↔
      ∃ orders book filled, Matched H k market intents orders book filled output := by
  unfold matchBatch matchOrders
  simp only [Option.bind_eq_bind, Option.bind_eq_some_iff, assert_eq_some, Option.some.injEq,
    Prod.exists, Prod.mk.injEq]
  constructor
  · rintro ⟨book, filled, ⟨orders, horders, _, hnodup, _, hloop, _, hne, rfl, rfl⟩, houtput⟩
    have hadmitted := toBookOrders_admitted horders hnodup
    obtain ⟨trades, htrading⟩ := matchLoop_trading hadmitted hloop
    exact ⟨orders, _, _, horders, hadmitted, hloop, matchLoop_crossed hloop, hne, rfl,
      htrading.writtenBack hadmitted, createOutput_eq_some.mp houtput⟩
  · rintro ⟨orders, book, filled, h⟩
    exact ⟨book, filled, ⟨orders, h.request, (), h.admitted.nullifiers, book, h.loop, (), h.fills_ne,
      rfl, h.written.symm⟩, createOutput_eq_some.mpr h.output⟩

end Request

end Pnlx.BatchMatch
