import Pnlx.Server.Matching

/-!
# One round of the server's loop

A round of the server replaces the orders at the two cursors by the orders after their fills
(`filledBy`). What it allocates of a margin is rounded up.

1. `matchPair_eq_some`: a round is `Book.cross` on a trade of the two orders.
2. `Kept.filledBy`: what a fill keeps of an order.
3. `matchOrders_kept`: what a match keeps of its orders.
4. `matchOrders_traced`: what a match repeats of its intents.
-/

namespace Pnlx.Server

open BatchMatch (Text Side)

variable {H : Host} {poseidon2Hash : Fr → Fr → Fr} {bound : Option ℤ} {market : MarketConfig}

/-! ## A fill -/

/-- The margin that is allocated when `size` more of an order is filled. -/
def allocatedAfter (order : BookOrder) (size : ℤ) : ℤ :=
  ceilDiv (order.intent.margin * (order.filled + size)) order.size

/-- The order after a fill of `size`. -/
def filledBy (order : BookOrder) (size : ℤ) : BookOrder :=
  { order with
    filled := order.filled + size
    allocatedMargin := allocatedAfter order size
    remaining := order.remaining - size }

/-- A product that is below the bound. -/
def Bounded (bound : Option ℤ) (z : ℤ) : Prop := ∀ b ∈ bound, z < b

theorem times_eq_some {x y z : ℤ} : times bound x y = some z ↔ Bounded bound (x * y) ∧ z = x * y := by
  unfold times Bounded
  split_ifs with h
  · rw [Option.some.injEq]
    exact ⟨fun hz => ⟨h, hz.symm⟩, fun hz => hz.2.symm⟩
  · exact ⟨fun hz => (nomatch hz), fun hz => absurd hz.1 h⟩

/-- A fill of `order`: its margin is allocated, has passed the risk checks, and is described. -/
structure Fills (H : Host) (poseidon2Hash : Fr → Fr → Fr) (bound : Option ℤ) (market : MarketConfig)
    (order : BookOrder) (size price : ℤ) (fillIndex : ℕ) (feeDelta : ℤ) (fill : Fill) : Prop where
  product : Bounded bound (order.intent.margin * (order.filled + size))
  margin : fill.margin = allocatedAfter order size - order.allocatedMargin + feeDelta
  checked : assertFill bound market size price fill.margin = some ()
  described : describeFill H poseidon2Hash market order size price fill.margin fillIndex = some fill

section

variable {order order' : BookOrder} {size price margin : ℤ} {fillIndex : ℕ} {feeDelta : ℤ}
  {fill : Fill}

theorem assertFill_margin_pos
    (h : assertFill bound market size price margin = some ()) : 0 < margin := by
  unfold assertFill hasMaxLeverage at h
  simp only [Option.bind_eq_bind, Option.bind_eq_some_iff, assert_eq_some] at h
  obtain ⟨_, -, _, -, _, hallowed, _, rfl, -⟩ := h
  split_ifs at hallowed with hpos
  · exact absurd (Option.some.inj hallowed) Bool.false_ne_true
  · omega

/-- What a fill repeats of its order and its crossing. -/
theorem describeFill_data
    (h : describeFill H poseidon2Hash market order size price margin fillIndex = some fill) :
    fill.intentCommitment = order.intent.intentCommitment ∧
      fill.marketId = order.intent.marketId ∧
      fill.ownerCommitment = order.intent.ownerCommitment ∧ fill.side = order.side ∧
      fill.size = size ∧ fill.price = price ∧ fill.margin = margin := by
  unfold describeFill at h
  simp only [Option.bind_eq_bind, Option.bind_eq_some_iff] at h
  obtain ⟨_, -, _, -, hfill⟩ := h
  rw [← Option.some.inj hfill]
  exact ⟨rfl, rfl, rfl, rfl, rfl, rfl, rfl⟩

theorem allocateMargin_eq_some (h : allocateMargin bound order size = some (margin, order')) :
    Bounded bound (order.intent.margin * (order.filled + size)) ∧
      margin = allocatedAfter order size - order.allocatedMargin ∧
      order' = { filledBy order size with remaining := order.remaining } := by
  unfold allocateMargin at h
  simp only [Option.bind_eq_bind, Option.bind_eq_some_iff, Option.some.injEq, Prod.mk.injEq,
    times_eq_some] at h
  obtain ⟨value, ⟨hbounded, rfl⟩, rfl, rfl⟩ := h
  exact ⟨hbounded, rfl, rfl⟩

theorem createFill_eq_some (h : createFill H poseidon2Hash bound market order size price fillIndex
    feeDelta = some (fill, order')) :
    Fills H poseidon2Hash bound market order size price fillIndex feeDelta fill ∧
      order' = { filledBy order size with remaining := order.remaining } := by
  unfold createFill at h
  simp only [Option.bind_eq_bind, Option.bind_eq_some_iff, Option.some.injEq, Prod.mk.injEq] at h
  obtain ⟨⟨allocated, filled⟩, hallocate, _, hassert, fill, hdescribe, rfl, rfl⟩ := h
  obtain ⟨hbounded, rfl, rfl⟩ := allocateMargin_eq_some hallocate
  obtain ⟨-, -, -, -, -, -, hmargin⟩ := describeFill_data hdescribe
  rw [← hmargin] at hassert hdescribe
  exact ⟨⟨hbounded, hmargin, hassert, hdescribe⟩, rfl⟩

end

/-! ## A round -/

/-- The two fills of a crossing and its execution. -/
structure Trade where
  execution : MatchExecution
  longFill : Fill
  shortFill : Fill
  deriving DecidableEq

/-- What the fees of a crossing add to the margin of the maker or of the taker. -/
def feeDelta (fees : FillFees) (maker : Prop) [Decidable maker] : ℤ :=
  if maker then fees.makerRebate else -fees.grossTakerFee

def crossingSize (long short : BookOrder) : ℤ := min long.remaining short.remaining

/-- The trade of a crossing of `long` and `short` after `fillIndex` fills. -/
structure Crosses (H : Host) (poseidon2Hash : Fr → Fr → Fr) (bound : Option ℤ)
    (market : MarketConfig) (fillIndex : ℕ) (long short : BookOrder) (trade : Trade)
    (fees : FillFees) : Prop where
  charged : fillFees bound (crossingSize long short) (executionPrice long short) = some fees
  longFill : Fills H poseidon2Hash bound market long (crossingSize long short)
    (executionPrice long short) fillIndex (feeDelta fees (long.sequence ≤ short.sequence))
    trade.longFill
  shortFill : Fills H poseidon2Hash bound market short (crossingSize long short)
    (executionPrice long short) (fillIndex + 1) (feeDelta fees (¬ long.sequence ≤ short.sequence))
    trade.shortFill
  execution : trade.execution = createExecution long short (crossingSize long short)
    (executionPrice long short) trade.longFill trade.shortFill fees

/-- The book after a crossing. -/
def Book.cross (book : Book) (long short : BookOrder) (trade : Trade) : Book :=
  let size := crossingSize long short
  { longs := book.longs.put (filledBy long size) (long.remaining - size = 0)
    shorts := book.shorts.put (filledBy short size) (short.remaining - size = 0)
    fills := book.fills ++ [trade.longFill, trade.shortFill]
    executions := book.executions ++ [trade.execution]
    spentNullifiers := addUnique
      (addUnique book.spentNullifiers long.intent.noteNullifier) short.intent.noteNullifier }

/-- An execution repeats nothing of its orders that a fill changes. -/
theorem createExecution_filledBy (long short : BookOrder) (size price : ℤ)
    (longFill shortFill : Fill) (fees : FillFees) :
    createExecution { filledBy long size with remaining := long.remaining }
        { filledBy short size with remaining := short.remaining } size price longFill shortFill fees =
      createExecution long short size price longFill shortFill fees := by
  unfold createExecution
  by_cases hmaker : long.sequence ≤ short.sequence
  · simp [filledBy, hmaker]
  · simp [filledBy, hmaker]

/-- A round is a crossing of the two orders. -/
theorem matchPair_eq_some {book book' : Book} {long short : BookOrder}
    (h : matchPair H poseidon2Hash bound market book long short = some book') :
    ∃ trade fees,
      Crosses H poseidon2Hash bound market book.fills.length long short trade fees ∧
        book' = book.cross long short trade := by
  unfold matchPair at h
  simp only [Option.bind_eq_bind, Option.bind_eq_some_iff, Option.some.injEq] at h
  obtain ⟨fees, hfees, ⟨longFill, long'⟩, hlong, ⟨shortFill, short'⟩, hshort, rfl⟩ := h
  obtain ⟨hlongFill, rfl⟩ := createFill_eq_some hlong
  obtain ⟨hshortFill, rfl⟩ := createFill_eq_some hshort
  refine ⟨⟨createExecution long short (crossingSize long short) (executionPrice long short)
    longFill shortFill fees, longFill, shortFill⟩, fees, ⟨hfees, hlongFill, ?_, rfl⟩, ?_⟩
  · unfold feeDelta
    rw [ite_not]
    exact hshortFill
  · rw [createExecution_filledBy]
    rfl

theorem Book.crossed_eq_some {book : Book} {long short : BookOrder}
    (h : book.crossed = some (long, short)) :
    ∃ longs shorts, book.longs.after = long :: longs ∧ book.shorts.after = short :: shorts ∧
      ¬ long.intent.limitPrice < short.intent.limitPrice := by
  unfold Book.crossed at h
  split at h
  · next l longs s shorts hlongs hshorts =>
    split_ifs at h with hlt
    obtain ⟨rfl, rfl⟩ := Prod.mk.inj (Option.some.inj h)
    exact ⟨longs, shorts, hlongs, hshorts, hlt⟩
  · exact nomatch h

theorem Book.crossed_of_after {book : Book} {long short : BookOrder} {longs shorts : List BookOrder}
    (hlong : book.longs.after = long :: longs) (hshort : book.shorts.after = short :: shorts)
    (h : ¬ long.intent.limitPrice < short.intent.limitPrice) :
    book.crossed = some (long, short) := by
  unfold Book.crossed
  rw [hlong, hshort]
  exact if_neg h

/-! ## What a fill keeps -/

/-- What is filled and left of an order, and what it has allocated. -/
structure Kept (order : BookOrder) : Prop where
  size_pos : 0 < order.size
  limitPrice_pos : 0 < order.intent.limitPrice
  margin_pos : 0 < order.intent.margin
  filled : 0 ≤ order.filled
  remaining : 0 ≤ order.remaining
  left : order.filled + order.remaining = order.size
  share : order.allocatedMargin = ceilDiv (order.intent.margin * order.filled) order.size

theorem Kept.filledBy {order : BookOrder} (h : Kept order) {size : ℤ} (hpos : 0 ≤ size)
    (hle : size ≤ order.remaining) : Kept (filledBy order size) where
  size_pos := h.size_pos
  limitPrice_pos := h.limitPrice_pos
  margin_pos := h.margin_pos
  filled := Int.add_nonneg h.filled hpos
  remaining := Int.sub_nonneg_of_le hle
  left := by
    have hleft := h.left
    show order.filled + size + (order.remaining - size) = order.size
    omega
  share := rfl

theorem toBookOrder_kept {intent : PrivateMatchIntent} {sequence : ℕ} {order : BookOrder}
    (h : toBookOrder intent sequence = some order) :
    Kept order ∧ order.filled = 0 ∧ order.intent = intent ∧ order.sequence = sequence := by
  unfold toBookOrder at h
  simp only [Option.bind_eq_bind, Option.bind_eq_some_iff, assert_eq_some, Option.some.injEq] at h
  obtain ⟨_, hsize, _, hprice, _, hmargin, rfl⟩ := h
  have hpos : 0 < if 0 ≤ intent.signedSize then intent.signedSize else -intent.signedSize := by
    split_ifs at hsize ⊢ <;> omega
  refine ⟨⟨hpos, Int.not_le.mp hprice, Int.not_le.mp hmargin, le_refl 0, hpos.le, Int.zero_add _, ?_⟩,
    rfl, rfl, rfl⟩
  show (0 : ℤ) = (intent.margin * 0 + _ - 1).tdiv _
  rw [Int.mul_zero, Int.zero_add]
  exact (Int.tdiv_eq_zero_of_lt (Int.le_sub_one_of_lt hpos) (Int.sub_one_lt_of_le (le_refl _))).symm

theorem toBookOrders_kept {intents : List PrivateMatchIntent} {orders : List BookOrder}
    (h : toBookOrders intents = some orders) : ∀ order ∈ orders, Kept order := by
  intro order hmem
  obtain ⟨p, -, hp⟩ := (mapM_eq_some.mp h).exists_of_mem_right hmem
  exact (toBookOrder_kept hp).1

/-- The orders of a book are kept. -/
def Book.Kept (book : Book) : Prop := ∀ order ∈ book.longs.all ++ book.shorts.all, Server.Kept order

theorem sortedBook_kept {orders : List BookOrder} (h : ∀ order ∈ orders, Kept order) :
    (sortedBook orders).Kept := by
  intro order hmem
  rcases List.mem_append.mp hmem with hmem | hmem
  · exact h order (List.mem_of_mem_filter ((List.mem_insertionSort _).mp hmem))
  · exact h order (List.mem_of_mem_filter ((List.mem_insertionSort _).mp hmem))

/-- A round keeps the orders. -/
theorem Book.Kept.cross {book : Book} (h : book.Kept) {long short : BookOrder}
    (hcrossed : book.crossed = some (long, short)) (trade : Trade) :
    (book.cross long short trade).Kept := by
  obtain ⟨longs, shorts, hlong, hshort, -⟩ := Book.crossed_eq_some hcrossed
  have hlongKept := h long (List.mem_append_left _ (Cursor.mem_all hlong))
  have hshortKept := h short (List.mem_append_right _ (Cursor.mem_all hshort))
  have hpos : 0 ≤ crossingSize long short := le_min hlongKept.remaining hshortKept.remaining
  intro order hmem
  rcases List.mem_append.mp hmem with hmem | hmem
  · rcases Cursor.mem_all_put.mp hmem with rfl | hother
    · exact hlongKept.filledBy hpos (min_le_left _ _)
    · exact h order (List.mem_append_left _ (Cursor.mem_all_of_others hother))
  · rcases Cursor.mem_all_put.mp hmem with rfl | hother
    · exact hshortKept.filledBy hpos (min_le_right _ _)
    · exact h order (List.mem_append_right _ (Cursor.mem_all_of_others hother))

theorem matchLoop_kept {book book' : Book} (hbook : book.Kept)
    (h : matchLoop H poseidon2Hash bound market book = some book') : book'.Kept := by
  refine loop_inv (I := Book.Kept) ?_ hbook h
  rintro book ⟨long, short⟩ book' hkept hcrossed hround
  obtain ⟨trade, fees, -, rfl⟩ := matchPair_eq_some hround
  exact hkept.cross hcrossed trade

/-- A match keeps its orders. -/
theorem matchOrders_kept {input : MatchInput} {book : Book} {orders : List BookOrder}
    (h : matchOrders H poseidon2Hash bound input = some (book, orders)) :
    ∀ order ∈ orders, Kept order := by
  unfold matchOrders at h
  simp only [Option.bind_eq_bind, Option.bind_eq_some_iff, assert_eq_some, Option.some.injEq,
    Prod.mk.injEq] at h
  obtain ⟨start, hstart, -, -, book, hloop, -, -, rfl, rfl⟩ := h
  have hkept := toBookOrders_kept hstart
  have hbook := matchLoop_kept (sortedBook_kept hkept) hloop
  intro order hmem
  obtain ⟨order, horder, rfl⟩ := List.mem_map.mp hmem
  unfold afterLoop
  cases hfind : (book.longs.all ++ book.shorts.all).find? (·.sequence = order.sequence) with
  | none => exact hkept order horder
  | some source => exact hbook source (List.mem_of_find?_eq_some hfind)

/-! ## What a match repeats of its intents -/

/-- The order that an intent becomes. -/
structure OrderOf (intent : PrivateMatchIntent) (order : BookOrder) : Prop where
  source : order.intent = intent
  size : order.size = if 0 ≤ intent.signedSize then intent.signedSize else -intent.signedSize
  side : order.side = if 0 ≤ intent.signedSize then .long else .short

/-- An order that stands for the intent at its place. -/
def Placed (intents : List PrivateMatchIntent) (order : BookOrder) : Prop :=
  ∃ intent, intents[order.sequence]? = some intent ∧ OrderOf intent order

/-- The texts that a book has made, and the intents that it repeats. -/
structure Book.Traced (intents : List PrivateMatchIntent) (book : Book) : Prop where
  orders : ∀ order ∈ book.longs.all ++ book.shorts.all, Placed intents order
  fills : ∀ fill ∈ book.fills, IsHex32 fill.positionCommitment
  executions : ∀ execution ∈ book.executions,
    execution.makerIntentCommitment ∈ intents.map (·.intentCommitment) ∧
      execution.takerIntentCommitment ∈ intents.map (·.intentCommitment)
  spent : ∀ nullifier ∈ book.spentNullifiers, nullifier ∈ intents.map (·.noteNullifier)

section Traced

variable {intents : List PrivateMatchIntent} {book : Book} {order : BookOrder}

theorem Placed.mem (h : Placed intents order) : order.intent ∈ intents := by
  obtain ⟨intent, hget, hof⟩ := h
  rw [hof.source]
  exact List.mem_of_getElem? hget

theorem fieldHashPair_isHex32 {left right : FieldValue} {text : Text}
    (h : fieldHashPair poseidon2Hash left right = some text) : IsHex32 text := by
  unfold fieldHashPair at h
  simp only [Option.bind_eq_bind, Option.bind_eq_some_iff, Option.some.injEq] at h
  obtain ⟨_, -, _, -, rfl⟩ := h
  exact isHex32_fieldHex _

theorem describeFill_isHex32 {size price margin : ℤ} {fillIndex : ℕ} {fill : Fill}
    (h : describeFill H poseidon2Hash market order size price margin fillIndex = some fill) :
    IsHex32 fill.positionCommitment := by
  unfold describeFill circuitPositionCommitment at h
  simp only [Option.bind_eq_bind, Option.bind_assoc, Option.bind_eq_some_iff] at h
  obtain ⟨_, -, _, -, _, -, _, -, _, -, _, -, _, -, _, hcommitment, _, -, hfill⟩ := h
  rw [← Option.some.inj hfill]
  exact fieldHashPair_isHex32 hcommitment

theorem mem_addUnique {values : List Text} {value x : Text} :
    x ∈ addUnique values value ↔ x ∈ values ∨ x = value := by
  unfold addUnique
  split_ifs with hmem
  · exact ⟨Or.inl, fun h => h.elim id fun heq => heq ▸ hmem⟩
  · rw [List.mem_append, List.mem_singleton]

/-- A round repeats the intents of its orders. -/
theorem Book.Traced.cross (h : book.Traced intents) {long short : BookOrder}
    (hcrossed : book.crossed = some (long, short)) {trade : Trade} {fees : FillFees}
    (hcross : Crosses H poseidon2Hash bound market book.fills.length long short trade fees) :
    (book.cross long short trade).Traced intents := by
  obtain ⟨longs, shorts, hlong, hshort, -⟩ := Book.crossed_eq_some hcrossed
  have hlongPlaced := h.orders long (List.mem_append_left _ (Cursor.mem_all hlong))
  have hshortPlaced := h.orders short (List.mem_append_right _ (Cursor.mem_all hshort))
  have hlongMem := List.mem_map_of_mem (f := (·.intentCommitment)) hlongPlaced.mem
  have hshortMem := List.mem_map_of_mem (f := (·.intentCommitment)) hshortPlaced.mem
  refine ⟨fun order hmem => ?_, fun fill hmem => ?_, fun execution hmem => ?_, fun n hmem => ?_⟩
  · rcases List.mem_append.mp hmem with hmem | hmem
    · rcases Cursor.mem_all_put.mp hmem with rfl | hother
      · obtain ⟨intent, hget, hof⟩ := hlongPlaced
        exact ⟨intent, hget, hof.source, hof.size, hof.side⟩
      · exact h.orders order (List.mem_append_left _ (Cursor.mem_all_of_others hother))
    · rcases Cursor.mem_all_put.mp hmem with rfl | hother
      · obtain ⟨intent, hget, hof⟩ := hshortPlaced
        exact ⟨intent, hget, hof.source, hof.size, hof.side⟩
      · exact h.orders order (List.mem_append_right _ (Cursor.mem_all_of_others hother))
  · rcases List.mem_append.mp hmem with hmem | hmem
    · exact h.fills fill hmem
    · simp only [List.mem_cons, List.not_mem_nil, or_false] at hmem
      rcases hmem with rfl | rfl
      · exact describeFill_isHex32 hcross.longFill.described
      · exact describeFill_isHex32 hcross.shortFill.described
  · rcases List.mem_append.mp hmem with hmem | hmem
    · exact h.executions execution hmem
    · rw [List.mem_singleton.mp hmem, hcross.execution]
      unfold createExecution
      by_cases hmaker : long.sequence ≤ short.sequence
      · simp only [hmaker, if_true]
        exact ⟨hlongMem, hshortMem⟩
      · simp only [hmaker, if_false]
        exact ⟨hshortMem, hlongMem⟩
  · rcases mem_addUnique.mp hmem with hmem | rfl
    · rcases mem_addUnique.mp hmem with hmem | rfl
      · exact h.spent n hmem
      · exact List.mem_map_of_mem hlongPlaced.mem
    · exact List.mem_map_of_mem hshortPlaced.mem

theorem toBookOrder_orderOf {intent : PrivateMatchIntent} {sequence : ℕ}
    (h : toBookOrder intent sequence = some order) :
    OrderOf intent order ∧ order.sequence = sequence := by
  unfold toBookOrder at h
  simp only [Option.bind_eq_bind, Option.bind_eq_some_iff, assert_eq_some, Option.some.injEq] at h
  obtain ⟨_, -, _, -, _, -, rfl⟩ := h
  exact ⟨⟨rfl, rfl, rfl⟩, rfl⟩

/-- The orders of a request stand for its intents. -/
theorem toBookOrders_placed {orders : List BookOrder} (h : toBookOrders intents = some orders) :
    List.Forall₂ (fun intent order => intents[order.sequence]? = some intent ∧ OrderOf intent order)
      intents orders := by
  have hzip : List.Forall₂ (fun (p : PrivateMatchIntent × ℕ) order =>
      intents[order.sequence]? = some p.1 ∧ OrderOf p.1 order) intents.zipIdx orders := by
    have hboth := (List.forall₂_and_left _ _).mpr
      ⟨fun (p : PrivateMatchIntent × ℕ) hp => List.mem_zipIdx_iff_getElem?.mp hp, mapM_eq_some.mp h⟩
    refine hboth.imp fun p order hp => ?_
    obtain ⟨hof, hplace⟩ := toBookOrder_orderOf hp.2
    exact ⟨hplace ▸ hp.1, hof⟩
  have hfst : intents = intents.zipIdx.map Prod.fst := (List.zipIdx_map_fst 0 intents).symm
  generalize intents.zipIdx = zipped at hzip hfst
  conv => arg 2; rw [hfst]
  exact List.forall₂_map_left_iff.mpr hzip

/-- The order that a match returns stands for the same intent. -/
theorem afterLoop_placed {sources : List BookOrder} (hsources : ∀ order ∈ sources, Placed intents order)
    {intent : PrivateMatchIntent} (hget : intents[order.sequence]? = some intent)
    (hof : OrderOf intent order) : OrderOf intent (afterLoop sources order) := by
  unfold afterLoop
  cases hfind : sources.find? (·.sequence = order.sequence) with
  | none => exact hof
  | some source =>
    have hfound := List.find?_some hfind
    have hsequence : source.sequence = order.sequence := of_decide_eq_true hfound
    obtain ⟨intent', hget', hof'⟩ := hsources source (List.mem_of_find?_eq_some hfind)
    rw [hsequence, hget, Option.some.injEq] at hget'
    exact hget' ▸ hof'

/-- The orders and the book of a match repeat its intents. -/
theorem matchOrders_traced {input : MatchInput} {orders : List BookOrder}
    (h : matchOrders H poseidon2Hash bound input = some (book, orders)) :
    book.Traced input.intents ∧ List.Forall₂ OrderOf input.intents orders := by
  unfold matchOrders at h
  simp only [Option.bind_eq_bind, Option.bind_eq_some_iff, assert_eq_some, Option.some.injEq,
    Prod.mk.injEq] at h
  obtain ⟨start, hstart, -, -, book, hloop, -, -, rfl, rfl⟩ := h
  have hplaced := toBookOrders_placed hstart
  have htraced : book.Traced input.intents := by
    refine loop_inv (I := fun book => Book.Traced input.intents book) ?_ ?_ hloop
    · rintro book ⟨long, short⟩ book' htraced hcrossed hround
      obtain ⟨trade, fees, hcross, rfl⟩ := matchPair_eq_some hround
      exact htraced.cross hcrossed hcross
    · refine ⟨fun order hmem => ?_, fun _ hmem => absurd hmem List.not_mem_nil,
        fun _ hmem => absurd hmem List.not_mem_nil, fun _ hmem => absurd hmem List.not_mem_nil⟩
      have hmem : order ∈ start := by
        rcases List.mem_append.mp hmem with hmem | hmem
        · exact List.mem_of_mem_filter ((List.mem_insertionSort _).mp hmem)
        · exact List.mem_of_mem_filter ((List.mem_insertionSort _).mp hmem)
      obtain ⟨intent, -, hget, hof⟩ := hplaced.exists_of_mem_right hmem
      exact ⟨intent, hget, hof⟩
  refine ⟨htraced, ?_⟩
  rw [List.forall₂_map_right_iff]
  exact hplaced.imp fun intent order hplace =>
    afterLoop_placed htraced.orders hplace.1 hplace.2

end Traced

end Pnlx.Server
