import Pnlx.BatchMatch.Trading
import Pnlx.SampleHost

/-!
# The order book laws of a match

`matchBatch_laws`: in every match of the guest program, orders are filled in price-time priority at
the price of the earlier order, until no two of them cross.
-/

namespace Pnlx

namespace BatchMatch

variable {H : Host} {k : Checks} {market : MarketInput} {orders filled : List BookOrder} {book : Book}
  {trades : List Trade}

/-! ## Priority -/

/-- `a` is strictly better priced than `b`, or equally priced and earlier in the request. -/
def Better (a b : BookOrder) : Prop :=
  match a.side with
  | .long => b.limitPrice < a.limitPrice ∨ (b.limitPrice = a.limitPrice ∧ a.sequence < b.sequence)
  | .short => a.limitPrice < b.limitPrice ∨ (a.limitPrice = b.limitPrice ∧ a.sequence < b.sequence)

instance : Std.Total longPriority where
  total a b := by
    simp only [longPriority, BitVec.lt_def, ← BitVec.toNat_inj]
    omega

instance : IsTrans BookOrder longPriority where
  trans a b c h h' := by
    simp only [longPriority, BitVec.lt_def, ← BitVec.toNat_inj] at *
    omega

instance : Std.Total shortPriority where
  total a b := by
    simp only [shortPriority, BitVec.lt_def, ← BitVec.toNat_inj]
    omega

instance : IsTrans BookOrder shortPriority where
  trans a b c h h' := by
    simp only [shortPriority, BitVec.lt_def, ← BitVec.toNat_inj] at *
    omega

theorem Better.not_longPriority {a b : BookOrder} (ha : a.side = .long) (h : Better a b) :
    ¬ longPriority b a := by
  unfold Better at h
  rw [ha] at h
  simp only [longPriority, BitVec.lt_def, ← BitVec.toNat_inj] at *
  omega

theorem Better.not_shortPriority {a b : BookOrder} (ha : a.side = .short) (h : Better a b) :
    ¬ shortPriority b a := by
  unfold Better at h
  rw [ha] at h
  simp only [shortPriority, BitVec.lt_def, ← BitVec.toNat_inj] at *
  omega

/-- In a side of the book the orders stand in priority order. -/
theorem Trading.longs_pairwise (h : Trading H k market orders book trades) :
    book.longs.all.Pairwise longPriority := by
  have hsorted : (book.longs.all.map fresh).Pairwise longPriority := by
    rw [h.longs]
    exact List.pairwise_insertionSort longPriority _
  rw [List.pairwise_map] at hsorted
  exact hsorted

theorem Trading.shorts_pairwise (h : Trading H k market orders book trades) :
    book.shorts.all.Pairwise shortPriority := by
  have hsorted : (book.shorts.all.map fresh).Pairwise shortPriority := by
    rw [h.shorts]
    exact List.pairwise_insertionSort shortPriority _
  rw [List.pairwise_map] at hsorted
  exact hsorted

theorem Better.ne {a b : BookOrder} (h : Better a b) : a ≠ b := by
  rintro rfl
  unfold Better at h
  cases hside : a.side
  all_goals
    rw [hside] at h
    simp only [BitVec.lt_def] at h
    omega

/-- An order that has a fill is not untouched. -/
theorem Tracked.not_untouched {order : BookOrder} (h : Tracked trades order)
    (hfills : totalSize (fillsOf order.intent.noteNullifier trades) ≠ 0) : ¬ Untouched order := by
  intro huntouched
  have hzero : order.filled = 0 := by
    rw [← huntouched.1]
    rfl
  rw [← h.filled, hzero] at hfills
  exact hfills rfl

/-- An order gets a fill only if every better order of its side is filled. -/
theorem Trading.priority (h : Trading H k market orders book trades) {a b : BookOrder}
    (ha : a ∈ book.longs.all ++ book.shorts.all) (hb : b ∈ book.longs.all ++ book.shorts.all)
    (hside : a.side = b.side) (hbetter : Better a b)
    (hfills : totalSize (fillsOf b.intent.noteNullifier trades) ≠ 0) : a.remaining = 0 := by
  have huntouched := (h.tracked b hb).not_untouched hfills
  rcases List.mem_append.mp ha with hal | has <;> rcases List.mem_append.mp hb with hbl | hbs
  · exact h.longOrder.done_of_not_rel h.longs_pairwise hal hbl hbetter.ne
      (hbetter.not_longPriority (h.side_long hal)) huntouched
  · rw [h.side_long hal, h.side_short hbs] at hside
    exact nomatch hside
  · rw [h.side_short has, h.side_long hbl] at hside
    exact nomatch hside
  · exact h.shortOrder.done_of_not_rel h.shorts_pairwise has hbs hbetter.ne
      (hbetter.not_shortPriority (h.side_short has)) huntouched

/-- After the loop no remaining orders cross. -/
theorem Trading.uncrossed (h : Trading H k market orders book trades) (hstop : book.crossed = none)
    {long short : BookOrder} (hlong : long ∈ book.longs.all) (hshort : short ∈ book.shorts.all)
    (hl : long.remaining ≠ 0) (hs : short.remaining ≠ 0) :
    long.limitPrice < short.limitPrice := by
  obtain ⟨bestLong, longs, hlongs, hbestLong⟩ :=
    h.longOrder.head_of_not_done h.longs_pairwise hlong hl
  obtain ⟨bestShort, shorts, hshorts, hbestShort⟩ :=
    h.shortOrder.head_of_not_done h.shorts_pairwise hshort hs
  have hbest : bestLong.limitPrice < bestShort.limitPrice := by
    by_contra hlt
    rw [Book.crossed_of_after hlongs hshorts hlt] at hstop
    exact nomatch hstop
  have hle : long.limitPrice.toNat ≤ bestLong.limitPrice.toNat := by
    rcases hbestLong with rfl | hrel
    · exact le_refl _
    · simp only [longPriority, BitVec.lt_def, ← BitVec.toNat_inj] at hrel
      omega
  have hge : bestShort.limitPrice.toNat ≤ short.limitPrice.toNat := by
    rcases hbestShort with rfl | hrel
    · exact le_refl _
    · simp only [shortPriority, BitVec.lt_def, ← BitVec.toNat_inj] at hrel
      omega
  rw [BitVec.lt_def] at hbest ⊢
  omega

/-! ## Fills -/

/-- A trade fills as much on the long as on the short side. -/
theorem totalSize_sides (h : ∀ trade ∈ trades, trade.longFill.side = .long ∧
    trade.shortFill.side = .short ∧ trade.shortFill.size = trade.longFill.size) :
    totalSize ((trades.flatMap fun trade => [trade.longFill, trade.shortFill]).filter
        (·.side = .long)) =
      totalSize ((trades.flatMap fun trade => [trade.longFill, trade.shortFill]).filter
        (·.side = .short)) := by
  induction trades with
  | nil => rfl
  | cons trade trades ih =>
    obtain ⟨hlong, hshort, hsize⟩ := h trade List.mem_cons_self
    rw [List.flatMap_cons, List.filter_append, List.filter_append, totalSize_append,
      totalSize_append, ih fun t ht => h t (List.mem_cons_of_mem _ ht)]
    simp [hlong, hshort, totalSize, hsize]

/-- An order has a fill when something of it is filled. -/
theorem fillsOf_ne_nil_iff (h : ∀ trade ∈ trades, trade.longFill.size ≠ 0 ∧
    trade.shortFill.size ≠ 0) (nullifier : Text) :
    fillsOf nullifier trades ≠ [] ↔ totalSize (fillsOf nullifier trades) ≠ 0 := by
  constructor
  · intro hne
    obtain ⟨fill, fills, hfills⟩ := List.exists_cons_of_ne_nil hne
    have hmem : fill ∈ fillsOf nullifier trades := by
      rw [hfills]
      exact List.mem_cons_self
    have hsize : fill.size ≠ 0 := by
      obtain ⟨trade, htrade, hfill⟩ := List.mem_flatMap.mp hmem
      rcases List.mem_append.mp hfill with hfill | hfill
      · rw [List.mem_singleton.mp (List.mem_ite_nil_right.mp hfill).2]
        exact (h trade htrade).1
      · rw [List.mem_singleton.mp (List.mem_ite_nil_right.mp hfill).2]
        exact (h trade htrade).2
    have hpos : 0 < fill.size.toNat := Nat.pos_of_ne_zero fun hzero =>
      hsize (BitVec.eq_of_toNat_eq hzero)
    rw [hfills]
    unfold totalSize
    rw [List.map_cons, List.sum_cons]
    omega
  · intro hne hnil
    rw [hnil] at hne
    exact hne rfl

theorem Trading.sizes_ne (h : Trading H k market orders book trades) :
    ∀ trade ∈ trades, trade.longFill.size ≠ 0 ∧ trade.shortFill.size ≠ 0 := by
  intro trade ht
  obtain ⟨long, -, short, -, -, -, htrade⟩ := h.traded trade ht
  exact ⟨htrade.size_ne, by rw [htrade.sameSize]; exact htrade.size_ne⟩

/-- The orders of which something is filled are the orders with a fill. -/
theorem filter_filled (hsizes : ∀ trade ∈ trades, trade.longFill.size ≠ 0 ∧
    trade.shortFill.size ≠ 0) (htracked : ∀ order ∈ filled, Tracked trades order) :
    filled.filter (·.filled > 0) =
      filled.filter fun order => fillsOf order.intent.noteNullifier trades ≠ [] := by
  refine List.filter_congr fun order hf => decide_eq_decide.mpr ?_
  rw [ne_eq, ← ne_eq, fillsOf_ne_nil_iff hsizes, ← (htracked order hf).filled, gt_iff_lt,
    BitVec.lt_def, show (0 : U128).toNat = 0 from rfl, Nat.pos_iff_ne_zero]

theorem longFill_mem_fillsOf {trade : Trade} (h : trade ∈ trades) :
    trade.longFill ∈ fillsOf trade.execution.longNoteNullifier trades := by
  refine List.mem_flatMap.mpr ⟨trade, h, List.mem_append_left _ ?_⟩
  rw [if_pos rfl]
  exact List.mem_singleton_self _

theorem shortFill_mem_fillsOf {trade : Trade} (h : trade ∈ trades) :
    trade.shortFill ∈ fillsOf trade.execution.shortNoteNullifier trades := by
  refine List.mem_flatMap.mpr ⟨trade, h, List.mem_append_right _ ?_⟩
  rw [if_pos rfl]
  exact List.mem_singleton_self _

/-- The price of a crossing lies between the limits. -/
theorem executionPrice_between {long short : BookOrder} (h : ¬ long.limitPrice < short.limitPrice) :
    short.limitPrice ≤ executionPrice long short ∧ executionPrice long short ≤ long.limitPrice := by
  have hle : short.limitPrice ≤ long.limitPrice := BitVec.not_lt.mp h
  unfold executionPrice
  split_ifs
  · exact ⟨hle, BitVec.le_refl _⟩
  · exact ⟨BitVec.le_refl _, hle⟩

theorem Trading.mem_longs (h : Trading H k market orders book trades) {order : BookOrder}
    (hmem : order ∈ book.longs.all ++ book.shorts.all) (hside : order.side = .long) :
    order ∈ book.longs.all := by
  rcases List.mem_append.mp hmem with hmem | hmem
  · exact hmem
  · rw [h.side_short hmem] at hside
    exact nomatch hside

theorem Trading.mem_shorts (h : Trading H k market orders book trades) {order : BookOrder}
    (hmem : order ∈ book.longs.all ++ book.shorts.all) (hside : order.side = .short) :
    order ∈ book.shorts.all := by
  rcases List.mem_append.mp hmem with hmem | hmem
  · rw [h.side_long hmem] at hside
    exact nomatch hside
  · exact hmem

/-- The fills that spend the note of an order are fills of that order. -/
theorem Trading.described (h : Trading H k market orders book trades) (ho : Admitted orders)
    {order : BookOrder} (hmem : order ∈ book.longs.all ++ book.shorts.all) {fill : Fill}
    (hfill : fill ∈ fillsOf order.intent.noteNullifier trades) :
    fill.intentCommitment = order.intent.intentCommitment ∧
      fill.marketId = order.intent.marketId ∧
      fill.ownerCommitment = order.intent.ownerCommitment ∧ fill.side = order.side := by
  obtain ⟨trade, ht, hside⟩ := List.mem_flatMap.mp hfill
  obtain ⟨long, hl, short, hs, -, -, htrade⟩ := h.traded trade ht
  obtain ⟨fees, -, hexecution⟩ := htrade.execution
  -- the note belongs to one order only
  have hsame {o : BookOrder} (hmem' : o ∈ orders)
      (hnull : o.intent.noteNullifier = order.intent.noteNullifier) : o = fresh order :=
    List.inj_on_of_nodup_map ho.nullifiers hmem' (h.mem_orders hmem) hnull
  rw [hexecution] at hside
  rcases List.mem_append.mp hside with hside | hside
  · obtain ⟨hnull, hside⟩ := List.mem_ite_nil_right.mp hside
    obtain rfl := List.mem_singleton.mp hside
    obtain rfl := hsame hl hnull
    obtain ⟨hintent, hmarket, howner, hsideOf, -⟩ := htrade.longFill.data
    exact ⟨hintent, hmarket, howner, hsideOf⟩
  · obtain ⟨hnull, hside⟩ := List.mem_ite_nil_right.mp hside
    obtain rfl := List.mem_singleton.mp hside
    obtain rfl := hsame hs hnull
    obtain ⟨hintent, hmarket, howner, hsideOf, -⟩ := htrade.shortFill.data
    exact ⟨hintent, hmarket, howner, hsideOf⟩

/-! ## The laws -/

/-- What a match of `intents` into `output` obeys. `filled` are the orders of the request with what
has been filled of them, and `trades` the trades in the order in which they were made. -/
structure MatchLaws (H : Host) (intents : List RecoveredIntent) (filled : List BookOrder)
    (trades : List Trade) (output : MatchOutput) : Prop where
  orders : toBookOrders intents = some (filled.map fresh)
  /-- The orders stand in the order of the request and spend different notes. -/
  sequences : filled.map (·.sequence) = List.range intents.length
  nullifiers : (filled.map (·.intent.noteNullifier)).Nodup
  fills : output.fills = trades.flatMap fun trade => [trade.longFill, trade.shortFill]
  executions : output.executions = trades.map (·.execution)
  /-- A fill carries the commitment, the market, the owner and the side of its order. -/
  described : ∀ order ∈ filled, ∀ fill ∈ fillsOf order.intent.noteNullifier trades,
    fill.intentCommitment = order.intent.intentCommitment ∧
      fill.marketId = order.intent.marketId ∧
      fill.ownerCommitment = order.intent.ownerCommitment ∧ fill.side = order.side
  /-- Every order is filled with its fills, and with no more than its size. -/
  amounts : ∀ order ∈ filled, order.filled.toNat ≤ order.size.toNat ∧
    order.filled.toNat = totalSize (fillsOf order.intent.noteNullifier trades) ∧
    order.remaining.toNat = order.size.toNat - order.filled.toNat
  balanced : totalSize (output.fills.filter (·.side = .long)) =
    totalSize (output.fills.filter (·.side = .short))
  /-- Every trade is made at the price of the earlier one of its orders. -/
  price : ∀ trade ∈ trades, ∃ long ∈ filled, ∃ short ∈ filled,
    long.side = .long ∧ short.side = .short ∧
    trade.longFill ∈ fillsOf long.intent.noteNullifier trades ∧
    trade.shortFill ∈ fillsOf short.intent.noteNullifier trades ∧
    trade.longFill.price = trade.shortFill.price ∧
    trade.longFill.price =
      (if long.sequence ≤ short.sequence then long.limitPrice else short.limitPrice) ∧
    short.limitPrice ≤ trade.longFill.price ∧ trade.longFill.price ≤ long.limitPrice
  priority : ∀ a ∈ filled, ∀ b ∈ filled, a.side = b.side → Better a b →
    fillsOf b.intent.noteNullifier trades ≠ [] → a.filled = a.size
  uncrossed : ∀ long ∈ filled, ∀ short ∈ filled, long.side = .long → short.side = .short →
    long.filled ≠ long.size → short.filled ≠ short.size → long.limitPrice < short.limitPrice
  /-- The orders with a fill are updated, in the order of the request. -/
  updates : output.orderUpdates =
    (filled.filter fun order => fillsOf order.intent.noteNullifier trades ≠ []).map fun order =>
      { intentCommitment := order.intent.intentCommitment
        residualCommitment :=
          if order.filled = order.size then none else some (residualCommitment H order)
        status := if order.filled = order.size then "filled".toList else "partially-filled".toList }

/-- The laws hold in every build. -/
theorem Matched.laws {intents : List RecoveredIntent} {output : MatchOutput}
    (hmatched : Matched H k market intents orders book filled output)
    (htrading : Trading H k market orders book trades) :
    MatchLaws H intents filled trades output := by
  obtain ⟨horders, hadmitted, -, hstop, -, -, hback, hout⟩ := hmatched
  have hmem {order : BookOrder} (hf : order ∈ filled) :
      order ∈ book.longs.all ++ book.shorts.all := hback.perm.mem_iff.mp hf
  have htracked : ∀ order ∈ filled, Tracked trades order := fun order hf =>
    htrading.tracked order (hmem hf)
  -- an order is filled when nothing remains of it
  have hleft : ∀ order ∈ filled, (order.filled = order.size ↔ order.remaining = 0) := by
    intro order hf
    have hsum := (htracked order hf).left
    rw [← BitVec.toNat_inj, ← BitVec.toNat_inj, show (0 : U128).toNat = 0 from rfl]
    omega
  have hsizes := htrading.sizes_ne
  have hback' {order : BookOrder} (ho : order ∈ orders) : ∃ order' ∈ filled, fresh order' = order := by
    rw [← hback.fresh] at ho
    exact List.mem_map.mp ho
  have hlength : filled.length = intents.length := by
    rw [← (toBookOrders_map horders).1, List.length_map, ← hback.fresh, List.length_map]
  refine
    { orders := by rw [hback.fresh, horders]
      sequences := ?_
      nullifiers := ?_
      fills := by rw [hout.fills, htrading.fills]
      executions := by rw [hout.executions, htrading.executions]
      described := fun order hf fill hfill => htrading.described hadmitted (hmem hf) hfill
      amounts := ?_
      balanced := ?_
      price := ?_
      priority := ?_
      uncrossed := ?_
      updates := ?_ }
  · have hsequences := hadmitted.sequences
    rw [← hback.fresh, List.map_map, List.length_map] at hsequences
    rw [← hlength]
    exact hsequences
  · have hnullifiers := hadmitted.nullifiers
    rw [← hback.fresh, List.map_map] at hnullifiers
    exact hnullifiers
  · intro order hf
    have hsum := (htracked order hf).left
    exact ⟨by omega, (htracked order hf).filled, by omega⟩
  · rw [hout.fills, htrading.fills]
    refine totalSize_sides fun trade ht => ?_
    obtain ⟨long, -, short, -, hlong, hshort, htrade⟩ := htrading.traded trade ht
    exact ⟨htrade.longFill.data.2.2.2.1.trans hlong, htrade.shortFill.data.2.2.2.1.trans hshort,
      htrade.sameSize⟩
  · intro trade ht
    obtain ⟨long, hl, short, hs, hlong, hshort, htrade⟩ := htrading.traded trade ht
    obtain ⟨long, hlf, rfl⟩ := hback' hl
    obtain ⟨short, hsf, rfl⟩ := hback' hs
    obtain ⟨fees, -, hexecution⟩ := htrade.execution
    obtain ⟨hge, hle⟩ := executionPrice_between htrade.crosses
    have hlongPrice := htrade.longFill.data.2.2.2.2
    have hlongMem := longFill_mem_fillsOf ht
    have hshortMem := shortFill_mem_fillsOf ht
    rw [hexecution] at hlongMem hshortMem
    refine ⟨long, hlf, short, hsf, hlong, hshort, hlongMem, hshortMem, ?_, hlongPrice, ?_, ?_⟩
    · rw [hlongPrice, htrade.shortFill.data.2.2.2.2]
    · rw [hlongPrice]; exact hge
    · rw [hlongPrice]; exact hle
  · intro a ha b hb hside hbetter hfills
    rw [hleft a ha]
    exact htrading.priority (hmem ha) (hmem hb) hside hbetter
      ((fillsOf_ne_nil_iff hsizes _).mp hfills)
  · intro long hl short hs hlong hshort hlongLeft hshortLeft
    rw [ne_eq, hleft long hl] at hlongLeft
    rw [ne_eq, hleft short hs] at hshortLeft
    exact htrading.uncrossed hstop (htrading.mem_longs (hmem hl) hlong)
      (htrading.mem_shorts (hmem hs) hshort) hlongLeft hshortLeft
  · rw [hout.updates]
    unfold createOrderUpdates
    rw [filter_filled hsizes htracked]
    refine List.map_congr_left fun order hf => ?_
    have hiff := hleft order (List.mem_filter.mp hf).1
    unfold createOrderUpdate
    by_cases hzero : order.remaining = 0
    · simp [hzero, hiff.mpr hzero]
    · have hne : order.filled ≠ order.size := fun heq => hzero (hiff.mp heq)
      have hpos : order.remaining > 0 := (BitVec.pos_iff_ne_zero _).mpr hzero
      rw [if_pos hpos, if_pos hpos, if_neg hne, if_neg hne]

theorem matchBatch_laws {intents : List RecoveredIntent} {output : MatchOutput}
    (h : matchBatch H .release market intents = some output) :
    ∃ filled trades, MatchLaws H intents filled trades output := by
  obtain ⟨orders, book, filled, hmatched⟩ := matchBatch_eq_some.mp h
  obtain ⟨trades, htrading⟩ := matchLoop_trading hmatched.admitted hmatched.loop
  exact ⟨filled, trades, hmatched.laws htrading⟩

/-! ## A sample request -/

def sampleMarket : MarketInput where
  fundingIndex := "0".toList
  initialMarginRate := "100000".toList
  marketId := "BTC".toList
  maxLeverage := "10".toList

/-- An order whose commitment and nullifier are made from `name`. -/
def sampleIntent (name signedSize limitPrice margin : String) : RecoveredIntent where
  batchId := "batch-1".toList
  intentCommitment := ("1" ++ name).toList
  limitPrice := limitPrice.toList
  margin := margin.toList
  marketId := "BTC".toList
  noteChangeCommitment := "0x0".toList
  noteNullifier := ("2" ++ name).toList
  ownerCommitment := ("3" ++ name).toList
  signedSize := signedSize.toList
  sourceIntentCommitment := none

/-- A long order that crosses two short orders and is partially filled. -/
def sampleIntents : List RecoveredIntent :=
  [sampleIntent "1" "-1000000" "90000000" "200000",
    sampleIntent "2" "1500000" "100000000" "300000",
    sampleIntent "3" "-300000" "95000000" "60000"]

theorem matchBatch_laws_sampleIntents : ∃ output filled trades,
    matchBatch sampleHost .release sampleMarket sampleIntents = some output ∧
      MatchLaws sampleHost sampleIntents filled trades output := by
  have hsome : (matchBatch sampleHost .release sampleMarket sampleIntents).isSome := by
    decide +kernel
  obtain ⟨output, h⟩ := Option.isSome_iff_exists.mp hsome
  obtain ⟨filled, trades, hlaws⟩ := matchBatch_laws h
  exact ⟨output, filled, trades, h, hlaws⟩

end BatchMatch

end Pnlx
