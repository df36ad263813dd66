import Mathlib.Algebra.Order.BigOperators.Group.List
import Pnlx.BatchMatch.Totals
import Pnlx.Server.Simulation

/-!
# The result of the server and the output of the guest program

What the two matchers compute from the same crossings: the totals, the residuals and the digests.

1. `hashFields_toValue`: a hash of the guest program is the hash of the server.
2. `createResidual_follow`: the residual of an order.
3. `createResult_follow`: the output of the guest program is the result of the server.
-/

namespace Pnlx.BatchMatch

/-! ## Hashed values -/

namespace Norm

mutual

/-- The value of the server that a field of the guest program stands for. -/
def toValue : Norm → Server.Value
  | array items => .array (toValues items)
  | i128 value => .bigint value.toInt
  | num value => .bigint value.toNat
  | object entries => .object (toValueEntries entries)
  | text value => .text value

def toValues : List Norm → List Server.Value
  | [] => []
  | item :: items => item.toValue :: toValues items

def toValueEntries : List (String × Norm) → List (String × Server.Value)
  | [] => []
  | (key, value) :: entries => (key, value.toValue) :: toValueEntries entries

end

mutual

theorem normalize_toValue : ∀ n : Norm, n.toValue.normalize = n.normalize
  | array items => by
    rw [toValue, Server.Value.normalize, normalize, normalizeItems_toValues]
  | i128 value => rfl
  | num value => by
    rw [toValue, Server.Value.normalize, normalize, decimalSigned, if_neg (by omega),
      Int.natAbs_natCast]
  | object entries => by
    rw [toValue, Server.Value.normalize, normalize, normalizeEntries_toValueEntries]
  | text value => rfl

theorem normalizeItems_toValues : ∀ items : List Norm,
    Server.Value.normalizeItems (toValues items) = normalizeItems items
  | [] => rfl
  | item :: items => by
    rw [toValues, Server.Value.normalizeItems, normalizeItems, normalize_toValue,
      normalizeItems_toValues]

theorem normalizeEntries_toValueEntries : ∀ entries : List (String × Norm),
    Server.Value.normalizeEntries (toValueEntries entries) = normalizeEntries entries
  | [] => rfl
  | (key, value) :: entries => by
    rw [toValueEntries, Server.Value.normalizeEntries, normalizeEntries, normalize_toValue,
      normalizeEntries_toValueEntries]

end

theorem toValues_eq_map (items : List Norm) : toValues items = items.map toValue := by
  induction items with
  | nil => rfl
  | cons item items ih => rw [toValues, ih, List.map_cons]

end Norm

end Pnlx.BatchMatch

namespace Pnlx.Server

open BatchMatch (Text Side Norm)

variable {H : Host} {market : MarketConfig}

/-- A hash of the guest program is the hash of the server. -/
theorem hashFields_toValue (domain : String) (fields : List Norm) :
    hashFields H domain (fields.map Norm.toValue) = BatchMatch.hashFieldsHex H domain fields := by
  unfold hashFields BatchMatch.hashFieldsHex
  rw [List.map_map]
  simp only [Function.comp_def, Norm.normalize_toValue]

/-! ## The sizes of the crossings -/

/-- The amounts of a book are small. -/
structure Book.Small (book : Book) : Prop where
  sizes : ∀ fill ∈ book.fills, fill.size < 2 ^ 90
  fees : ∀ execution ∈ book.executions, execution.grossTakerFee < 2 ^ 108

section Small

variable {order long short : BookOrder} {size price : ℤ} {fillIndex : ℕ} {delta : ℤ} {fill : Fill}

/-- What a fill allocates is at most the margin of its order. -/
theorem Fills.allocated_le {bound : Option ℤ} {poseidon2Hash : Fr → Fr → Fr} (hk : Kept order)
    (hpos : 0 < size) (hle : size ≤ order.remaining)
    (h : Fills H poseidon2Hash bound market order size price fillIndex delta fill) :
    fill.margin - delta ≤ order.intent.margin := by
  have hsize := hk.size_pos
  have hleft := hk.left
  have hfilled := hk.filled
  have hmargin := hk.margin_pos
  have hold : 0 ≤ order.allocatedMargin := by
    rw [hk.share, ceilDiv]
    refine Int.tdiv_nonneg ?_ hsize.le
    have := Int.mul_nonneg hmargin.le hfilled
    omega
  have hnew : allocatedAfter order size ≤ order.intent.margin := by
    have hmul : order.intent.margin * (order.filled + size) ≤ order.intent.margin * order.size :=
      Int.mul_le_mul_of_nonneg_left (by omega) hmargin.le
    have hnonneg : 0 ≤ order.intent.margin * (order.filled + size) :=
      Int.mul_nonneg hmargin.le (by omega)
    unfold allocatedAfter ceilDiv
    rw [Int.tdiv_eq_ediv_of_nonneg (by omega)]
    refine Int.lt_add_one_iff.mp ((Int.ediv_lt_iff_lt_mul hsize).mpr ?_)
    rw [Int.add_mul]
    omega
  have := h.margin
  omega

/-- The fee of the taker bounds the size of a crossing: what is left of his margin is positive. -/
theorem gross_size_lt {poseidon2Hash : Fr → Fr → Fr} {fees : FillFees} (hk : Kept order)
    (hpos : 0 < size) (hle : size ≤ order.remaining)
    (h : Fills H poseidon2Hash productBound market order size price fillIndex
      (-fees.grossTakerFee) fill) : fees.grossTakerFee * size < 2 ^ 127 := by
  have hmargin := assertFill_margin_pos h.checked
  have hallocated := h.allocated_le hk hpos hle
  have hproduct : order.intent.margin * (order.filled + size) < 2 ^ 127 := h.product _ rfl
  have hfilled := hk.filled
  calc fees.grossTakerFee * size ≤ order.intent.margin * size :=
        Int.mul_le_mul_of_nonneg_right (by omega) hpos.le
    _ ≤ order.intent.margin * (order.filled + size) :=
        Int.mul_le_mul_of_nonneg_left (by omega) hk.margin_pos.le
    _ < 2 ^ 127 := hproduct

/-- The fees of a crossing whose products are bounded. -/
theorem fillFees_bounds {fees : FillFees} (h : fillFees productBound size price = some fees) :
    0 < size ∧ 0 ≤ fees.grossTakerFee ∧ fees.grossTakerFee < 2 ^ 108 ∧
      size / 100000000 * 500 / 1000000 ≤ fees.grossTakerFee := by
  unfold fillFees notional at h
  simp only [Option.bind_eq_bind, Option.bind_eq_some_iff, assert_eq_some, Option.some.injEq,
    times_eq_some] at h
  obtain ⟨_, hpositive, _, ⟨_, ⟨-, rfl⟩, rfl⟩, _, ⟨htaker, rfl⟩, _, -, _, -, rfl⟩ := h
  have hsize : 0 < size := by omega
  have hprice : 0 < price := by omega
  have habs : abs size = size := if_neg (by omega)
  have htaker : (abs size * price).tdiv priceScale * takerFeePpm < 2 ^ 127 := htaker _ rfl
  have hmul : size * 1 ≤ size * price := Int.mul_le_mul_of_nonneg_left hprice hsize.le
  rw [habs] at htaker ⊢
  show 0 < size ∧ 0 ≤ ((size * price).tdiv 100000000 * 500).tdiv 1000000 ∧
    ((size * price).tdiv 100000000 * 500).tdiv 1000000 < 2 ^ 108 ∧
      _ ≤ ((size * price).tdiv 100000000 * 500).tdiv 1000000
  have htaker : (size * price).tdiv 100000000 * 500 < 2 ^ 127 := htaker
  generalize size * price = value at htaker hmul ⊢
  rw [show value.tdiv 100000000 = value / 100000000 from Int.tdiv_eq_ediv_of_nonneg (by omega)]
    at htaker ⊢
  rw [Int.tdiv_eq_ediv_of_nonneg (by omega)]
  omega

/-- The size of a crossing is small. -/
theorem Crosses.small {poseidon2Hash : Fr → Fr → Fr} {trade : Trade} {fees : FillFees}
    (hlong : Kept long) (hshort : Kept short)
    (h : Crosses H poseidon2Hash productBound market fillIndex long short trade fees) :
    crossingSize long short < 2 ^ 90 ∧ fees.grossTakerFee < 2 ^ 108 := by
  obtain ⟨hpos, hgross, hlt, hvalue⟩ := fillFees_bounds h.charged
  refine ⟨?_, hlt⟩
  have hproduct : fees.grossTakerFee * crossingSize long short < 2 ^ 127 := by
    have hlongFill := h.longFill
    have hshortFill := h.shortFill
    unfold feeDelta at hlongFill hshortFill
    by_cases hmaker : long.sequence ≤ short.sequence
    · rw [if_neg (not_not.mpr hmaker)] at hshortFill
      exact gross_size_lt hshort hpos (min_le_right _ _) hshortFill
    · rw [if_neg hmaker] at hlongFill
      exact gross_size_lt hlong hpos (min_le_left _ _) hlongFill
  by_contra hle
  have hmul : 2 ^ 50 * 2 ^ 90 ≤ fees.grossTakerFee * crossingSize long short :=
    Int.mul_le_mul (by omega) (by omega) (by omega) hgross
  omega

/-- The amounts of a match are small. -/
theorem matchOrders_small {poseidon2Hash : Fr → Fr → Fr} {input : MatchInput} {book : Book}
    {orders : List BookOrder}
    (h : matchOrders H poseidon2Hash productBound input = some (book, orders)) : book.Small := by
  unfold matchOrders at h
  simp only [Option.bind_eq_bind, Option.bind_eq_some_iff, assert_eq_some, Option.some.injEq,
    Prod.mk.injEq] at h
  obtain ⟨start, hstart, -, -, book, hloop, -, -, rfl, -⟩ := h
  refine (loop_inv (I := fun book => Book.Kept book ∧ Book.Small book) ?_
    ⟨sortedBook_kept (toBookOrders_kept hstart), fun _ hmem => absurd hmem List.not_mem_nil,
      fun _ hmem => absurd hmem List.not_mem_nil⟩ hloop).2
  rintro book ⟨long, short⟩ book' ⟨hkept, hsmall⟩ hcrossed hround
  obtain ⟨trade, fees, hcross, rfl⟩ := matchPair_eq_some hround
  obtain ⟨longs, shorts, hlong, hshort, -⟩ := Book.crossed_eq_some hcrossed
  obtain ⟨hsize, hfees⟩ := hcross.small (hkept long (List.mem_append_left _ (Cursor.mem_all hlong)))
    (hkept short (List.mem_append_right _ (Cursor.mem_all hshort)))
  obtain ⟨-, -, -, -, hlongSize, -⟩ := describeFill_data hcross.longFill.described
  obtain ⟨-, -, -, -, hshortSize, -⟩ := describeFill_data hcross.shortFill.described
  refine ⟨hkept.cross hcrossed trade, fun fill hmem => ?_, fun execution hmem => ?_⟩
  · rcases List.mem_append.mp hmem with hmem | hmem
    · exact hsmall.sizes fill hmem
    · simp only [List.mem_cons, List.not_mem_nil, or_false] at hmem
      rcases hmem with rfl | rfl
      · rwa [hlongSize]
      · rwa [hshortSize]
  · rcases List.mem_append.mp hmem with hmem | hmem
    · exact hsmall.fees execution hmem
    · rw [List.mem_singleton.mp hmem, hcross.execution]
      exact hfees

end Small

/-! ## The output of the guest program -/

def decodeUpdate (update : BatchMatch.OrderUpdate) : OrderUpdate :=
  ⟨update.intentCommitment, update.residualCommitment, update.status⟩

def decodeResidual (batchId : Text) (residual : BatchMatch.Residual) : PrivateMatchIntent where
  batchId := batchId
  intentCommitment := residual.intentCommitment
  limitPrice := residual.limitPrice.toNat
  margin := residual.margin.toNat
  marketId := residual.marketId
  noteChangeCommitment := "0x0".toList
  noteNullifier := residual.noteNullifier
  ownerCommitment := residual.ownerCommitment
  signedSize := residual.signedSize.toInt
  sourceIntentCommitment := some residual.sourceIntentCommitment

/-- The result that an output of the guest program stands for. -/
def decodeOutput (batchId : Text) (output : BatchMatch.MatchOutput) : MatchResult where
  executions := output.executions.map decodeExecution
  fees := decodeFees output.fees
  fills := output.fills.map decodeFill
  marginChangeCommitments := output.marginChangeCommitments
  orderUpdates := output.orderUpdates.map decodeUpdate
  residuals := output.residuals.map (decodeResidual batchId)
  spentNullifiers := output.spentNullifiers
  aggregateVolume := output.aggregateVolume.toNat
  openInterestDelta := output.openInterestDelta.toNat
  residualSize := output.residualSize.toNat
  totalLongSize := output.totalLongSize.toNat
  totalShortSize := output.totalShortSize.toNat
  matchTranscriptDigest := output.matchTranscriptDigest

/-- What a result repeats of the book and the orders, and what it has computed from them. -/
structure ResultOf (H : Host) (input : MatchInput) (book : Book) (orders : List BookOrder)
    (result : MatchResult) : Prop where
  executions : result.executions = book.executions
  fees : result.fees = totalFees book.executions
  fills : result.fills = book.fills
  changes : result.marginChangeCommitments = createMarginChangeCommitments orders
  updates : result.orderUpdates = createOrderUpdates H orders
  residuals : createResiduals H input orders = some result.residuals
  spent : result.spentNullifiers = book.spentNullifiers
  volume : result.aggregateVolume = (book.fills.map (·.size)).foldl (· + ·) 0
  interest : result.openInterestDelta = result.aggregateVolume
  longSize : result.totalLongSize = sideSize orders .long
  shortSize : result.totalShortSize = sideSize orders .short
  residualSize : result.residualSize =
    abs (result.totalLongSize - result.totalShortSize - filledSigned book.fills)
  digest : result.matchTranscriptDigest = matchTranscriptDigest H result

theorem createResult_eq_some {input : MatchInput} {book : Book} {orders : List BookOrder}
    {result : MatchResult} (h : createResult H input book orders = some result) :
    ResultOf H input book orders result := by
  unfold createResult at h
  simp only [Option.bind_eq_bind, Option.bind_eq_some_iff, Option.some.injEq] at h
  obtain ⟨residuals, hresiduals, rfl⟩ := h
  exact ⟨rfl, rfl, rfl, rfl, rfl, hresiduals, rfl, rfl, rfl, rfl, rfl, rfl, rfl⟩

/-- The transcript of an output is the one of its result. -/
theorem matchTranscriptDigest_decode (batchId : Text) (output : BatchMatch.MatchOutput) :
    matchTranscriptDigest H (decodeOutput batchId output) =
      BatchMatch.matchTranscriptDigest H output := by
  have hlist {α β : Type} (f : β → Value) (d : α → β) (g : α → Norm) (l : List α)
      (hfg : ∀ a, f (d a) = (g a).toValue) :
      Value.array ((l.map d).map f) = (Norm.array (l.map g)).toValue := by
    rw [Norm.toValue, Norm.toValues_eq_map, List.map_map, List.map_map]
    exact congrArg Value.array (List.map_congr_left fun a _ => hfg a)
  have htexts (l : List Text) : Value.array (l.map .text) = (Norm.array (l.map .text)).toValue := by
    rw [Norm.toValue, Norm.toValues_eq_map, List.map_map]
    rfl
  unfold matchTranscriptDigest BatchMatch.matchTranscriptDigest
  rw [← hashFields_toValue]
  refine congrArg (hashFields H "match-transcript") ?_
  simp only [List.map_cons, List.map_nil, decodeOutput]
  rw [hlist executionValue decodeExecution BatchMatch.executionNorm _ fun _ => rfl,
    hlist fillValue decodeFill BatchMatch.fillNorm _ fun _ => rfl,
    hlist updateValue decodeUpdate BatchMatch.updateNorm _ fun _ => rfl,
    hlist residualValue (decodeResidual batchId) BatchMatch.residualNorm _ fun _ => rfl,
    htexts, htexts]
  rfl

/-! ## Totals -/

section Totals

variable {orders : List BookOrder} {orders' : List BatchMatch.BookOrder}

theorem foldl_add_natCast (l : List U128) (total : ℤ) :
    (l.map fun v => (v.toNat : ℤ)).foldl (· + ·) total = total + ((l.map BitVec.toNat).sum : ℕ) := by
  induction l generalizing total with
  | nil => exact (Int.add_zero total).symm
  | cons v l ih =>
    rw [List.map_cons, List.foldl_cons, ih, List.map_cons, List.sum_cons]
    omega

theorem sideSize_follow (h : List.Forall₂ SameOrder orders orders') (side : Side) :
    sideSize orders side = BatchMatch.sizeOfSide orders' side := by
  have hside : List.Forall₂ SameOrder (orders.filter (·.side = side))
      (orders'.filter (·.side = side)) := by
    refine List.rel_filter (fun o g ho => ?_) h
    show decide (o.side = side) = true ↔ decide (g.side = side) = true
    rw [ho.side]
  have hsizes : (orders.filter (·.side = side)).map (·.size) =
      ((orders'.filter (·.side = side)).map (·.size)).map fun v => (v.toNat : ℤ) := by
    rw [List.map_map, ← List.forall₂_eq_eq_eq, List.forall₂_map_left_iff, List.forall₂_map_right_iff]
    exact hside.imp fun o g ho => ho.size
  unfold sideSize BatchMatch.sizeOfSide BatchMatch.sumOf
  rw [hsizes, foldl_add_natCast, Int.zero_add, List.map_map]
  rfl

theorem totalFees_follow {executions : List BatchMatch.Execution} {fees total : BatchMatch.FillFees}
    (h : executions.foldlM (BatchMatch.addFees .exact) fees = some total) :
    (executions.map decodeExecution).foldl addFees (decodeFees fees) = decodeFees total := by
  induction executions generalizing fees with
  | nil =>
    obtain rfl := Option.some.inj h
    rfl
  | cons execution executions ih =>
    rw [List.foldlM_cons] at h
    obtain ⟨next, hnext, h⟩ := Option.bind_eq_some_iff.mp h
    rw [List.map_cons, List.foldl_cons, ← ih h]
    congr 1
    unfold BatchMatch.addFees at hnext
    simp only [Option.bind_eq_bind, Option.bind_eq_some_iff, Option.some.injEq] at hnext
    obtain ⟨gross, hg, rebate, hr, insurance, hi, treasury, ht, rfl⟩ := hnext
    have hg := (BatchMatch.toNat_add_eq rfl hg).2
    have hr := (BatchMatch.toNat_add_eq rfl hr).2
    have hi := (BatchMatch.toNat_add_eq rfl hi).2
    have ht := (BatchMatch.toNat_add_eq rfl ht).2
    unfold addFees decodeFees decodeExecution
    rw [FillFees.mk.injEq]
    simp only
    omega

/-- The fills of a trade cancel out. -/
theorem filledSigned_follow {trades : List BatchMatch.Trade}
    (h : ∀ trade ∈ trades, trade.longFill.side = .long ∧ trade.shortFill.side = .short ∧
      trade.shortFill.size = trade.longFill.size) :
    filledSigned ((trades.flatMap fun trade => [trade.longFill, trade.shortFill]).map decodeFill) =
      0 := by
  unfold filledSigned
  induction trades with
  | nil => rfl
  | cons trade trades ih =>
    obtain ⟨hlong, hshort, hsize⟩ := h trade List.mem_cons_self
    have hrest := ih fun t ht => h t (List.mem_cons_of_mem _ ht)
    have hlongSide : (decodeFill trade.longFill).side = .long := hlong
    have hshortSide : ¬ (decodeFill trade.shortFill).side = .long := by
      show ¬ trade.shortFill.side = .long
      rw [hshort]
      exact fun h => nomatch h
    rw [List.flatMap_cons, List.map_append, List.map_append, List.foldl_append]
    simp only [List.map_cons, List.map_nil, List.foldl_cons, List.foldl_nil, if_pos hlongSide,
      if_neg hshortSide]
    show List.foldl _ (0 + (trade.longFill.size.toNat : ℤ) + -trade.shortFill.size.toNat) _ = 0
    rw [hsize, Int.zero_add, Int.add_right_neg]
    exact hrest

/-- The rest of a request is the distance of its totals where it fits. -/
theorem residualSize_follow (long short : U128) {fills : List BatchMatch.Fill}
    (hfills : fills.foldlM (BatchMatch.addSignedFill .release) 0 = some 0) :
    ∃ rest, BatchMatch.residualSize .release long short fills = some rest ∧
      ((rest.toNat : ℤ) = abs (long.toNat - short.toNat) ↔
        abs ((long.toNat : ℤ) - short.toNat) ≤ 2 ^ 127) := by
  refine ⟨(long - short - 0 : I128).abs, ?_, ?_⟩
  · unfold BatchMatch.residualSize BatchMatch.asI128 BatchMatch.subSigned
    rw [hfills]
    rfl
  · have hlong := long.isLt
    have hshort := short.isLt
    have hzero : (long - short - 0 : I128) = long - short := BitVec.sub_zero _
    rw [hzero, toNat_abs, BitVec.toInt_sub, BitVec.toInt_eq_toNat_bmod, BitVec.toInt_eq_toNat_bmod]
    simp only [Int.bmod_def]
    unfold abs
    split_ifs <;> omega

end Totals

/-! ## The orders of a result -/

section Orders

variable {o : BookOrder} {g : BatchMatch.BookOrder} {orders : List BookOrder}
  {orders' : List BatchMatch.BookOrder} {input : MatchInput}

theorem SameOrder.filled_pos (h : SameOrder o g) : o.filled > 0 ↔ g.filled > 0 := by
  rw [h.filled, gt_iff_lt, gt_iff_lt, BitVec.lt_def]
  exact Int.natCast_pos

theorem SameOrder.remaining_pos (h : SameOrder o g) : o.remaining > 0 ↔ g.remaining > 0 := by
  rw [h.remaining, gt_iff_lt, gt_iff_lt, BitVec.lt_def]
  exact Int.natCast_pos

theorem residualCommitment_follow (h : SameOrder o g) :
    residualCommitment H o = BatchMatch.residualCommitment H g := by
  unfold residualCommitment BatchMatch.residualCommitment
  rw [h.filled, h.allocatedMargin, h.source, ← hashFields_toValue]
  rfl

theorem residualNullifier_follow (h : SameOrder o g) :
    residualNullifier H o = BatchMatch.residualNullifier H g := by
  unfold residualNullifier BatchMatch.residualNullifier
  rw [h.filled, h.allocatedMargin, h.remaining, h.source, ← hashFields_toValue]
  rfl

/-- The orders that have been filled. -/
theorem filter_follow (p : BookOrder → Prop) [DecidablePred p] (q : BatchMatch.BookOrder → Prop)
    [DecidablePred q] (hpq : ∀ o g, SameOrder o g → (p o ↔ q g))
    (h : List.Forall₂ SameOrder orders orders') :
    List.Forall₂ SameOrder (orders.filter (p ·)) (orders'.filter (q ·)) := by
  refine List.rel_filter (fun o g ho => ?_) h
  show decide (p o) = true ↔ decide (q g) = true
  rw [decide_eq_true_iff, decide_eq_true_iff]
  exact hpq o g ho

theorem createOrderUpdates_follow (h : List.Forall₂ SameOrder orders orders') :
    (BatchMatch.createOrderUpdates H orders').map decodeUpdate = createOrderUpdates H orders := by
  have hfilled := filter_follow (·.filled > 0) (·.filled > 0) (fun _ _ ho => ho.filled_pos) h
  unfold BatchMatch.createOrderUpdates createOrderUpdates
  rw [List.map_map, ← List.forall₂_eq_eq_eq, List.forall₂_map_left_iff, List.forall₂_map_right_iff]
  refine hfilled.flip.imp fun g o ho => ?_
  unfold createOrderUpdate
  rw [residualCommitment_follow ho, if_congr ho.remaining_pos rfl rfl,
    if_congr ho.remaining_pos rfl rfl]
  show decodeUpdate ⟨g.intent.intentCommitment, _, _⟩ = _
  rw [ho.source]
  rfl

theorem createMarginChangeCommitments_follow (h : List.Forall₂ SameOrder orders orders') :
    BatchMatch.createMarginChangeCommitments orders' = createMarginChangeCommitments orders := by
  have hfilled := filter_follow
    (fun o => o.filled > 0 ∧ o.intent.noteChangeCommitment ≠ "0x0".toList)
    (fun g => g.filled > 0 ∧ g.intent.noteChangeCommitment ≠ "0x0".toList) (fun o g ho => by
      rw [ho.filled_pos, ho.source]
      rfl) h
  unfold BatchMatch.createMarginChangeCommitments createMarginChangeCommitments
  rw [← List.forall₂_eq_eq_eq, List.forall₂_map_left_iff, List.forall₂_map_right_iff]
  refine hfilled.flip.imp fun g o ho => ?_
  rw [ho.source]
  rfl

/-- The residual of an order. -/
theorem createResidual_follow (h : SameOrder o g) (hk : Kept o) (hfilled : o.filled > 0)
    (hmarket : o.intent.marketId = market.marketId) {residual : PrivateMatchIntent}
    (hresidual : createResidual H input o = some residual) :
    ∃ residual', BatchMatch.createResidual H .release (proverMarket market) g = some residual' ∧
      decodeResidual input.batchId residual' = residual := by
  have hleft := hk.left
  have hsize := h.size_le
  rw [h.size, h.remaining] at hleft
  have hlt : g.remaining.toNat < 2 ^ 127 := by omega
  unfold createResidual at hresidual
  simp only [Option.bind_eq_bind, Option.bind_eq_some_iff, assert_eq_some, Option.some.injEq]
    at hresidual
  obtain ⟨_, hpos, rfl⟩ := hresidual
  rw [h.margin, h.allocatedMargin] at hpos
  have hle : g.allocatedMargin.toNat ≤ g.margin.toNat := by omega
  have hmargin : (g.margin - g.allocatedMargin).toNat = g.margin.toNat - g.allocatedMargin.toNat :=
    BatchMatch.toNat_sub_of_le hle
  have hmarginPos : g.margin - g.allocatedMargin > 0 := by
    rw [gt_iff_lt, BitVec.lt_def, hmargin]
    show 0 < _
    omega
  unfold BatchMatch.createResidual
  rw [BatchMatch.sub_of_le hle, BatchMatch.signedFor_of_lt hlt, Option.bind_eq_bind, Option.bind_some,
    show assert _ = some () from assert_eq_some.mpr hmarginPos]
  refine ⟨_, rfl, ?_⟩
  have hsigned : (if g.side = .long then g.remaining else -g.remaining : I128).toInt =
      if o.side = .long then o.remaining else -o.remaining := by
    rw [h.side, h.remaining]
    split_ifs
    · exact BatchMatch.toInt_of_lt hlt
    · exact BatchMatch.toInt_neg_of_lt hlt
  have hdifference : (g.margin.toNat : ℤ) - g.allocatedMargin.toNat =
      (g.margin - g.allocatedMargin).toNat := by
    rw [hmargin, Int.ofNat_sub hle]
  unfold decodeResidual
  rw [← hsigned, h.margin, h.allocatedMargin, hdifference, h.limitPrice, hmarket,
    residualCommitment_follow h, residualNullifier_follow h, h.source]
  rfl

/-- The residuals of the orders. -/
theorem createResiduals_follow (h : List.Forall₂ SameOrder orders orders')
    (hkept : ∀ order ∈ orders, Kept order)
    (hmarket : ∀ order ∈ orders, order.intent.marketId = market.marketId)
    {residuals : List PrivateMatchIntent} (hresiduals : createResiduals H input orders = some residuals) :
    ∃ residuals', BatchMatch.createResiduals H .release (proverMarket market) orders' =
      some residuals' ∧ residuals'.map (decodeResidual input.batchId) = residuals := by
  have hfilled := filter_follow (fun o => o.filled > 0 ∧ o.remaining > 0)
    (fun g => g.filled > 0 ∧ g.remaining > 0)
    (fun o g ho => and_congr ho.filled_pos ho.remaining_pos) h
  have hboth := (List.forall₂_and_left (R := SameOrder)
    (p := fun o => o ∈ orders ∧ o.filled > 0) _ _).mpr ⟨fun o hmem => by
      obtain ⟨hmem, hpos⟩ := List.mem_filter.mp hmem
      exact ⟨hmem, (of_decide_eq_true hpos).1⟩, hfilled⟩
  obtain ⟨residuals', hresiduals', hdecode⟩ := Related.mapM_related
    (P := fun residual residual' => decodeResidual input.batchId residual' = residual)
    (fun o g ⟨⟨hmem, hpos⟩, ho⟩ residual hresidual =>
      createResidual_follow ho (hkept o hmem) hpos (hmarket o hmem) hresidual) hboth hresiduals
  refine ⟨residuals', hresiduals', ?_⟩
  rw [← List.forall₂_eq_eq_eq, List.forall₂_map_left_iff]
  exact hdecode.flip

end Orders

/-! ## The result -/

/-- The totals of a result fit the words of the guest program. -/
structure TotalsFit (result : MatchResult) : Prop where
  longs : result.totalLongSize < 2 ^ 128
  shorts : result.totalShortSize < 2 ^ 128
  distance : abs (result.totalLongSize - result.totalShortSize) ≤ 2 ^ 127

section Result

variable {input : MatchInput} {book : Book} {orders : List BookOrder} {result : MatchResult}
  {book' : BatchMatch.Book} {start orders' : List BatchMatch.BookOrder}
  {trades : List BatchMatch.Trade}

/-- The words of a small book are small. -/
theorem Book.Small.follow (h : book.Small) (hbook : SameBook book book') :
    (∀ fill ∈ book'.fills, fill.size.toNat < 2 ^ 90) ∧
      ∀ execution ∈ book'.executions, execution.grossTakerFee.toNat < 2 ^ 108 := by
  constructor
  · intro fill hmem
    have hlt := h.sizes (decodeFill fill) (by
      rw [← hbook.fills]
      exact List.mem_map_of_mem hmem)
    simp only [decodeFill] at hlt
    omega
  · intro execution hmem
    have hlt := h.fees (decodeExecution execution) (by
      rw [← hbook.executions]
      exact List.mem_map_of_mem hmem)
    simp only [decodeExecution] at hlt
    omega

/-- An output whose amounts are those of a result is the result. -/
theorem ResultOf.eq_decode (h : ResultOf H input book orders result)
    {output : BatchMatch.MatchOutput}
    (hof : BatchMatch.OutputOf H .release (proverMarket market) book' orders' output)
    (hbook : SameBook book book') (horders : List.Forall₂ SameOrder orders orders')
    (hresiduals : output.residuals.map (decodeResidual input.batchId) = result.residuals)
    (hfees : totalFees book.executions = decodeFees output.fees)
    (hvolume : result.aggregateVolume = output.aggregateVolume.toNat)
    (hlong : result.totalLongSize = output.totalLongSize.toNat)
    (hshort : result.totalShortSize = output.totalShortSize.toNat)
    (hrest : result.residualSize = output.residualSize.toNat) :
    decodeOutput input.batchId output = result := by
  -- every field but the transcript
  have hfields : { decodeOutput input.batchId output with
      matchTranscriptDigest := result.matchTranscriptDigest } = result := by
    have hinterest := h.interest
    rw [hvolume, ← hof.interest] at hinterest
    have hupdates := createOrderUpdates_follow (H := H) horders
    rw [← hof.updates, ← h.updates] at hupdates
    have hchanges := createMarginChangeCommitments_follow horders
    rw [← hof.changes, ← h.changes] at hchanges
    have hexecutions := hbook.executions
    rw [← hof.executions, ← h.executions] at hexecutions
    have hfills := hbook.fills
    rw [← hof.fills, ← h.fills] at hfills
    have hspent := hbook.spentNullifiers
    rw [← hof.spent, ← h.spent] at hspent
    have hfees := h.fees.trans hfees
    obtain ⟨_, _, _, _, _, _, _, _, _, _, _, _, _⟩ := result
    exact MatchResult.mk.injEq .. |>.mpr ⟨hexecutions, hfees.symm, hfills, hchanges, hupdates,
      hresiduals, hspent, hvolume.symm, hinterest.symm, hrest.symm, hlong.symm, hshort.symm, rfl⟩
  have hdigest : (decodeOutput input.batchId output).matchTranscriptDigest =
      result.matchTranscriptDigest := by
    calc (decodeOutput input.batchId output).matchTranscriptDigest
        = BatchMatch.matchTranscriptDigest H output := hof.digest
      _ = matchTranscriptDigest H (decodeOutput input.batchId output) :=
          (matchTranscriptDigest_decode _ _).symm
      _ = matchTranscriptDigest H { decodeOutput input.batchId output with
            matchTranscriptDigest := result.matchTranscriptDigest } := rfl
      _ = result.matchTranscriptDigest := by rw [hfields, ← h.digest]
  rw [← hdigest] at hfields
  exact hfields

/-- The fees of an execution are split. -/
theorem fees_split (htrading : BatchMatch.Trading H .exact (proverMarket market) start book' trades) :
    ∀ execution ∈ book'.executions, execution.grossTakerFee.toNat =
      execution.makerRebate.toNat + execution.insurance.toNat + execution.treasury.toNat := by
  intro execution hmem
  rw [htrading.executions] at hmem
  obtain ⟨trade, ht, rfl⟩ := List.mem_map.mp hmem
  obtain ⟨l, -, s, -, -, -, htrade⟩ := htrading.traded trade ht
  obtain ⟨fees, hfees, hexecution⟩ := htrade.execution
  rw [hexecution]
  exact BatchMatch.fillFees_split rfl hfees

/-- The sum of at most eight values below a bound. -/
theorem sum_lt_of_length_le {l : List ℕ} {n : ℕ} (hlength : l.length ≤ 8) (h : ∀ x ∈ l, x ≤ n) :
    l.sum ≤ 8 * n :=
  (List.sum_le_card_nsmul l n h).trans (Nat.mul_le_mul_right n hlength)

/-- The output of the guest program is the result of the server where its totals fit. -/
theorem createResult_follow (hbook : SameBook book book')
    (horders : List.Forall₂ SameOrder orders orders') (hkept : ∀ order ∈ orders, Kept order)
    (hmarket : ∀ order ∈ orders, order.intent.marketId = market.marketId) (hsmall : book.Small)
    (hfills : book.fills.length ≤ 8) (hexecutions : book.executions.length ≤ 8)
    (htrading : BatchMatch.Trading H .exact (proverMarket market) start book' trades)
    (h : ResultOf H input book orders result) :
    (∃ output, BatchMatch.createOutput H .release (proverMarket market) book' orders' = some output ∧
      decodeOutput input.batchId output = result) ↔ TotalsFit result := by
  obtain ⟨hsizes, hgross⟩ := hsmall.follow hbook
  have hlongSize := h.longSize.trans (sideSize_follow horders .long)
  have hshortSize := h.shortSize.trans (sideSize_follow horders .short)
  -- the fills of the trades
  have htrade : ∀ trade ∈ trades, trade.longFill.side = .long ∧ trade.shortFill.side = .short ∧
      trade.shortFill.size = trade.longFill.size ∧ trade.longFill.size.toNat < 2 ^ 90 := by
    intro trade ht
    obtain ⟨l, -, s, -, hl, hs, htrade⟩ := htrading.traded trade ht
    refine ⟨htrade.longFill.data.2.2.2.1.trans hl, htrade.shortFill.data.2.2.2.1.trans hs,
      htrade.sameSize, ?_⟩
    have hmem : trade.longFill ∈ book'.fills := by
      rw [htrading.fills]
      exact List.mem_flatMap.mpr ⟨trade, ht, List.mem_cons_self⟩
    exact hsizes trade.longFill hmem
  have hsigned : book'.fills.foldlM (BatchMatch.addSignedFill .release) 0 = some 0 := by
    rw [htrading.fills]
    refine BatchMatch.filledSigned_eq fun trade ht => ?_
    obtain ⟨hl, hs, hsize, hlt⟩ := htrade trade ht
    exact ⟨hl, hs, hsize, hlt.trans (by decide)⟩
  have hcancel : filledSigned book.fills = 0 := by
    rw [← hbook.fills, htrading.fills]
    exact filledSigned_follow fun trade ht => ⟨(htrade trade ht).1, (htrade trade ht).2.1,
      (htrade trade ht).2.2.1⟩
  constructor
  · rintro ⟨output, houtput, rfl⟩
    have hof := BatchMatch.createOutput_eq_some.mp houtput
    obtain ⟨rest, hrest, hdistance⟩ := residualSize_follow output.totalLongSize
      output.totalShortSize hsigned
    obtain rfl := Option.some.inj (hrest.symm.trans hof.residualSize)
    have hsize := h.residualSize
    rw [hcancel, Int.sub_zero] at hsize
    have hlongLt := output.totalLongSize.isLt
    have hshortLt := output.totalShortSize.isLt
    exact ⟨show (output.totalLongSize.toNat : ℤ) < 2 ^ 128 by omega,
      show (output.totalShortSize.toNat : ℤ) < 2 ^ 128 by omega, hdistance.mp hsize⟩
  · rintro ⟨hlongs, hshorts, hdistance⟩
    rw [hlongSize, hshortSize] at hdistance
    rw [hlongSize] at hlongs
    rw [hshortSize] at hshorts
    obtain ⟨long, hlong, hlongVal⟩ := BatchMatch.sideSize_of_lt (k := .release)
      (show BatchMatch.sizeOfSide orders' .long < 2 ^ 128 by exact_mod_cast hlongs)
    obtain ⟨short, hshort, hshortVal⟩ := BatchMatch.sideSize_of_lt (k := .release)
      (show BatchMatch.sizeOfSide orders' .short < 2 ^ 128 by exact_mod_cast hshorts)
    obtain ⟨rest, hrest, hrestVal⟩ := residualSize_follow long short hsigned
    rw [hlongVal, hshortVal] at hrestVal
    have hrestVal := hrestVal.mpr hdistance
    obtain ⟨residuals, hresiduals, hdecode⟩ :=
      createResiduals_follow horders hkept hmarket h.residuals
    -- eight fills of less than `2 ^ 90`
    have hvolumeLt : ((book'.fills.map (·.size)).map BitVec.toNat).sum < 2 ^ 128 := by
      refine (sum_lt_of_length_le (n := 2 ^ 90) ?_ fun v hv => ?_).trans_lt (by decide)
      · rw [List.length_map, List.length_map, ← List.length_map (f := decodeFill), hbook.fills]
        exact hfills
      · obtain ⟨_, hsize, rfl⟩ := List.mem_map.mp hv
        obtain ⟨fill, hmem, rfl⟩ := List.mem_map.mp hsize
        exact (hsizes fill hmem).le
    obtain ⟨volume, hvolume, hvolumeVal⟩ := BatchMatch.sum_of_lt (k := .release) hvolumeLt
    have hgrossLt : BatchMatch.sumOf (·.grossTakerFee) book'.executions < 2 ^ 128 := by
      refine (sum_lt_of_length_le (n := 2 ^ 108) ?_ fun v hv => ?_).trans_lt (by decide)
      · rw [List.length_map, ← List.length_map (f := decodeExecution), hbook.executions]
        exact hexecutions
      · obtain ⟨execution, hmem, rfl⟩ := List.mem_map.mp hv
        exact (hgross execution hmem).le
    obtain ⟨fees, hfees⟩ := Option.isSome_iff_exists.mp (@BatchMatch.totalFees_of_lt .exact _
      ⟨0, 0, 0, 0⟩ (fees_split htrading) rfl (by
        show 0 + _ < _
        omega))
    have hdecodeFees := totalFees_follow hfees
    rw [hbook.executions] at hdecodeFees
    have hfees := BatchMatch.totalFees_agrees _ _ hfees
    have hrun : ∃ output, BatchMatch.createOutput H .release (proverMarket market) book' orders' =
        some output := by
      unfold BatchMatch.createOutput
      simp only [hvolume, hlong, hshort, hrest, hresiduals, hfees, Option.bind_eq_bind,
        Option.bind_some]
      exact ⟨_, rfl⟩
    obtain ⟨output, houtput⟩ := hrun
    have hof := BatchMatch.createOutput_eq_some.mp houtput
    obtain rfl := Option.some.inj (hvolume.symm.trans hof.volume)
    obtain rfl := Option.some.inj (hlong.symm.trans hof.longSize)
    obtain rfl := Option.some.inj (hshort.symm.trans hof.shortSize)
    obtain rfl := Option.some.inj (hrest.symm.trans hof.residualSize)
    obtain rfl := Option.some.inj (hresiduals.symm.trans hof.residuals)
    obtain rfl := Option.some.inj (hfees.symm.trans hof.fees)
    refine ⟨output, houtput, h.eq_decode hof hbook horders hdecode hdecodeFees ?_ ?_ ?_ ?_⟩
    · have hsizes : book.fills.map (·.size) =
          (book'.fills.map (·.size)).map fun v => (v.toNat : ℤ) := by
        rw [← hbook.fills, List.map_map, List.map_map]
        rfl
      rw [h.volume, hsizes, foldl_add_natCast, Int.zero_add, hvolumeVal]
    · rw [hlongSize, hlongVal]
    · rw [hshortSize, hshortVal]
    · rw [h.residualSize, hcancel, Int.sub_zero, hlongSize, hshortSize, hrestVal]

end Result

end Pnlx.Server
