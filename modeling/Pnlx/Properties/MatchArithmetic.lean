import Mathlib.Algebra.Order.BigOperators.Group.List
import Pnlx.BatchMatch.Totals
import Pnlx.Properties.MatchLaws

/-!
# Where the arithmetic of a match wraps

The release build of the guest program wraps. `matchBatch_exact_iff`: a match has computed with
integers exactly when the totals of the two sides fit `i128` and every round of the loop fits the
words (`ArithmeticFits`).
-/

namespace Pnlx.BatchMatch

variable {H : Host} {k : Checks} {market : MarketInput} {orders filled : List BookOrder} {book : Book}
  {trades : List Trade} {intents : List RecoveredIntent} {output : MatchOutput}

/-! ## The condition -/

/-- The rounds of the loop in the release build, each of which satisfies `P`. -/
def Rounds (H : Host) (market : MarketInput) (orders : List BookOrder)
    (P : Book → BookOrder × BookOrder → Prop) : Prop :=
  EachRound Book.crossed (fun book pair => matchPair H .release market book pair.1 pair.2) P
    (sortedBook orders).rounds (sortedBook orders)

/-- The fees of the batch fit after a crossing. -/
def FeesFit (book : Book) (long short : BookOrder) : Prop :=
  sumOf (·.grossTakerFee) book.executions +
    valueOf (crossingSize long short) (executionPrice long short) * 500 / 1000000 < 2 ^ 128

/-- Everything that a match of the orders computes fits its words. -/
structure ArithmeticFits (H : Host) (market : MarketInput) (orders : List BookOrder) : Prop where
  longs : sizeOfSide orders .long < 2 ^ 127
  shorts : sizeOfSide orders .short < 2 ^ 127
  rounds : Rounds H market orders fun book pair =>
    RoundFits market pair.1 pair.2 ∧ FeesFit book pair.1 pair.2

/-! ## The output -/

section Output

variable (htrading : Trading H .exact market orders book trades) (hallocated : Allocated book trades)
  (ho : Admitted orders) (hback : WrittenBack orders book filled)

include htrading hallocated ho in
/-- The orders of the book have allocated their shares. -/
theorem Trading.allocates {order : BookOrder} (hmem : order ∈ book.longs.all ++ book.shorts.all) :
    Allocates order where
  pos := Nat.pos_of_ne_zero fun h =>
    ho.size_ne (fresh order) (htrading.mem_orders hmem) (BitVec.eq_of_toNat_eq h)
  left := (htrading.tracked order hmem).left
  share := hallocated.share order hmem

include htrading in
/-- What is filled of a side is at most its size. -/
theorem Trading.volume_le :
    (trades.map (·.longFill.size.toNat)).sum ≤ sizeOfSide orders .long ∧
      (trades.map (·.shortFill.size.toNat)).sum ≤ sizeOfSide orders .short := by
  have hside {l : List BookOrder} (hl : ∀ order ∈ l, Tracked trades order) :
      (l.map (·.filled.toNat)).sum ≤ sumOf (·.size) (l.map fresh) := by
    unfold sumOf
    rw [List.map_map]
    refine List.sum_le_sum fun order hmem => ?_
    have hleft := (hl order hmem).left
    show order.filled.toNat ≤ order.size.toNat
    omega
  constructor
  · rw [← htrading.longVolume]
    refine (hside fun order hmem => htrading.tracked order (List.mem_append_left _ hmem)).trans ?_
    rw [htrading.longs]
    exact (sumOf_perm _ (List.perm_insertionSort _ _)).le
  · rw [← htrading.shortVolume]
    refine (hside fun order hmem => htrading.tracked order (List.mem_append_right _ hmem)).trans ?_
    rw [htrading.shorts]
    exact (sumOf_perm _ (List.perm_insertionSort _ _)).le

/-- An order never allocates more than its margin. -/
theorem Allocates.le_margin {order : BookOrder} (h : Allocates order) :
    order.allocatedMargin.toNat ≤ order.margin.toNat := by
  rw [h.share]
  refine (share_le_share (Nat.le.intro h.left)).trans ?_
  rw [share_all h.pos]

/-- Every build computes the same residual of an order that fits. -/
theorem createResidual_of_lt {order : BookOrder} (h : Allocates order)
    (hlt : order.remaining.toNat < 2 ^ 127) :
    createResidual H k market order = createResidual H .release market order := by
  unfold createResidual
  rw [sub_of_le h.le_margin, sub_of_le h.le_margin, signedFor_of_lt hlt, signedFor_of_lt hlt]

include htrading in
/-- An order is not larger than its side. -/
theorem Trading.size_le {order : BookOrder} (hmem : order ∈ book.longs.all ++ book.shorts.all) :
    order.size.toNat ≤ sizeOfSide orders .long ∨ order.size.toNat ≤ sizeOfSide orders .short := by
  have hle (side : Side) (hside : order.side = side) : order.size.toNat ≤ sizeOfSide orders side := by
    have hfresh : fresh order ∈ orders.filter (·.side = side) :=
      List.mem_filter.mpr ⟨htrading.mem_orders hmem, decide_eq_true hside⟩
    have hmem : (fresh order).size.toNat ∈ (orders.filter (·.side = side)).map (·.size.toNat) :=
      List.mem_map_of_mem hfresh
    exact List.single_le_sum (fun _ _ => Nat.zero_le _) _ hmem
  cases hside : order.side with
  | long => exact Or.inl (hle _ hside)
  | short => exact Or.inr (hle _ hside)

theorem sideSize_fits {side : Side} {total : U128} (h : sideSize .exact orders side = some total) :
    total.toNat = sizeOfSide orders side := by
  rw [toNat_sum_eq rfl h, List.map_map]
  rfl

/-- The rest of the request is computed from the sizes of its sides. -/
theorem residualSize_of_lt {long short : U128} {fills : List Fill} (hlong : long.toNat < 2 ^ 127)
    (hshort : short.toNat < 2 ^ 127) (hfills : fills.foldlM (addSignedFill k) 0 = some 0) :
    (residualSize k long short fills).isSome := by
  have hl := toInt_of_lt hlong
  have hs := toInt_of_lt hshort
  have hdiff : FitsI128 (long.toInt - short.toInt) := by
    unfold FitsI128
    omega
  have hint : (long - short : I128).toInt = long.toInt - short.toInt := by
    rw [BitVec.toInt_sub, Int.bmod_def]
    unfold FitsI128 at hdiff
    omega
  have hrest : FitsI128 ((long - short : I128).toInt - (0 : I128).toInt) := by
    rw [hint, show (0 : I128).toInt = 0 from rfl, Int.sub_zero]
    exact hdiff
  unfold residualSize asI128 subSigned
  simp only [guarded_eq_some.mpr ⟨fun _ => hlong, rfl⟩, guarded_eq_some.mpr ⟨fun _ => hshort, rfl⟩,
    guarded_eq_some.mpr ⟨fun _ => hdiff, rfl⟩, hfills, guarded_eq_some.mpr ⟨fun _ => hrest, rfl⟩,
    Option.bind_eq_bind, Option.bind_some, Option.isSome_some]

theorem residualSize_fits {long short rest : U128} {fills : List Fill}
    (h : residualSize .exact long short fills = some rest) :
    long.toNat < 2 ^ 127 ∧ short.toNat < 2 ^ 127 := by
  unfold residualSize at h
  simp only [Option.bind_eq_bind, Option.bind_eq_some_iff] at h
  obtain ⟨_, hlong, _, hshort, -⟩ := h
  exact ⟨(guarded_eq_some.mp hlong).1 rfl, (guarded_eq_some.mp hshort).1 rfl⟩

include htrading in
theorem Trading.totalSize_fills : totalSize book.fills =
    (trades.map (·.longFill.size.toNat)).sum + (trades.map (·.shortFill.size.toNat)).sum := by
  rw [htrading.fills]
  clear htrading
  induction trades with
  | nil => rfl
  | cons trade trades ih =>
    rw [List.flatMap_cons, totalSize_append, ih, List.map_cons, List.map_cons, List.sum_cons,
      List.sum_cons]
    show trade.longFill.size.toNat + (trade.shortFill.size.toNat + 0) + _ = _
    omega

include htrading hallocated ho hback in
/-- When the output of a match is exact. -/
theorem createOutput_iff (h : createOutput H .release market book filled = some output) :
    createOutput H .exact market book filled = some output ↔
      sizeOfSide orders .long < 2 ^ 127 ∧ sizeOfSide orders .short < 2 ^ 127 ∧
        sumOf (·.grossTakerFee) book.executions < 2 ^ 128 := by
  have hside (k : Checks) (side : Side) : sideSize k filled side = sideSize k orders side := by
    rw [← hback.fresh, sideSize_fresh]
  rw [createOutput_eq_some] at h ⊢
  constructor
  · intro hk
    have hlong := sideSize_fits ((hside _ _).symm.trans hk.longSize)
    have hshort := sideSize_fits ((hside _ _).symm.trans hk.shortSize)
    obtain ⟨hlongLt, hshortLt⟩ := residualSize_fits hk.residualSize
    obtain ⟨-, -, hgross, -⟩ := totalFees_exact rfl hk.fees
    have hgrossLt := output.fees.grossTakerFee.isLt
    have hzero : (0 : U128).toNat = 0 := rfl
    simp only at hgross
    omega
  · rintro ⟨hlong, hshort, hfees⟩
    have hlongFits : sizeOfSide orders .long < 2 ^ 128 := by omega
    have hshortFits : sizeOfSide orders .short < 2 ^ 128 := by omega
    obtain ⟨long, hlongSize, hlongVal⟩ := sideSize_of_lt (k := .exact) hlongFits
    obtain ⟨short, hshortSize, hshortVal⟩ := sideSize_of_lt (k := .exact) hshortFits
    rw [← hside] at hlongSize hshortSize
    obtain rfl : long = output.totalLongSize :=
      Option.some.inj ((sum_agrees _ _ hlongSize).symm.trans h.longSize)
    obtain rfl : short = output.totalShortSize :=
      Option.some.inj ((sum_agrees _ _ hshortSize).symm.trans h.shortSize)
    obtain ⟨hlongVolume, hshortVolume⟩ := htrading.volume_le
    have hvolume := htrading.totalSize_fills
    have hfilled : book.fills.foldlM (addSignedFill .exact) 0 = some 0 := by
      rw [htrading.fills]
      refine filledSigned_eq fun trade ht => ?_
      obtain ⟨l, -, s, -, hl, hs, htrade⟩ := htrading.traded trade ht
      refine ⟨htrade.longFill.data.2.2.2.1.trans hl, htrade.shortFill.data.2.2.2.1.trans hs,
        htrade.sameSize, ?_⟩
      have hle := List.single_le_sum (fun _ _ => Nat.zero_le _) _
        (List.mem_map_of_mem (f := fun t : Trade => t.longFill.size.toNat) ht)
      omega
    have hvolumeFits : ((book.fills.map (·.size)).map BitVec.toNat).sum < 2 ^ 128 := by
      rw [List.map_map]
      show totalSize book.fills < _
      omega
    obtain ⟨volume, hvolumeSum, -⟩ := sum_of_lt (k := .exact) hvolumeFits
    obtain rfl : volume = output.aggregateVolume :=
      Option.some.inj ((sum_agrees _ _ hvolumeSum).symm.trans h.volume)
    refine { h with
      fees := (Agrees.eq_some_iff (totalFees_agrees _) h.fees).mpr ?_
      residuals := ?_
      volume := hvolumeSum
      longSize := hlongSize
      shortSize := hshortSize
      residualSize := (Agrees.eq_some_iff (residualSize_agrees _ _ _) h.residualSize).mpr
        (residualSize_of_lt (by omega) (by omega) hfilled) }
    · refine totalFees_of_lt (fun execution hmem => ?_) rfl ?_
      · rw [htrading.executions] at hmem
        obtain ⟨trade, ht, rfl⟩ := List.mem_map.mp hmem
        exact hallocated.fees trade ht
      · show 0 + _ < _
        omega
    · rw [← h.residuals]
      refine mapM_congr fun order hmem => ?_
      have hall := hback.perm.mem_iff.mp (List.mem_filter.mp hmem).1
      have hsize := htrading.size_le hall
      have hleft := (htrading.tracked order hall).left
      refine createResidual_of_lt (htrading.allocates hallocated ho hall) ?_
      omega

end Output

/-! ## The loop -/

section Loop

/-- What a round adds to the fees of the batch. -/
theorem matchPair_gross {book' : Book} {long short : BookOrder}
    (h : matchPair H k market book long short = some book') :
    ∃ fees, fillFees k (crossingSize long short) (executionPrice long short) = some fees ∧
      sumOf (·.grossTakerFee) book'.executions =
        sumOf (·.grossTakerFee) book.executions + fees.grossTakerFee.toNat := by
  obtain ⟨trade, fees, deltas, hcross, rfl⟩ := matchPair_eq_some.mp h
  refine ⟨fees, hcross.charged, ?_⟩
  show sumOf _ (book.executions ++ [trade.execution]) = _
  unfold sumOf
  rw [List.map_append, List.sum_append, List.map_singleton, List.sum_singleton, hcross.execution]
  rfl

theorem matchPair_gross_of_lt {book' : Book} {long short : BookOrder}
    (hlt : (crossingSize long short).toNat * (executionPrice long short).toNat < 2 ^ 128)
    (h : matchPair H k market book long short = some book') :
    sumOf (·.grossTakerFee) book'.executions = sumOf (·.grossTakerFee) book.executions +
      valueOf (crossingSize long short) (executionPrice long short) * 500 / 1000000 := by
  obtain ⟨fees, hfees, hsum⟩ := matchPair_gross h
  obtain ⟨fees', hfees', hgross, -⟩ := fillFees_of_lt (k := k) hlt
  obtain rfl := Option.some.inj (hfees.symm.trans hfees')
  rw [hsum, hgross]

/-- When the loop is exact. -/
theorem matchLoop_iff (ho : Admitted orders)
    (h : matchLoop H .release market (sortedBook orders) = some book) :
    matchLoop H .exact market (sortedBook orders) = some book ↔
      Rounds H market orders fun _ pair => RoundFits market pair.1 pair.2 := by
  have hfits {book book' : Book} {trades : List Trade} {long short : BookOrder}
      (htrading : Trading H .exact market orders book trades) (hallocated : Allocated book trades)
      (hcrossed : book.crossed = some (long, short))
      (hround : matchPair H .release market book long short = some book') :
      matchPair H .exact market book long short = some book' ↔ RoundFits market long short := by
    obtain ⟨longs, shorts, hlong, hshort, -⟩ := Book.crossed_eq_some hcrossed
    exact matchPair_iff rfl rfl
      (htrading.allocates hallocated ho (List.mem_append_left _ (Cursor.mem_all hlong)))
      (htrading.allocates hallocated ho (List.mem_append_right _ (Cursor.mem_all hshort))) hround
  refine loop_iff (I := fun book => ∃ trades, Trading H .exact market orders book trades ∧
    Allocated book trades) ?_ ?_ ?_ ⟨[], Trading.start ho, Allocated.start ho⟩ h
  · rintro book ⟨long, short⟩ book' ⟨trades, htrading, hallocated⟩ hcrossed hround hP
    obtain ⟨trade, fees, deltas, hcross, rfl⟩ :=
      matchPair_eq_some.mp ((hfits htrading hallocated hcrossed hround).mpr hP)
    exact ⟨trades ++ [trade], htrading.cross ho hcrossed hcross,
      hallocated.cross rfl rfl hcross⟩
  · rintro book ⟨long, short⟩ book' ⟨trades, htrading, hallocated⟩ hcrossed hround
    exact hfits htrading hallocated hcrossed hround
  · exact fun book pair => matchPair_agrees market book pair.1 pair.2

/-- When the rounds of an exact loop keep the fees of the batch in range. -/
theorem rounds_feesFit (h : matchLoop H .release market (sortedBook orders) = some book)
    (hrounds : Rounds H market orders fun _ pair => RoundFits market pair.1 pair.2) :
    sumOf (·.grossTakerFee) book.executions < 2 ^ 128 ↔
      Rounds H market orders fun book pair =>
        RoundFits market pair.1 pair.2 ∧ FeesFit book pair.1 pair.2 := by
  constructor
  · intro hlt
    have hle := (eachRound_le (I := fun _ => True)
      (m := fun book => sumOf (·.grossTakerFee) book.executions)
      (fun book pair book' _ _ hround => by
        obtain ⟨fees, -, hsum⟩ := matchPair_gross hround
        exact ⟨trivial, by omega⟩) trivial h).2
    refine EachRound.imp (fun book pair ⟨hfits, book', hround, hle⟩ => ⟨hfits, ?_⟩)
      (EachRound.and.mpr ⟨hrounds, hle⟩)
    have hsum := matchPair_gross_of_lt hfits.value hround
    unfold FeesFit
    omega
  · intro hall
    refine loop_inv_of_eachRound (I := fun book => sumOf (·.grossTakerFee) book.executions < 2 ^ 128)
      ?_ ?_ hall h
    · rintro book pair book' - - hround ⟨hfits, hfees⟩
      rw [matchPair_gross_of_lt hfits.value hround]
      exact hfees
    · show 0 < 2 ^ 128
      omega

end Loop

/-- A match has computed with integers exactly when everything it computes fits. -/
theorem matchBatch_exact_iff (h : matchBatch H .release market intents = some output) :
    matchBatch H .exact market intents = some output ↔
      ∃ orders, toBookOrders intents = some orders ∧ ArithmeticFits H market orders := by
  obtain ⟨orders, book, filled, hmatched⟩ := matchBatch_eq_some.mp h
  have ho := hmatched.admitted
  have houtput := createOutput_eq_some.mpr hmatched.output
  constructor
  · intro hexact
    obtain ⟨orders', book', filled', hmatched'⟩ := matchBatch_eq_some.mp hexact
    obtain rfl : orders = orders' := Option.some.inj (hmatched.request.symm.trans hmatched'.request)
    obtain rfl : book = book' :=
      Option.some.inj (hmatched.loop.symm.trans (matchLoop_agrees _ _ _ hmatched'.loop))
    obtain ⟨trades, htrading, hallocated⟩ := matchLoop_allocated rfl rfl ho hmatched'.loop
    have hrounds := (matchLoop_iff ho hmatched.loop).mp hmatched'.loop
    have hfits := (createOutput_iff htrading hallocated ho hmatched'.back ?_).mp
      (createOutput_eq_some.mpr hmatched'.output)
    · exact ⟨orders, hmatched.request, hfits.1, hfits.2.1,
        (rounds_feesFit hmatched.loop hrounds).mp hfits.2.2⟩
    · exact createOutput_agrees _ _ _ _ (createOutput_eq_some.mpr hmatched'.output)
  · rintro ⟨orders', horders', hfits⟩
    obtain rfl : orders = orders' := Option.some.inj (hmatched.request.symm.trans horders')
    have hrounds := (EachRound.and.mp hfits.rounds).1
    have hloop := (matchLoop_iff ho hmatched.loop).mpr hrounds
    obtain ⟨trades, htrading, hallocated⟩ := matchLoop_allocated rfl rfl ho hloop
    have hexact := (createOutput_iff htrading hallocated ho hmatched.back houtput).mpr
      ⟨hfits.longs, hfits.shorts, (rounds_feesFit hmatched.loop hrounds).mpr hfits.rounds⟩
    exact matchBatch_eq_some.mpr ⟨orders, book, filled,
      { hmatched with loop := hloop, output := createOutput_eq_some.mp hexact }⟩

theorem matchBatch_exact_sampleIntents : ∃ output orders,
    matchBatch sampleHost .release sampleMarket sampleIntents = some output ∧
      toBookOrders sampleIntents = some orders ∧ ArithmeticFits sampleHost sampleMarket orders := by
  have hsome : (matchBatch sampleHost .exact sampleMarket sampleIntents).isSome := by
    decide +kernel
  obtain ⟨output, hexact⟩ := Option.isSome_iff_exists.mp hsome
  have hrelease := matchBatch_agrees _ _ output hexact
  obtain ⟨orders, horders, hfits⟩ := (matchBatch_exact_iff hrelease).mp hexact
  exact ⟨output, orders, hrelease, horders, hfits⟩

/-! ## A product that wraps -/

/-- Sizes and prices whose product is `2 ^ 128`. -/
def wrappingIntents : List RecoveredIntent :=
  [sampleIntent "1" "1267650600228229401496703205376" "268435456" "1",
    sampleIntent "2" "-1267650600228229401496703205376" "268435456" "1"]

/-- The notional value wraps to zero: positions with a margin of one pass the risk checks. -/
theorem exists_checks_wrapped : ∃ output,
    matchBatch sampleHost .release sampleMarket wrappingIntents = some output ∧
      matchBatch sampleHost .exact sampleMarket wrappingIntents = none ∧
      output.fills.map (fun fill => (fill.size.toNat, fill.price.toNat, fill.margin.toNat)) =
        [(2 ^ 100, 2 ^ 28, 1), (2 ^ 100, 2 ^ 28, 1)] := by
  have hrun : ∃ output ∈ matchBatch sampleHost .release sampleMarket wrappingIntents,
      matchBatch sampleHost .exact sampleMarket wrappingIntents = none ∧
        output.fills.map (fun fill => (fill.size.toNat, fill.price.toNat, fill.margin.toNat)) =
          [(2 ^ 100, 2 ^ 28, 1), (2 ^ 100, 2 ^ 28, 1)] := by
    decide +kernel
  obtain ⟨output, hrelease, hexact, hfills⟩ := hrun
  exact ⟨output, hrelease, hexact, hfills⟩

end Pnlx.BatchMatch
