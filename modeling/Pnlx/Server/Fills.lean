import Pnlx.Server.Rounds

/-!
# The fills of a match

A round appends the fill of its long order and the fill of its short order. Both have the size and
the price of the crossing, and each describes the position at its place among the fills.

1. `Book.Paired`: the fills of a book are pairs of a long and a short fill.
2. `matchBatch_paired`: so are those of a match.
3. `createCircuitPositionNote`: the witness of a position, from its owner, its intent and its place.
4. `FillAt.rebuilds`: the witness has the commitment and the nullifier of the fill.
-/

namespace Pnlx.Server

open BatchMatch (Text Side decimal)

variable {H : Host} {poseidon2Hash : Fr → Fr → Fr} {bound : Option ℤ} {market : MarketConfig}

/-! ## Pairs -/

/-- A fill at its place among the fills of a match. -/
structure FillAt (H : Host) (poseidon2Hash : Fr → Fr → Fr) (market : MarketConfig) (i : ℕ)
    (fill : Fill) : Prop where
  size_pos : 0 < fill.size
  price_pos : 0 < fill.price
  margin_pos : 0 < fill.margin
  described : ∃ order, describeFill H poseidon2Hash market order fill.size fill.price fill.margin i =
    some fill

/-- The two fills of a crossing. -/
structure FillPair (H : Host) (poseidon2Hash : Fr → Fr → Fr) (market : MarketConfig) (i : ℕ)
    (long short : Fill) : Prop where
  longAt : FillAt H poseidon2Hash market i long
  shortAt : FillAt H poseidon2Hash market (i + 1) short
  longSide : long.side = .long
  shortSide : short.side = .short
  size : long.size = short.size
  price : long.price = short.price

/-- The sides of a book, and its fills in pairs. -/
structure Book.Paired (H : Host) (poseidon2Hash : Fr → Fr → Fr) (market : MarketConfig)
    (book : Book) : Prop where
  longs : ∀ order ∈ book.longs.all, order.side = .long
  shorts : ∀ order ∈ book.shorts.all, order.side = .short
  even : book.fills.length % 2 = 0
  pairs : ∀ k long short, book.fills[2 * k]? = some long → book.fills[2 * k + 1]? = some short →
    FillPair H poseidon2Hash market (2 * k) long short

theorem Fills.fillAt {order : BookOrder} {size price feeDelta : ℤ} {i : ℕ} {fill : Fill}
    (h : Fills H poseidon2Hash bound market order size price i feeDelta fill) (hsize : 0 < size)
    (hprice : 0 < price) :
    FillAt H poseidon2Hash market i fill ∧ fill.side = order.side ∧ fill.size = size ∧
      fill.price = price := by
  obtain ⟨-, -, -, hside, rfl, rfl, -⟩ := describeFill_data h.described
  exact ⟨⟨hsize, hprice, assertFill_margin_pos h.checked, order, h.described⟩, hside, rfl, rfl⟩

/-- The trade of a crossing is a pair of fills. -/
theorem Crosses.fillPair {i : ℕ} {long short : BookOrder} {trade : Trade} {fees : FillFees}
    (h : Crosses H poseidon2Hash bound market i long short trade fees) (hlong : long.side = .long)
    (hshort : short.side = .short) :
    FillPair H poseidon2Hash market i trade.longFill trade.shortFill := by
  have hpos : 0 < crossingSize long short ∧ 0 < executionPrice long short := by
    have hcharged := h.charged
    unfold fillFees at hcharged
    simp only [Option.bind_eq_bind, Option.bind_eq_some_iff, assert_eq_some] at hcharged
    obtain ⟨_, hpos, -⟩ := hcharged
    omega
  obtain ⟨hlongAt, hlongSide, hlongSize, hlongPrice⟩ := h.longFill.fillAt hpos.1 hpos.2
  obtain ⟨hshortAt, hshortSide, hshortSize, hshortPrice⟩ := h.shortFill.fillAt hpos.1 hpos.2
  exact ⟨hlongAt, hshortAt, hlongSide.trans hlong, hshortSide.trans hshort,
    hlongSize.trans hshortSize.symm, hlongPrice.trans hshortPrice.symm⟩

/-- A round appends a pair. -/
theorem Book.Paired.cross {book : Book} (h : book.Paired H poseidon2Hash market)
    {long short : BookOrder} (hcrossed : book.crossed = some (long, short)) {trade : Trade}
    {fees : FillFees}
    (hcross : Crosses H poseidon2Hash bound market book.fills.length long short trade fees) :
    (book.cross long short trade).Paired H poseidon2Hash market := by
  obtain ⟨longs, shorts, hlong, hshort, -⟩ := Book.crossed_eq_some hcrossed
  have hlongSide := h.longs long (Cursor.mem_all hlong)
  have hshortSide := h.shorts short (Cursor.mem_all hshort)
  have heven := h.even
  have hlongFilled : (filledBy long (crossingSize long short)).side = .long := hlongSide
  have hshortFilled : (filledBy short (crossingSize long short)).side = .short := hshortSide
  refine ⟨Cursor.forall_all_put h.longs hlongFilled _, Cursor.forall_all_put h.shorts hshortFilled _,
    ?_, fun k l s hl hs => ?_⟩
  · show (book.fills ++ [trade.longFill, trade.shortFill]).length % 2 = 0
    rw [List.length_append, List.length_cons, List.length_singleton]
    omega
  · have hl : (book.fills ++ [trade.longFill, trade.shortFill])[2 * k]? = some l := hl
    have hs : (book.fills ++ [trade.longFill, trade.shortFill])[2 * k + 1]? = some s := hs
    by_cases hold : 2 * k < book.fills.length
    · rw [List.getElem?_append_left hold] at hl
      rw [List.getElem?_append_left (by omega)] at hs
      exact h.pairs k l s hl hs
    · -- a pair that starts behind the old fills is the new one
      rw [List.getElem?_append_right (by omega)] at hl hs
      have hlt := (List.getElem?_eq_some_iff.mp hs).1
      rw [List.length_cons, List.length_singleton] at hlt
      have hplace : 2 * k = book.fills.length := by omega
      rw [hplace, Nat.sub_self, List.getElem?_cons_zero, Option.some.injEq] at hl
      rw [hplace, Nat.add_sub_cancel_left, List.getElem?_cons_succ, List.getElem?_cons_zero,
        Option.some.injEq] at hs
      rw [hplace, ← hl, ← hs]
      exact hcross.fillPair hlongSide hshortSide

/-- The fills of a match are pairs. -/
theorem matchOrders_paired {input : MatchInput} {book : Book} {orders : List BookOrder}
    (h : matchOrders H poseidon2Hash bound input = some (book, orders)) :
    book.Paired H poseidon2Hash input.market := by
  unfold matchOrders at h
  simp only [Option.bind_eq_bind, Option.bind_eq_some_iff, assert_eq_some, Option.some.injEq,
    Prod.mk.injEq] at h
  obtain ⟨start, -, -, -, book, hloop, -, -, rfl, -⟩ := h
  refine loop_inv (I := fun book => Book.Paired H poseidon2Hash input.market book) ?_ ?_ hloop
  · rintro book ⟨long, short⟩ book' hpaired hcrossed hround
    obtain ⟨trade, fees, hcross, rfl⟩ := matchPair_eq_some hround
    exact hpaired.cross hcrossed hcross
  · have hside {side : Side} {r : BookOrder → BookOrder → Prop} [DecidableRel r] {order : BookOrder}
        (hmem : order ∈ (start.filter (·.side = side)).insertionSort r) : order.side = side :=
      of_decide_eq_true (List.mem_filter.mp ((List.mem_insertionSort _).mp hmem)).2
    exact ⟨fun order hmem => hside hmem, fun order hmem => hside hmem, rfl,
      fun k l s hl => nomatch hl⟩

theorem matchBatch_fills {input : MatchInput} {result : MatchResult}
    (h : matchBatch H poseidon2Hash bound input = some result) :
    ∃ book orders, matchOrders H poseidon2Hash bound input = some (book, orders) ∧
      result.fills = book.fills := by
  unfold matchBatch createResult at h
  simp only [Option.bind_eq_bind, Option.bind_eq_some_iff, Option.some.injEq] at h
  obtain ⟨⟨book, orders⟩, hmatch, _, -, rfl⟩ := h
  exact ⟨book, orders, hmatch, rfl⟩

/-- The fills of a result are pairs of a long and a short fill. -/
theorem matchBatch_pair {input : MatchInput} {result : MatchResult}
    (h : matchBatch H poseidon2Hash bound input = some result) {k : ℕ} {long short : Fill}
    (hlong : result.fills[2 * k]? = some long) (hshort : result.fills[2 * k + 1]? = some short) :
    FillPair H poseidon2Hash input.market (2 * k) long short := by
  obtain ⟨book, orders, hmatch, hfills⟩ := matchBatch_fills h
  rw [hfills] at hlong hshort
  exact (matchOrders_paired hmatch).pairs k long short hlong hshort

/-- Every fill of a result describes the position at its place. -/
theorem matchBatch_fillAt {input : MatchInput} {result : MatchResult}
    (h : matchBatch H poseidon2Hash bound input = some result) {i : ℕ} {fill : Fill}
    (hfill : result.fills[i]? = some fill) : FillAt H poseidon2Hash input.market i fill := by
  obtain ⟨book, orders, hmatch, hfills⟩ := matchBatch_fills h
  have hpaired := matchOrders_paired hmatch
  have heven := hpaired.even
  rw [hfills] at hfill
  have hlt := (List.getElem?_eq_some_iff.mp hfill).1
  obtain ⟨k, rfl | rfl⟩ := Nat.even_or_odd' i
  · obtain ⟨next, hnext⟩ : ∃ next, book.fills[2 * k + 1]? = some next :=
      ⟨_, List.getElem?_eq_getElem (by omega)⟩
    exact (hpaired.pairs k _ _ hfill hnext).longAt
  · obtain ⟨previous, hprevious⟩ : ∃ previous, book.fills[2 * k]? = some previous :=
      ⟨_, List.getElem?_eq_getElem (by omega)⟩
    exact (hpaired.pairs k _ _ hprevious hfill).shortAt

/-! ## The witness of a position -/

structure CircuitPositionNote where
  blinding : Text
  commitment : Text
  entryPrice : ℤ
  fundingIndex : ℤ
  margin : ℤ
  marketDigest : Text
  ownerDigest : Text
  positionNullifier : Text
  rhoDigest : Text
  side : Side
  size : ℤ
  spendSecretDigest : Text
  deriving DecidableEq

def createCircuitPositionNote (H : Host) (poseidon2Hash : Fr → Fr → Fr) (marketId : Text)
    (side : Side) (size entryPrice margin fundingIndex : ℤ) (owner spendSecret rho blinding : Text) :
    Option CircuitPositionNote := do
  let marketDigest := digestToFieldHex H ("market:".toList ++ marketId)
  let ownerDigest := digestToFieldHex H ("owner:".toList ++ owner)
  let rhoDigest := digestToFieldHex H ("rho:".toList ++ rho)
  let blinding := digestToFieldHex H ("blinding:".toList ++ blinding)
  let spendSecretDigest := digestToFieldHex H ("spend:".toList ++ spendSecret)
  let commitment ← circuitPositionCommitment poseidon2Hash marketDigest side size entryPrice margin
    fundingIndex ownerDigest rhoDigest blinding
  -- `circuitPositionNullifier`
  let positionNullifier ← fieldHashPair poseidon2Hash (.hex spendSecretDigest) (.hex rhoDigest)
  some
    { blinding
      commitment
      entryPrice
      fundingIndex
      margin
      marketDigest
      ownerDigest
      positionNullifier
      rhoDigest
      side
      size
      spendSecretDigest }

/-- The witness of the position of a fill, from the owner commitment, the intent commitment and the
place of the fill. The client and `preparePairedMakerClose` call it so. -/
def rebuildPosition (H : Host) (poseidon2Hash : Fr → Fr → Fr) (fundingIndex : ℤ) (i : ℕ)
    (fill : Fill) : Option CircuitPositionNote :=
  let rho := fill.intentCommitment ++ ":position:".toList ++ decimal i
  let blinding := fill.intentCommitment ++ ":blinding:".toList ++ decimal i
  createCircuitPositionNote H poseidon2Hash fill.marketId fill.side fill.size fill.price fill.margin
    fundingIndex fill.ownerCommitment (fill.ownerCommitment ++ ':' :: rho) rho blinding

/-- The witness that is rebuilt for a fill is the one of its position. -/
theorem FillAt.rebuilds {i : ℕ} {fill : Fill} (h : FillAt H poseidon2Hash market i fill) :
    ∃ note, rebuildPosition H poseidon2Hash market.fundingIndex i fill = some note ∧
      note.commitment = fill.positionCommitment ∧
      note.positionNullifier = fill.positionNullifier := by
  obtain ⟨order, hdescribed⟩ := h.described
  obtain ⟨hintent, hmarket, howner, hside, -, -, -⟩ := describeFill_data hdescribed
  unfold describeFill at hdescribed
  simp only [Option.bind_eq_bind, Option.bind_eq_some_iff] at hdescribed
  obtain ⟨commitment, hcommitment, nullifier, hnullifier, hfill⟩ := hdescribed
  rw [← hintent, ← hmarket, ← howner, ← hside] at hcommitment
  rw [← hintent, ← howner] at hnullifier
  unfold rebuildPosition createCircuitPositionNote
  simp only [Option.bind_eq_bind, Option.bind_eq_some_iff]
  refine ⟨_, ⟨commitment, hcommitment, nullifier, hnullifier, rfl⟩, ?_, ?_⟩
  · exact congrArg Fill.positionCommitment (Option.some.inj hfill)
  · exact congrArg Fill.positionNullifier (Option.some.inj hfill)

end Pnlx.Server
