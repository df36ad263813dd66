import Pnlx.Properties.ClosePayout
import Pnlx.Properties.PositionWitness

/-!
# The two positions of a trade

A trade opens a long and a short position of one size and one entry price. Every formula of the
repository truncates the magnitude of a profit and of a funding payment, so what one of the two
positions gains is what the other loses, and two closes at one mark price and one funding index pay
out the two margins (`closes_zeroSum`).
-/

namespace Pnlx

open MarketMath PositionCloseCircuit

/-- A satisfying assignment of the close circuit for the position of a fill that was opened at a
funding index, with the honest witnesses of the payment at the current index. -/
structure ClosesFill (H : Host) (openedAt currentIndex : ℤ) (markPrice : U128) (fill : Server.Fill)
    (a : Assignment) : Prop where
  main : main H a = some ()
  isLong : a.isLong = decide (fill.side = .long)
  size : (a.size.toNat : ℤ) = fill.size
  entryPrice : (a.entryPrice.toNat : ℤ) = fill.price
  margin : (a.margin.toNat : ℤ) = fill.margin
  fundingIndex : (a.fundingIndex.toNat : ℤ) = openedAt
  markPrice : a.markPrice = markPrice
  priceScale : a.priceScale = PositionClose.priceScale
  funding : ∃ payment, expectedFundingPayment a.isLong a.size.toNat currentIndex
      a.fundingIndex.toNat = .ok payment ∧
    signedFundingWitness payment = ⟨a.fundingPaymentAbs.toNat, a.fundingIsCredit⟩

/-- What the long and the short position of a trade gain at a mark price and a funding index, in
every formula of the repository. -/
structure ZeroSum (H : Host) (openedAt currentIndex : ℤ) (markPrice : U128)
    (long short : Server.Fill) : Prop where
  pnl : unrealizedPnl true long.size long.price markPrice.toNat =
    -unrealizedPnl false short.size short.price markPrice.toNat
  funding : fundingPayment long.size currentIndex openedAt =
    -fundingPayment (-short.size) currentIndex openedAt
  expected : ∃ payment,
    expectedFundingPayment true long.size currentIndex openedAt = .ok payment ∧
      expectedFundingPayment false short.size currentIndex openedAt = .ok (-payment)
  pairedMaker : pairedMakerFunding true long.size currentIndex openedAt =
    -pairedMakerFunding false short.size currentIndex openedAt
  settled : ∀ payment payment' fee fee' settlement settlement',
    expectedFundingPayment true long.size currentIndex openedAt = .ok payment →
    expectedFundingPayment false short.size currentIndex openedAt = .ok payment' →
    settleClose true long.size long.price markPrice.toNat long.margin payment fee =
      .ok settlement →
    settleClose false short.size short.price markPrice.toNat short.margin payment' fee' =
      .ok settlement' →
    settlement.newMargin + settlement'.newMargin + fee + fee' = long.margin + short.margin
  pairedSettled : ∀ makerIsLong payment fee settlement settlement',
    let maker := if makerIsLong then long else short
    let trader := if makerIsLong then short else long
    expectedFundingPayment (!makerIsLong) trader.size currentIndex openedAt = .ok payment →
    settleClose (!makerIsLong) trader.size trader.price markPrice.toNat trader.margin payment fee =
      .ok settlement →
    preparePairedMakerClose makerIsLong maker.size maker.price maker.margin openedAt
      markPrice.toNat currentIndex = .ok settlement' →
    settlement.newMargin + settlement'.newMargin + fee = long.margin + short.margin
  circuit : ∀ a b, ClosesFill H openedAt currentIndex markPrice long a →
    ClosesFill H openedAt currentIndex markPrice short b →
    a.pnl = -b.pnl ∧ a.fundingPayment = -b.fundingPayment ∧
      (a.marginOutputAmount.toNat : ℤ) + b.marginOutputAmount.toNat + a.fee.toNat + b.fee.toNat =
        long.margin + short.margin

section

variable {H : Host} {openedAt currentIndex : ℤ} {markPrice : U128} {fill long short : Server.Fill}
  {a : Assignment}

/-- The profit and the funding payment of a close, from its fill. -/
theorem ClosesFill.gains (h : ClosesFill H openedAt currentIndex markPrice fill a) :
    a.pnl = unrealizedPnl a.isLong fill.size fill.price markPrice.toNat ∧
      a.fundingPayment =
        fundingPayment (if a.isLong then fill.size else -fill.size) currentIndex openedAt := by
  obtain ⟨payment, hpayment, hwitness⟩ := h.funding
  have hpos : (0 : ℤ) < a.size.toNat := Int.natCast_pos.mpr (facts h.main).size_pos
  refine ⟨?_, ?_⟩
  · unfold Assignment.pnl
    rw [h.priceScale, signedPnl_eq, h.size, h.entryPrice, h.markPrice]
  · rw [expectedFundingPayment_eq _ _ hpos, h.size, h.fundingIndex] at hpayment
    rw [Except.ok.inj hpayment]
    exact (signedFundingWitness_eq hwitness).symm

/-- The payout of a close. -/
theorem ClosesFill.payout (h : ClosesFill H openedAt currentIndex markPrice fill a) :
    (a.marginOutputAmount.toNat : ℤ) = fill.margin + a.pnl - a.fundingPayment - a.fee.toNat := by
  rw [← h.margin]
  exact (facts h.main).payout

/-- A pair of fills is zero-sum. -/
theorem zeroSum_of_pair {poseidon2Hash : Fr → Fr → Fr} {market : Server.MarketConfig} {i : ℕ}
    (h : Server.FillPair H poseidon2Hash market i long short) (openedAt currentIndex : ℤ)
    (markPrice : U128) : ZeroSum H openedAt currentIndex markPrice long short := by
  have hlongPos := h.longAt.size_pos
  have hshortPos := h.shortAt.size_pos
  have hpnl : unrealizedPnl true long.size long.price markPrice.toNat =
      -unrealizedPnl false short.size short.price markPrice.toNat := by
    rw [h.size, h.price]
    exact unrealizedPnl_opposite false short.size short.price markPrice.toNat
  have hfunding : fundingPayment long.size currentIndex openedAt =
      -fundingPayment (-short.size) currentIndex openedAt := by
    rw [fundingPayment_opposite, neg_neg, h.size]
  have hexpected : expectedFundingPayment true long.size currentIndex openedAt =
      .ok (fundingPayment long.size currentIndex openedAt) :=
    expectedFundingPayment_eq _ _ hlongPos
  have hexpected' : expectedFundingPayment false short.size currentIndex openedAt =
      .ok (fundingPayment (-short.size) currentIndex openedAt) :=
    expectedFundingPayment_eq _ _ hshortPos
  have hpaired := @expectedFundingPayment_eq_paired true _ currentIndex openedAt hlongPos
  have hpaired' := @expectedFundingPayment_eq_paired false _ currentIndex openedAt hshortPos
  have hsettled {payment payment' fee fee' : ℤ} {settlement settlement' : CloseSettlement}
      (hpayment : expectedFundingPayment true long.size currentIndex openedAt = .ok payment)
      (hpayment' : expectedFundingPayment false short.size currentIndex openedAt = .ok payment')
      (hclose : settleClose true long.size long.price markPrice.toNat long.margin payment fee =
        .ok settlement)
      (hclose' : settleClose false short.size short.price markPrice.toNat short.margin payment' fee' =
        .ok settlement') :
      settlement.newMargin + settlement'.newMargin + fee + fee' = long.margin + short.margin := by
    rw [hexpected, Except.ok.injEq] at hpayment
    rw [hexpected', Except.ok.injEq] at hpayment'
    have hnew := settleClose_ok hclose
    have hnew' := settleClose_ok hclose'
    omega
  refine ⟨hpnl, hfunding, ⟨_, hexpected, ?_⟩, ?_, fun _ _ _ _ _ _ => hsettled, ?_, ?_⟩
  · rw [hexpected', hfunding, neg_neg]
  · rw [← Except.ok.inj (hexpected.symm.trans hpaired),
      ← Except.ok.inj (hexpected'.symm.trans hpaired')]
    exact hfunding
  · intro makerIsLong payment fee settlement settlement' maker trader hpayment hclose hprepare
    have hmaker := preparePairedMakerClose_ok hprepare
    cases makerIsLong with
    | true =>
      have hsum := hsettled hpaired hpayment hmaker hclose
      omega
    | false =>
      have hsum := hsettled hpayment hpaired' hclose hmaker
      omega
  · intro a b ha hb
    obtain ⟨hpnlA, hfundingA⟩ := ha.gains
    obtain ⟨hpnlB, hfundingB⟩ := hb.gains
    have hlong : a.isLong = true := by
      rw [ha.isLong, h.longSide]
      rfl
    have hshort : b.isLong = false := by
      rw [hb.isLong, h.shortSide]
      rfl
    rw [hlong] at hpnlA hfundingA
    rw [hshort] at hpnlB hfundingB
    have hpnl' : a.pnl = -b.pnl := by rw [hpnlA, hpnlB, hpnl]
    have hfunding' : a.fundingPayment = -b.fundingPayment := by
      rw [hfundingA, hfundingB]
      exact hfunding
    have hpayoutA := ha.payout
    have hpayoutB := hb.payout
    exact ⟨hpnl', hfunding', by omega⟩

/-- **Matched positions are zero-sum.** Of every two fills that the matcher pairs, the positions
gain and pay opposite amounts at every mark price and funding index, and two accepted closes pay
out the two margins less the two fees. -/
theorem closes_zeroSum {poseidon2Hash : Fr → Fr → Fr} {input : Server.MatchInput}
    {result : Server.MatchResult}
    (h : Server.matchBatch H poseidon2Hash none input = some result) :
    ∀ k long short, result.fills[2 * k]? = some long → result.fills[2 * k + 1]? = some short →
      long.size = short.size ∧ long.price = short.price ∧
        ∀ currentIndex markPrice,
          ZeroSum H input.market.fundingIndex currentIndex markPrice long short := by
  intro k long short hlong hshort
  have hpair := Server.matchBatch_pair h hlong hshort
  exact ⟨hpair.size, hpair.price, fun currentIndex markPrice => zeroSum_of_pair hpair _ _ _⟩

end

section Examples

open SampleHost

/-- The close at the mark price 110000000 of a position that the sample batch opens. -/
def closeSide (isLong : Bool) (fundingIsCredit : Bool) (payout : U128) : Assignment :=
  closePosition ⟨isLong, 1000, 100000000, 1000, 0, 17, 5, 6, 7⟩ 110000000 200 fundingIsCredit 0
    payout 3 21 11

/-- The long position gains 100 and pays 200, and the short position pays 100 and receives 200. -/
theorem closes_zeroSum_sample : ∃ result long short, Server.witnessMatch 0 = some result ∧
    result.fills[0]? = some long ∧ result.fills[1]? = some short ∧
    ClosesFill sampleHost 0 20000000 110000000 long (closeSide true false 900) ∧
    ClosesFill sampleHost 0 20000000 110000000 short (closeSide false true 1100) ∧
    ZeroSum sampleHost 0 20000000 110000000 long short := by
  have hrun : ∃ result ∈ Server.witnessMatch 0,
      result.fills.map (fun fill => (fill.side, fill.size, fill.price, fill.margin)) =
        [(.long, 1000, 100000000, 1000), (.short, 1000, 100000000, 1000)] := by decide +kernel
  obtain ⟨result, hmatch, hfills⟩ := hrun
  obtain ⟨long, rest, hlist, hlong, hrest⟩ := List.map_eq_cons_iff.mp hfills
  obtain ⟨short, rest', hlist', hshort, -⟩ := List.map_eq_cons_iff.mp hrest
  have hlongAt : result.fills[0]? = some long := by rw [hlist]; rfl
  have hshortAt : result.fills[1]? = some short := by rw [hlist, hlist']; rfl
  simp only [Prod.mk.injEq] at hlong hshort
  obtain ⟨hside, hsize, hprice, hmargin⟩ := hlong
  obtain ⟨hside', hsize', hprice', hmargin'⟩ := hshort
  have hzero := closes_zeroSum (Option.mem_def.mp hmatch) 0 long short hlongAt hshortAt
  refine ⟨result, long, short, hmatch, hlongAt, hshortAt, ?_, ?_, hzero.2.2 20000000 110000000⟩
  · exact ⟨by decide +kernel, by rw [hside]; rfl, by rw [hsize]; rfl, by rw [hprice]; rfl,
      by rw [hmargin]; rfl, rfl, rfl, rfl, 200, by decide, by decide⟩
  · exact ⟨by decide +kernel, by rw [hside']; rfl, by rw [hsize']; rfl, by rw [hprice']; rfl,
      by rw [hmargin']; rfl, rfl, rfl, rfl, -200, by decide, by decide⟩

end Examples

end Pnlx
