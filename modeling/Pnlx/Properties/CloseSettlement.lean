import Pnlx.Properties.ClosePayout

/-!
# The settlement of a close

`settleClose` adds profit and loss, funding and fee, and checks the sum once. The position-close
circuit applies them one after the other and checks the margin after each of them, and both prices
before. They agree unless the loss exceeds the margin and a funding credit makes up for it, or a
price is zero (`agrees_iff`).
-/

namespace Pnlx.PositionCloseCircuit

open MarketMath

/-- The numbers of a close: a position, a mark price and a fee. -/
structure Close where
  isLong : Bool
  size : U128
  entryPrice : U128
  markPrice : U128
  margin : U128
  fee : U128
  size_pos : 0 < size.toNat

namespace Close

def pnl (v : Close) : ℤ :=
  unrealizedPnl v.isLong v.size.toNat v.entryPrice.toNat v.markPrice.toNat

def settle (v : Close) (payment : ℤ) : Except String CloseSettlement :=
  settleClose v.isLong v.size.toNat v.entryPrice.toNat v.markPrice.toNat v.margin.toNat payment
    v.fee.toNat

/-- The product and the sums of the close fit in 128 bits. -/
structure Fits (v : Close) (payment : ℤ) : Prop where
  value : v.size.toNat * ((v.markPrice.toNat : ℤ) - v.entryPrice.toNat).natAbs < 2 ^ 128
  payment_lt : payment.natAbs < 2 ^ 128
  afterPnl : v.margin.toNat + v.pnl < 2 ^ 128
  afterFunding : v.margin.toNat + v.pnl - payment < 2 ^ 128

/-- An assignment of the circuit for the close, with the honest witnesses of a funding payment. -/
structure Asks (v : Close) (payment : ℤ) (a : Assignment) : Prop where
  isLong : a.isLong = v.isLong
  size : a.size = v.size
  entryPrice : a.entryPrice = v.entryPrice
  markPrice : a.markPrice = v.markPrice
  margin : a.margin = v.margin
  fee : a.fee = v.fee
  priceScale : a.priceScale = PositionClose.priceScale
  funding : signedFundingWitness payment = ⟨a.fundingPaymentAbs.toNat, a.fundingIsCredit⟩

/-- The circuit settles the close with the amount that `settleClose` returns and with no other, and
with no amount when `settleClose` throws. -/
def Agrees (v : Close) (payment : ℤ) : Prop :=
  match v.settle payment with
  | .ok settlement =>
    (∃ a, v.Asks payment a ∧ a.Settles ∧ (a.marginOutputAmount.toNat : ℤ) = settlement.newMargin) ∧
      ∀ a, v.Asks payment a → a.Settles → (a.marginOutputAmount.toNat : ℤ) = settlement.newMargin
  | .error _ => ∀ a, v.Asks payment a → ¬ a.Settles

/-- The loss exceeds the margin, and the funding credit covers the rest of it and the fee. -/
def CreditCovers (v : Close) (payment : ℤ) : Prop :=
  v.margin.toNat + v.pnl < 0 ∧ v.fee.toNat ≤ v.margin.toNat + v.pnl - payment

/-- A price is zero, and the sum covers the fee. -/
def PriceMissing (v : Close) (payment : ℤ) : Prop :=
  (v.entryPrice.toNat = 0 ∨ v.markPrice.toNat = 0) ∧
    v.fee.toNat ≤ v.margin.toNat + v.pnl - payment

/-- An assignment with the numbers of the close and a given payout. -/
def assignment (v : Close) (payment : FundingWitness) (payout : U128) : Assignment :=
  { (default : Assignment) with
    isLong := v.isLong
    size := v.size
    closeSize := v.size
    entryPrice := v.entryPrice
    markPrice := v.markPrice
    margin := v.margin
    fundingPaymentAbs := BitVec.ofNat 128 payment.abs.toNat
    fundingIsCredit := payment.isCredit
    fee := v.fee
    newMargin := payout
    remainingMargin := 0
    marginOutputAmount := payout
    priceScale := PositionClose.priceScale }

section

variable {v : Close} {payment : ℤ} {a : Assignment}

theorem Asks.pnl_eq (h : v.Asks payment a) : a.pnl = v.pnl := by
  unfold Assignment.pnl
  rw [h.isLong, h.size, h.entryPrice, h.markPrice, h.priceScale]
  exact signedPnl_eq v.isLong v.size v.entryPrice v.markPrice

theorem Asks.fundingPayment_eq (h : v.Asks payment a) : a.fundingPayment = payment :=
  (signedFundingWitness_eq h.funding).symm

/-- The distance of the prices, whatever the side. -/
theorem Asks.move_eq (h : v.Asks payment a) :
    a.move = ((v.markPrice.toNat : ℤ) - v.entryPrice.toNat).natAbs := by
  have hle (x y : U128) : x ≥ y ↔ y.toNat ≤ x.toNat := BitVec.le_def
  unfold Assignment.move
  rw [h.isLong, h.entryPrice, h.markPrice]
  by_cases hprofit : isProfit v.isLong v.entryPrice v.markPrice = true
  · rw [if_pos hprofit]
    unfold isProfit at hprofit
    split_ifs at hprofit ⊢
    · have := (hle _ _).mp (of_decide_eq_true hprofit)
      omega
    · have := (hle _ _).mp (of_decide_eq_true hprofit)
      omega
  · rw [if_neg hprofit]
    unfold isProfit at hprofit
    split_ifs at hprofit ⊢
    · have := mt (hle _ _).mpr (mt decide_eq_true hprofit)
      omega
    · have := mt (hle _ _).mpr (mt decide_eq_true hprofit)
      omega

/-- The honest witnesses of the payment are those of the assignment. -/
theorem asks_assignment (hpayment : payment.natAbs < 2 ^ 128) (payout : U128) :
    v.Asks payment (v.assignment (signedFundingWitness payment) payout) := by
  refine ⟨rfl, rfl, rfl, rfl, rfl, rfl, rfl, ?_⟩
  have habs : ((signedFundingWitness payment).abs.toNat : ℤ) =
        (signedFundingWitness payment).abs ∧
      (signedFundingWitness payment).abs.toNat < 2 ^ 128 := by
    unfold signedFundingWitness
    split_ifs
    · dsimp only
      omega
    · dsimp only
      omega
  have htoNat : (BitVec.ofNat 128 (signedFundingWitness payment).abs.toNat).toNat =
      (signedFundingWitness payment).abs.toNat := by
    rw [BitVec.toNat_ofNat, Nat.mod_eq_of_lt habs.2]
  show signedFundingWitness payment =
    ⟨((BitVec.ofNat 128 _).toNat : ℕ), (signedFundingWitness payment).isCredit⟩
  rw [htoNat, habs.1]

/-- What the circuit asks of the numbers of a close. -/
theorem Asks.settles_iff (h : v.Asks payment a) (hfits : v.Fits payment)
    (hshape : a.closeSize = a.size ∧ a.remainingMargin = 0 ∧ a.newMargin = a.marginOutputAmount) :
    a.Settles ↔ (0 < v.entryPrice.toNat ∧ 0 < v.markPrice.toNat) ∧ 0 ≤ v.margin.toNat + v.pnl ∧
      0 ≤ v.margin.toNat + v.pnl - payment ∧
      (a.marginOutputAmount.toNat : ℤ) = v.margin.toNat + v.pnl - payment - v.fee.toNat := by
  have hpnl := h.pnl_eq
  have hfunding := h.fundingPayment_eq
  constructor
  · intro hs
    have hnew := hs.newMargin
    rw [hpnl, hfunding, h.margin, h.fee, hshape.2.2] at hnew
    refine ⟨⟨?_, ?_⟩, ?_, ?_, hnew⟩
    · rw [← h.entryPrice]
      exact hs.entryPrice_pos
    · rw [← h.markPrice]
      exact hs.markPrice_pos
    · rw [← h.margin, ← hpnl]
      exact hs.afterPnl.1
    · rw [← h.margin, ← hpnl, ← hfunding]
      exact hs.afterFunding.1
  · rintro ⟨⟨hentry, hmark⟩, hafterPnl, hafterFunding, hnew⟩
    refine ⟨h.size ▸ v.size_pos, hshape.1, h.entryPrice ▸ hentry, h.markPrice ▸ hmark, ?_, ?_, ?_, ?_, ?_, hshape.2.1, hshape.2.2.symm⟩
    · rw [h.priceScale]
      decide
    · rw [h.size, h.move_eq]
      exact hfits.value
    · rw [h.margin, hpnl]
      exact ⟨hafterPnl, hfits.afterPnl⟩
    · rw [h.margin, hpnl, hfunding]
      exact ⟨hafterFunding, hfits.afterFunding⟩
    · rw [h.margin, h.fee, hpnl, hfunding, hshape.2.2]
      exact hnew

theorem Asks.newMargin_eq (h : v.Asks payment a) (hs : a.Settles) :
    (a.marginOutputAmount.toNat : ℤ) = v.margin.toNat + v.pnl - payment - v.fee.toNat := by
  have hnew := hs.newMargin
  rwa [h.pnl_eq, h.fundingPayment_eq, h.margin, h.fee, ← hs.marginOutputAmount] at hnew

/-- `settleClose` on the numbers of a close. -/
theorem settle_eq (v : Close) (payment : ℤ) : v.settle payment =
    if v.margin.toNat + v.pnl - payment - v.fee.toNat < 0 then
      .error "close settlement is insolvent"
    else .ok ⟨v.pnl, v.margin.toNat + v.pnl - payment - v.fee.toNat⟩ := by
  have hsize := v.size_pos
  unfold settle settleClose
  rw [if_neg (by omega), if_neg (by omega), if_neg (by omega)]
  rfl

/-- **Circuit and `settleClose`.** They agree on a close exactly when no funding credit makes up
for a loss that exceeds the margin, and no solvent close has a price of zero. -/
theorem agrees_iff (hfits : v.Fits payment) :
    v.Agrees payment ↔ ¬ v.CreditCovers payment ∧ ¬ v.PriceMissing payment := by
  unfold Agrees CreditCovers PriceMissing
  rw [settle_eq]
  by_cases hinsolvent : v.margin.toNat + v.pnl - payment - v.fee.toNat < 0
  · rw [if_pos hinsolvent]
    refine iff_of_true (fun a ha hs => ?_) (by omega)
    have hamount := ha.newMargin_eq hs
    omega
  · rw [if_neg hinsolvent]
    obtain ⟨payout, hpayout⟩ : ∃ payout : U128,
        payout.toNat = (v.margin.toNat + v.pnl - payment - v.fee.toNat).toNat :=
      exists_toNat_eq (by have := hfits.afterFunding; omega)
    have hasks := asks_assignment (v := v) hfits.payment_lt payout
    have hsettles := hasks.settles_iff hfits ⟨rfl, rfl, rfl⟩
    constructor
    · rintro ⟨⟨a, ha, hs, -⟩, -⟩
      have hafterPnl := hs.afterPnl.1
      have hentry := hs.entryPrice_pos
      have hmark := hs.markPrice_pos
      rw [ha.margin, ha.pnl_eq] at hafterPnl
      rw [ha.entryPrice] at hentry
      rw [ha.markPrice] at hmark
      omega
    · intro hcovers
      have hamount : ((v.assignment (signedFundingWitness payment) payout).marginOutputAmount.toNat
          : ℤ) = v.margin.toNat + v.pnl - payment - v.fee.toNat := by
        show (payout.toNat : ℤ) = _
        omega
      exact ⟨⟨_, hasks, hsettles.mpr ⟨by omega, by omega, by omega, hamount⟩, hamount⟩,
        fun a ha hs => ha.newMargin_eq hs⟩

end

end Close

section Examples

/-- A long position that loses 1200 at the mark price 400, with a margin of 1000. -/
def losingClose : Close := ⟨true, 200000000, 1000, 400, 1000, 0, by decide⟩

theorem agrees_losingClose : losingClose.Agrees 0 :=
  (Close.agrees_iff ⟨by decide, by decide, by decide, by decide⟩).mpr
    ⟨fun h => absurd h.2 (by decide), fun h => absurd h.2 (by decide)⟩

/-- With a funding credit of 500 the position is solvent, but it cannot be closed. -/
theorem exists_solvent_unclosable : ∃ (v : Close) (payment : ℤ) (settlement : CloseSettlement),
    v.Fits payment ∧ v.settle payment = .ok settlement ∧ settlement.newMargin = 300 ∧
      ∀ a, v.Asks payment a → ∀ H, main H a ≠ some () := by
  refine ⟨losingClose, -500, ⟨-1200, 300⟩, ⟨by decide, by decide, by decide, by decide⟩,
    by decide, rfl, fun a ha H hmain => ?_⟩
  have hafterPnl := (main_eq_some_iff.mp hmain).2.afterPnl.1
  rw [ha.margin, ha.pnl_eq] at hafterPnl
  exact absurd hafterPnl (by decide)

end Examples

end Pnlx.PositionCloseCircuit
