import Pnlx.Words
import Mathlib.Tactic.Ring

/-!
# Market arithmetic of the server and the client

Big integers have no bounds and their division truncates, as `Int.tdiv` does.

1. `unrealizedPnl`, `settleClose`, `expectedFundingPayment`: profit, payout and funding of a
   position.
2. `isLiquidatable`: the health of a position.
3. `signedFundingWitness`: a payment as a magnitude and a direction.
4. `fundingIndexDelta`: the move of a market's funding index.
5. `unrealizedPnl_opposite`, `fundingPayment_opposite`: the two sides of a trade.
-/

namespace Pnlx

namespace MarketMath

def priceScale : ℤ := 100000000

def unrealizedPnl (isLong : Bool) (size entryPrice markPrice : ℤ) : ℤ :=
  let delta := if isLong then markPrice - entryPrice else entryPrice - markPrice
  (size * delta).tdiv priceScale

structure CloseSettlement where
  realizedPnl : ℤ
  newMargin : ℤ
  deriving DecidableEq

def settleClose (isLong : Bool) (closeSize entryPrice markPrice margin fundingPayment fee : ℤ) :
    Except String CloseSettlement :=
  if closeSize ≤ 0 then .error "close size must be positive"
  else if margin < 0 then .error "margin cannot be negative"
  else if fee < 0 then .error "fee cannot be negative"
  else
    let realizedPnl := unrealizedPnl isLong closeSize entryPrice markPrice
    let newMargin := margin + realizedPnl - fundingPayment - fee
    if newMargin < 0 then .error "close settlement is insolvent" else .ok ⟨realizedPnl, newMargin⟩

def expectedFundingPayment (isLong : Bool) (positionSize currentIndex positionIndex : ℤ) :
    Except String ℤ :=
  if positionSize ≤ 0 then .error "position size must be positive"
  else
    let payment := (positionSize * (currentIndex - positionIndex)).tdiv priceScale
    .ok (if isLong then payment else -payment)

/-! ## The health of a position -/

def rateScale : ℤ := 1000000

def abs (value : ℤ) : ℤ := if value < 0 then -value else value

def notional (size price : ℤ) : ℤ := (abs size * price).tdiv priceScale

def maintenanceMargin (size price rate : ℤ) : ℤ := (notional size price * rate).tdiv rateScale

def equity (isLong : Bool) (size entryPrice markPrice margin fundingPayment : ℤ) : ℤ :=
  margin + unrealizedPnl isLong size entryPrice markPrice - fundingPayment

def isLiquidatable (isLong : Bool)
    (size entryPrice markPrice margin fundingPayment maintenanceRate : ℤ) : Bool :=
  equity isLong size entryPrice markPrice margin fundingPayment <
    maintenanceMargin size markPrice maintenanceRate

/-! ## Funding -/

/-- `fundingPayment` of a signed size. -/
def fundingPayment (signedSize currentIndex lastIndex : ℤ) : ℤ :=
  (signedSize * (currentIndex - lastIndex)).tdiv priceScale

/-- The funding payment of `preparePairedMakerClose`. -/
def pairedMakerFunding (isLong : Bool) (size currentIndex positionIndex : ℤ) : ℤ :=
  (size * (currentIndex - positionIndex)).tdiv priceScale * (if isLong then 1 else -1)

/-- The settlement of `preparePairedMakerClose` for the opening of the maker's position. -/
def preparePairedMakerClose (isLong : Bool)
    (size entryPrice margin positionIndex markPrice currentIndex : ℤ) :
    Except String CloseSettlement := do
  let settled ← settleClose isLong size entryPrice markPrice margin
    (pairedMakerFunding isLong size currentIndex positionIndex) 0
  if settled.newMargin ≤ 0 then .error "vault maker position requires liquidation" else .ok settled

structure FundingWitness where
  abs : ℤ
  isCredit : Bool
  deriving DecidableEq

/-- The private funding arguments that the prover passes to a circuit. -/
def signedFundingWitness (payment : ℤ) : FundingWitness :=
  if payment < 0 then ⟨-payment, true⟩ else ⟨payment, false⟩

/-- A payment from its magnitude and its direction. -/
theorem signedFundingWitness_eq {payment : ℤ} {n : ℕ} {credit : Bool}
    (h : signedFundingWitness payment = ⟨n, credit⟩) :
    payment = if credit then -(n : ℤ) else n := by
  unfold signedFundingWitness at h
  by_cases hpay : payment < 0
  · rw [if_pos hpay, FundingWitness.mk.injEq] at h
    rw [← h.2, if_pos rfl]
    omega
  · rw [if_neg hpay, FundingWitness.mk.injEq] at h
    rw [← h.2, if_neg Bool.false_ne_true]
    exact h.1

/-- The input of `fundingIndexDelta`, with whole milliseconds. -/
structure FundingIndexDeltaInput where
  elapsedMs : ℤ
  intervalMs : ℤ
  markPrice : ℤ
  maxFundingDelta : Option ℤ
  premiumRate : ℤ
  deriving DecidableEq

def fundingIndexDelta (input : FundingIndexDeltaInput) : Except String ℤ :=
  if input.markPrice ≤ 0 then .error "mark price must be positive"
  else if input.elapsedMs < 0 then .error "elapsed time cannot be negative"
  else if input.intervalMs ≤ 0 then .error "funding interval must be positive"
  else if input.maxFundingDelta.any (· < 0) then .error "max funding delta cannot be negative"
  else
    let raw := (input.markPrice * input.premiumRate * input.elapsedMs).tdiv
      (rateScale * input.intervalMs)
    match input.maxFundingDelta with
    | none => .ok raw
    | some maxFundingDelta =>
      if maxFundingDelta < raw then .ok maxFundingDelta
      else if raw < -maxFundingDelta then .ok (-maxFundingDelta)
      else .ok raw

/-! ## Rounding -/

/-- A magnitude rounded down is the truncated quotient, whatever its sign. -/
theorem tdiv_natCast (s d n : ℕ) :
    ((s : ℤ) * d).tdiv n = (s * d / n : ℕ) ∧ ((s : ℤ) * -d).tdiv n = -(s * d / n : ℕ) := by
  have hpos : ((s : ℤ) * d).tdiv n = (s * d / n : ℕ) := by
    rw [← Int.natCast_mul]
    exact (Int.ofNat_tdiv (s * d) n).symm
  refine ⟨hpos, ?_⟩
  rw [mul_neg, Int.neg_tdiv, hpos]

theorem notional_natCast (size price : ℕ) :
    notional size price = (size * price / 100000000 : ℕ) := by
  unfold notional abs
  rw [if_neg (by omega)]
  exact (tdiv_natCast size price 100000000).1

theorem maintenanceMargin_natCast (size price rate : ℕ) :
    maintenanceMargin size price rate = (size * price / 100000000 * rate / 1000000 : ℕ) := by
  unfold maintenanceMargin
  rw [notional_natCast]
  exact (tdiv_natCast _ rate 1000000).1

/-! ## The two sides of a trade -/

/-- The profit of one side is the loss of the other. -/
theorem unrealizedPnl_opposite (isLong : Bool) (size entryPrice markPrice : ℤ) :
    unrealizedPnl (!isLong) size entryPrice markPrice =
      -unrealizedPnl isLong size entryPrice markPrice := by
  unfold unrealizedPnl
  rw [← Int.neg_tdiv, ← mul_neg]
  cases isLong with
  | true =>
    show (size * (entryPrice - markPrice)).tdiv priceScale =
      (size * -(markPrice - entryPrice)).tdiv priceScale
    rw [neg_sub]
  | false =>
    show (size * (markPrice - entryPrice)).tdiv priceScale =
      (size * -(entryPrice - markPrice)).tdiv priceScale
    rw [neg_sub]

/-- The funding that one side pays is what the other side receives. -/
theorem fundingPayment_opposite (signedSize currentIndex lastIndex : ℤ) :
    fundingPayment (-signedSize) currentIndex lastIndex =
      -fundingPayment signedSize currentIndex lastIndex := by
  unfold fundingPayment
  rw [neg_mul, Int.neg_tdiv]

/-- The three formulas for funding are one. -/
theorem expectedFundingPayment_eq {isLong : Bool} {size : ℤ} (currentIndex positionIndex : ℤ)
    (h : 0 < size) : expectedFundingPayment isLong size currentIndex positionIndex =
      .ok (fundingPayment (if isLong then size else -size) currentIndex positionIndex) := by
  unfold expectedFundingPayment
  rw [if_neg (by omega)]
  cases isLong with
  | true => rfl
  | false =>
    show Except.ok (-fundingPayment size currentIndex positionIndex) = _
    rw [← fundingPayment_opposite]
    rfl

theorem expectedFundingPayment_eq_paired {isLong : Bool} {size : ℤ} (currentIndex positionIndex : ℤ)
    (h : 0 < size) : expectedFundingPayment isLong size currentIndex positionIndex =
      .ok (pairedMakerFunding isLong size currentIndex positionIndex) := by
  rw [expectedFundingPayment_eq _ _ h]
  cases isLong with
  | true => exact congrArg _ (mul_one _).symm
  | false =>
    show Except.ok (fundingPayment (-size) currentIndex positionIndex) =
      .ok (fundingPayment size currentIndex positionIndex * -1)
    rw [mul_neg_one, fundingPayment_opposite]

/-! ## Settlements -/

/-- What a successful settlement of a close has computed. -/
theorem settleClose_ok {isLong : Bool} {size entryPrice markPrice margin payment fee : ℤ}
    {settlement : CloseSettlement}
    (h : settleClose isLong size entryPrice markPrice margin payment fee = .ok settlement) :
    settlement.newMargin =
      margin + unrealizedPnl isLong size entryPrice markPrice - payment - fee := by
  unfold settleClose at h
  dsimp only at h
  split_ifs at h
  rw [← Except.ok.inj h]

theorem preparePairedMakerClose_ok {isLong : Bool}
    {size entryPrice margin positionIndex markPrice currentIndex : ℤ} {settlement : CloseSettlement}
    (h : preparePairedMakerClose isLong size entryPrice margin positionIndex markPrice currentIndex =
      .ok settlement) :
    settleClose isLong size entryPrice markPrice margin
      (pairedMakerFunding isLong size currentIndex positionIndex) 0 = .ok settlement := by
  unfold preparePairedMakerClose at h
  cases hsettle : settleClose isLong size entryPrice markPrice margin
      (pairedMakerFunding isLong size currentIndex positionIndex) 0 with
  | error e =>
    rw [hsettle] at h
    exact nomatch h
  | ok settled =>
    rw [hsettle] at h
    replace h : (if settled.newMargin ≤ 0 then
      .error "vault maker position requires liquidation" else .ok settled) = Except.ok settlement := h
    split_ifs at h
    exact h

end MarketMath

end Pnlx
