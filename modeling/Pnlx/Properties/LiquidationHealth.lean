import Pnlx.Contracts.Liquidation
import Pnlx.MarketMath
import Pnlx.SampleHost

/-!
# The health of a liquidated position

The server liquidates a position when `isLiquidatable` holds. The liquidation-check circuit computes
with natural numbers: it ignores a gain, neither a loss nor a funding debit takes the equity below
zero, and no position without an entry price is accepted. `liquidatable_iff` says for which positions
the two agree.
-/

namespace Pnlx

namespace LiquidationCheck

open MarketMath

/-! ## The circuit and the formula -/

/-- The funding payment of the private arguments: a credit is a negative payment. -/
def Assignment.fundingPayment (a : Assignment) : ℤ :=
  if a.fundingIsCredit then -(a.fundingPaymentAbs.toNat : ℤ) else a.fundingPaymentAbs.toNat

/-- The numbers of an assignment, as `isLiquidatable` takes them. -/
def Assignment.isLiquidatable (a : Assignment) (payment : ℤ) : Bool :=
  MarketMath.isLiquidatable a.isLong a.size.toNat a.entryPrice.toNat a.markPrice.toNat
    a.margin.toNat payment a.maintenanceRate.toNat

def Assignment.pnl (a : Assignment) : ℤ :=
  unrealizedPnl a.isLong a.size.toNat a.entryPrice.toNat a.markPrice.toNat

def Assignment.requirement (a : Assignment) : ℤ :=
  maintenanceMargin a.size.toNat a.markPrice.toNat a.maintenanceRate.toNat

/-- The circuit is asked about a member position with the scales of the repository, the honest
witnesses of a funding payment, and numbers whose products fit. -/
structure Asks (H : Host) (a : Assignment) (payment : ℤ) : Prop where
  member : Member H a
  priceScale : a.priceScale = Liquidation.priceScale
  rateScale : a.rateScale = Liquidation.rateScale
  funding : signedFundingWitness payment = ⟨a.fundingPaymentAbs.toNat, a.fundingIsCredit⟩
  products : a.ProductsFit

/-- The requirement of a position with an entry price lies between its equity without and with its
gain. -/
def GainDecides (a : Assignment) (payment : ℤ) : Prop :=
  0 < a.entryPrice.toNat ∧ 0 < a.requirement ∧ a.margin.toNat - payment < a.requirement ∧
    a.requirement ≤ a.margin.toNat + a.pnl - payment

/-- The loss exceeds the margin, and the funding credit alone reaches the requirement. -/
def CreditDecides (a : Assignment) (payment : ℤ) : Prop :=
  a.margin.toNat + a.pnl < 0 ∧ a.requirement ≤ -payment ∧
    a.margin.toNat + a.pnl - payment < a.requirement

/-- The requirement rounds to zero, and margin and profit do not cover the payment. -/
def NothingRequired (a : Assignment) (payment : ℤ) : Prop :=
  a.requirement = 0 ∧ a.margin.toNat + a.pnl - payment < 0

/-- A position without an entry price is below its requirement. -/
def EntryMissing (a : Assignment) (payment : ℤ) : Prop :=
  a.entryPrice.toNat = 0 ∧ a.margin.toNat + a.pnl - payment < a.requirement

section

variable {H : Host} {a : Assignment} {payment : ℤ}

/-- Profit and loss of the formula: a loss is the loss of the circuit, and a gain is one at which
the circuit sees no loss. -/
theorem pnl_cases (hscale : a.priceScale = Liquidation.priceScale) :
    a.pnl = -a.loss ∨ (0 ≤ a.pnl ∧ a.loss = 0) := by
  have hloss : a.loss = a.size.toNat * a.adverse / 100000000 := by
    unfold Assignment.loss
    rw [hscale]
    rfl
  have hneg (n : ℕ) := (tdiv_natCast a.size.toNat n 100000000).2
  have hpos (n : ℕ) := (tdiv_natCast a.size.toNat n 100000000).1
  -- the price move is adverse (a loss), or it is not (a gain)
  have hsplit {e m : ℕ} (hadverse : a.adverse = e - m)
      (hpnl : a.pnl = ((a.size.toNat : ℤ) * (m - e)).tdiv MarketMath.priceScale) :
      a.pnl = -a.loss ∨ (0 ≤ a.pnl ∧ a.loss = 0) := by
    by_cases h : m ≤ e
    · refine Or.inl ?_
      rw [hpnl, hloss, hadverse, ← hneg, Nat.cast_sub h, neg_sub]
      rfl
    · refine Or.inr ⟨?_, ?_⟩
      · rw [hpnl, ← Nat.cast_sub (by omega : e ≤ m)]
        exact (hpos (m - e)).symm ▸ Int.natCast_nonneg _
      · rw [hloss, hadverse, Nat.sub_eq_zero_of_le (by omega), Nat.mul_zero, Nat.zero_div]
  unfold Assignment.pnl unrealizedPnl at hsplit ⊢
  unfold Assignment.adverse at hsplit
  cases hlong : a.isLong with
  | true =>
    simp only [hlong, if_true] at hsplit ⊢
    exact hsplit rfl rfl
  | false =>
    simp only [hlong, Bool.false_eq_true, if_false] at hsplit ⊢
    exact hsplit rfl rfl

theorem requirement_eq (hprice : a.priceScale = Liquidation.priceScale)
    (hrate : a.rateScale = Liquidation.rateScale) : a.requirement = a.maintenance := by
  unfold Assignment.requirement Assignment.maintenance Assignment.notional
  rw [maintenanceMargin_natCast, hprice, hrate]
  rfl

/-- The equity of the circuit from its signed payment. -/
theorem equity_eq (a : Assignment) :
    (a.equity : ℤ) = max 0 (max 0 ((a.margin.toNat : ℤ) - a.loss) - a.fundingPayment) := by
  unfold Assignment.equity Assignment.fundingPayment
  by_cases hcredit : a.fundingIsCredit = true
  · rw [if_pos hcredit, if_pos hcredit]
    omega
  · rw [if_neg hcredit, if_neg hcredit]
    omega

theorem isLiquidatable_iff (a : Assignment) (payment : ℤ) : a.isLiquidatable payment = true ↔
    a.margin.toNat + a.pnl - payment < a.requirement := by
  unfold Assignment.isLiquidatable MarketMath.isLiquidatable
  exact decide_eq_true_iff

/-- What the circuit asks of the numbers of a member position. -/
theorem Asks.main_iff (h : Asks H a payment) :
    main H a = some () ↔ 0 < a.entryPrice.toNat ∧ a.equity < a.maintenance := by
  have hscale : 0 < a.priceScale.toNat ∧ 0 < a.rateScale.toNat := by
    rw [h.priceScale, h.rateScale]
    decide
  rw [main_eq_some_iff]
  refine ⟨fun hm => ⟨hm.2.entryPrice_pos, hm.2.equity_lt⟩, fun ⟨hentry, hlt⟩ => ⟨h.member, ?_,
    hentry, ?_, hscale.1, hscale.2, h.products, hlt⟩⟩
  -- without a size or a mark price nothing is required
  · refine Nat.pos_of_ne_zero fun hzero => ?_
    unfold Assignment.maintenance Assignment.notional at hlt
    rw [hzero, Nat.zero_mul, Nat.zero_div, Nat.zero_mul, Nat.zero_div] at hlt
    exact Nat.not_lt_zero _ hlt
  · refine Nat.pos_of_ne_zero fun hzero => ?_
    unfold Assignment.maintenance Assignment.notional at hlt
    rw [hzero, Nat.mul_zero, Nat.zero_div, Nat.zero_mul, Nat.zero_div] at hlt
    exact Nat.not_lt_zero _ hlt

/-- **Circuit and formula.** The circuit accepts the position exactly when the formula calls it
liquidatable, unless its gain, its credit, a requirement of zero or a missing entry price decides. -/
theorem liquidatable_iff (h : Asks H a payment) :
    (main H a = some () ↔ a.isLiquidatable payment = true) ↔
      ¬ GainDecides a payment ∧ ¬ CreditDecides a payment ∧ ¬ NothingRequired a payment ∧
        ¬ EntryMissing a payment := by
  have hrequirement := requirement_eq h.priceScale h.rateScale
  have hequity := equity_eq a
  rw [show a.fundingPayment = payment from (signedFundingWitness_eq h.funding).symm] at hequity
  rw [h.main_iff, isLiquidatable_iff]
  unfold GainDecides CreditDecides NothingRequired EntryMissing
  rcases pnl_cases h.priceScale with hloss | ⟨hgain, hloss⟩
  · omega
  · omega

end

section Examples

open SampleHost

/-- A long position whose margin of 100 is below its requirement, and whose gain is 1000. -/
def gainingPosition : Position := ⟨true, 200000000, 1000, 100, 0, 17, 5, 6, 7⟩

/-- Its liquidation at the mark price 1500 with a requirement of 300. -/
def gainingLiquidation : Assignment := liquidatePosition gainingPosition 1500 100000 0 false 21 11

/-- Its liquidation at the mark price 900, after a loss of 200. -/
def losingLiquidation : Assignment := liquidatePosition gainingPosition 900 100000 0 false 21 11

theorem asks_gainingLiquidation : Asks sampleHost gainingLiquidation 0 :=
  ⟨(main_eq_some_iff.mp (by decide +kernel)).1, rfl, rfl, rfl, by decide, by decide, by decide⟩

theorem asks_losingLiquidation : Asks sampleHost losingLiquidation 0 :=
  ⟨(main_eq_some_iff.mp (by decide +kernel)).1, rfl, rfl, rfl, by decide, by decide, by decide⟩

/-- On the losing position circuit and formula agree. -/
theorem liquidatable_losingLiquidation :
    main sampleHost losingLiquidation = some () ↔ losingLiquidation.isLiquidatable 0 = true :=
  (liquidatable_iff asks_losingLiquidation).mpr
    ⟨fun h => absurd h.2.2.2 (by decide), fun h => absurd h.2.1 (by decide),
      fun h => absurd h.1 (by decide), fun h => absurd h.1 (by decide)⟩

/-- The circuit accepts a position that the formula calls healthy. -/
theorem exists_healthy_liquidation : ∃ (a : Assignment) (payment : ℤ),
    Asks sampleHost a payment ∧ main sampleHost a = some () ∧ a.isLiquidatable payment = false :=
  ⟨gainingLiquidation, 0, asks_gainingLiquidation, by decide +kernel, by decide⟩

end Examples

end LiquidationCheck

end Pnlx
