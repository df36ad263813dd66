import Pnlx.Contracts.PositionClose
import Pnlx.MarketMath
import Pnlx.SampleHost

/-!
# The payout of a closed position

The repository computes the payout of a close from the position, the mark price and the funding
index of the market (`settleClose`, `expectedFundingPayment`). The position-close circuit takes the
funding payment and the fee as private arguments. Its profit is the one of `unrealizedPnl`
(`signedPnl_eq`), and its payout is the expected one exactly when the two private arguments add up
to the expected costs (`payout_eq_iff`).
-/

namespace Pnlx

namespace PositionCloseCircuit

open MarketMath

/-- The circuit rounds profit and loss as `unrealizedPnl` does. -/
theorem signedPnl_eq (isLong : Bool) (size entryPrice markPrice : U128) :
    signedPnl isLong size entryPrice markPrice PositionClose.priceScale =
      unrealizedPnl isLong size.toNat entryPrice.toNat markPrice.toNat := by
  have hscale : PositionClose.priceScale.toNat = 100000000 := rfl
  have hgain {m n : ℕ} (h : n ≤ m) : ((size.toNat * (m - n) / 100000000 : ℕ) : ℤ) =
      ((size.toNat : ℤ) * (m - n)).tdiv MarketMath.priceScale := by
    rw [← Nat.cast_sub h]
    exact (tdiv_natCast _ _ 100000000).1.symm
  have hloss {m n : ℕ} (h : n ≤ m) : -((size.toNat * (m - n) / 100000000 : ℕ) : ℤ) =
      ((size.toNat : ℤ) * (n - m)).tdiv MarketMath.priceScale := by
    rw [← neg_sub (m : ℤ), ← Nat.cast_sub h]
    exact (tdiv_natCast _ _ 100000000).2.symm
  have hle (x y : U128) : x ≥ y ↔ y.toNat ≤ x.toNat := BitVec.le_def
  unfold signedPnl unrealizedPnl isProfit
  rw [hscale]
  cases isLong with
  | true =>
    by_cases h : markPrice ≥ entryPrice
    · simp only [h, decide_true, if_true]
      exact hgain ((hle _ _).mp h)
    · simp only [h, decide_false, if_true, Bool.false_eq_true, if_false]
      exact hloss (by have := mt (hle _ _).mpr h; omega)
  | false =>
    by_cases h : entryPrice ≥ markPrice
    · simp only [h, decide_true, if_true, Bool.false_eq_true, if_false]
      exact hgain ((hle _ _).mp h)
    · simp only [h, decide_false, Bool.false_eq_true, if_false]
      exact hloss (by have := mt (hle _ _).mpr h; omega)

/-! ## The payout -/

/-- An assignment that satisfies the circuit for the arguments of a close. -/
structure Satisfies (H : Host) (Q : Set (Fr × Fr)) (args : CloseArgs) (a : Assignment) : Prop where
  main : main H a = some ()
  publicInputs : a.publicInputs = args.publicInputs
  within : ∀ q ∈ a.queries H, q ∈ Q

/-- `p` and `n` open the position and the margin note of a close. -/
structure Opens (H : Host) (Q : Set (Fr × Fr)) (args : CloseArgs) (p : Position) (n : Note) :
    Prop where
  position : p.commitment H = toField args.positionCommitment
  position_within : p.Within H Q
  note : n.commitment H = toField args.marginOutputCommitment
  note_within : n.Within H Q

/-- The note holds what `settleClose` computes for the position from the mark price, the funding
index of the market and a fee. -/
def PaysOut (p : Position) (n : Note) (markPrice : U128) (currentIndex : I128) (fee : ℕ) : Prop :=
  ∃ payment settlement,
    expectedFundingPayment p.isLong p.size.toNat currentIndex.toInt p.fundingIndex.toNat =
      .ok payment ∧
    settleClose p.isLong p.size.toNat p.entryPrice.toNat markPrice.toNat p.margin.toNat payment fee =
      .ok settlement ∧
    settlement.newMargin = n.amount.toNat

/-- The private costs of a close are the expected funding payment and the fee. -/
def FairCosts (a : Assignment) (currentIndex : I128) (fee : ℕ) : Prop :=
  ∃ payment, expectedFundingPayment a.isLong a.size.toNat currentIndex.toInt a.fundingIndex.toNat =
    .ok payment ∧ a.fundingPayment + a.fee.toNat = payment + fee

theorem settleClose_eq_ok {isLong : Bool} {size entryPrice markPrice margin payment fee : ℤ}
    {settlement : CloseSettlement} (hsize : 0 < size) (hmargin : 0 ≤ margin) (hfee : 0 ≤ fee) :
    settleClose isLong size entryPrice markPrice margin payment fee = .ok settlement ↔
      0 ≤ margin + unrealizedPnl isLong size entryPrice markPrice - payment - fee ∧
        settlement = ⟨unrealizedPnl isLong size entryPrice markPrice,
          margin + unrealizedPnl isLong size entryPrice markPrice - payment - fee⟩ := by
  unfold settleClose
  rw [if_neg (by omega), if_neg (by omega), if_neg (by omega)]
  dsimp only
  split_ifs with h
  · exact ⟨fun h' => (nomatch h'), fun h' => absurd h'.1 (by omega)⟩
  · rw [Except.ok.injEq, eq_comm]
    exact ⟨fun h' => ⟨by omega, h'⟩, fun h' => h'.2⟩

section Payout

variable {H : Host} {Q : Set (Fr × Fr)} {args : CloseArgs} {a : Assignment} {p : Position} {n : Note}

/-- The public inputs of a close with their names. -/
theorem publicInputs_eq (h : a.publicInputs = args.publicInputs) :
    a.markPrice = args.markPrice ∧ a.priceScale = PositionClose.priceScale ∧
      a.positionCommitmentPublic = toField args.positionCommitment ∧
      a.marginOutputCommitment = toField args.marginOutputCommitment := by
  simp only [Assignment.publicInputs, CloseArgs.publicInputs, List.cons.injEq] at h
  obtain ⟨hmark, hscale, -, hposition, -, -, -, hnote, -⟩ := h
  exact ⟨asField_injective hmark, asField_injective hscale, hposition, hnote⟩

theorem Opens.position_eq (hQ : CollisionFree (hashPair H) Q) (ha : Satisfies H Q args a)
    (ho : Opens H Q args p n) : p = a.position := by
  refine Position.commitment_inj hQ ho.position_within
    (Assignment.position_within ha.within) ?_
  rw [ho.position, (facts ha.main).position, (publicInputs_eq ha.publicInputs).2.2.1]

theorem Opens.note_eq (hQ : CollisionFree (hashPair H) Q) (ha : Satisfies H Q args a)
    (ho : Opens H Q args p n) : n = a.marginOutput := by
  refine Note.commitment_inj hQ ho.note_within (Assignment.marginOutput_within ha.within) ?_
  rw [ho.note, (facts ha.main).marginOutput, (publicInputs_eq ha.publicInputs).2.2.2]

/-- The amount of the margin note, from the position and the private costs. -/
theorem Opens.amount_eq (hQ : CollisionFree (hashPair H) Q) (ha : Satisfies H Q args a)
    (ho : Opens H Q args p n) :
    (n.amount.toNat : ℤ) = p.margin.toNat +
      unrealizedPnl p.isLong p.size.toNat p.entryPrice.toNat args.markPrice.toNat -
        a.fundingPayment - a.fee.toNat := by
  have hpayout := (facts ha.main).payout
  obtain ⟨hmark, hscale, -, -⟩ := publicInputs_eq ha.publicInputs
  rw [hmark, hscale, signedPnl_eq] at hpayout
  rw [ho.position_eq hQ ha, ho.note_eq hQ ha]
  exact hpayout

/-- **When a close pays out what it should.** The margin note holds the expected amount exactly
when the private costs are fair, and two closes of one position at one mark price create notes of
equal amount exactly when their private costs are equal. -/
theorem payout_eq_iff (hQ : CollisionFree (hashPair H) Q) (ha : Satisfies H Q args a)
    (ho : Opens H Q args p n) :
    (∀ (currentIndex : I128) (fee : ℕ),
      PaysOut p n args.markPrice currentIndex fee ↔ FairCosts a currentIndex fee) ∧
    ∀ (args' : CloseArgs) (a' : Assignment) (p' : Position) (n' : Note), Satisfies H Q args' a' →
      Opens H Q args' p' n' → toField args'.positionCommitment = toField args.positionCommitment →
      args'.markPrice = args.markPrice →
      (n'.amount = n.amount ↔
        a'.fundingPayment + a'.fee.toNat = a.fundingPayment + a.fee.toNat) := by
  have hamount := ho.amount_eq hQ ha
  have hp := ho.position_eq hQ ha
  have hsize : (0 : ℤ) < p.size.toNat := by
    rw [hp]
    exact Int.natCast_pos.mpr (facts ha.main).size_pos
  refine ⟨fun currentIndex fee => ?_, fun args' a' p' n' ha' ho' hcommit hmark => ?_⟩
  · have hsettle (payment : ℤ) (settlement : CloseSettlement) :=
      @settleClose_eq_ok p.isLong p.size.toNat p.entryPrice.toNat args.markPrice.toNat
        p.margin.toNat payment fee settlement hsize (Int.natCast_nonneg _) (Int.natCast_nonneg _)
    unfold PaysOut FairCosts
    simp only [hsettle]
    have hopening : a.isLong = p.isLong ∧ a.size = p.size ∧ a.fundingIndex = p.fundingIndex := by
      rw [hp]
      exact ⟨rfl, rfl, rfl⟩
    rw [hopening.1, hopening.2.1, hopening.2.2]
    constructor
    · rintro ⟨payment, _, hpayment, ⟨-, rfl⟩, hnew⟩
      exact ⟨payment, hpayment, by simp only at hnew; omega⟩
    · rintro ⟨payment, hpayment, hcosts⟩
      exact ⟨payment, _, hpayment, ⟨by omega, rfl⟩, by simp only; omega⟩
  · have hamount' := ho'.amount_eq hQ ha'
    have hpp : p' = p := Position.commitment_inj hQ ho'.position_within ho.position_within
      (by rw [ho'.position, hcommit, ho.position])
    rw [hpp, hmark] at hamount'
    rw [← BitVec.toNat_inj]
    omega

end Payout

section Examples

open SampleHost

/-- A long position with a profit of 1000 at the mark price 1500. -/
def samplePosition : Position := ⟨true, 200000000, 1000, 5000, 0, 17, 5, 6, 7⟩

/-- A close without funding and fee. -/
def fairClose : Assignment := closePosition samplePosition 1500 0 false 0 6000 3 21 11

/-- A close of the same position that takes a funding credit. -/
def creditedClose : Assignment := closePosition samplePosition 1500 900 true 0 6900 3 21 11

def samplePairs (a b : Assignment) : List (Fr × Fr) := a.queries sampleHost ++ b.queries sampleHost

theorem samplePairs_collisionFree :
    CollisionFree (hashPair sampleHost) {q | q ∈ samplePairs fairClose creditedClose} :=
  collisionFree_of_list (by decide +kernel)

theorem satisfies_fairClose : Satisfies sampleHost {q | q ∈ samplePairs fairClose creditedClose}
    (closeArgs 1 4 fairClose) fairClose :=
  ⟨by decide +kernel, by decide +kernel, fun _ hq => List.mem_append_left _ hq⟩

theorem satisfies_creditedClose : Satisfies sampleHost
    {q | q ∈ samplePairs fairClose creditedClose} (closeArgs 1 4 creditedClose) creditedClose :=
  ⟨by decide +kernel, by decide +kernel, fun _ hq => List.mem_append_right _ hq⟩

theorem opens_fairClose : Opens sampleHost {q | q ∈ samplePairs fairClose creditedClose}
    (closeArgs 1 4 fairClose) fairClose.position fairClose.marginOutput :=
  ⟨by decide +kernel, Assignment.position_within satisfies_fairClose.within, by decide +kernel,
    Assignment.marginOutput_within satisfies_fairClose.within⟩

theorem opens_creditedClose : Opens sampleHost {q | q ∈ samplePairs fairClose creditedClose}
    (closeArgs 1 4 creditedClose) creditedClose.position creditedClose.marginOutput :=
  ⟨by decide +kernel, Assignment.position_within satisfies_creditedClose.within, by decide +kernel,
    Assignment.marginOutput_within satisfies_creditedClose.within⟩

theorem payout_fairClose :
    (∀ (currentIndex : I128) (fee : ℕ),
      PaysOut fairClose.position fairClose.marginOutput 1500 currentIndex fee ↔
        FairCosts fairClose currentIndex fee) ∧
      (creditedClose.marginOutput.amount = fairClose.marginOutput.amount ↔
        creditedClose.fundingPayment + creditedClose.fee.toNat =
          fairClose.fundingPayment + fairClose.fee.toNat) := by
  have h := payout_eq_iff samplePairs_collisionFree satisfies_fairClose opens_fairClose
  exact ⟨h.1, h.2 _ _ _ _ satisfies_creditedClose opens_creditedClose rfl rfl⟩

/-- Two closes of one position at one mark price create notes of different amounts. -/
theorem exists_two_payouts : ∃ (args args' : CloseArgs) (a a' : Assignment),
    main sampleHost a = some () ∧ a.publicInputs = args.publicInputs ∧
    main sampleHost a' = some () ∧ a'.publicInputs = args'.publicInputs ∧
    CollisionFree (hashPair sampleHost) {q | q ∈ samplePairs a a'} ∧
    args.positionCommitment = args'.positionCommitment ∧ args.markPrice = args'.markPrice ∧
    a.marginOutput.amount ≠ a'.marginOutput.amount :=
  ⟨closeArgs 1 4 fairClose, closeArgs 1 4 creditedClose, fairClose, creditedClose,
    satisfies_fairClose.main, satisfies_fairClose.publicInputs, satisfies_creditedClose.main,
    satisfies_creditedClose.publicInputs, samplePairs_collisionFree, rfl, rfl, by decide⟩

end Examples

end PositionCloseCircuit

end Pnlx
