import Pnlx.Circuits.Notes

/-!
# The position-close circuit

`main` is satisfied by a position under the public root, its nullifier, and a margin note whose
amount is the position's margin after profit and loss, funding and fee. The funding payment and
the fee are private arguments.
-/

namespace Pnlx.PositionCloseCircuit

/-- The arguments of `main`. -/
structure Assignment where
  isLong : Bool
  size : U128
  closeSize : U128
  entryPrice : U128
  markPrice : U128
  margin : U128
  fundingIndex : U128
  fundingPaymentAbs : U128
  fundingIsCredit : Bool
  fee : U128
  newMargin : U128
  remainingMargin : U128
  marginOutputAmount : U128
  priceScale : U128
  positionRoot : Fr
  positionCommitmentPublic : Fr
  positionNullifier : Fr
  closeCommitment : Fr
  newPositionCommitment : Fr
  marginOutputCommitment : Fr
  marketDigest : Fr
  ownerDigest : Fr
  rhoDigest : Fr
  blinding : Fr
  spendSecretDigest : Fr
  newPositionRhoDigest : Fr
  newPositionBlinding : Fr
  marginOutputAssetDigest : Fr
  marginOutputRhoDigest : Fr
  marginOutputBlinding : Fr
  pathSiblings : Vector Fr 20
  pathIndices : Vector Bool 20
  zeroValue : Fr

deriving instance Inhabited for Assignment

def isProfit (isLong : Bool) (entryPrice markPrice : U128) : Bool :=
  if isLong then decide (markPrice ≥ entryPrice) else decide (entryPrice ≥ markPrice)

def priceDelta (isLong : Bool) (entryPrice markPrice : U128) : Option U128 :=
  if isProfit isLong entryPrice markPrice then
    if isLong then checkedSub markPrice entryPrice else checkedSub entryPrice markPrice
  else
    if isLong then checkedSub entryPrice markPrice else checkedSub markPrice entryPrice

def marginAfterPnl (profit : Bool) (margin pnlAbs : U128) : Option U128 :=
  if profit then
    checkedAdd margin pnlAbs
  else do
    assert (margin ≥ pnlAbs)
    checkedSub margin pnlAbs

def marginAfterFunding (fundingIsCredit : Bool) (margin fundingPaymentAbs : U128) : Option U128 :=
  if fundingIsCredit then
    checkedAdd margin fundingPaymentAbs
  else do
    assert (margin ≥ fundingPaymentAbs)
    checkedSub margin fundingPaymentAbs

def main (H : Host) (a : Assignment) : Option Unit := do
  assert (a.size > 0)
  assert (a.closeSize > 0)
  assert (a.closeSize = a.size)
  assert (a.entryPrice > 0)
  assert (a.markPrice > 0)
  assert (a.priceScale > 0)
  assert (a.positionRoot ≠ a.zeroValue)
  assert (a.positionCommitmentPublic ≠ a.zeroValue)
  assert (a.positionNullifier ≠ a.zeroValue)
  assert (a.closeCommitment ≠ a.zeroValue)
  assert (a.newPositionCommitment ≠ a.zeroValue)
  assert (a.marginOutputCommitment ≠ a.zeroValue)
  assert (a.newPositionCommitment ≠ a.closeCommitment)
  assert (a.marginOutputCommitment ≠ a.closeCommitment)
  assert (a.newPositionRhoDigest ≠ a.zeroValue)
  assert (a.newPositionBlinding ≠ a.zeroValue)
  assert (a.marginOutputAssetDigest ≠ a.zeroValue)
  assert (a.marginOutputRhoDigest ≠ a.zeroValue)
  assert (a.marginOutputBlinding ≠ a.zeroValue)
  let computedPosition := positionCommitment H a.isLong a.size a.entryPrice a.margin
    a.fundingIndex a.marketDigest a.ownerDigest a.rhoDigest a.blinding
  assert (computedPosition = a.positionCommitmentPublic)
  assert (merkleRoot H a.positionCommitmentPublic a.pathSiblings a.pathIndices = a.positionRoot)
  assert (hashPair H a.spendSecretDigest a.rhoDigest = a.positionNullifier)
  let profit := isProfit a.isLong a.entryPrice a.markPrice
  let delta ← priceDelta a.isLong a.entryPrice a.markPrice
  let value ← checkedMul a.closeSize delta
  let pnlAbs ← checkedDiv value a.priceScale
  let afterPnl ← marginAfterPnl profit a.margin pnlAbs
  let afterFunding ← marginAfterFunding a.fundingIsCredit afterPnl a.fundingPaymentAbs
  assert (afterFunding ≥ a.fee)
  assert (some a.newMargin = checkedSub afterFunding a.fee)
  assert (checkedAdd a.remainingMargin a.marginOutputAmount = some a.newMargin)
  let remainingSize ← checkedSub a.size a.closeSize
  assert (a.remainingMargin = 0)
  let expectedNewPosition := positionCommitment H a.isLong remainingSize a.entryPrice
    a.remainingMargin a.fundingIndex a.marketDigest a.ownerDigest a.newPositionRhoDigest
    a.newPositionBlinding
  assert (expectedNewPosition = a.newPositionCommitment)
  let expectedMarginOutput := noteCommitment H a.marginOutputAssetDigest a.marginOutputAmount
    a.ownerDigest a.marginOutputRhoDigest a.marginOutputBlinding
  assert (expectedMarginOutput = a.marginOutputCommitment)

namespace Assignment

/-- The public inputs, in the order of the parameters of `main`. -/
def publicInputs (a : Assignment) : List Fr :=
  [asField a.markPrice, asField a.priceScale, a.positionRoot, a.positionCommitmentPublic,
    a.positionNullifier, a.closeCommitment, a.newPositionCommitment, a.marginOutputCommitment]

/-- The position that is closed. -/
def position (a : Assignment) : Position :=
  ⟨a.isLong, a.size, a.entryPrice, a.margin, a.fundingIndex, a.marketDigest, a.ownerDigest,
    a.rhoDigest, a.blinding⟩

/-- The margin note that is created. -/
def marginOutput (a : Assignment) : Note :=
  ⟨a.marginOutputAssetDigest, a.marginOutputAmount, a.ownerDigest, a.marginOutputRhoDigest,
    a.marginOutputBlinding⟩

/-- The pairs that `main` hashes for the position, its nullifier and the margin note. -/
def queries (H : Host) (a : Assignment) : List (Fr × Fr) :=
  a.position.tree.queries (hashPair H) ++ [(a.spendSecretDigest, a.rhoDigest)] ++
    a.marginOutput.tree.queries (hashPair H)

variable {H : Host} {Q : Set (Fr × Fr)} {a : Assignment}

theorem position_within (h : ∀ q ∈ a.queries H, q ∈ Q) : a.position.Within H Q := fun q hq =>
  h q (by unfold queries; simp only [List.mem_append]; exact Or.inl (Or.inl hq))

theorem nullifier_within (h : ∀ q ∈ a.queries H, q ∈ Q) :
    (a.spendSecretDigest, a.rhoDigest) ∈ Q :=
  h _ (by unfold queries; simp only [List.mem_append]; exact Or.inl (Or.inr (by simp)))

theorem marginOutput_within (h : ∀ q ∈ a.queries H, q ∈ Q) : a.marginOutput.Within H Q :=
  fun q hq => h q (by unfold queries; simp only [List.mem_append]; exact Or.inr hq)

end Assignment

/-! ## Signed readings of the arithmetic -/

/-- The signed profit that the circuit computes: the magnitude is rounded down. -/
def signedPnl (isLong : Bool) (size entryPrice markPrice priceScale : U128) : ℤ :=
  if isProfit isLong entryPrice markPrice then
    (size.toNat * (if isLong then markPrice.toNat - entryPrice.toNat
      else entryPrice.toNat - markPrice.toNat) / priceScale.toNat : ℕ)
  else
    -(size.toNat * (if isLong then entryPrice.toNat - markPrice.toNat
      else markPrice.toNat - entryPrice.toNat) / priceScale.toNat : ℕ)

/-- The funding payment of the private arguments: a credit is a negative payment. -/
def Assignment.fundingPayment (a : Assignment) : ℤ :=
  if a.fundingIsCredit then -(a.fundingPaymentAbs.toNat : ℤ) else a.fundingPaymentAbs.toNat

/-- The distance of the mark price from the entry price. -/
def Assignment.move (a : Assignment) : ℕ :=
  if isProfit a.isLong a.entryPrice a.markPrice then
    (if a.isLong then a.markPrice.toNat - a.entryPrice.toNat
      else a.entryPrice.toNat - a.markPrice.toNat)
  else
    (if a.isLong then a.entryPrice.toNat - a.markPrice.toNat
      else a.markPrice.toNat - a.entryPrice.toNat)

def Assignment.pnl (a : Assignment) : ℤ :=
  signedPnl a.isLong a.size a.entryPrice a.markPrice a.priceScale

theorem Assignment.pnl_eq (a : Assignment) :
    a.pnl = if isProfit a.isLong a.entryPrice a.markPrice
      then ((a.size.toNat * a.move / a.priceScale.toNat : ℕ) : ℤ)
      else -(a.size.toNat * a.move / a.priceScale.toNat : ℕ) := by
  unfold pnl signedPnl move
  split_ifs <;> rfl

theorem priceDelta_eq_some {a : Assignment} {d : U128} :
    priceDelta a.isLong a.entryPrice a.markPrice = some d ↔ d.toNat = a.move := by
  have hle (x y : U128) : x ≥ y ↔ y.toNat ≤ x.toNat := BitVec.le_def
  unfold priceDelta Assignment.move
  by_cases hprofit : isProfit a.isLong a.entryPrice a.markPrice = true
  · rw [if_pos hprofit, if_pos hprofit]
    unfold isProfit at hprofit
    split_ifs at hprofit ⊢
    · have := (hle _ _).mp (of_decide_eq_true hprofit)
      rw [checkedSub_eq_some]; omega
    · have := (hle _ _).mp (of_decide_eq_true hprofit)
      rw [checkedSub_eq_some]; omega
  · rw [if_neg hprofit, if_neg hprofit]
    unfold isProfit at hprofit
    split_ifs at hprofit ⊢
    · have := mt (hle _ _).mpr (mt decide_eq_true hprofit)
      rw [checkedSub_eq_some]; omega
    · have := mt (hle _ _).mpr (mt decide_eq_true hprofit)
      rw [checkedSub_eq_some]; omega

theorem marginAfterPnl_eq_some {profit : Bool} {margin pnlAbs m : U128} :
    marginAfterPnl profit margin pnlAbs = some m ↔
      (m.toNat : ℤ) = margin.toNat + if profit then (pnlAbs.toNat : ℤ) else -pnlAbs.toNat := by
  unfold marginAfterPnl
  split_ifs
  · rw [checkedAdd_eq_some]; omega
  · simp only [Option.bind_eq_bind, Option.bind_eq_some_iff, assert_eq_some, exists_const,
      checkedSub_eq_some, ge_iff_le, BitVec.le_def]
    omega

theorem marginAfterFunding_eq_some {credit : Bool} {margin abs m : U128} :
    marginAfterFunding credit margin abs = some m ↔
      (m.toNat : ℤ) = margin.toNat - if credit then -(abs.toNat : ℤ) else abs.toNat := by
  unfold marginAfterFunding
  split_ifs
  · rw [checkedAdd_eq_some]; omega
  · simp only [Option.bind_eq_bind, Option.bind_eq_some_iff, assert_eq_some, exists_const,
      checkedSub_eq_some, ge_iff_le, BitVec.le_def]
    omega

/-- The constraints of `main` on its public inputs, on the position and on the notes. -/
structure Opening (H : Host) (a : Assignment) : Prop where
  root_ne : a.positionRoot ≠ a.zeroValue
  commitment_ne : a.positionCommitmentPublic ≠ a.zeroValue
  nullifier_ne : a.positionNullifier ≠ a.zeroValue
  close_ne : a.closeCommitment ≠ a.zeroValue
  newPosition_ne : a.newPositionCommitment ≠ a.zeroValue
  marginOutput_ne : a.marginOutputCommitment ≠ a.zeroValue
  newPosition_ne_close : a.newPositionCommitment ≠ a.closeCommitment
  marginOutput_ne_close : a.marginOutputCommitment ≠ a.closeCommitment
  newPositionRho_ne : a.newPositionRhoDigest ≠ a.zeroValue
  newPositionBlinding_ne : a.newPositionBlinding ≠ a.zeroValue
  marginOutputAsset_ne : a.marginOutputAssetDigest ≠ a.zeroValue
  marginOutputRho_ne : a.marginOutputRhoDigest ≠ a.zeroValue
  marginOutputBlinding_ne : a.marginOutputBlinding ≠ a.zeroValue
  position : a.position.commitment H = a.positionCommitmentPublic
  root : merkleRoot H a.positionCommitmentPublic a.pathSiblings a.pathIndices = a.positionRoot
  nullifier : hashPair H a.spendSecretDigest a.rhoDigest = a.positionNullifier
  newPosition : positionCommitment H a.isLong 0 a.entryPrice 0 a.fundingIndex a.marketDigest
    a.ownerDigest a.newPositionRhoDigest a.newPositionBlinding = a.newPositionCommitment
  marginOutput : a.marginOutput.commitment H = a.marginOutputCommitment

/-- The constraints of `main` on its numbers: after profit or loss and after funding, the margin is
a `u128`. -/
structure Assignment.Settles (a : Assignment) : Prop where
  size_pos : 0 < a.size.toNat
  closeSize : a.closeSize = a.size
  entryPrice_pos : 0 < a.entryPrice.toNat
  markPrice_pos : 0 < a.markPrice.toNat
  priceScale_pos : 0 < a.priceScale.toNat
  value : a.size.toNat * a.move < 2 ^ 128
  afterPnl : 0 ≤ a.margin.toNat + a.pnl ∧ a.margin.toNat + a.pnl < 2 ^ 128
  afterFunding : 0 ≤ a.margin.toNat + a.pnl - a.fundingPayment ∧
    a.margin.toNat + a.pnl - a.fundingPayment < 2 ^ 128
  newMargin : (a.newMargin.toNat : ℤ) =
    a.margin.toNat + a.pnl - a.fundingPayment - a.fee.toNat
  remainingMargin : a.remainingMargin = 0
  marginOutputAmount : a.marginOutputAmount = a.newMargin

/-- What `main` asserts: the openings, and the arithmetic of the close. -/
theorem main_eq_some_iff {H : Host} {a : Assignment} :
    main H a = some () ↔ Opening H a ∧ a.Settles := by
  have hge (x y : U128) : x ≥ y ↔ y.toNat ≤ x.toNat := BitVec.le_def
  have hzero : (0 : U128).toNat = 0 := rfl
  have hfunding : a.fundingPayment =
      if a.fundingIsCredit then -(a.fundingPaymentAbs.toNat : ℤ) else a.fundingPaymentAbs.toNat :=
    rfl
  have hpnl := a.pnl_eq
  unfold main
  simp only [Option.bind_eq_bind, Option.bind_eq_some_iff, assert_eq_some, exists_const]
  constructor
  · rintro ⟨hsize, -, hclose, hentry, hmark, hscale, h1, h2, h3, h4, h5, h6, h7, h8, h9, h10, h11,
      h12, h13, hposition, hroot, hnull, delta, hdelta, value, hvalue, pnlAbs, hpnlAbs, afterPnl,
      hafterPnl, afterFunding, hafterFunding, -, hnew, hrem, remaining, hremaining, hzeroMargin,
      hnewPosition, houtput⟩
    rw [priceDelta_eq_some] at hdelta
    rw [checkedMul_eq_some, hclose, hdelta] at hvalue
    rw [checkedDiv_eq_some, hvalue] at hpnlAbs
    rw [marginAfterPnl_eq_some, hpnlAbs.2, ← hpnl] at hafterPnl
    rw [marginAfterFunding_eq_some, hafterPnl, ← hfunding] at hafterFunding
    have hnew' := checkedSub_eq_some.mp hnew.symm
    have hrem' := checkedAdd_eq_some.mp hrem
    rw [hclose, checkedSub_eq_some] at hremaining
    rw [hzeroMargin, hzero] at hrem'
    have hremaining : remaining = 0 := BitVec.eq_of_toNat_eq (by omega)
    rw [hremaining, hzeroMargin] at hnewPosition
    have := afterPnl.isLt
    have := afterFunding.isLt
    refine ⟨⟨h1, h2, h3, h4, h5, h6, h7, h8, h9, h10, h11, h12, h13, hposition, hroot, hnull,
      hnewPosition, houtput⟩, hsize, hclose, hentry, hmark, hscale, ?_, by omega, by omega,
      by omega, hzeroMargin, BitVec.eq_of_toNat_eq (by omega)⟩
    rw [← hvalue]
    exact value.isLt
  · rintro ⟨⟨h1, h2, h3, h4, h5, h6, h7, h8, h9, h10, h11, h12, h13, hposition, hroot, hnull,
      hnewPosition, houtput⟩, hsize, hclose, hentry, hmark, hscale, hvalueFits, hpnlFits,
      hfundingFits, hnew, hzeroMargin, hamount⟩
    obtain ⟨delta, hdelta⟩ : ∃ delta : U128, delta.toNat = a.move := exists_toNat_eq (by
      unfold Assignment.move
      have := a.entryPrice.isLt
      have := a.markPrice.isLt
      split_ifs <;> omega)
    obtain ⟨value, hvalue⟩ := exists_toNat_eq hvalueFits
    obtain ⟨pnlAbs, hpnlAbs⟩ : ∃ x : U128,
        x.toNat = a.size.toNat * a.move / a.priceScale.toNat :=
      exists_toNat_eq ((Nat.div_le_self _ _).trans_lt hvalueFits)
    obtain ⟨afterPnl, hafterPnl⟩ : ∃ x : U128, x.toNat = (a.margin.toNat + a.pnl).toNat :=
      exists_toNat_eq (by omega)
    obtain ⟨afterFunding, hafterFunding⟩ : ∃ x : U128,
        x.toNat = (a.margin.toNat + a.pnl - a.fundingPayment).toNat :=
      exists_toNat_eq (by omega)
    have hremaining : checkedSub a.size a.closeSize = some 0 := by
      rw [hclose, checkedSub_eq_some, hzero, Nat.zero_add]
    refine ⟨hsize, hclose ▸ hsize, hclose, hentry, hmark, hscale, h1, h2, h3, h4, h5, h6, h7, h8,
      h9, h10, h11, h12, h13, hposition, hroot, hnull, delta, priceDelta_eq_some.mpr hdelta, value,
      checkedMul_eq_some.mpr ?_, pnlAbs, checkedDiv_eq_some.mpr ⟨hscale, ?_⟩, afterPnl,
      marginAfterPnl_eq_some.mpr ?_, afterFunding, marginAfterFunding_eq_some.mpr ?_,
      (hge _ _).mpr ?_, (checkedSub_eq_some.mpr ?_).symm, checkedAdd_eq_some.mpr ?_, 0, hremaining,
      hzeroMargin, ?_, houtput⟩
    · rw [hvalue, hclose, hdelta]
    · rw [hpnlAbs, hvalue]
    · rw [hpnlAbs, ← hpnl]; omega
    · rw [← hfunding]; omega
    · omega
    · omega
    · rw [hzeroMargin, hamount, hzero, Nat.zero_add]
    · rw [hzeroMargin]
      exact hnewPosition

/-- What `main` asserts. -/
structure Facts (H : Host) (a : Assignment) : Prop where
  size_pos : 0 < a.size.toNat
  position : a.position.commitment H = a.positionCommitmentPublic
  root : merkleRoot H a.positionCommitmentPublic a.pathSiblings a.pathIndices = a.positionRoot
  nullifier : hashPair H a.spendSecretDigest a.rhoDigest = a.positionNullifier
  marginOutput : a.marginOutput.commitment H = a.marginOutputCommitment
  payout : (a.marginOutputAmount.toNat : ℤ) =
    a.margin.toNat + signedPnl a.isLong a.size a.entryPrice a.markPrice a.priceScale -
      a.fundingPayment - a.fee.toNat

theorem facts {H : Host} {a : Assignment} (h : main H a = some ()) : Facts H a := by
  obtain ⟨hopening, hsettles⟩ := main_eq_some_iff.mp h
  exact ⟨hsettles.size_pos, hopening.position, hopening.root, hopening.nullifier,
    hopening.marginOutput, hsettles.marginOutputAmount ▸ hsettles.newMargin⟩

/-- The statement that a proof of this circuit proves. -/
def Provable (H : Host) (publicInputs : List Fr) : Prop :=
  ∃ a : Assignment, main H a = some () ∧ a.publicInputs = publicInputs

end Pnlx.PositionCloseCircuit
