import Pnlx.Circuits.Notes

/-!
# The liquidation-check circuit

`main` is satisfied by a position under the public root, its nullifier, and an equity below the
maintenance margin at the public mark price. As in the close circuit, the funding payment is a
private argument.
-/

namespace Pnlx.LiquidationCheck

/-- The arguments of `main`. -/
structure Assignment where
  isLong : Bool
  size : U128
  entryPrice : U128
  markPrice : U128
  margin : U128
  fundingIndex : U128
  fundingPaymentAbs : U128
  fundingIsCredit : Bool
  maintenanceRate : U128
  priceScale : U128
  rateScale : U128
  positionRoot : Fr
  positionCommitmentPublic : Fr
  positionNullifier : Fr
  rewardCommitment : Fr
  marketDigest : Fr
  ownerDigest : Fr
  rhoDigest : Fr
  blinding : Fr
  spendSecretDigest : Fr
  pathSiblings : Vector Fr 20
  pathIndices : Vector Bool 20
  zeroValue : Fr

deriving instance Inhabited for Assignment

def adverseDelta (isLong : Bool) (entryPrice markPrice : U128) : Option U128 :=
  if isLong then
    if entryPrice > markPrice then checkedSub entryPrice markPrice else some 0
  else
    if markPrice > entryPrice then checkedSub markPrice entryPrice else some 0

def equityBeforeFunding (margin loss : U128) : Option U128 :=
  if margin > loss then checkedSub margin loss else some 0

def equityAfterFunding (fundingIsCredit : Bool) (equity fundingPaymentAbs : U128) : Option U128 :=
  if fundingIsCredit then
    checkedAdd equity fundingPaymentAbs
  else if equity > fundingPaymentAbs then
    checkedSub equity fundingPaymentAbs
  else
    some 0

def main (H : Host) (a : Assignment) : Option Unit := do
  assert (a.size > 0)
  assert (a.entryPrice > 0)
  assert (a.markPrice > 0)
  assert (a.priceScale > 0)
  assert (a.rateScale > 0)
  assert (a.positionRoot ≠ a.zeroValue)
  assert (a.positionCommitmentPublic ≠ a.zeroValue)
  assert (a.positionNullifier ≠ a.zeroValue)
  assert (a.rewardCommitment ≠ a.zeroValue)
  let computedPosition := positionCommitment H a.isLong a.size a.entryPrice a.margin
    a.fundingIndex a.marketDigest a.ownerDigest a.rhoDigest a.blinding
  assert (computedPosition = a.positionCommitmentPublic)
  assert (merkleRoot H a.positionCommitmentPublic a.pathSiblings a.pathIndices = a.positionRoot)
  assert (hashPair H a.spendSecretDigest a.rhoDigest = a.positionNullifier)
  let delta ← adverseDelta a.isLong a.entryPrice a.markPrice
  let value ← checkedMul a.size delta
  let loss ← checkedDiv value a.priceScale
  let beforeFunding ← equityBeforeFunding a.margin loss
  let equity ← equityAfterFunding a.fundingIsCredit beforeFunding a.fundingPaymentAbs
  let markValue ← checkedMul a.size a.markPrice
  let notional ← checkedDiv markValue a.priceScale
  let weighted ← checkedMul notional a.maintenanceRate
  let maintenance ← checkedDiv weighted a.rateScale
  assert (equity < maintenance)

namespace Assignment

/-- The public inputs, in the order of the parameters of `main`. -/
def publicInputs (a : Assignment) : List Fr :=
  [asField a.markPrice, asField a.maintenanceRate, asField a.priceScale, asField a.rateScale,
    a.positionRoot, a.positionCommitmentPublic, a.positionNullifier, a.rewardCommitment]

/-- The position that is liquidated. -/
def position (a : Assignment) : Position :=
  ⟨a.isLong, a.size, a.entryPrice, a.margin, a.fundingIndex, a.marketDigest, a.ownerDigest,
    a.rhoDigest, a.blinding⟩

/-- The pairs that `main` hashes for the position and its nullifier. -/
def queries (H : Host) (a : Assignment) : List (Fr × Fr) :=
  a.position.tree.queries (hashPair H) ++ [(a.spendSecretDigest, a.rhoDigest)]

variable {H : Host} {Q : Set (Fr × Fr)} {a : Assignment}

theorem position_within (h : ∀ q ∈ a.queries H, q ∈ Q) : a.position.Within H Q := fun q hq =>
  h q (List.mem_append_left _ hq)

theorem nullifier_within (h : ∀ q ∈ a.queries H, q ∈ Q) :
    (a.spendSecretDigest, a.rhoDigest) ∈ Q :=
  h _ (List.mem_append_right _ (List.mem_singleton_self _))

end Assignment

/-- What `main` asserts about the position and its nullifier. -/
structure Facts (H : Host) (a : Assignment) : Prop where
  position : a.position.commitment H = a.positionCommitmentPublic
  root : merkleRoot H a.positionCommitmentPublic a.pathSiblings a.pathIndices = a.positionRoot
  nullifier : hashPair H a.spendSecretDigest a.rhoDigest = a.positionNullifier

theorem facts {H : Host} {a : Assignment} (h : main H a = some ()) : Facts H a := by
  unfold main at h
  simp only [Option.bind_eq_bind, Option.bind_eq_some_iff, assert_eq_some, exists_const] at h
  obtain ⟨-, -, -, -, -, -, -, -, -, hposition, hroot, hnull, -⟩ := h
  exact ⟨hposition, hroot, hnull⟩

/-! ## The arithmetic -/

/-- The price move against the position, as a natural number. -/
def Assignment.adverse (a : Assignment) : ℕ :=
  if a.isLong then a.entryPrice.toNat - a.markPrice.toNat
  else a.markPrice.toNat - a.entryPrice.toNat

def Assignment.loss (a : Assignment) : ℕ := a.size.toNat * a.adverse / a.priceScale.toNat

/-- The equity of the circuit: margin and funding debit are not subtracted below zero. -/
def Assignment.equity (a : Assignment) : ℕ :=
  if a.fundingIsCredit then a.margin.toNat - a.loss + a.fundingPaymentAbs.toNat
  else a.margin.toNat - a.loss - a.fundingPaymentAbs.toNat

def Assignment.notional (a : Assignment) : ℕ :=
  a.size.toNat * a.markPrice.toNat / a.priceScale.toNat

def Assignment.maintenance (a : Assignment) : ℕ :=
  a.notional * a.maintenanceRate.toNat / a.rateScale.toNat

/-- The products of `main` fit. -/
structure Assignment.ProductsFit (a : Assignment) : Prop where
  value : a.size.toNat * a.adverse < 2 ^ 128
  markValue : a.size.toNat * a.markPrice.toNat < 2 ^ 128
  weighted : a.notional * a.maintenanceRate.toNat < 2 ^ 128

theorem adverseDelta_eq_some {isLong : Bool} {entryPrice markPrice d : U128} :
    adverseDelta isLong entryPrice markPrice = some d ↔
      d.toNat = if isLong then entryPrice.toNat - markPrice.toNat
        else markPrice.toNat - entryPrice.toNat := by
  have hzero : (some (0 : U128) = some d) ↔ d.toNat = 0 := by
    rw [Option.some.injEq, ← BitVec.toNat_inj, eq_comm]
    rfl
  unfold adverseDelta
  split_ifs with hlong hgt hgt
  · rw [checkedSub_eq_some]
    have := BitVec.lt_def.mp hgt
    omega
  · rw [hzero]
    have := mt BitVec.lt_def.mpr hgt
    omega
  · rw [checkedSub_eq_some]
    have := BitVec.lt_def.mp hgt
    omega
  · rw [hzero]
    have := mt BitVec.lt_def.mpr hgt
    omega

theorem equityBeforeFunding_eq_some {margin loss e : U128} :
    equityBeforeFunding margin loss = some e ↔ e.toNat = margin.toNat - loss.toNat := by
  unfold equityBeforeFunding
  split_ifs with hgt
  · rw [checkedSub_eq_some]
    have := BitVec.lt_def.mp hgt
    omega
  · rw [Option.some.injEq, ← BitVec.toNat_inj]
    have := mt BitVec.lt_def.mpr hgt
    have hzero : (0 : U128).toNat = 0 := rfl
    omega

theorem equityAfterFunding_eq_some {credit : Bool} {equity abs e : U128} :
    equityAfterFunding credit equity abs = some e ↔
      e.toNat = if credit then equity.toNat + abs.toNat else equity.toNat - abs.toNat := by
  unfold equityAfterFunding
  split_ifs with hcredit hgt
  · exact checkedAdd_eq_some
  · rw [checkedSub_eq_some]
    have := BitVec.lt_def.mp hgt
    omega
  · rw [Option.some.injEq, ← BitVec.toNat_inj]
    have := mt BitVec.lt_def.mpr hgt
    have hzero : (0 : U128).toNat = 0 := rfl
    omega

/-- The constraints of `main` on its public inputs, on the position and on its nullifier. -/
structure Member (H : Host) (a : Assignment) : Prop where
  root_ne : a.positionRoot ≠ a.zeroValue
  commitment_ne : a.positionCommitmentPublic ≠ a.zeroValue
  nullifier_ne : a.positionNullifier ≠ a.zeroValue
  reward_ne : a.rewardCommitment ≠ a.zeroValue
  position : a.position.commitment H = a.positionCommitmentPublic
  root : merkleRoot H a.positionCommitmentPublic a.pathSiblings a.pathIndices = a.positionRoot
  nullifier : hashPair H a.spendSecretDigest a.rhoDigest = a.positionNullifier

/-- The constraints of `main` on its numbers. -/
structure Assignment.Unhealthy (a : Assignment) : Prop where
  size_pos : 0 < a.size.toNat
  entryPrice_pos : 0 < a.entryPrice.toNat
  markPrice_pos : 0 < a.markPrice.toNat
  priceScale_pos : 0 < a.priceScale.toNat
  rateScale_pos : 0 < a.rateScale.toNat
  products : a.ProductsFit
  equity_lt : a.equity < a.maintenance

/-- What `main` asserts: a member position whose equity is below the requirement. -/
theorem main_eq_some_iff {H : Host} {a : Assignment} :
    main H a = some () ↔ Member H a ∧ a.Unhealthy := by
  unfold main
  simp only [Option.bind_eq_bind, Option.bind_eq_some_iff, assert_eq_some, exists_const]
  constructor
  · rintro ⟨hsize, hentry, hmark, hprice, hrate, hroot, hcommit, hnull, hreward, hposition, hpath,
      hnullifier, delta, hdelta, value, hvalue, loss, hloss, before, hbefore, equity, hequity,
      markValue, hmarkValue, notional, hnotional, weighted, hweighted, maintenance, hmaintenance,
      hlt⟩
    rw [adverseDelta_eq_some] at hdelta
    rw [checkedMul_eq_some] at hvalue hmarkValue hweighted
    rw [checkedDiv_eq_some] at hloss hnotional hmaintenance
    rw [equityBeforeFunding_eq_some] at hbefore
    rw [equityAfterFunding_eq_some] at hequity
    have hadverse : delta.toNat = a.adverse := hdelta
    have hloss' : loss.toNat = a.loss := by rw [hloss.2, hvalue, hadverse]; rfl
    have hnotional' : notional.toNat = a.notional := by rw [hnotional.2, hmarkValue]; rfl
    have hequity' : equity.toNat = a.equity := by rw [hequity, hbefore, hloss']; rfl
    have hmaintenance' : maintenance.toNat = a.maintenance := by
      rw [hmaintenance.2, hweighted, hnotional']; rfl
    refine ⟨⟨hroot, hcommit, hnull, hreward, hposition, hpath, hnullifier⟩, hsize, hentry, hmark,
      hprice, hrate, ⟨?_, ?_, ?_⟩, ?_⟩
    · rw [← hadverse, ← hvalue]; exact value.isLt
    · rw [← hmarkValue]; exact markValue.isLt
    · rw [← hnotional', ← hweighted]; exact weighted.isLt
    · rw [← hequity', ← hmaintenance']; exact BitVec.lt_def.mp hlt
  · rintro ⟨⟨hroot, hcommit, hnull, hreward, hposition, hpath, hnullifier⟩, hsize, hentry, hmark,
      hprice, hrate, ⟨hvalueFits, hmarkFits, hweightedFits⟩, hlt⟩
    have hdiv {x y : ℕ} (h : x < 2 ^ 128) : x / y < 2 ^ 128 := (Nat.div_le_self x y).trans_lt h
    have hmaintenanceFits : a.maintenance < 2 ^ 128 := hdiv hweightedFits
    obtain ⟨delta, hdelta⟩ : ∃ delta : U128, delta.toNat = a.adverse := exists_toNat_eq (by
      unfold Assignment.adverse
      have := a.entryPrice.isLt
      have := a.markPrice.isLt
      split_ifs <;> omega)
    obtain ⟨value, hvalue⟩ := exists_toNat_eq hvalueFits
    obtain ⟨loss, hloss⟩ : ∃ loss : U128, loss.toNat = a.loss := exists_toNat_eq (hdiv hvalueFits)
    obtain ⟨before, hbefore⟩ : ∃ before : U128, before.toNat = a.margin.toNat - a.loss :=
      exists_toNat_eq (by have := a.margin.isLt; omega)
    obtain ⟨equity, hequity⟩ := exists_toNat_eq (hlt.trans hmaintenanceFits)
    obtain ⟨markValue, hmarkValue⟩ := exists_toNat_eq hmarkFits
    obtain ⟨notional, hnotional⟩ : ∃ notional : U128, notional.toNat = a.notional :=
      exists_toNat_eq (hdiv hmarkFits)
    obtain ⟨weighted, hweighted⟩ := exists_toNat_eq hweightedFits
    obtain ⟨maintenance, hmaintenance⟩ := exists_toNat_eq hmaintenanceFits
    refine ⟨hsize, hentry, hmark, hprice, hrate, hroot, hcommit, hnull, hreward, hposition, hpath,
      hnullifier, delta, adverseDelta_eq_some.mpr hdelta, value, checkedMul_eq_some.mpr ?_, loss,
      checkedDiv_eq_some.mpr ⟨hprice, ?_⟩, before, equityBeforeFunding_eq_some.mpr ?_, equity,
      equityAfterFunding_eq_some.mpr ?_, markValue, checkedMul_eq_some.mpr hmarkValue, notional,
      checkedDiv_eq_some.mpr ⟨hprice, ?_⟩, weighted, checkedMul_eq_some.mpr ?_, maintenance,
      checkedDiv_eq_some.mpr ⟨hrate, ?_⟩, BitVec.lt_def.mpr ?_⟩
    · rw [hvalue, hdelta]
    · rw [hloss, hvalue]; rfl
    · rw [hbefore, hloss]
    · rw [hequity, hbefore]; rfl
    · rw [hnotional, hmarkValue]; rfl
    · rw [hweighted, hnotional]
    · rw [hmaintenance, hweighted]; rfl
    · rw [hequity, hmaintenance]; exact hlt

/-- The statement that a proof of this circuit proves. -/
def Provable (H : Host) (publicInputs : List Fr) : Prop :=
  ∃ a : Assignment, main H a = some () ∧ a.publicInputs = publicInputs

end Pnlx.LiquidationCheck
