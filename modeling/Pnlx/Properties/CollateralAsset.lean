import Pnlx.Circuits.IntentValidity
import Pnlx.Properties.MatchLaws

/-!
# The asset of a closed position

The change notes of the intent-validity and of the withdraw circuit have the asset of the note that
is spent. A position commits to no asset, and the margin note of the position-close circuit takes
its asset from a private argument: a position of a fill can be closed into a note of every asset,
whichever note was spent for it (`not_keepsAsset`).
-/

namespace Pnlx

namespace PositionCloseCircuit

/-- All but finitely many field elements. -/
theorem exists_notMem {l : List Fr} (hl : l.length < bn254ScalarModulus) : ∃ x : Fr, x ∉ l := by
  have hcard : l.toFinset.card < (Finset.univ : Finset Fr).card := by
    rw [Finset.card_univ, Fintype.card_fin]
    exact (List.toFinset_card_le l).trans_lt hl
  obtain ⟨x, -, hx⟩ := Finset.exists_mem_notMem_of_card_lt_card hcard
  exact ⟨x, fun hmem => hx (List.mem_toFinset.mpr hmem)⟩

/-- The openings of an assignment, without its margin note. -/
structure Assignment.Openings (H : Host) (b : Assignment) : Prop where
  position : b.position.commitment H = b.positionCommitmentPublic
  root : merkleRoot H b.positionCommitmentPublic b.pathSiblings b.pathIndices = b.positionRoot
  nullifier : hashPair H b.spendSecretDigest b.rhoDigest = b.positionNullifier
  newPosition : positionCommitment H b.isLong 0 b.entryPrice 0 b.fundingIndex b.marketDigest
    b.ownerDigest b.newPositionRhoDigest b.newPositionBlinding = b.newPositionCommitment

theorem Opening.openings {H : Host} {b : Assignment} (h : Opening H b) : b.Openings H :=
  ⟨h.position, h.root, h.nullifier, h.newPosition⟩

/-- The same close with a margin note in `asset`. -/
def Assignment.inAsset (H : Host) (b : Assignment) (asset closeCommitment zeroValue : Fr) :
    Assignment :=
  { b with
    marginOutputAssetDigest := asset
    marginOutputCommitment := Note.commitment H { b.marginOutput with assetDigest := asset }
    closeCommitment
    zeroValue }

/-- **The asset is free.** Nothing but the margin note depends on its asset, and the commitment of
the close and the zero value avoid finitely many values. -/
theorem main_inAsset {H : Host} {b : Assignment} (hopens : b.Openings H) (hsettles : b.Settles)
    (asset : Fr) : ∃ closeCommitment zeroValue,
      main H (b.inAsset H asset closeCommitment zeroValue) = some () := by
  let output := Note.commitment H { b.marginOutput with assetDigest := asset }
  obtain ⟨close, hclose⟩ := exists_notMem (l := [b.newPositionCommitment, output])
    (by show 2 < bn254ScalarModulus; decide)
  obtain ⟨zero, hzero⟩ := exists_notMem (l := [b.positionRoot, b.positionCommitmentPublic,
    b.positionNullifier, close, b.newPositionCommitment, output, b.newPositionRhoDigest,
    b.newPositionBlinding, asset, b.marginOutputRhoDigest, b.marginOutputBlinding])
    (by show 11 < bn254ScalarModulus; decide)
  simp only [List.mem_cons, List.not_mem_nil, or_false, not_or] at hclose hzero
  obtain ⟨hnew, hout⟩ := hclose
  obtain ⟨h₁, h₂, h₃, h₄, h₅, h₆, h₇, h₈, h₉, h₁₀, h₁₁⟩ := hzero
  refine ⟨close, zero, main_eq_some_iff.mpr ⟨?_, ?_⟩⟩
  · exact
      { root_ne := Ne.symm h₁
        commitment_ne := Ne.symm h₂
        nullifier_ne := Ne.symm h₃
        close_ne := Ne.symm h₄
        newPosition_ne := Ne.symm h₅
        marginOutput_ne := Ne.symm h₆
        newPosition_ne_close := Ne.symm hnew
        marginOutput_ne_close := Ne.symm hout
        newPositionRho_ne := Ne.symm h₇
        newPositionBlinding_ne := Ne.symm h₈
        marginOutputAsset_ne := Ne.symm h₉
        marginOutputRho_ne := Ne.symm h₁₀
        marginOutputBlinding_ne := Ne.symm h₁₁
        position := hopens.position
        root := hopens.root
        nullifier := hopens.nullifier
        newPosition := hopens.newPosition
        marginOutput := rfl }
  · exact ⟨hsettles.size_pos, hsettles.closeSize, hsettles.entryPrice_pos, hsettles.markPrice_pos,
      hsettles.priceScale_pos, hsettles.value, hsettles.afterPnl, hsettles.afterFunding,
      hsettles.newMargin, hsettles.remainingMargin, hsettles.marginOutputAmount⟩

/-- A close at the entry price, without funding and fee. -/
def closeAtEntry (H : Host) (p : Position) : Assignment :=
  let path : Vector Fr 20 := Vector.replicate 20 0
  let sides : Vector Bool 20 := Vector.replicate 20 false
  { (default : Assignment) with
    isLong := p.isLong
    size := p.size
    closeSize := p.size
    entryPrice := p.entryPrice
    markPrice := p.entryPrice
    margin := p.margin
    fundingIndex := p.fundingIndex
    fundingPaymentAbs := 0
    fundingIsCredit := false
    fee := 0
    newMargin := p.margin
    remainingMargin := 0
    marginOutputAmount := p.margin
    priceScale := 100000000
    positionRoot := merkleRoot H (p.commitment H) path sides
    positionCommitmentPublic := p.commitment H
    positionNullifier := hashPair H 0 p.rhoDigest
    newPositionCommitment := positionCommitment H p.isLong 0 p.entryPrice 0 p.fundingIndex
      p.marketDigest p.ownerDigest 0 0
    marketDigest := p.marketDigest
    ownerDigest := p.ownerDigest
    rhoDigest := p.rhoDigest
    blinding := p.blinding
    spendSecretDigest := 0
    newPositionRhoDigest := 0
    newPositionBlinding := 0
    pathSiblings := path
    pathIndices := sides }

theorem closeAtEntry_openings (H : Host) (p : Position) : (closeAtEntry H p).Openings H :=
  ⟨rfl, rfl, rfl, rfl⟩

theorem closeAtEntry_settles {H : Host} {p : Position} (hsize : 0 < p.size.toNat)
    (hprice : 0 < p.entryPrice.toNat) : (closeAtEntry H p).Settles := by
  have hlt := p.margin.isLt
  have hmove : (closeAtEntry H p).move = 0 := by
    unfold Assignment.move closeAtEntry
    split_ifs <;> exact Nat.sub_self _
  have hpnl : (closeAtEntry H p).pnl = 0 := by
    rw [Assignment.pnl_eq, hmove, Nat.mul_zero, Nat.zero_div]
    split_ifs <;> rfl
  have hfunding : (closeAtEntry H p).fundingPayment = 0 := rfl
  have hmargin : (closeAtEntry H p).margin = p.margin := rfl
  have hscale : 0 < (100000000 : U128).toNat := by decide
  refine ⟨hsize, rfl, hprice, hprice, hscale, ?_, ?_, ?_, ?_, rfl, rfl⟩
  · rw [hmove, Nat.mul_zero]
    exact Nat.two_pow_pos 128
  · rw [hpnl, hmargin]
    omega
  · rw [hpnl, hfunding, hmargin]
    omega
  · rw [hpnl, hfunding, hmargin]
    show (p.margin.toNat : ℤ) = p.margin.toNat + 0 - 0 - (0 : U128).toNat
    rw [show (0 : U128).toNat = 0 from rfl]
    omega

end PositionCloseCircuit

namespace BatchMatch

variable {H : Host} {market : MarketInput} {intents : List RecoveredIntent} {output : MatchOutput}

/-- A satisfying assignment of the intent-validity circuit, a fill of its intent, and a satisfying
assignment of the position-close circuit for the position of the fill. -/
structure IntentChain (H : Host) (a : IntentValidity.Assignment) (output : MatchOutput) (fill : Fill)
    (b : PositionCloseCircuit.Assignment) : Prop where
  intent : IntentValidity.main H a = some ()
  filled : fill ∈ output.fills
  commitment : toFieldBiguint fill.intentCommitment = some a.intentCommitment
  close : PositionCloseCircuit.main H b = some ()
  position : toFieldBiguint fill.positionCommitment = some b.positionCommitmentPublic

/-- Every close of the position of the fill creates a margin note in the asset of the note that was
spent for the intent. -/
def KeepsAsset (H : Host) (a : IntentValidity.Assignment) (output : MatchOutput) (fill : Fill) :
    Prop :=
  ∀ b, IntentChain H a output fill b → b.marginOutput.assetDigest = a.note.assetDigest

/-- A fill commits to a position with a size and a price. -/
theorem exists_position_of_fill (hH : SamePairHash H)
    (h : matchBatch H .release market intents = some output) {fill : Fill}
    (hfill : fill ∈ output.fills) :
    ∃ p : Position, toFieldBiguint fill.positionCommitment = some (p.commitment H) ∧
      0 < p.size.toNat ∧ 0 < p.entryPrice.toNat := by
  obtain ⟨orders, book, filled, hmatched⟩ := matchBatch_eq_some.mp h
  obtain ⟨trades, htrading⟩ := matchLoop_trading hmatched.admitted hmatched.loop
  have hprice {order : BookOrder} (ho : order ∈ orders) : 0 < order.limitPrice.toNat :=
    BitVec.lt_def.mp (toBookOrders_orderOf hmatched.request order ho).limitPrice_pos
  have hpos {size : U128} (hne : size ≠ 0) : 0 < size.toNat :=
    Nat.pos_of_ne_zero fun hzero => hne (BitVec.eq_of_toNat_eq hzero)
  have hposition {order : BookOrder} {price : U128} {fill : Fill}
      (hof : FillOf H .release market order price fill) (hsize : fill.size ≠ 0)
      (hp : 0 < price.toNat) :
      ∃ p : Position, toFieldBiguint fill.positionCommitment = some (p.commitment H) ∧
        0 < p.size.toNat ∧ 0 < p.entryPrice.toNat := by
    obtain ⟨fillIndex, hdescribe⟩ := hof.described
    obtain ⟨index, -, hcommitment⟩ := describeFill_eq_some hH hdescribe
    refine ⟨fillPosition H order fill.size price fill.margin index fillIndex, ?_, hpos hsize, hp⟩
    rw [hcommitment]
    exact toFieldBiguint_fieldHex _
  rw [hmatched.output.fills, htrading.fills] at hfill
  obtain ⟨trade, ht, hfill⟩ := List.mem_flatMap.mp hfill
  obtain ⟨long, hl, short, hs, -, -, htrade⟩ := htrading.traded trade ht
  have hexecution : 0 < (executionPrice long short).toNat := by
    unfold executionPrice
    split_ifs
    · exact hprice hl
    · exact hprice hs
  rcases List.mem_pair.mp hfill with rfl | rfl
  · exact hposition htrade.longFill htrade.size_ne hexecution
  · refine hposition htrade.shortFill ?_ hexecution
    rw [htrade.sameSize]
    exact htrade.size_ne

/-- **No position keeps the asset.** Whichever note is spent for an intent, a position that a match
opens for it can be closed, and every close of it can be made with a margin note in every asset, for
the same amount, mark price, root and nullifiers. -/
theorem not_keepsAsset (hH : SamePairHash H) {a : IntentValidity.Assignment}
    (ha : IntentValidity.main H a = some ())
    (h : matchBatch H .release market intents = some output) {fill : Fill}
    (hfill : fill ∈ output.fills)
    (hintent : toFieldBiguint fill.intentCommitment = some a.intentCommitment) :
    ¬ KeepsAsset H a output fill ∧
      ∀ b, IntentChain H a output fill b → ∀ asset, ∃ b', IntentChain H a output fill b' ∧
        b'.marginOutput = { b.marginOutput with assetDigest := asset } ∧
        b'.markPrice = b.markPrice ∧ b'.priceScale = b.priceScale ∧
        b'.positionRoot = b.positionRoot ∧ b'.positionNullifier = b.positionNullifier ∧
        b'.newPositionCommitment = b.newPositionCommitment := by
  have hfree {b : PositionCloseCircuit.Assignment} (hopens : b.Openings H) (hsettles : b.Settles)
      (hposition : toFieldBiguint fill.positionCommitment = some b.positionCommitmentPublic)
      (asset : Fr) : ∃ b', IntentChain H a output fill b' ∧
        b'.marginOutput = { b.marginOutput with assetDigest := asset } ∧
        b'.markPrice = b.markPrice ∧ b'.priceScale = b.priceScale ∧
        b'.positionRoot = b.positionRoot ∧ b'.positionNullifier = b.positionNullifier ∧
        b'.newPositionCommitment = b.newPositionCommitment := by
    obtain ⟨close, zero, hmain⟩ := PositionCloseCircuit.main_inAsset hopens hsettles asset
    exact ⟨b.inAsset H asset close zero, ⟨ha, hfill, hintent, hmain, hposition⟩, rfl, rfl, rfl, rfl,
      rfl, rfl⟩
  constructor
  · intro hkeeps
    obtain ⟨p, hp, hsize, hprice⟩ := exists_position_of_fill hH h hfill
    obtain ⟨asset, hasset⟩ := PositionCloseCircuit.exists_notMem (l := [a.note.assetDigest])
      (by show 1 < bn254ScalarModulus; decide)
    obtain ⟨b, hb, hnote, -⟩ := hfree (PositionCloseCircuit.closeAtEntry_openings H p)
      (PositionCloseCircuit.closeAtEntry_settles hsize hprice) hp asset
    have hkept := hkeeps b hb
    rw [hnote] at hkept
    exact hasset (List.mem_singleton.mpr hkept)
  · intro b hb
    obtain ⟨hopening, hsettles⟩ := PositionCloseCircuit.main_eq_some_iff.mp hb.close
    exact hfree hopening.openings hsettles hb.position

section Examples

open SampleHost

/-- The note that a sample intent spends. -/
def spentNote : Note := ⟨3, 200000, 5, 6, 7⟩

/-- An intent to buy with all of the note as margin. -/
def spendingIntent : IntentValidity.Assignment where
  size := 1000000
  margin := spentNote.amount
  limitPrice := 90000000
  isLong := true
  expiryBatch := 1
  noteAmount := spentNote.amount
  assetDigest := spentNote.assetDigest
  ownerDigest := spentNote.ownerDigest
  rhoDigest := spentNote.rhoDigest
  blinding := spentNote.blinding
  spendSecretDigest := 11
  pathSiblings := emptyPath 8
  pathIndices := Vector.replicate 8 false
  currentBatch := 1
  batchDigest := 12
  marketDigest := digestToField sampleHost "market:BTC"
  ownerCommitmentField := 13
  intentCommitment := IntentValidity.computeIntentCommitment sampleHost 12
    (digestToField sampleHost "market:BTC") 13 true 1000000 90000000 spentNote.amount
    (hashPair sampleHost 11 spentNote.rhoDigest) 14 15
  marginRoot := merkleRoot sampleHost (spentNote.commitment sampleHost) (emptyPath 8)
    (Vector.replicate 8 false)
  noteCommitmentPublic := spentNote.commitment sampleHost
  noteNullifier := hashPair sampleHost 11 spentNote.rhoDigest
  noteChangeCommitment := 0
  nonceDigest := 14
  saltDigest := 15
  changeRhoDigest := 0
  changeBlinding := 0
  zeroCommitment := 0

/-- The order of the intent. -/
def spendingOrder : RecoveredIntent :=
  { sampleIntent "1" "1000000" "90000000" "200000" with
    intentCommitment := fieldHex spendingIntent.intentCommitment
    noteNullifier := fieldHex spendingIntent.noteNullifier }

def spendingIntents : List RecoveredIntent :=
  [spendingOrder, sampleIntent "2" "-1000000" "90000000" "200000"]

/-- The position of the order, with the maker rebate in its margin. -/
def spendingPosition : Position :=
  fillPosition sampleHost ⟨0, 0, spendingOrder, 90000000, 200000, 1000000, 0, .long, 1000000⟩
    1000000 90000000 200135 0 0

/-- A close of the position into a note of another asset. -/
def otherAssetClose : PositionCloseCircuit.Assignment :=
  closePosition spendingPosition 90000000 0 false 0 200135 4 21 12

/-- The withdrawal of the note in the other asset. -/
def otherAssetWithdraw : Withdraw.Assignment :=
  withdrawNote otherAssetClose.marginOutput 200135 9 12

theorem spending_facts : IntentValidity.main sampleHost spendingIntent = some () ∧
    PositionCloseCircuit.main sampleHost otherAssetClose = some () ∧
    Withdraw.main sampleHost otherAssetWithdraw = some () ∧
    ∃ output ∈ matchBatch sampleHost .release sampleMarket spendingIntents,
      ∃ fill ∈ output.fills,
        toFieldBiguint fill.intentCommitment = some spendingIntent.intentCommitment ∧
        toFieldBiguint fill.positionCommitment = some otherAssetClose.positionCommitmentPublic := by
  decide +kernel

/-- The position of the sample intent. -/
theorem not_keepsAsset_spending : ∃ output fill,
    matchBatch sampleHost .release sampleMarket spendingIntents = some output ∧
      ¬ KeepsAsset sampleHost spendingIntent output fill := by
  obtain ⟨hintent, -, -, output, houtput, fill, hfill, hcommitment, -⟩ := spending_facts
  have hH : SamePairHash sampleHost := fun _ _ => rfl
  have h := not_keepsAsset hH hintent houtput hfill hcommitment
  exact ⟨output, fill, houtput, h.1⟩

/-- A note of one asset is spent for an order, and a note of another asset that is created for its
position is withdrawn. -/
theorem exists_other_asset : ∃ (a : IntentValidity.Assignment) (output : MatchOutput) (fill : Fill)
    (b : PositionCloseCircuit.Assignment) (w : Withdraw.Assignment),
    CollisionFree (hashPair sampleHost)
        {q | q ∈ a.queries sampleHost ++ b.queries sampleHost ++ w.queries sampleHost} ∧
      matchBatch sampleHost .release sampleMarket spendingIntents = some output ∧
      IntentChain sampleHost a output fill b ∧ b.marginOutput.assetDigest ≠ a.note.assetDigest ∧
      Withdraw.main sampleHost w = some () ∧ w.note = b.marginOutput ∧
      w.tokenDigest ≠ a.note.assetDigest := by
  obtain ⟨hintent, hclose, hwithdraw, output, houtput, fill, hfill, hcommitment, hposition⟩ :=
    spending_facts
  exact ⟨spendingIntent, output, fill, otherAssetClose, otherAssetWithdraw,
    collisionFree_of_list (by decide +kernel), houtput,
    ⟨hintent, hfill, hcommitment, hclose, hposition⟩, by decide, hwithdraw, rfl, by decide⟩

end Examples

end BatchMatch

end Pnlx
