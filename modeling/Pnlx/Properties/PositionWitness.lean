import Pnlx.Circuits.LiquidationCheck
import Pnlx.Circuits.PositionClose
import Pnlx.SampleHost
import Pnlx.Server.Fills

/-!
# The witness of an opened position

The matcher commits to a position with field elements, into which the server reduces any integer.
The circuits open the commitment with `u128` values. The witness that is rebuilt for a fill has its
commitment and its nullifier, and it opens them in both circuits exactly when the values of the fill
are `u128` values. A negative funding index is not (`reopens_iff`).
-/

namespace Pnlx

namespace Server

open BatchMatch (Text Side)

/-- The values of a witness in the types of the circuits. -/
structure CircuitPositionNote.TypedAs (note : CircuitPositionNote) (p : Position) (secret : Fr) :
    Prop where
  isLong : p.isLong = decide (note.side = .long)
  size : (p.size.toNat : ℤ) = note.size
  entryPrice : (p.entryPrice.toNat : ℤ) = note.entryPrice
  margin : (p.margin.toNat : ℤ) = note.margin
  fundingIndex : (p.fundingIndex.toNat : ℤ) = note.fundingIndex
  marketDigest : toField (.hex note.marketDigest) = some p.marketDigest
  ownerDigest : toField (.hex note.ownerDigest) = some p.ownerDigest
  rhoDigest : toField (.hex note.rhoDigest) = some p.rhoDigest
  blinding : toField (.hex note.blinding) = some p.blinding
  spendSecretDigest : toField (.hex note.spendSecretDigest) = some secret

/-- A commitment and a nullifier that the server recorded, and a path to the commitment. -/
structure Recorded where
  commitment : Fr
  nullifier : Fr
  siblings : Vector Fr 20
  indices : Vector Bool 20

/-- The commitment, membership and nullifier constraints of the position-close circuit have a
solution with the position and the secret. -/
def OpensClose (H : Host) (r : Recorded) (p : Position) (secret : Fr) : Prop :=
  ∃ a : PositionCloseCircuit.Assignment, a.position = p ∧ a.spendSecretDigest = secret ∧
    a.positionCommitmentPublic = r.commitment ∧ a.positionNullifier = r.nullifier ∧
    a.pathSiblings = r.siblings ∧ a.pathIndices = r.indices ∧
    a.position.commitment H = a.positionCommitmentPublic ∧
    merkleRoot H a.positionCommitmentPublic a.pathSiblings a.pathIndices = a.positionRoot ∧
    hashPair H a.spendSecretDigest a.rhoDigest = a.positionNullifier

/-- The same constraints of the liquidation-check circuit have a solution. -/
def OpensLiquidation (H : Host) (r : Recorded) (p : Position) (secret : Fr) : Prop :=
  ∃ a : LiquidationCheck.Assignment, a.position = p ∧ a.spendSecretDigest = secret ∧
    a.positionCommitmentPublic = r.commitment ∧ a.positionNullifier = r.nullifier ∧
    a.pathSiblings = r.siblings ∧ a.pathIndices = r.indices ∧
    a.position.commitment H = a.positionCommitmentPublic ∧
    merkleRoot H a.positionCommitmentPublic a.pathSiblings a.pathIndices = a.positionRoot ∧
    hashPair H a.spendSecretDigest a.rhoDigest = a.positionNullifier

/-- The witness that is rebuilt for a fill has its commitment and its nullifier, and opens them in
both circuits. -/
def Reopens (H : Host) (poseidon2Hash : Fr → Fr → Fr) (market : MarketConfig) (i : ℕ)
    (fill : Fill) : Prop :=
  ∃ note p secret, rebuildPosition H poseidon2Hash market.fundingIndex i fill = some note ∧
    note.commitment = fill.positionCommitment ∧ note.positionNullifier = fill.positionNullifier ∧
    note.TypedAs p secret ∧
    ∀ r : Recorded, toField (.hex fill.positionCommitment) = some r.commitment →
      toField (.hex fill.positionNullifier) = some r.nullifier →
        OpensClose H r p secret ∧ OpensLiquidation H r p secret

/-- The values of a fill are `u128` values. -/
structure FillFits (market : MarketConfig) (fill : Fill) : Prop where
  fundingIndex_nonneg : 0 ≤ market.fundingIndex
  fundingIndex_lt : market.fundingIndex < 2 ^ 128
  size_lt : fill.size < 2 ^ 128
  price_lt : fill.price < 2 ^ 128
  margin_lt : fill.margin < 2 ^ 128

variable {H : Host} {poseidon2Hash : Fr → Fr → Fr} {market : MarketConfig} {i : ℕ} {fill : Fill}

/-- The hashes of the server on the values of the circuits. -/
theorem circuitPositionCommitment_position (p : Position) (side : Side)
    (hside : p.isLong = decide (side = .long)) :
    circuitPositionCommitment (hashPair H) (BatchMatch.fieldHex p.marketDigest) side p.size.toNat
        p.entryPrice.toNat p.margin.toNat p.fundingIndex.toNat (BatchMatch.fieldHex p.ownerDigest)
        (BatchMatch.fieldHex p.rhoDigest) (BatchMatch.fieldHex p.blinding) =
      some (BatchMatch.fieldHex (p.commitment H)) := by
  have hsideField : toField (.bigint (if side = .long then 1 else 2)) = some p.side := by
    unfold Position.side
    rw [hside]
    cases side <;> decide +kernel
  unfold circuitPositionCommitment fieldHashPair
  simp only [hsideField, toField_fieldHex, toField_word, Option.bind_eq_bind, Option.bind_some]
  rfl

/-- A solution for the position and the secret that a record commits to. -/
theorem opens_of_eq {r : Recorded} {p : Position} {secret : Fr}
    (hcommitment : p.commitment H = r.commitment)
    (hnullifier : hashPair H secret p.rhoDigest = r.nullifier) :
    OpensClose H r p secret ∧ OpensLiquidation H r p secret := by
  constructor
  · exact ⟨{ (default : PositionCloseCircuit.Assignment) with
      isLong := p.isLong, size := p.size, entryPrice := p.entryPrice, margin := p.margin
      fundingIndex := p.fundingIndex, marketDigest := p.marketDigest, ownerDigest := p.ownerDigest
      rhoDigest := p.rhoDigest, blinding := p.blinding, spendSecretDigest := secret
      positionCommitmentPublic := r.commitment, positionNullifier := r.nullifier
      pathSiblings := r.siblings, pathIndices := r.indices
      positionRoot := merkleRoot H r.commitment r.siblings r.indices },
      rfl, rfl, rfl, rfl, rfl, rfl, hcommitment, rfl, hnullifier⟩
  · exact ⟨{ (default : LiquidationCheck.Assignment) with
      isLong := p.isLong, size := p.size, entryPrice := p.entryPrice, margin := p.margin
      fundingIndex := p.fundingIndex, marketDigest := p.marketDigest, ownerDigest := p.ownerDigest
      rhoDigest := p.rhoDigest, blinding := p.blinding, spendSecretDigest := secret
      positionCommitmentPublic := r.commitment, positionNullifier := r.nullifier
      pathSiblings := r.siblings, pathIndices := r.indices
      positionRoot := merkleRoot H r.commitment r.siblings r.indices },
      rfl, rfl, rfl, rfl, rfl, rfl, hcommitment, rfl, hnullifier⟩

/-- A witness with `u128` values is that of a position, whose commitment and nullifier it has. -/
theorem createCircuitPositionNote_typed (marketId : Text) (side : Side)
    (size entryPrice margin fundingIndex : U128) (owner spendSecret rho blinding : Text) :
    ∃ note p secret, createCircuitPositionNote H (hashPair H) marketId side size.toNat
        entryPrice.toNat margin.toNat fundingIndex.toNat owner spendSecret rho blinding =
          some note ∧
      note.TypedAs p secret ∧ note.commitment = BatchMatch.fieldHex (p.commitment H) ∧
      note.positionNullifier = BatchMatch.fieldHex (hashPair H secret p.rhoDigest) := by
  let digest (text : Text) : Fr := digestToField H (String.ofList text)
  let p : Position := ⟨decide (side = .long), size, entryPrice, margin, fundingIndex,
    digest ("market:".toList ++ marketId), digest ("owner:".toList ++ owner),
    digest ("rho:".toList ++ rho), digest ("blinding:".toList ++ blinding)⟩
  let secret : Fr := digest ("spend:".toList ++ spendSecret)
  have hcommitment := @circuitPositionCommitment_position H p side rfl
  have hnullifier : fieldHashPair (hashPair H) (.hex (BatchMatch.fieldHex secret))
      (.hex (BatchMatch.fieldHex p.rhoDigest)) =
        some (BatchMatch.fieldHex (hashPair H secret p.rhoDigest)) := by
    unfold fieldHashPair
    rw [toField_fieldHex, toField_fieldHex]
    rfl
  unfold createCircuitPositionNote
  simp only [Option.bind_eq_bind, Option.bind_eq_some_iff]
  refine ⟨_, p, secret, ⟨_, hcommitment, _, hnullifier, rfl⟩, ⟨rfl, rfl, rfl, rfl, rfl, ?_, ?_, ?_,
    ?_, ?_⟩, rfl, rfl⟩
  all_goals exact toField_fieldHex _

/-- Every positive integer below `2 ^ 128` is a `u128`. -/
theorem exists_u128 {z : ℤ} (hnonneg : 0 ≤ z) (hlt : z < 2 ^ 128) : ∃ x : U128, z = x.toNat := by
  obtain ⟨x, hx⟩ := exists_toNat_eq (show z.toNat < 2 ^ 128 by omega)
  exact ⟨x, by omega⟩

/-- The witness that is rebuilt for a fill has its values. -/
theorem rebuildPosition_values {index : ℤ} {note : CircuitPositionNote}
    (h : rebuildPosition H poseidon2Hash index i fill = some note) :
    note.size = fill.size ∧ note.entryPrice = fill.price ∧ note.margin = fill.margin ∧
      note.fundingIndex = index := by
  unfold rebuildPosition createCircuitPositionNote at h
  simp only [Option.bind_eq_bind, Option.bind_eq_some_iff] at h
  obtain ⟨_, -, _, -, hnote⟩ := h
  rw [← Option.some.inj hnote]
  exact ⟨rfl, rfl, rfl, rfl⟩

/-- A position whose values fit is opened by its rebuilt witness. -/
theorem FillAt.reopens (h : FillAt H (hashPair H) market i fill) (hfits : FillFits market fill) :
    Reopens H (hashPair H) market i fill := by
  obtain ⟨note, hnote, hcommitment, hnullifier⟩ := h.rebuilds
  obtain ⟨size, hsize⟩ := exists_u128 h.size_pos.le hfits.size_lt
  obtain ⟨price, hprice⟩ := exists_u128 h.price_pos.le hfits.price_lt
  obtain ⟨margin, hmargin⟩ := exists_u128 h.margin_pos.le hfits.margin_lt
  obtain ⟨index, hindex⟩ := exists_u128 hfits.fundingIndex_nonneg hfits.fundingIndex_lt
  have hrebuilt := hnote
  unfold rebuildPosition at hrebuilt
  rw [hsize, hprice, hmargin, hindex] at hrebuilt
  obtain ⟨note', p, secret, hcreated, htyped, hcommitment', hnullifier'⟩ :=
    @createCircuitPositionNote_typed H fill.marketId fill.side size price margin index
      fill.ownerCommitment _ _ _
  obtain rfl : note' = note := Option.some.inj (hcreated.symm.trans hrebuilt)
  refine ⟨note', p, secret, hnote, hcommitment, hnullifier, htyped, fun r hC hN => ?_⟩
  rw [← hcommitment, hcommitment', toField_fieldHex, Option.some.injEq] at hC
  rw [← hnullifier, hnullifier', toField_fieldHex, Option.some.injEq] at hN
  exact opens_of_eq hC hN

/-- **Opened positions can be opened again.** The witness that is rebuilt for a fill of a match
opens its position in both circuits exactly when the values of the fill are `u128` values. -/
theorem reopens_iff {poseidon2Hash : Fr → Fr → Fr}
    (hP : ∀ x y, poseidon2Hash x y = hashPair H x y) {input : MatchInput} {result : MatchResult}
    (h : matchBatch H poseidon2Hash none input = some result) :
    ∀ i fill, result.fills[i]? = some fill →
      (Reopens H poseidon2Hash input.market i fill ↔ FillFits input.market fill) := by
  obtain rfl : poseidon2Hash = hashPair H := funext fun x => funext fun y => hP x y
  intro i fill hfill
  have hat := matchBatch_fillAt h hfill
  constructor
  · rintro ⟨note, p, secret, hnote, -, -, htyped, -⟩
    obtain ⟨hsize, hprice, hmargin, hindex⟩ := rebuildPosition_values hnote
    rw [← htyped.size] at hsize
    rw [← htyped.entryPrice] at hprice
    rw [← htyped.margin] at hmargin
    rw [← htyped.fundingIndex] at hindex
    have := p.size.isLt
    have := p.entryPrice.isLt
    have := p.margin.isLt
    have := p.fundingIndex.isLt
    exact ⟨by omega, by omega, by omega, by omega, by omega⟩
  · exact hat.reopens

section Examples

/-- An order of a sample batch. -/
def witnessIntent (name : String) (signedSize : ℤ) : PrivateMatchIntent where
  batchId := "1".toList
  intentCommitment := name.toList
  limitPrice := 100000000
  margin := 1000
  marketId := "A".toList
  noteChangeCommitment := "0x0".toList
  noteNullifier := 'n' :: name.toList
  ownerCommitment := 'o' :: name.toList
  signedSize
  sourceIntentCommitment := none

/-- A long and a short order that cross, at a funding index. -/
def witnessBatch (fundingIndex : ℤ) : MatchInput where
  batchId := "1".toList
  intents := [witnessIntent "1" 1000, witnessIntent "2" (-1000)]
  market := ⟨fundingIndex, 100000, 50000, "A".toList, 10⟩

/-- The match of the batch. -/
def witnessMatch (fundingIndex : ℤ) : Option MatchResult :=
  matchBatch sampleHost (hashPair sampleHost) none (witnessBatch fundingIndex)

/-- At a funding index of zero both positions can be opened again. -/
theorem reopens_sample : ∃ result, witnessMatch 0 = some result ∧ result.fills.length = 2 ∧
    ∀ i fill, result.fills[i]? = some fill →
      (Reopens sampleHost (hashPair sampleHost) (witnessBatch 0).market i fill ↔
        FillFits (witnessBatch 0).market fill) := by
  have hrun : ∃ result ∈ witnessMatch 0, result.fills.length = 2 := by decide +kernel
  obtain ⟨result, hmatch, hlength⟩ := hrun
  exact ⟨result, hmatch, hlength, reopens_iff (fun _ _ => rfl) (Option.mem_def.mp hmatch)⟩

/-- At a negative funding index the match opens a position whose witness fits no circuit. -/
theorem exists_unopenable : ∃ (input : MatchInput) (result : MatchResult) (fill : Fill),
    matchBatch sampleHost (hashPair sampleHost) none input = some result ∧
      result.fills[0]? = some fill ∧ input.market.fundingIndex = -1 ∧
      ¬ Reopens sampleHost (hashPair sampleHost) input.market 0 fill := by
  have hrun : ∃ result ∈ witnessMatch (-1), result.fills[0]?.isSome := by decide +kernel
  obtain ⟨result, hmatch, hsome⟩ := hrun
  obtain ⟨fill, hfill⟩ := Option.isSome_iff_exists.mp hsome
  refine ⟨witnessBatch (-1), result, fill, hmatch, hfill, rfl, ?_⟩
  rintro ⟨note, p, secret, hnote, -, -, htyped, -⟩
  have hindex : note.fundingIndex = -1 := (rebuildPosition_values hnote).2.2.2
  rw [← htyped.fundingIndex] at hindex
  omega

end Examples

end Server

end Pnlx
