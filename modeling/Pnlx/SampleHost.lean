import Pnlx.Circuits.LiquidationCheck
import Pnlx.Circuits.PositionClose
import Pnlx.Circuits.Withdraw
import Pnlx.System

/-!
# A host to compute with

A host whose hash functions are cheap arithmetic and whose external state is a list of token
balances and oracle prices. Its hashes are not collision resistant, but whether they collide on a
given list of inputs is decidable (`collisionFree_of_list`, `shaInjOn_of_list`).
-/

namespace Pnlx

/-- A quantifier over the members of a list is decided by a walk over the list, also where the
type of its elements is finite. -/
instance (priority := high) decidableForallMem {α : Type*} {P : α → Prop} [DecidablePred P]
    (L : List α) : Decidable (∀ x ∈ L, P x) :=
  List.decidableBAll P L

/-- A hash has no collision on a list when it has none on its distinct elements. -/
theorem collisionFree_of_list {h : Fr → Fr → Fr} {L : List (Fr × Fr)}
    (hL : ∀ q ∈ L, ∀ r ∈ L, h q.1 q.2 = h r.1 r.2 → q = r) : CollisionFree h {q | q ∈ L} :=
  fun q hq r hr he => hL q hq r hr he

theorem shaInjOn_of_list {H : Host} {L : List Bytes}
    (hL : ∀ x ∈ L, ∀ y ∈ L, H.sha256 x = H.sha256 y → x = y) : H.ShaInjOn {x | x ∈ L} :=
  fun x hx y hy he => hL x hx y hy he

namespace SampleHost

/-- The balances by token and holder, and the prices by oracle and asset. -/
structure State where
  balances : List ((Address × Address) × ℤ)
  prices : List ((Address × OracleAsset) × PriceData)
  deriving DecidableEq

def balanceOf (s : State) (token holder : Address) : ℤ := (s.balances.lookup (token, holder)).getD 0

def setBalance (s : State) (token holder : Address) (amount : ℤ) : State :=
  { s with balances := ((token, holder), amount) :: s.balances }

def transfer (s : State) (token sender recipient : Address) (amount : I128) : Except String State :=
  if amount.toInt < 0 then .error "negative amount"
  else if balanceOf s token sender < amount.toInt then .error "balance is too low"
  else
    let debited := setBalance s token sender (balanceOf s token sender - amount.toInt)
    .ok (setBalance debited token recipient (balanceOf debited token recipient + amount.toInt))

def sha256 (bytes : Bytes) : BytesN32 :=
  bytes.foldl (fun acc b => acc * 257#256 + BitVec.ofNat 256 (b.toNat + 1)) 0

def pairHash (x y : Fr) : Fr := 7 * x * x + 11 * y + x * y + 13

end SampleHost

open SampleHost in
def sampleHost : Host where
  State := SampleHost.State
  sha256 := sha256
  poseidon2Permutation v := #v[pairHash (v.get 0) (v.get 1), v.get 1, v.get 2, v.get 3]
  computeHash x y := .ok (ofField (pairHash (toField x) (toField y)))
  poseidon2Hash := pairHash
  tokenBalance s token holder := .ok (BitVec.ofInt 128 (balanceOf s token holder))
  tokenTransfer := transfer
  oracleDecimals _ _ := .ok 8
  sep40LastPrice s oracle asset := .ok (s.prices.lookup (oracle, asset))
  sep40Prices s oracle asset _ := .ok ((s.prices.lookup (oracle, asset)).map ([·]))
  beamEstimateCost _ _ _ := .ok 0
  beamLastPrice s oracle _ asset _ := .ok (s.prices.lookup (oracle, asset), s)
  beamPrices s oracle _ asset _ _ := .ok ((s.prices.lookup (oracle, asset)).map ([·]), s)

namespace SampleHost

instance : DecidableEq sampleHost.State := inferInstanceAs (DecidableEq State)

/-- The roots of the empty trees. -/
def emptyRoot : ℕ → Fr
  | 0 => 0
  | depth + 1 => hashPair sampleHost (emptyRoot depth) (emptyRoot depth)

/-- The siblings of the first leaf of an otherwise empty tree. -/
def emptyPath (depth : ℕ) : Vector Fr depth := ⟨((List.range depth).map emptyRoot).toArray, by simp⟩

/-- The withdrawal of `amount` from a note that is the first leaf of an otherwise empty tree. -/
def withdrawNote (n : Note) (amount : U128) (recipientDigest secret : Fr) : Withdraw.Assignment where
  noteAmount := n.amount
  withdrawAmount := amount
  root := merkleRoot sampleHost (n.commitment sampleHost) (emptyPath 8) (Vector.replicate 8 false)
  nullifier := hashPair sampleHost secret n.rhoDigest
  tokenDigest := n.assetDigest
  recipientDigest := recipientDigest
  changeCommitment :=
    if amount = n.amount then 0 else { n with amount := n.amount - amount }.commitment sampleHost
  assetDigest := n.assetDigest
  ownerDigest := n.ownerDigest
  rhoDigest := n.rhoDigest
  blinding := n.blinding
  spendSecretDigest := secret
  pathSiblings := emptyPath 8
  pathIndices := Vector.replicate 8 false
  changeRhoDigest := n.rhoDigest
  changeBlinding := n.blinding
  zeroValue := 0

/-- The close of a position that is the first leaf of an otherwise empty tree. The margin note gets
the blinding of the position. -/
def closePosition (p : Position) (markPrice fundingPaymentAbs : U128) (fundingIsCredit : Bool)
    (fee payout : U128) (asset closeCommitment secret : Fr) : PositionCloseCircuit.Assignment where
  isLong := p.isLong
  size := p.size
  closeSize := p.size
  entryPrice := p.entryPrice
  markPrice := markPrice
  margin := p.margin
  fundingIndex := p.fundingIndex
  fundingPaymentAbs := fundingPaymentAbs
  fundingIsCredit := fundingIsCredit
  fee := fee
  newMargin := payout
  remainingMargin := 0
  marginOutputAmount := payout
  priceScale := 100000000
  positionRoot := merkleRoot sampleHost (p.commitment sampleHost) (emptyPath 20)
    (Vector.replicate 20 false)
  positionCommitmentPublic := p.commitment sampleHost
  positionNullifier := hashPair sampleHost secret p.rhoDigest
  closeCommitment := closeCommitment
  newPositionCommitment := { p with size := 0, margin := 0 }.commitment sampleHost
  marginOutputCommitment :=
    Note.commitment sampleHost ⟨asset, payout, p.ownerDigest, p.rhoDigest, p.blinding⟩
  marketDigest := p.marketDigest
  ownerDigest := p.ownerDigest
  rhoDigest := p.rhoDigest
  blinding := p.blinding
  spendSecretDigest := secret
  newPositionRhoDigest := p.rhoDigest
  newPositionBlinding := p.blinding
  marginOutputAssetDigest := asset
  marginOutputRhoDigest := p.rhoDigest
  marginOutputBlinding := p.blinding
  pathSiblings := emptyPath 20
  pathIndices := Vector.replicate 20 false
  zeroValue := 0

/-- The liquidation of a position that is the first leaf of an otherwise empty tree. -/
def liquidatePosition (p : Position) (markPrice maintenanceRate fundingPaymentAbs : U128)
    (fundingIsCredit : Bool) (reward secret : Fr) : LiquidationCheck.Assignment where
  isLong := p.isLong
  size := p.size
  entryPrice := p.entryPrice
  markPrice := markPrice
  margin := p.margin
  fundingIndex := p.fundingIndex
  fundingPaymentAbs := fundingPaymentAbs
  fundingIsCredit := fundingIsCredit
  maintenanceRate := maintenanceRate
  priceScale := 100000000
  rateScale := 1000000
  positionRoot := merkleRoot sampleHost (p.commitment sampleHost) (emptyPath 20)
    (Vector.replicate 20 false)
  positionCommitmentPublic := p.commitment sampleHost
  positionNullifier := hashPair sampleHost secret p.rhoDigest
  rewardCommitment := reward
  marketDigest := p.marketDigest
  ownerDigest := p.ownerDigest
  rhoDigest := p.rhoDigest
  blinding := p.blinding
  spendSecretDigest := secret
  pathSiblings := emptyPath 20
  pathIndices := Vector.replicate 20 false
  zeroValue := 0

/-- The proof of a circuit for the given public inputs. -/
def proofOf (circuit : BytesN32) (publicInputs : List Fr) : ProofMeta where
  circuitId := circuit
  circuitHash := 1
  verifierHash := 2
  publicInputHash := sha256 (encodePublicInputs publicInputs)
  proofDigest := 3

/-- The arguments with which a close is settled. -/
def closeArgs (marketId circuit : BytesN32) (a : PositionCloseCircuit.Assignment) : CloseArgs where
  marketId := marketId
  positionRoot := ofField a.positionRoot
  positionCommitment := ofField a.positionCommitmentPublic
  positionNullifier := ofField a.positionNullifier
  closeCommitment := ofField a.closeCommitment
  markPrice := a.markPrice
  newPositionCommitment := ofField a.newPositionCommitment
  marginOutputCommitment := ofField a.marginOutputCommitment
  proof := proofOf circuit a.publicInputs

/-- The arguments with which a position is liquidated. -/
def liquidationArgs (marketId circuit : BytesN32) (a : LiquidationCheck.Assignment) :
    LiquidationArgs where
  marketId := marketId
  positionRoot := ofField a.positionRoot
  positionCommitment := ofField a.positionCommitmentPublic
  positionNullifier := ofField a.positionNullifier
  markPrice := a.markPrice
  maintenanceRate := a.maintenanceRate
  proof := proofOf circuit a.publicInputs
  rewardCommitment := ofField a.rewardCommitment

def sampleAdmin : Address := .account 1

/-- A transaction of the admin. -/
def adminTx (target : Address) (call : Call) : Action sampleHost :=
  .invoke ⟨[sampleAdmin], 0, target, call⟩

end SampleHost

end Pnlx
