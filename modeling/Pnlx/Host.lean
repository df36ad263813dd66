import Pnlx.Words

/-!
# Code outside the repository

The contracts and circuits call code that is not part of the repository: the hash functions, the
collateral tokens and the price oracles. `Host` bundles them. `State` is everything such code
stores on the ledger.
-/

namespace Pnlx

/-- An account or a contract. -/
inductive Address where
  | account (key : BytesN32)
  | contract (id : BytesN32)
  deriving DecidableEq

/-- `address.to_xdr(env)`: the XDR of the address as a contract value. -/
def Address.toXdr : Address → Bytes
  | account key =>
    BigEndian.bytes 4 18 ++ BigEndian.bytes 4 0 ++ BigEndian.bytes 4 0 ++
      BigEndian.bytes 32 key.toNat
  | contract id => BigEndian.bytes 4 18 ++ BigEndian.bytes 4 1 ++ BigEndian.bytes 32 id.toNat

inductive OracleAsset where
  | stellar (asset : Address)
  | other (symbol : String)
  deriving DecidableEq

structure PriceData where
  price : I128
  timestamp : ℕ
  deriving DecidableEq

/-- The external code: hash functions, tokens and oracles. A call that fails is an error, and a
Beam oracle call may spend the fee that its caller has authorised. -/
structure Host where
  State : Type
  sha256 : Bytes → BytesN32
  poseidon2Permutation : Vector Fr 4 → Vector Fr 4
  /-- `Poseidon2Sponge<4, Bn254Fr>::compute_hash` on two words. -/
  computeHash : BytesN32 → BytesN32 → Except String BytesN32
  /-- `Poseidon2::<Fr>::hash` on two field elements. -/
  poseidon2Hash : Fr → Fr → Fr
  tokenBalance : State → (token holder : Address) → Except String I128
  tokenTransfer : State → (token sender recipient : Address) → I128 → Except String State
  oracleDecimals : State → (oracle : Address) → Except String ℕ
  sep40LastPrice : State → (oracle : Address) → OracleAsset → Except String (Option PriceData)
  sep40Prices : State → (oracle : Address) → OracleAsset → ℕ →
    Except String (Option (List PriceData))
  beamEstimateCost : State → (oracle : Address) → ℕ → Except String I128
  beamLastPrice : State → (oracle caller : Address) → OracleAsset → Option (Address × I128) →
    Except String (Option PriceData × State)
  beamPrices : State → (oracle caller : Address) → OracleAsset → ℕ → Option (Address × I128) →
    Except String (Option (List PriceData) × State)

/-- The digest by which a proof names an address: `sha256` of its XDR, reduced to the field. -/
def addressDigest (H : Host) (address : Address) : BytesN32 :=
  ofField (toField (H.sha256 address.toXdr))

/-- `H.sha256` has no collision among the byte strings of `S`. -/
def Host.ShaInjOn (H : Host) (S : Set Bytes) : Prop := Set.InjOn H.sha256 S

end Pnlx
