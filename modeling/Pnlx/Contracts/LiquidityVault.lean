import Mathlib.Logic.Function.Basic
import Pnlx.Host
import Pnlx.Lib.Program

/-!
# The liquidity vault

Owners deposit an asset into series and hold shares of them; the operator lends liquid assets of a
series to the maker and settles what comes back. Series 0 keeps its books under older keys, and its
liquid assets are not stored: they are what the vault holds beyond the liquid assets of the other
series.

The vault calls nothing but its token, so it is a system of its own. An amount whose key has not
been written reads as 0.
-/

namespace Pnlx.LiquidityVault

open Program

/-- The token of the vault. A transfer moves exactly the stated amount or fails. -/
structure Asset where
  State : Type
  balance : State → (holder : Address) → I128
  transfer : State → (authorized : List Address) → (sender recipient : Address) → I128 →
    Except String State
  balance_nonneg : ∀ t holder, 0 ≤ (balance t holder).toInt
  transfer_exact : ∀ {t authorized sender recipient amount t'},
    transfer t authorized sender recipient amount = .ok t' → ∀ holder,
      (balance t' holder).toInt = (balance t holder).toInt -
        (if holder = sender then amount.toInt else 0) +
        (if holder = recipient then amount.toInt else 0)

structure Storage where
  asset : Option Address
  operator : Option Address
  upgradeAuthority : Option Address
  maker : Option Address
  paused : Option Bool
  allocationLimitBps : Option ℕ
  deployedPrincipal : I128
  totalShares : I128
  shares : Address → I128
  pendingShares : Address → I128
  deposited : Address → I128
  withdrawn : Address → I128
  currentSeries : Option ℕ
  otherSeriesLiquid : I128
  otherSeriesPrincipal : I128
  otherSeriesShares : I128
  seriesLiquid : ℕ → I128
  seriesPrincipal : ℕ → I128
  seriesSupply : ℕ → I128
  seriesShares : ℕ → Address → I128
  seriesPendingShares : ℕ → Address → I128
  ownerSeries : Address → List ℕ
  seriesPendingTotal : ℕ → I128

/-- The storage before the constructor has run. -/
def Storage.blank : Storage :=
  ⟨none, none, none, none, none, none, 0, 0, fun _ => 0, fun _ => 0, fun _ => 0, fun _ => 0, none,
    0, 0, 0, fun _ => 0, fun _ => 0, fun _ => 0, fun _ _ => 0, fun _ _ => 0, fun _ => [],
    fun _ => 0⟩

/-- The storage of the vault and the state of its token. -/
structure Vault (A : Asset) where
  storage : Storage
  tokens : A.State

/-- The environment of a call: who has authorised it, and the vault itself. -/
structure VaultEnv where
  signers : List Address
  current : Address

abbrev VaultCall (A : Asset) := Program VaultEnv (Vault A) String

variable {A : Asset}

/-! ## Primitives -/

section Primitives

variable {α : Type}

def get (key : Storage → α) : VaultCall A α := fun _ v => .ok (key v.storage, v)

/-- `storage.get(key).unwrap_or_else(|| panic!(message))`. -/
def required (key : Storage → Option α) (message : String) : VaultCall A α := do
  unwrapOr (← get key) message

def set (f : Storage → Storage) : VaultCall A Unit := fun _ v =>
  .ok ((), { v with storage := f v.storage })

/-- `address.require_auth()`. Nobody can sign for the vault, and the vault does not call itself. -/
def requireAuth (address : Address) : VaultCall A Unit := do
  let env ← environment
  failIf (¬ (address ∈ env.signers ∧ address ≠ env.current)) "not authorized"

def currentContract : VaultCall A Address := fun env v => .ok (env.current, v)

/-- A call of the token, authorised by the signers and the vault. -/
def callTransfer (sender recipient : Address) (amount : I128) : VaultCall A Unit := fun env v =>
  match A.transfer v.tokens (env.current :: env.signers) sender recipient amount with
  | .ok t => .ok ((), { v with tokens := t })
  | .error e => .error e

def callBalance : VaultCall A I128 := fun env v => .ok (A.balance v.tokens env.current, v)

end Primitives

/-! ## Arithmetic -/

def checkedAdd (left right : I128) : VaultCall A I128 :=
  unwrapOr (I128.checkedAdd left right) "amount overflow"

def checkedSub (left right : I128) : VaultCall A I128 :=
  unwrapOr ((I128.checkedSub left right).filter (0 ≤ BitVec.toInt ·)) "amount underflow"

/-- `left - right` under the overflow checks of the release profile. -/
def sub (left right : I128) : VaultCall A I128 :=
  unwrapOr (I128.checkedSub left right) "attempt to subtract with overflow"

def mulDivFloor (left right denominator : I128) : VaultCall A I128 := do
  failIf (left.toInt < 0 ∨ right.toInt < 0 ∨ denominator.toInt ≤ 0) "invalid arithmetic"
  let product ← unwrapOr (I128.checkedMul left right) "amount overflow"
  unwrapOr (I128.checkedDiv product denominator) "attempt to divide by zero"

/-! ## Views -/

def asset : VaultCall A Address := required (·.asset) "not initialized"

def operator : VaultCall A Address := required (·.operator) "not initialized"

def maker : VaultCall A Address := required (·.maker) "not initialized"

def upgradeAuthority : VaultCall A Address :=
  required (·.upgradeAuthority) "upgrade authority not configured"

def paused : VaultCall A Bool := do
  let _ ← asset
  get (·.paused.getD false)

def allocationLimitBps : VaultCall A ℕ := do
  let _ ← asset
  get (·.allocationLimitBps.getD 0)

def transfer (sender recipient : Address) (amount : I128) : VaultCall A Unit := do
  let _ ← asset
  callTransfer sender recipient amount

def liquidAssets : VaultCall A I128 := do
  let _ ← asset
  callBalance

def deployedPrincipal : VaultCall A I128 := do
  let _ ← asset
  checkedAdd (← get (·.deployedPrincipal)) (← get (·.otherSeriesPrincipal))

def totalShares : VaultCall A I128 := do
  let _ ← asset
  checkedAdd (← get (·.totalShares)) (← get (·.otherSeriesShares))

def deposited (owner : Address) : VaultCall A I128 := do
  let _ ← asset
  get (·.deposited owner)

def withdrawn (owner : Address) : VaultCall A I128 := do
  let _ ← asset
  get (·.withdrawn owner)

def totalAssets : VaultCall A I128 := do
  checkedAdd (← liquidAssets) (← deployedPrincipal)

def currentSeries : VaultCall A ℕ := do
  let _ ← asset
  get (·.currentSeries.getD 0)

def checkSeries (series : ℕ) : VaultCall A Unit := do
  failIf (series > (← currentSeries)) "unknown series"

def seriesLiquid (series : ℕ) : VaultCall A I128 := do
  checkSeries series
  if series = 0 then do
    checkedSub (← liquidAssets) (← get (·.otherSeriesLiquid))
  else
    get (·.seriesLiquid series)

/-- The keys of a series: series 0 has its own. -/
def Storage.principalOf (s : Storage) (series : ℕ) : I128 :=
  if series = 0 then s.deployedPrincipal else s.seriesPrincipal series

def Storage.supplyOf (s : Storage) (series : ℕ) : I128 :=
  if series = 0 then s.totalShares else s.seriesSupply series

def Storage.sharesOf (s : Storage) (series : ℕ) (owner : Address) : I128 :=
  if series = 0 then s.shares owner else s.seriesShares series owner

def Storage.pendingOf (s : Storage) (series : ℕ) (owner : Address) : I128 :=
  if series = 0 then s.pendingShares owner else s.seriesPendingShares series owner

def seriesPrincipal (series : ℕ) : VaultCall A I128 := do
  checkSeries series
  get (·.principalOf series)

def seriesPendingTotal (series : ℕ) : VaultCall A I128 := do
  checkSeries series
  get (·.seriesPendingTotal series)

def seriesAssets (series : ℕ) : VaultCall A I128 := do
  checkedAdd (← seriesLiquid series) (← seriesPrincipal series)

def seriesTotalShares (series : ℕ) : VaultCall A I128 := do
  checkSeries series
  get (·.supplyOf series)

def seriesShares (series : ℕ) (owner : Address) : VaultCall A I128 := do
  checkSeries series
  get (·.sharesOf series owner)

def seriesPendingShares (series : ℕ) (owner : Address) : VaultCall A I128 := do
  checkSeries series
  get (·.pendingOf series owner)

def depositSeries : VaultCall A ℕ := do
  let current ← currentSeries
  if (← seriesPrincipal current) = 0 then
    pure current
  else do
    failIf (current + 1 ≥ 2 ^ 32) "series overflow"
    pure (current + 1)

/-- The series in which an owner has shares, pending or not. -/
def ownerSeries (owner : Address) : VaultCall A (List ℕ) := do
  let _ ← asset
  let legacy ← get fun s => decide ((s.shares owner).toInt > 0 ∨ (s.pendingShares owner).toInt > 0)
  let known ← get (·.ownerSeries owner)
  let held ← get fun s => known.filter fun series =>
    (s.seriesShares series owner).toInt > 0 ∨ (s.seriesPendingShares series owner).toInt > 0
  pure (if legacy then 0 :: held else held)

/-- A loop over series with a running total. -/
def accumulate (body : ℕ → I128 → VaultCall A I128) : List ℕ → I128 → VaultCall A I128
  | [], total => pure total
  | series :: rest, total => do
    accumulate body rest (← body series total)

def shares (owner : Address) : VaultCall A I128 := do
  accumulate (fun series total => do checkedAdd total (← seriesShares series owner))
    (← ownerSeries owner) 0

def pendingShares (owner : Address) : VaultCall A I128 := do
  accumulate (fun series total => do checkedAdd total (← seriesPendingShares series owner))
    (← ownerSeries owner) 0

def seriesEquity (owner : Address) (series : ℕ) (total : I128) : VaultCall A I128 := do
  failIf ((← seriesPrincipal series) ≠ 0) "equity unavailable until settlement"
  let shares ← seriesShares series owner
  let supply ← seriesTotalShares series
  if supply.toInt > 0 then do
    checkedAdd total (← mulDivFloor shares (← seriesAssets series) supply)
  else
    pure total

def equity (owner : Address) : VaultCall A I128 := do
  accumulate (seriesEquity owner) (← ownerSeries owner) 0

/-! ## Books -/

/-- `adjust_other_total` on the key of a total. -/
def adjustOtherTotal (key : Storage → I128) (write : Storage → I128 → Storage) (old new : I128) :
    VaultCall A Unit := do
  let total ← get key
  let next ←
    (if new.toInt ≥ old.toInt then do
      checkedAdd total (← sub new old)
    else do
      checkedSub total (← sub old new))
  set fun s => write s next

def setSeriesLiquid (series : ℕ) (value : I128) : VaultCall A Unit := do
  failIf (series = 0 ∨ value.toInt < 0) "invalid series liquid"
  adjustOtherTotal (·.otherSeriesLiquid) (fun s next => { s with otherSeriesLiquid := next })
    (← get (·.seriesLiquid series)) value
  set fun s => { s with seriesLiquid := Function.update s.seriesLiquid series value }

def setSeriesPrincipal (series : ℕ) (value : I128) : VaultCall A Unit := do
  failIf (value.toInt < 0) "invalid series principal"
  if series = 0 then
    set fun s => { s with deployedPrincipal := value }
  else do
    adjustOtherTotal (·.otherSeriesPrincipal) (fun s next => { s with otherSeriesPrincipal := next })
      (← get (·.seriesPrincipal series)) value
    set fun s => { s with seriesPrincipal := Function.update s.seriesPrincipal series value }

def setSeriesSupply (series : ℕ) (value : I128) : VaultCall A Unit := do
  failIf (value.toInt < 0) "invalid series supply"
  if series = 0 then
    set fun s => { s with totalShares := value }
  else do
    adjustOtherTotal (·.otherSeriesShares) (fun s next => { s with otherSeriesShares := next })
      (← get (·.seriesSupply series)) value
    set fun s => { s with seriesSupply := Function.update s.seriesSupply series value }

/-- A write under `series_share_key`. -/
def setShares (series : ℕ) (owner : Address) (value : I128) : VaultCall A Unit :=
  set fun s =>
    if series = 0 then
      { s with shares := Function.update s.shares owner value }
    else
      { s with
        seriesShares := Function.update s.seriesShares series
          (Function.update (s.seriesShares series) owner value) }

/-- A write under `series_pending_key`. -/
def setPending (series : ℕ) (owner : Address) (value : I128) : VaultCall A Unit :=
  set fun s =>
    if series = 0 then
      { s with pendingShares := Function.update s.pendingShares owner value }
    else
      { s with
        seriesPendingShares := Function.update s.seriesPendingShares series
          (Function.update (s.seriesPendingShares series) owner value) }

def setPendingTotal (series : ℕ) (value : I128) : VaultCall A Unit :=
  set fun s => { s with seriesPendingTotal := Function.update s.seriesPendingTotal series value }

/-- The series of an owner after `prune_owner_series`; an empty list has no entry. -/
def pruneOwnerSeries (owner : Address) (series : ℕ) : VaultCall A Unit := do
  let shares ← get (·.sharesOf series owner)
  let pending ← get (·.pendingOf series owner)
  doIf (¬ (series = 0 ∨ shares ≠ 0 ∨ pending ≠ 0)) (set fun s =>
    { s with
      ownerSeries := Function.update s.ownerSeries owner
        ((s.ownerSeries owner).filter (· ≠ series)) })

/-! ## Administration -/

def maxAllocationBps : ℕ := 8000

/-- The constructor runs once, when the vault is deployed. -/
def construct (asset operator maker : Address) (allocationLimitBps : ℕ) : VaultCall A Unit := do
  requireAuth operator
  failIf (allocationLimitBps = 0 ∨ allocationLimitBps > maxAllocationBps) "invalid allocation limit"
  set fun s =>
    { s with
      asset := some asset
      operator := some operator
      maker := some maker
      paused := some true
      allocationLimitBps := some allocationLimitBps
      deployedPrincipal := 0
      totalShares := 0 }

def setUpgradeAuthority (authority : Address) : VaultCall A Unit := do
  let operator ← operator
  requireAuth operator
  failIf (authority = operator ∨ (← get (·.upgradeAuthority.isSome))) "invalid upgrade authority"
  failIf ((← totalShares) ≠ 0) "invalid upgrade authority"
  failIf ((← deployedPrincipal) ≠ 0) "invalid upgrade authority"
  failIf ((← liquidAssets) ≠ 0) "invalid upgrade authority"
  set fun s => { s with upgradeAuthority := some authority }

def rotateUpgradeAuthority (authority : Address) : VaultCall A Unit := do
  requireAuth (← upgradeAuthority)
  failIf (authority = (← operator)) "upgrade authority must differ from operator"
  set fun s => { s with upgradeAuthority := some authority }

def setPaused (paused : Bool) : VaultCall A Unit := do
  requireAuth (← operator)
  set fun s => { s with paused := some paused }

def setAllocationLimit (allocationLimitBps : ℕ) : VaultCall A Unit := do
  requireAuth (← operator)
  failIf (¬ (← paused)) "vault must be settled and paused"
  failIf ((← deployedPrincipal) ≠ 0) "vault must be settled and paused"
  failIf (allocationLimitBps = 0 ∨ allocationLimitBps > maxAllocationBps) "invalid allocation limit"
  set fun s => { s with allocationLimitBps := some allocationLimitBps }

/-! ## Lending -/

def allocate (series : ℕ) (amount : I128) : VaultCall A Unit := do
  requireAuth (← operator)
  failIf (series > (← currentSeries) ∨ amount.toInt ≤ 0) "allocation unavailable"
  failIf ((← seriesTotalShares series) = 0) "allocation unavailable"
  failIf ((← seriesPendingTotal series) ≠ 0) "allocation unavailable"
  let deployed ← seriesPrincipal series
  let next ← checkedAdd deployed amount
  let limit := BitVec.ofNat 128 (← allocationLimitBps)
  let cap ← mulDivFloor (← totalAssets) limit 10000
  let seriesCap ← mulDivFloor (← seriesAssets series) limit 10000
  let total ← checkedAdd (← deployedPrincipal) amount
  failIf (total.toInt > cap.toInt ∨ next.toInt > seriesCap.toInt) "allocation exceeds limit"
  failIf (amount.toInt > BitVec.toInt (← seriesLiquid series)) "allocation exceeds limit"
  transfer (← currentContract) (← maker) amount
  setSeriesPrincipal series next
  doIf (0 < series) (do
    setSeriesLiquid series (← checkedSub (← seriesLiquid series) amount))

def settle (series : ℕ) (principal returned : I128) : VaultCall A Unit := do
  requireAuth (← operator)
  let deployed ← seriesPrincipal series
  failIf (principal.toInt ≤ 0 ∨ principal.toInt > deployed.toInt ∨ returned.toInt ≤ 0)
    "invalid settlement"
  transfer (← maker) (← currentContract) returned
  setSeriesPrincipal series (← sub deployed principal)
  doIf (0 < series) (do
    setSeriesLiquid series (← checkedAdd (← seriesLiquid series) returned))

def recordLoss (series : ℕ) (principal : I128) : VaultCall A Unit := do
  requireAuth (← operator)
  let deployed ← seriesPrincipal series
  failIf (principal.toInt ≤ 0 ∨ principal.toInt > deployed.toInt) "invalid loss"
  setSeriesPrincipal series (← sub deployed principal)

def recoverUnowned (recipient : Address) : VaultCall A I128 := do
  requireAuth (← operator)
  failIf ((← totalShares) ≠ 0) "shares outstanding"
  failIf ((← deployedPrincipal) ≠ 0) "shares outstanding"
  let amount ← liquidAssets
  doIf (amount.toInt > 0) (do transfer (← currentContract) recipient amount)
  pure amount

/-! ## Shares -/

/-- The shares that a deposit of `amount` buys. -/
def mintedShares (amount assets supply : I128) : VaultCall A I128 :=
  if supply = 0 then do
    failIf (assets ≠ 0) "unowned assets"
    pure amount
  else do
    failIf (assets.toInt ≤ 0) "vault insolvent"
    mulDivFloor amount supply assets

def deposit (owner : Address) (series : ℕ) (amount minShares : I128) : VaultCall A I128 := do
  requireAuth owner
  failIf (← paused) "vault paused"
  failIf (series ≠ (← depositSeries)) "vault paused"
  failIf (amount.toInt ≤ 0 ∨ minShares.toInt < 0) "invalid amount"
  let fresh := decide (series > (← currentSeries))
  let assets ← (if fresh then pure 0 else seriesAssets series)
  let supply ← (if fresh then pure 0 else seriesTotalShares series)
  let minted ← mintedShares amount assets supply
  failIf (minted = 0 ∨ minted.toInt < minShares.toInt) "insufficient shares"
  transfer owner (← currentContract) amount
  doIf fresh (set fun s => { s with currentSeries := some series })
  let ownerShares ← seriesShares series owner
  let priorDeposits ← deposited owner
  setShares series owner (← checkedAdd ownerShares minted)
  let deposits ← checkedAdd priorDeposits amount
  set fun s => { s with deposited := Function.update s.deposited owner deposits }
  setSeriesSupply series (← checkedAdd supply minted)
  doIf (0 < series) (do
    setSeriesLiquid series (← checkedAdd (← seriesLiquid series) amount)
    set fun s =>
      { s with
        ownerSeries := Function.update s.ownerSeries owner
          (if series ∈ s.ownerSeries owner then s.ownerSeries owner
            else s.ownerSeries owner ++ [series]) })
  pure minted

def redeem (owner : Address) (series : ℕ) (shares minAssets : I128) : VaultCall A I128 := do
  failIf ((← seriesPrincipal series) ≠ 0) "allocation outstanding"
  failIf (shares.toInt ≤ 0 ∨ minAssets.toInt < 0) "invalid amount"
  let balance ← seriesShares series owner
  failIf (shares.toInt > balance.toInt) "insufficient shares"
  let supply ← seriesTotalShares series
  let assets ← seriesLiquid series
  let amount ← (if shares = supply then pure assets else mulDivFloor shares assets supply)
  failIf ((amount = 0 ∧ assets.toInt > 0) ∨ amount.toInt < minAssets.toInt) "insufficient assets"
  setShares series owner (← sub balance shares)
  setSeriesSupply series (← sub supply shares)
  doIf (0 < series) (do setSeriesLiquid series (← checkedSub assets amount))
  let withdrawals ← checkedAdd (← withdrawn owner) amount
  set fun s => { s with withdrawn := Function.update s.withdrawn owner withdrawals }
  transfer (← currentContract) owner amount
  pure amount

def withdraw (owner : Address) (series : ℕ) (shares minAssets : I128) : VaultCall A I128 := do
  requireAuth owner
  let available ← sub (← seriesShares series owner) (← seriesPendingShares series owner)
  failIf (shares.toInt > available.toInt) "shares requested for withdrawal"
  let amount ← redeem owner series shares minAssets
  pruneOwnerSeries owner series
  pure amount

def requestWithdraw (owner : Address) (series : ℕ) (shares : I128) : VaultCall A Unit := do
  requireAuth owner
  let available ← sub (← seriesShares series owner) (← seriesPendingShares series owner)
  failIf (shares.toInt ≤ 0 ∨ shares.toInt > available.toInt) "insufficient shares"
  let pending ← seriesPendingShares series owner
  setPending series owner (← checkedAdd pending shares)
  setPendingTotal series (← checkedAdd (← seriesPendingTotal series) shares)

def cancelWithdrawRequest (owner : Address) (series : ℕ) (shares : I128) : VaultCall A Unit := do
  requireAuth owner
  let pending ← seriesPendingShares series owner
  failIf (shares.toInt ≤ 0 ∨ shares.toInt > pending.toInt) "insufficient pending shares"
  setPending series owner (← sub pending shares)
  setPendingTotal series (← checkedSub (← seriesPendingTotal series) shares)

def claimWithdrawal (owner : Address) (series : ℕ) (minAssets : I128) : VaultCall A I128 := do
  requireAuth owner
  let shares ← seriesPendingShares series owner
  let amount ← redeem owner series shares minAssets
  setPending series owner 0
  setPendingTotal series (← checkedSub (← seriesPendingTotal series) shares)
  pruneOwnerSeries owner series
  pure amount

/-! ## The system -/

/-- A call of the vault. -/
inductive Call where
  | setUpgradeAuthority (authority : Address)
  | rotateUpgradeAuthority (authority : Address)
  | setPaused (paused : Bool)
  | setAllocationLimit (allocationLimitBps : ℕ)
  | allocate (series : ℕ) (amount : I128)
  | settle (series : ℕ) (principal returned : I128)
  | recordLoss (series : ℕ) (principal : I128)
  | recoverUnowned (recipient : Address)
  | deposit (owner : Address) (series : ℕ) (amount minShares : I128)
  | withdraw (owner : Address) (series : ℕ) (shares minAssets : I128)
  | requestWithdraw (owner : Address) (series : ℕ) (shares : I128)
  | cancelWithdrawRequest (owner : Address) (series : ℕ) (shares : I128)
  | claimWithdrawal (owner : Address) (series : ℕ) (minAssets : I128)
  deriving DecidableEq

/-- The function of a call. -/
def Call.run : Call → VaultCall A Unit
  | .setUpgradeAuthority authority => LiquidityVault.setUpgradeAuthority authority
  | .rotateUpgradeAuthority authority => LiquidityVault.rotateUpgradeAuthority authority
  | .setPaused paused => LiquidityVault.setPaused paused
  | .setAllocationLimit allocationLimitBps => LiquidityVault.setAllocationLimit allocationLimitBps
  | .allocate series amount => LiquidityVault.allocate series amount
  | .settle series principal returned => LiquidityVault.settle series principal returned
  | .recordLoss series principal => LiquidityVault.recordLoss series principal
  | .recoverUnowned recipient => do
    let _ ← LiquidityVault.recoverUnowned recipient
  | .deposit owner series amount minShares => do
    let _ ← LiquidityVault.deposit owner series amount minShares
  | .withdraw owner series shares minAssets => do
    let _ ← LiquidityVault.withdraw owner series shares minAssets
  | .requestWithdraw owner series shares => LiquidityVault.requestWithdraw owner series shares
  | .cancelWithdrawRequest owner series shares =>
    LiquidityVault.cancelWithdrawRequest owner series shares
  | .claimWithdrawal owner series minAssets => do
    let _ ← LiquidityVault.claimWithdrawal owner series minAssets

/-- A call of the vault, or a step of the token that the vault has no part in. -/
inductive Action (A : Asset) where
  | invoke (signers : List Address) (call : Call)
  | tokens (state : A.State)

/-- A call that panics changes nothing. Without the vault, tokens may reach it but not leave it. -/
def step (vault : Address) (v : Vault A) : Action A → Except String (Vault A)
  | .invoke signers call => (call.run ⟨signers, vault⟩ v).map Prod.snd
  | .tokens t =>
    if (A.balance v.tokens vault).toInt ≤ (A.balance t vault).toInt then
      .ok { v with tokens := t }
    else
      .error "not authorized"

theorem step_invoke_eq_ok {vault : Address} {v v' : Vault A} {signers : List Address}
    {call : Call} : step vault v (.invoke signers call) = .ok v' ↔
      Returns call.run ⟨signers, vault⟩ v () v' := by
  show (call.run ⟨signers, vault⟩ v).map Prod.snd = .ok v' ↔
    call.run ⟨signers, vault⟩ v = .ok ((), v')
  cases call.run ⟨signers, vault⟩ v with
  | error e => simp [Except.map]
  | ok p => simp [Except.map, Prod.ext_iff]

end Pnlx.LiquidityVault
