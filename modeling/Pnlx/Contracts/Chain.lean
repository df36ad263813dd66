import Mathlib.Logic.Function.Basic
import Pnlx.Host
import Pnlx.Lib.Program

/-!
# The ledger and the programs of the contracts

The persistent storage of each contract, one field for each of its keys, and the ledger that holds
the storage of every contract instance. A contract function is a `Program` over the ledger in the
environment of its call: a panic rolls back everything the call has done.

`Chain.Grows` says that no record has been removed from the ledger: nullifiers, commitments and
settlements stay. Every call of every contract respects it.
-/

namespace Pnlx

open Program

/-! ## Data types of the contracts -/

structure ProofMeta where
  circuitId : BytesN32
  circuitHash : BytesN32
  verifierHash : BytesN32
  publicInputHash : BytesN32
  proofDigest : BytesN32
  deriving DecidableEq

structure FeeReserve where
  insurance : I128
  treasury : I128
  deriving DecidableEq

structure FeeDestinations where
  insurance : Address
  treasury : Address
  deriving DecidableEq

structure IntentMeta where
  batchId : BytesN32
  marketId : BytesN32
  matchingPayloadCommitment : BytesN32
  deriving DecidableEq

structure MarketConfig where
  oracleContract : Address
  oracleKind : String
  oracleAsset : OracleAsset
  beamFeeToken : Option Address
  oracleMaxAge : ℕ
  oracleTwapRecords : ℕ
  priceDecimals : ℕ
  maxLeverage : I128
  initialRate : I128
  maintenanceRate : I128
  fundingIndex : I128
  active : Bool
  deriving DecidableEq

structure MarketPrice where
  price : I128
  timestamp : ℕ
  deriving DecidableEq

structure AppendReceipt where
  count : ℕ
  firstIndex : ℕ
  root : BytesN32
  deriving DecidableEq

structure ConditionalOrderMeta where
  marketId : BytesN32
  positionNullifier : BytesN32
  deriving DecidableEq

structure ConditionalTriggerMeta where
  marketId : BytesN32
  markPrice : I128
  positionNullifier : BytesN32
  proof : ProofMeta
  deriving DecidableEq

structure PositionCloseMeta where
  marketId : BytesN32
  markPrice : I128
  positionCommitment : BytesN32
  positionNullifier : BytesN32
  positionRoot : BytesN32
  newPositionCommitment : BytesN32
  outputPositionIndex : ℕ
  outputPositionRoot : BytesN32
  marginOutputCommitment : BytesN32
  proof : ProofMeta
  deriving DecidableEq

structure LiquidationMeta where
  marketId : BytesN32
  markPrice : I128
  maintenanceRate : I128
  positionCommitment : BytesN32
  positionRoot : BytesN32
  proof : ProofMeta
  rewardCommitment : BytesN32
  deriving DecidableEq

structure FundingSettlementMeta where
  elapsedMs : U64
  intervalMs : U64
  markPrice : I128
  maxDelta : I128
  maxDeltaEnabled : Bool
  newIndex : I128
  oldIndex : I128
  premiumRate : I128
  proof : ProofMeta
  deriving DecidableEq

structure SettlementMeta where
  settlementDigest : BytesN32
  firstPositionIndex : ℕ
  positionRoot : BytesN32
  proof : ProofMeta
  oraclePrice : I128
  oracleTimestamp : ℕ
  volume : I128
  residual : I128
  feeConfigHash : BytesN32
  grossTakerFee : I128
  makerRebate : I128
  insuranceFee : I128
  treasuryFee : I128
  deriving DecidableEq

/-! ## Storage

A key with a constant value is a `Bool`, any other key an `Option`. -/

structure GovernanceStorage where
  admin : Option Address
  upgradeAuthority : Option Address
  paused : Option Bool
  verifier : BytesN32 → Option BytesN32
  verifierAuthority : BytesN32 → Option Address

/-- The key of a recorded proof: circuit, verifier, public input hash and proof digest. -/
structure ProofKey where
  circuitId : BytesN32
  verifierHash : BytesN32
  publicInputHash : BytesN32
  proofDigest : BytesN32
  deriving DecidableEq

structure ProofLedgerStorage where
  governance : Option Address
  proof : ProofKey → Bool

structure MarketStorage where
  fundingUpdater : Address → Option Bool
  governance : Option Address
  market : BytesN32 → Option MarketConfig

structure IntentRegistryStorage where
  intent : BytesN32 → Option IntentMeta
  batch : BytesN32 × BytesN32 → Bool
  cancelled : BytesN32 → Bool
  nextSubmissionSequence : Option ℕ
  submissionSequence : BytesN32 → Option ℕ
  settler : Option Address
  operator : Option Address
  upgradeAuthority : Option Address

structure PositionStateStorage where
  currentRoot : Option BytesN32
  empty : ℕ → Option BytesN32
  frontier : ℕ → Option BytesN32
  governance : Option Address
  leafCount : Option ℕ
  poseidon2Root : BytesN32 → Bool
  spent : BytesN32 → Option BytesN32
  treeHashVersion : Option ℕ
  writer : Address → Option Bool

structure ShieldedPoolStorage where
  commitment : BytesN32 → Bool
  nullifier : BytesN32 → Bool
  assetWithdrawal : BytesN32 → Option (Address × BytesN32 × Address × I128 × ProofMeta)
  withdrawal : BytesN32 → Option (BytesN32 × BytesN32 × I128 × ProofMeta)
  governance : Option Address
  proofLedger : Option Address
  depositCircuit : Option BytesN32
  withdrawCircuit : Option BytesN32
  writer : Address → Option Bool
  feeReserve : Address → Option FeeReserve
  feePaid : Address → Option FeeReserve
  feeDestinations : Option FeeDestinations

structure ConditionalOrderStorage where
  order : BytesN32 → Option ConditionalOrderMeta
  trigger : BytesN32 → Option ConditionalTriggerMeta
  governance : Option Address
  marketContract : Option Address
  proofLedger : Option Address
  circuit : Option BytesN32

structure PositionCloseStorage where
  close : BytesN32 → Option PositionCloseMeta
  positionSpent : BytesN32 → Bool
  conditionalOrder : Option Address
  governance : Option Address
  marketContract : Option Address
  positionState : Option Address
  proofLedger : Option Address
  circuit : Option BytesN32

structure LiquidationStorage where
  liquidated : BytesN32 → Option LiquidationMeta
  governance : Option Address
  marketContract : Option Address
  positionState : Option Address
  proofLedger : Option Address
  circuit : Option BytesN32

structure FundingSettlementStorage where
  funding : BytesN32 × I128 × I128 → Option FundingSettlementMeta
  governance : Option Address
  proofLedger : Option Address
  marketContract : Option Address
  circuit : Option BytesN32

structure BatchSettlementStorage where
  batch : BytesN32 × BytesN32 → Option SettlementMeta
  governance : Option Address
  proofLedger : Option Address
  marketContract : Option Address
  positionState : Option Address
  shieldedPool : Option Address
  intentRegistry : Option Address
  circuit : Option BytesN32
  feeToken : Option Address
  residualMargin : BytesN32 → Option I128
  claimedResidual : BytesN32 → Option BytesN32

/-- The contracts of the protocol. -/
inductive Kind where
  | governance
  | proofLedger
  | market
  | intentRegistry
  | positionState
  | shieldedPool
  | conditionalOrder
  | positionClose
  | liquidation
  | fundingSettlement
  | batchSettlement
  deriving DecidableEq

@[reducible] def Kind.Storage : Kind → Type
  | .governance => GovernanceStorage
  | .proofLedger => ProofLedgerStorage
  | .market => MarketStorage
  | .intentRegistry => IntentRegistryStorage
  | .positionState => PositionStateStorage
  | .shieldedPool => ShieldedPoolStorage
  | .conditionalOrder => ConditionalOrderStorage
  | .positionClose => PositionCloseStorage
  | .liquidation => LiquidationStorage
  | .fundingSettlement => FundingSettlementStorage
  | .batchSettlement => BatchSettlementStorage

/-- The storage of a contract that nobody has initialised. -/
def Kind.blank : (k : Kind) → k.Storage
  | .governance => ⟨none, none, none, fun _ => none, fun _ => none⟩
  | .proofLedger => ⟨none, fun _ => false⟩
  | .market => ⟨fun _ => none, none, fun _ => none⟩
  | .intentRegistry =>
    ⟨fun _ => none, fun _ => false, fun _ => false, none, fun _ => none, none, none, none⟩
  | .positionState =>
    ⟨none, fun _ => none, fun _ => none, none, none, fun _ => false, fun _ => none, none,
      fun _ => none⟩
  | .shieldedPool =>
    ⟨fun _ => false, fun _ => false, fun _ => none, fun _ => none, none, none, none, none,
      fun _ => none, fun _ => none, fun _ => none, none⟩
  | .conditionalOrder => ⟨fun _ => none, fun _ => none, none, none, none, none⟩
  | .positionClose => ⟨fun _ => none, fun _ => false, none, none, none, none, none, none⟩
  | .liquidation => ⟨fun _ => none, none, none, none, none, none⟩
  | .fundingSettlement => ⟨fun _ => none, none, none, none, none⟩
  | .batchSettlement =>
    ⟨fun _ => none, none, none, none, none, none, none, none, none, fun _ => none, fun _ => none⟩

/-! ## The ledger -/

/-- The storage of every contract instance, and the state of the external code. -/
structure Chain (H : Host) where
  storage : (k : Kind) → Address → k.Storage
  external : H.State

namespace Chain

variable {H : Host}

/-- The ledger before any contract has been initialised. -/
def blank (e : H.State) : Chain H := ⟨fun k _ => k.blank, e⟩

/-- The ledger with the storage of one contract updated. -/
def modify (c : Chain H) (k : Kind) (a : Address) (f : k.Storage → k.Storage) : Chain H :=
  { c with
    storage := Function.update c.storage k (Function.update (c.storage k) a (f (c.storage k a))) }

variable {c : Chain H} {k k' : Kind} {a a' : Address} {f : k.Storage → k.Storage}

@[simp] theorem storage_modify_self : (c.modify k a f).storage k a = f (c.storage k a) := by
  unfold modify; simp only [Function.update_self]

theorem storage_modify_of_kind (h : k' ≠ k) : (c.modify k a f).storage k' a' = c.storage k' a' := by
  unfold modify; simp only [Function.update_of_ne h]

theorem storage_modify_of_address (h : a' ≠ a) :
    (c.modify k a f).storage k a' = c.storage k a' := by
  unfold modify; simp only [Function.update_self, Function.update_of_ne h]

@[simp] theorem external_modify : (c.modify k a f).external = c.external := rfl

end Chain

/-! ## Calls -/

/-- The environment of a call: who has authorised it, which contract made it, the contract that
runs, and the ledger time. -/
structure Env where
  signers : List Address
  invoker : Option Address
  current : Address
  timestamp : ℕ

/-- The environment of a call that the running contract makes. -/
def Env.invoke (callee : Address) (env : Env) : Env :=
  { env with invoker := some env.current, current := callee }

namespace Env

variable (callee : Address) (env : Env)

@[simp] theorem current_invoke : (env.invoke callee).current = callee := rfl

@[simp] theorem invoker_invoke : (env.invoke callee).invoker = some env.current := rfl

@[simp] theorem signers_invoke : (env.invoke callee).signers = env.signers := rfl

@[simp] theorem timestamp_invoke : (env.invoke callee).timestamp = env.timestamp := rfl

end Env

abbrev Contract (H : Host) := Program Env (Chain H) String

section Primitives

variable {H : Host} {α : Type} {env : Env} {c c' : Chain H}

/-- A reading of the running contract's storage. -/
def load (k : Kind) (key : k.Storage → α) : Contract H α :=
  fun env c => .ok (key (c.storage k env.current), c)

/-- `storage.get(key).unwrap_or_else(|| panic!(message))`. -/
def stored (k : Kind) (key : k.Storage → Option α) (message : String) : Contract H α := do
  unwrapOr (← load k key) message

def modifyStorage (k : Kind) (f : k.Storage → k.Storage) : Contract H Unit :=
  fun env c => .ok ((), c.modify k env.current f)

/-- A call of another contract. -/
def call (callee : Address) (x : Contract H α) : Contract H α := within (Env.invoke callee) x

/-- `address.require_auth()`. A contract authorises the calls that it makes itself. -/
def requireAuth (address : Address) : Contract H Unit := do
  let env ← environment
  failIf (¬ (address ∈ env.signers ∨ env.invoker = some address)) "not authorized"

def currentContract : Contract H Address := fun env c => .ok (env.current, c)

def ledgerTimestamp : Contract H ℕ := fun env c => .ok (env.timestamp, c)

/-- A call of external code that reads its state. -/
def queryExternal (f : H.State → Except String α) : Contract H α := fun env c =>
  lift (f c.external) env c

/-- A call of external code that updates its state. -/
def runExternal (f : H.State → Except String (α × H.State)) : Contract H α := fun _ c =>
  match f c.external with
  | .ok (a, e) => .ok (a, { c with external := e })
  | .error e => .error e

def validateHash (value : BytesN32) : Contract H Unit := failIf (value = 0) "invalid proof"

@[simp] theorem returns_load {k : Kind} {key : k.Storage → α} {a : α} :
    Returns (load k key) env c a c' ↔ a = key (c.storage k env.current) ∧ c' = c :=
  returns_pure (r := env)

@[simp] theorem returns_stored {k : Kind} {key : k.Storage → Option α} {message : String} {a : α} :
    Returns (stored k key message) env c a c' ↔
      key (c.storage k env.current) = some a ∧ c' = c := by
  unfold stored
  simp only [returns_bind, returns_load, returns_unwrapOr]
  constructor
  · rintro ⟨_, _, ⟨rfl, rfl⟩, h⟩
    exact h
  · exact fun h => ⟨_, c, ⟨rfl, rfl⟩, h⟩

@[simp] theorem returns_modifyStorage {k : Kind} {f : k.Storage → k.Storage} {u : Unit} :
    Returns (modifyStorage k f) env c u c' ↔ c' = c.modify k env.current f := by
  unfold Returns modifyStorage
  rw [Except.ok.injEq, Prod.mk.injEq, eq_comm (b := c')]
  exact and_iff_right rfl

@[simp] theorem returns_call {callee : Address} {x : Contract H α} {a : α} :
    Returns (call callee x) env c a c' ↔ Returns x (env.invoke callee) c a c' := Iff.rfl

@[simp] theorem returns_requireAuth {address : Address} {u : Unit} :
    Returns (requireAuth address) env c u c' ↔
      (address ∈ env.signers ∨ env.invoker = some address) ∧ c' = c := by
  unfold requireAuth
  simp only [returns_bind, returns_environment, returns_failIf, not_not]
  constructor
  · rintro ⟨_, _, ⟨rfl, rfl⟩, h⟩
    exact h
  · exact fun h => ⟨env, c, ⟨rfl, rfl⟩, h⟩

@[simp] theorem returns_currentContract {a : Address} :
    Returns currentContract env c a c' ↔ a = env.current ∧ c' = c := returns_pure (r := env)

@[simp] theorem returns_ledgerTimestamp {t : ℕ} :
    Returns ledgerTimestamp env c t c' ↔ t = env.timestamp ∧ c' = c := returns_pure (r := env)

@[simp] theorem returns_queryExternal {f : H.State → Except String α} {a : α} :
    Returns (queryExternal f) env c a c' ↔ f c.external = .ok a ∧ c' = c := returns_lift (r := env)

@[simp] theorem returns_runExternal {f : H.State → Except String (α × H.State)} {a : α} :
    Returns (runExternal f) env c a c' ↔
      ∃ e, f c.external = .ok (a, e) ∧ c' = { c with external := e } := by
  unfold Returns runExternal
  cases f c.external with
  | error e => exact ⟨fun h => (nomatch h), fun ⟨_, h, _⟩ => (nomatch h)⟩
  | ok p =>
    simp only [Except.ok.injEq, Prod.mk.injEq]
    constructor
    · rintro ⟨rfl, rfl⟩
      exact ⟨p.2, rfl, rfl⟩
    · rintro ⟨e, rfl, rfl⟩
      exact ⟨rfl, rfl⟩

@[simp] theorem returns_validateHash {value : BytesN32} {u : Unit} :
    Returns (validateHash value) env c u c' ↔ value ≠ 0 ∧ c' = c := returns_failIf

end Primitives

/-! ## Records are never removed -/

section Records

variable {κ : Type} [DecidableEq κ]

theorem record_true {f : κ → Bool} (k : κ) {x : κ} (h : f x) : Function.update f k true x := by
  by_cases hx : x = k
  · rw [hx, Function.update_self]
  · rwa [Function.update_of_ne hx]

theorem record_some {β : Type} {f : κ → Option β} (k : κ) (v : β) {x : κ} (h : (f x).isSome) :
    (Function.update f k (some v) x).isSome := by
  by_cases hx : x = k
  · rw [hx, Function.update_self, Option.isSome_some]
  · rwa [Function.update_of_ne hx]

end Records

/-- Every record of `s` is a record of `s'`. -/
def Kind.Grows : (k : Kind) → k.Storage → k.Storage → Prop
  | .proofLedger, s, s' => ∀ x, s.proof x → s'.proof x
  | .intentRegistry, s, s' =>
    (∀ x, (s.intent x).isSome → (s'.intent x).isSome) ∧ (∀ x, s.cancelled x → s'.cancelled x)
  | .positionState, s, s' =>
    (∀ x, (s.spent x).isSome → (s'.spent x).isSome) ∧ (∀ x, s.poseidon2Root x → s'.poseidon2Root x)
  | .shieldedPool, s, s' =>
    (∀ x, s.commitment x → s'.commitment x) ∧ (∀ x, s.nullifier x → s'.nullifier x)
  | .conditionalOrder, s, s' =>
    (∀ x, (s.order x).isSome → (s'.order x).isSome) ∧
      (∀ x, (s.trigger x).isSome → (s'.trigger x).isSome)
  | .positionClose, s, s' =>
    (∀ x, (s.close x).isSome → (s'.close x).isSome) ∧
      (∀ x, s.positionSpent x → s'.positionSpent x)
  | .liquidation, s, s' => ∀ x, (s.liquidated x).isSome → (s'.liquidated x).isSome
  | .fundingSettlement, s, s' => ∀ x, (s.funding x).isSome → (s'.funding x).isSome
  | .batchSettlement, s, s' => ∀ x, (s.batch x).isSome → (s'.batch x).isSome
  | _, _, _ => True

theorem Kind.Grows.refl (k : Kind) (s : k.Storage) : k.Grows s s := by
  cases k <;> simp [Kind.Grows]

theorem Kind.Grows.trans {k : Kind} {s t u : k.Storage} (h : k.Grows s t) (h' : k.Grows t u) :
    k.Grows s u := by
  cases k <;> simp only [Kind.Grows] at * <;> grind

/-- Every record of `c` is a record of `c'`. -/
def Chain.Grows {H : Host} (c c' : Chain H) : Prop :=
  ∀ (k : Kind) (a : Address), k.Grows (c.storage k a) (c'.storage k a)

namespace Chain.Grows

variable {H : Host} {c c' : Chain H}

instance : Std.Refl (Chain.Grows (H := H)) := ⟨fun _ k _ => Kind.Grows.refl k _⟩

instance : IsTrans (Chain H) Chain.Grows := ⟨fun _ _ _ h h' k a => (h k a).trans (h' k a)⟩

theorem modify {k : Kind} {a : Address} {f : k.Storage → k.Storage}
    (h : k.Grows (c.storage k a) (f (c.storage k a))) : c.Grows (c.modify k a f) := by
  intro k' a'
  by_cases hk : k' = k
  · subst hk
    by_cases ha : a' = a
    · subst ha
      rw [storage_modify_self]
      exact h
    · rw [storage_modify_of_address ha]
      exact Kind.Grows.refl k' _
  · rw [storage_modify_of_kind hk]
    exact Kind.Grows.refl k' _

end Chain.Grows

/-- The two ledgers agree up to the state of the external code. -/
def Chain.SameStorage {H : Host} (c c' : Chain H) : Prop := c'.storage = c.storage

instance {H : Host} : Std.Refl (Chain.SameStorage (H := H)) := ⟨fun _ => rfl⟩

instance {H : Host} : IsTrans (Chain H) Chain.SameStorage := ⟨fun _ _ _ h h' => h'.trans h⟩

theorem Chain.SameStorage.grows {H : Host} {c c' : Chain H} (h : c.SameStorage c') : c.Grows c' := by
  intro k a
  rw [show c'.storage = c.storage from h]
  exact Kind.Grows.refl k _

/-- The two ledgers agree outside the contracts of one kind, up to the external code. -/
def Chain.SameOutside {H : Host} (k : Kind) (c c' : Chain H) : Prop :=
  ∀ k', k' ≠ k → c'.storage k' = c.storage k'

instance {H : Host} {k : Kind} : Std.Refl (Chain.SameOutside (H := H) k) := ⟨fun _ _ _ => rfl⟩

instance {H : Host} {k : Kind} : IsTrans (Chain H) (Chain.SameOutside k) :=
  ⟨fun _ _ _ h h' k' hk => (h' k' hk).trans (h k' hk)⟩

/-- A contract function that removes no record. -/
abbrev Keeps {H : Host} {α : Type} (x : Contract H α) : Prop := Respects Chain.Grows x

section Respects

variable {H : Host} {α : Type} {R : Chain H → Chain H → Prop}

theorem keeps_modifyStorage {k : Kind} {f : k.Storage → k.Storage} (hf : ∀ s, k.Grows s (f s)) :
    Keeps (H := H) (modifyStorage k f) where
  rel h := by rw [returns_modifyStorage.mp h]; exact Chain.Grows.modify (hf _)

instance sameOutside_modifyStorage {k : Kind} {f : k.Storage → k.Storage} :
    Respects (Chain.SameOutside (H := H) k) (modifyStorage k f) where
  rel h := by
    rw [returns_modifyStorage.mp h]
    intro k' hk
    funext a
    exact Chain.storage_modify_of_kind hk

instance sameStorage_runExternal {f : H.State → Except String (α × H.State)} :
    Respects Chain.SameStorage (runExternal f : Contract H α) where
  rel h := by
    obtain ⟨e, -, rfl⟩ := returns_runExternal.mp h
    rfl

theorem keeps_of_sameStorage {x : Contract H α} (hx : Respects Chain.SameStorage x) : Keeps x :=
  hx.mono fun _ _ => Chain.SameStorage.grows

instance keeps_runExternal {f : H.State → Except String (α × H.State)} :
    Keeps (runExternal f : Contract H α) := keeps_of_sameStorage inferInstance

instance respects_call {callee : Address} {x : Contract H α} [Respects R x] :
    Respects R (call callee x) := Respects.within

variable [Std.Refl R]

instance respects_load {k : Kind} {key : k.Storage → α} :
    Respects R (load k key : Contract H α) :=
  Respects.of_eq fun h => (returns_load.mp h).2

instance respects_stored {k : Kind} {key : k.Storage → Option α} {message : String} :
    Respects R (stored k key message : Contract H α) :=
  Respects.of_eq fun h => (returns_stored.mp h).2

instance respects_requireAuth {address : Address} :
    Respects R (requireAuth address : Contract H Unit) :=
  Respects.of_eq fun h => (returns_requireAuth.mp h).2

instance respects_currentContract : Respects R (currentContract : Contract H Address) :=
  Respects.of_eq fun h => (returns_currentContract.mp h).2

instance respects_ledgerTimestamp : Respects R (ledgerTimestamp : Contract H ℕ) :=
  Respects.of_eq fun h => (returns_ledgerTimestamp.mp h).2

instance respects_queryExternal {f : H.State → Except String α} :
    Respects R (queryExternal f : Contract H α) :=
  Respects.of_eq fun h => (returns_queryExternal.mp h).2

instance respects_validateHash {value : BytesN32} :
    Respects R (validateHash value : Contract H Unit) :=
  Respects.of_eq fun h => (returns_validateHash.mp h).2

end Respects

end Pnlx
