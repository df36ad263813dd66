import Pnlx.Lib.Overlay
import Pnlx.Frames

/-!
# The commitment sets of the pools

The contracts read the commitment set of a pool in one place only, where they record a commitment.
So a call does the same on a ledger whose pools have more commitments, unless it records one of
those: then it fails. `commitmentOverlay A` adds the commitments `A` to the pools, and the
instances below say that the calls which record commitments follow it.
-/

namespace Pnlx

open Program

variable {H : Host}

/-- The ledger with more commitments in its pools. -/
def Chain.addCommitments (A : Address → BytesN32 → Bool) (c : Chain H) : Chain H :=
  { c with
    storage := Function.update c.storage .shieldedPool fun p =>
      { c.storage .shieldedPool p with
        commitment := fun k => (c.storage .shieldedPool p).commitment k || A p k } }

/-- A step from `c` to `c'` records the commitment `k` in the pool `p`. -/
def RecordsCommitment (c c' : Chain H) (p : Address) (k : BytesN32) : Prop :=
  ¬ (c.storage .shieldedPool p).commitment k ∧ (c'.storage .shieldedPool p).commitment k

section Add

variable {A : Address → BytesN32 → Bool} {c : Chain H} {k : Kind} {a : Address}

theorem storage_addCommitments (hk : k ≠ .shieldedPool) :
    (c.addCommitments A).storage k = c.storage k :=
  Function.update_of_ne hk _ _

@[simp] theorem storage_addCommitments_pool : (c.addCommitments A).storage .shieldedPool a =
    { c.storage .shieldedPool a with
      commitment := fun k => (c.storage .shieldedPool a).commitment k || A a k } := by
  unfold Chain.addCommitments
  simp only [Function.update_self]

@[simp] theorem external_addCommitments : (c.addCommitments A).external = c.external := rfl

theorem addCommitments_modify (hk : k ≠ .shieldedPool) (f : k.Storage → k.Storage) :
    (c.modify k a f).addCommitments A = (c.addCommitments A).modify k a f := by
  unfold Chain.addCommitments Chain.modify
  simp only [Function.update_of_ne hk, Function.update_of_ne (Ne.symm hk)]
  rw [Function.update_comm hk]

/-- An update of a pool that treats the commitments of others as its own. -/
theorem addCommitments_modify_pool {f : ShieldedPoolStorage → ShieldedPoolStorage}
    (hf : ∀ s, { f s with commitment := fun k => (f s).commitment k || A a k } =
      f { s with commitment := fun k => s.commitment k || A a k }) :
    (c.modify .shieldedPool a f).addCommitments A =
      (c.addCommitments A).modify .shieldedPool a f := by
  unfold Chain.addCommitments Chain.modify
  simp only [Function.update_self, Function.update_idem]
  congr 2
  funext p
  by_cases hp : p = a
  · subst hp
    simp only [Function.update_self]
    exact hf _
  · simp only [Function.update_of_ne hp]

end Add

/-- The commitments `A` that others have recorded in the pools. -/
def commitmentOverlay (H : Host) (A : Address → BytesN32 → Bool) : Overlay (Chain H) where
  enlarge := Chain.addCommitments A
  Grows c c' := ∀ p k, (c.storage .shieldedPool p).commitment k →
    (c'.storage .shieldedPool p).commitment k
  Clash c c' := ∃ p k, A p k ∧ RecordsCommitment c c' p k
  grows_refl _ _ _ h := h
  grows_trans _ _ _ h h' p k hk := h' p k (h p k hk)
  not_clash _ h := by
    obtain ⟨p, k, -, hfresh, hrecorded⟩ := h
    exact hfresh hrecorded
  clash_iff c c₁ c' h h' := by
    constructor
    · rintro ⟨p, k, hA, hfresh, hrecorded⟩
      by_cases hfirst : (c₁.storage .shieldedPool p).commitment k
      · exact Or.inl ⟨p, k, hA, hfresh, hfirst⟩
      · exact Or.inr ⟨p, k, hA, hfirst, hrecorded⟩
    · rintro (⟨p, k, hA, hfresh, hrecorded⟩ | ⟨p, k, hA, hfresh, hrecorded⟩)
      · exact ⟨p, k, hA, hfresh, h' p k hrecorded⟩
      · exact ⟨p, k, hA, fun hk => hfresh (h p k hk), hrecorded⟩

/-! ## Primitives -/

section Primitives

variable {A : Address → BytesN32 → Bool} {k : Kind} {α : Type}

/-- A reading that does not depend on the commitments of pools. -/
theorem follows_load_pool {key : ShieldedPoolStorage → α}
    (hkey : ∀ s f, key { s with commitment := f } = key s) :
    Follows (commitmentOverlay H A) (load .shieldedPool key : Contract H α) :=
  Follows.of_read (P := fun env c a => a = key (c.storage .shieldedPool env.current))
    (fun _ _ _ _ => returns_load) fun env c a => by
      show a = key ((c.addCommitments A).storage .shieldedPool env.current) ↔ _
      rw [storage_addCommitments_pool]
      exact iff_of_eq (congrArg (a = ·) (hkey _ _))

instance follows_load [hk : Fact (k ≠ .shieldedPool)] {key : k.Storage → α} :
    Follows (commitmentOverlay H A) (load k key : Contract H α) :=
  Follows.of_read (P := fun env c a => a = key (c.storage k env.current))
    (fun _ _ _ _ => returns_load) fun env c a => by
      show a = key ((c.addCommitments A).storage k env.current) ↔ _
      rw [storage_addCommitments hk.out]

instance follows_stored [Fact (k ≠ .shieldedPool)] {key : k.Storage → Option α}
    {message : String} :
    Follows (commitmentOverlay H A) (stored k key message : Contract H α) := by
  unfold stored
  infer_instance

/-- An update that commutes with the enlargement and leaves the commitments alone. -/
theorem follows_modify {f : k.Storage → k.Storage}
    (hadd : ∀ (c : Chain H) a, (c.modify k a f).addCommitments A = (c.addCommitments A).modify k a f)
    (hsame : ∀ (c : Chain H) a p, ((c.modify k a f).storage .shieldedPool p).commitment =
      (c.storage .shieldedPool p).commitment) :
    Follows (commitmentOverlay H A) (modifyStorage k f : Contract H Unit) := by
  refine Follows.of_write (fun env c u t => ?_) fun {env c u c'} h => ?_
  · rw [returns_modifyStorage]
    constructor
    · intro ht
      exact ⟨_, returns_modifyStorage.mpr rfl, ht.trans (hadd c env.current).symm⟩
    · rintro ⟨c', h, rfl⟩
      rw [returns_modifyStorage.mp h]
      exact hadd c env.current
  · rw [returns_modifyStorage.mp h]
    refine ⟨fun p x hx => ?_, ?_⟩
    · rw [hsame]
      exact hx
    · rintro ⟨p, x, -, hfresh, hrecorded⟩
      rw [hsame] at hrecorded
      exact hfresh hrecorded

instance follows_modifyStorage [hk : Fact (k ≠ .shieldedPool)] {f : k.Storage → k.Storage} :
    Follows (commitmentOverlay H A) (modifyStorage k f : Contract H Unit) :=
  follows_modify (fun _ _ => addCommitments_modify hk.out f) fun c a p => by
    rw [Chain.storage_modify_of_kind (Ne.symm hk.out)]

/-- An update of a pool that leaves its commitments alone. -/
theorem follows_modifyStorage_pool {f : ShieldedPoolStorage → ShieldedPoolStorage}
    (hf : ∀ s g, { f s with commitment := g } = f { s with commitment := g })
    (hc : ∀ s, (f s).commitment = s.commitment) :
    Follows (commitmentOverlay H A) (modifyStorage .shieldedPool f : Contract H Unit) := by
  refine follows_modify (fun c a => addCommitments_modify_pool fun s => ?_) fun c a p => ?_
  · rw [hc, hf]
  · by_cases hp : p = a
    · subst hp
      rw [Chain.storage_modify_self, hc]
    · rw [Chain.storage_modify_of_address hp]

instance follows_call {callee : Address} {x : Contract H α}
    [Follows (commitmentOverlay H A) x] : Follows (commitmentOverlay H A) (call callee x) :=
  Follows.within

instance follows_requireAuth {address : Address} :
    Follows (commitmentOverlay H A) (requireAuth address : Contract H Unit) := by
  unfold requireAuth
  infer_instance

instance follows_currentContract :
    Follows (commitmentOverlay H A) (currentContract : Contract H Address) :=
  Follows.of_read (P := fun env _ a => a = env.current)
    (fun _ _ _ _ => returns_currentContract) fun _ _ _ => Iff.rfl

instance follows_ledgerTimestamp :
    Follows (commitmentOverlay H A) (ledgerTimestamp : Contract H ℕ) :=
  Follows.of_read (P := fun env _ t => t = env.timestamp)
    (fun _ _ _ _ => returns_ledgerTimestamp) fun _ _ _ => Iff.rfl

instance follows_validateHash {value : BytesN32} :
    Follows (commitmentOverlay H A) (validateHash value : Contract H Unit) := Follows.failIf

instance follows_queryExternal {f : H.State → Except String α} :
    Follows (commitmentOverlay H A) (queryExternal f : Contract H α) :=
  Follows.of_read (P := fun _ c a => f c.external = .ok a)
    (fun _ _ _ _ => returns_queryExternal) fun _ _ _ => Iff.rfl

instance follows_runExternal {f : H.State → Except String (α × H.State)} :
    Follows (commitmentOverlay H A) (runExternal f : Contract H α) := by
  refine Follows.of_write (fun env c a t => ?_) fun {env c a c'} h => ?_
  · rw [returns_runExternal]
    constructor
    · rintro ⟨e, hf, rfl⟩
      exact ⟨{ c with external := e }, returns_runExternal.mpr ⟨e, hf, rfl⟩, rfl⟩
    · rintro ⟨c', h, rfl⟩
      obtain ⟨e, hf, rfl⟩ := returns_runExternal.mp h
      exact ⟨e, hf, rfl⟩
  · obtain ⟨e, hf, rfl⟩ := returns_runExternal.mp h
    exact ⟨fun _ _ hk => hk, fun ⟨_, _, _, hfresh, hrecorded⟩ => hfresh hrecorded⟩

theorem returns_recordCommitment {commitment : BytesN32} {env : Env} {c c' : Chain H} {u : Unit} :
    Returns (ShieldedPool.recordCommitment commitment) env c u c' ↔
      ¬ (c.storage .shieldedPool env.current).commitment commitment ∧
        c' = c.modify .shieldedPool env.current fun s =>
          { s with commitment := Function.update s.commitment commitment true } := by
  unfold ShieldedPool.recordCommitment
  simp only [returns_bind, returns_load, returns_failIf, returns_modifyStorage, exists_eq_left,
    exists_and_left, and_assoc, exists_const]

/-- The commitments of the pools after one is recorded. -/
theorem commitment_recordCommitment {commitment : BytesN32} {env : Env} {c c' : Chain H} {u : Unit}
    (h : Returns (ShieldedPool.recordCommitment commitment) env c u c') (p : Address)
    (k : BytesN32) : (c'.storage .shieldedPool p).commitment k ↔
      (c.storage .shieldedPool p).commitment k ∨ p = env.current ∧ k = commitment := by
  rw [(returns_recordCommitment.mp h).2]
  by_cases hp : p = env.current
  · subst hp
    rw [Chain.storage_modify_self]
    by_cases hk : k = commitment
    · simp [hk]
    · simp [hk]
  · rw [Chain.storage_modify_of_address hp]
    simp [hp]

/-- The record of a commitment, made among more commitments. -/
theorem addCommitments_record {commitment : BytesN32} {a : Address} {c : Chain H} :
    (c.modify .shieldedPool a fun s =>
        { s with commitment := Function.update s.commitment commitment true }).addCommitments A =
      (c.addCommitments A).modify .shieldedPool a fun s =>
        { s with commitment := Function.update s.commitment commitment true } := by
  refine addCommitments_modify_pool fun s => ?_
  have hcommitment : (fun k => Function.update s.commitment commitment true k || A a k) =
      Function.update (fun k => s.commitment k || A a k) commitment true := by
    funext k
    by_cases hk : k = commitment
    · simp [hk]
    · simp [hk]
  show { s with commitment := _ } = { s with commitment := _ }
  rw [hcommitment]

/-- **Recording a commitment.** It fails when somebody else has recorded it. -/
instance follows_recordCommitment {commitment : BytesN32} :
    Follows (commitmentOverlay H A)
      (ShieldedPool.recordCommitment commitment : Contract H Unit) where
  grows h p k hk := (commitment_recordCommitment h p k).mpr (Or.inl hk)
  enlarged env c u t := by
    have hpool : ((c.addCommitments A).storage .shieldedPool env.current).commitment commitment =
        ((c.storage .shieldedPool env.current).commitment commitment || A env.current commitment) := by
      rw [storage_addCommitments_pool]
    constructor
    · intro h
      obtain ⟨hfresh, rfl⟩ := returns_recordCommitment.mp h
      change ¬ ((c.addCommitments A).storage .shieldedPool env.current).commitment commitment
        at hfresh
      rw [hpool, Bool.or_eq_true, not_or] at hfresh
      have hrecord : Returns (ShieldedPool.recordCommitment commitment) env c u _ :=
        returns_recordCommitment.mpr ⟨hfresh.1, rfl⟩
      refine ⟨_, hrecord, ?_, addCommitments_record.symm⟩
      rintro ⟨p, k, hA, hold, hrecorded⟩
      rcases (commitment_recordCommitment hrecord p k).mp hrecorded with hk | ⟨rfl, rfl⟩
      · exact hold hk
      · exact hfresh.2 hA
    · rintro ⟨c', h, hclash, rfl⟩
      obtain ⟨hfresh, rfl⟩ := returns_recordCommitment.mp h
      refine returns_recordCommitment.mpr ⟨?_, addCommitments_record⟩
      change ¬ ((c.addCommitments A).storage .shieldedPool env.current).commitment commitment
      rw [hpool, Bool.or_eq_true, not_or]
      refine ⟨hfresh, fun hA => hclash ⟨env.current, commitment, hA, hfresh, ?_⟩⟩
      exact (commitment_recordCommitment h _ _).mpr (Or.inr ⟨rfl, rfl⟩)

end Primitives

/-! ## Contracts -/

section Contracts

variable {A : Address → BytesN32 → Bool}

instance factGovernance : Fact (Kind.governance ≠ .shieldedPool) := ⟨by decide⟩

instance factProofLedger : Fact (Kind.proofLedger ≠ .shieldedPool) := ⟨by decide⟩

instance factMarket : Fact (Kind.market ≠ .shieldedPool) := ⟨by decide⟩

instance factIntentRegistry : Fact (Kind.intentRegistry ≠ .shieldedPool) := ⟨by decide⟩

instance factPositionState : Fact (Kind.positionState ≠ .shieldedPool) := ⟨by decide⟩

instance factBatchSettlement : Fact (Kind.batchSettlement ≠ .shieldedPool) := ⟨by decide⟩

instance follows_validateProof {circuit : Option BytesN32} {governance ledger : Option Address}
    {proof : ProofMeta} : Follows (commitmentOverlay H A)
      (validateProof circuit governance ledger proof : Contract H Unit) := by
  unfold validateProof
  repeat refine Follows.andThen inferInstance fun _ => ?_
  infer_instance

/-! ### The pool -/

instance follows_requireWriter {writer : Address} :
    Follows (commitmentOverlay H A) (ShieldedPool.requireWriter writer : Contract H Unit) := by
  unfold ShieldedPool.requireWriter
  exact Follows.andThen inferInstance fun _ =>
    Follows.andThen (follows_load_pool fun _ _ => rfl) fun _ => inferInstance

theorem follows_poolValidateProof {circuitKey : ShieldedPoolStorage → Option BytesN32}
    {proof : ProofMeta} (hkey : ∀ s f, circuitKey { s with commitment := f } = circuitKey s) :
    Follows (commitmentOverlay H A)
      (ShieldedPool.validateProof circuitKey proof : Contract H Unit) := by
  unfold ShieldedPool.validateProof
  refine Follows.andThen (follows_load_pool hkey) fun _ => ?_
  refine Follows.andThen (follows_load_pool fun _ _ => rfl) fun _ => ?_
  exact Follows.andThen (follows_load_pool fun _ _ => rfl) fun _ => inferInstance

instance follows_depositCircuit {proof : ProofMeta} : Follows (commitmentOverlay H A)
    (ShieldedPool.validateProof (·.depositCircuit) proof : Contract H Unit) :=
  follows_poolValidateProof fun _ _ => rfl

instance follows_withdrawCircuit {proof : ProofMeta} : Follows (commitmentOverlay H A)
    (ShieldedPool.validateProof (·.withdrawCircuit) proof : Contract H Unit) :=
  follows_poolValidateProof fun _ _ => rfl

instance follows_validateDepositPublicInputs {amount : I128} {tokenDigest commitment : BytesN32}
    {proof : ProofMeta} : Follows (commitmentOverlay H A)
      (ShieldedPool.validateDepositPublicInputs amount tokenDigest commitment proof :
        Contract H Unit) := Follows.failIf

instance follows_validatePublicInputs {amount : I128}
    {root nullifier tokenDigest recipientDigest change : BytesN32} {proof : ProofMeta} :
    Follows (commitmentOverlay H A) (ShieldedPool.validatePublicInputs amount root nullifier
      tokenDigest recipientDigest change proof : Contract H Unit) := Follows.failIf

instance follows_transfer {token sender recipient : Address} {amount : I128} :
    Follows (commitmentOverlay H A)
      (ShieldedPool.transfer token sender recipient amount : Contract H Unit) := follows_runExternal

instance follows_balance {token : Address} :
    Follows (commitmentOverlay H A) (ShieldedPool.balance token : Contract H I128) := by
  unfold ShieldedPool.balance
  infer_instance

instance follows_feeReserve {token : Address} :
    Follows (commitmentOverlay H A) (ShieldedPool.feeReserve token : Contract H FeeReserve) :=
  follows_load_pool fun _ _ => rfl

instance follows_recordNullifier {nullifier : BytesN32} :
    Follows (commitmentOverlay H A)
      (ShieldedPool.recordNullifier nullifier : Contract H Unit) := by
  unfold ShieldedPool.recordNullifier
  refine Follows.andThen (follows_load_pool fun _ _ => rfl) fun _ => ?_
  exact Follows.andThen inferInstance fun _ =>
    follows_modifyStorage_pool (fun _ _ => rfl) fun _ => rfl

instance follows_recordChangeCommitment {change : BytesN32} :
    Follows (commitmentOverlay H A)
      (ShieldedPool.recordChangeCommitment change : Contract H Unit) := Follows.doIf

instance follows_depositAsset {token sender : Address} {amount : I128} {commitment : BytesN32}
    {proof : ProofMeta} : Follows (commitmentOverlay H A)
      (ShieldedPool.depositAsset token sender amount commitment proof : Contract H Unit) := by
  unfold ShieldedPool.depositAsset
  repeat refine Follows.andThen inferInstance fun _ => ?_
  infer_instance

instance follows_depositClaim {writer token : Address} {amount : I128} {commitment : BytesN32}
    {proof : ProofMeta} : Follows (commitmentOverlay H A)
      (ShieldedPool.depositClaim writer token amount commitment proof : Contract H Unit) := by
  unfold ShieldedPool.depositClaim
  repeat refine Follows.andThen inferInstance fun _ => ?_
  infer_instance

instance follows_withdrawAsset {token : Address} {root nullifier : BytesN32} {recipient : Address}
    {amount : I128} {proof : ProofMeta} {change : BytesN32} : Follows (commitmentOverlay H A)
      (ShieldedPool.withdrawAsset token root nullifier recipient amount proof change :
        Contract H Unit) := by
  have hrecord : Follows (commitmentOverlay H A) (modifyStorage .shieldedPool fun s =>
      { s with
        assetWithdrawal := Function.update s.assetWithdrawal nullifier
          (some (token, root, recipient, amount, proof)) } : Contract H Unit) :=
    follows_modifyStorage_pool (fun _ _ => rfl) fun _ => rfl
  unfold ShieldedPool.withdrawAsset
  repeat refine Follows.andThen inferInstance fun _ => ?_
  infer_instance

instance follows_spend {writer : Address} {nullifier : BytesN32} :
    Follows (commitmentOverlay H A) (ShieldedPool.spend writer nullifier : Contract H Unit) := by
  unfold ShieldedPool.spend
  infer_instance

instance follows_poolAccrueFees {writer token : Address} {insurance treasury : I128} :
    Follows (commitmentOverlay H A)
      (ShieldedPool.accrueFees writer token insurance treasury : Contract H Unit) := by
  have hdestinations : Follows (commitmentOverlay H A)
      (load .shieldedPool (·.feeDestinations.isNone) : Contract H Bool) :=
    follows_load_pool fun _ _ => rfl
  have hreserve (insurance treasury : I128) : Follows (commitmentOverlay H A)
      (modifyStorage .shieldedPool fun s =>
        { s with feeReserve := Function.update s.feeReserve token (some ⟨insurance, treasury⟩) } :
          Contract H Unit) :=
    follows_modifyStorage_pool (fun _ _ => rfl) fun _ => rfl
  unfold ShieldedPool.accrueFees
  repeat refine Follows.andThen inferInstance fun _ => ?_
  infer_instance

/-! ### Mark prices -/

instance follows_validatePriceFreshness {data : PriceData} {maxAge : ℕ} :
    Follows (commitmentOverlay H A)
      (Market.validatePriceFreshness data maxAge : Contract H Unit) := by
  unfold Market.validatePriceFreshness
  infer_instance

instance follows_sumPrices {maxAge : ℕ} {items : List PriceData} {total : I128} {timestamp : ℕ} :
    Follows (commitmentOverlay H A)
      (Market.sumPrices maxAge items total timestamp : Contract H (I128 × ℕ)) := by
  induction items generalizing total timestamp with
  | nil => unfold Market.sumPrices; infer_instance
  | cons item items ih => unfold Market.sumPrices; infer_instance

instance follows_readOraclePrice {config : MarketConfig} :
    Follows (commitmentOverlay H A) (Market.readOraclePrice config : Contract H MarketPrice) := by
  have hdecimals : Follows (commitmentOverlay H A) (Market.oracleDecimals config : Contract H ℕ) := by
    unfold Market.oracleDecimals
    infer_instance
  have hspend (periods : ℕ) : Follows (commitmentOverlay H A)
      (Market.authorizeBeamSpend config periods : Contract H (Option (Address × I128))) := by
    unfold Market.authorizeBeamSpend
    infer_instance
  have hlast : Follows (commitmentOverlay H A)
      (Market.oracleLastPrice config : Contract H PriceData) := by
    unfold Market.oracleLastPrice Market.callLastPrice
    infer_instance
  have htwap (records : ℕ) : Follows (commitmentOverlay H A)
      (Market.oracleTwap config records : Contract H PriceData) := by
    unfold Market.oracleTwap Market.callPrices
    infer_instance
  unfold Market.readOraclePrice
  repeat refine Follows.andThen inferInstance fun _ => ?_
  infer_instance

instance follows_markPrice {marketId : BytesN32} :
    Follows (commitmentOverlay H A) (Market.markPrice marketId : Contract H MarketPrice) := by
  unfold Market.markPrice
  infer_instance

instance follows_isActive {marketId : BytesN32} :
    Follows (commitmentOverlay H A) (Market.isActive marketId : Contract H Bool) := by
  unfold Market.isActive
  infer_instance

/-! ### The intent registry and the position state -/

instance follows_requireSettler {settler : Address} :
    Follows (commitmentOverlay H A) (IntentRegistry.requireSettler settler : Contract H Unit) := by
  unfold IntentRegistry.requireSettler
  infer_instance

instance follows_consume {settler : Address} {intentCommitment : BytesN32} :
    Follows (commitmentOverlay H A)
      (IntentRegistry.consume settler intentCommitment : Contract H Unit) := by
  unfold IntentRegistry.consume IntentRegistry.markCancelled
  infer_instance

instance follows_rollover {settler : Address} {source residual payload : BytesN32} :
    Follows (commitmentOverlay H A)
      (IntentRegistry.rollover settler source residual payload : Contract H Unit) := by
  unfold IntentRegistry.rollover
  repeat refine Follows.andThen inferInstance fun _ => ?_
  infer_instance

instance follows_appendLevels {remaining level cursor : ℕ} {node : BytesN32} :
    Follows (commitmentOverlay H A)
      (PositionState.appendLevels remaining level cursor node : Contract H (Option BytesN32)) := by
  induction remaining generalizing level cursor node with
  | zero => unfold PositionState.appendLevels; infer_instance
  | succ remaining ih =>
    unfold PositionState.appendLevels PositionState.fieldHashPair
    infer_instance

instance follows_rootLevels {remaining level cursor : ℕ} {node : BytesN32} :
    Follows (commitmentOverlay H A)
      (PositionState.rootLevels remaining level cursor node : Contract H BytesN32) := by
  induction remaining generalizing level cursor node with
  | zero => unfold PositionState.rootLevels; infer_instance
  | succ remaining ih =>
    unfold PositionState.rootLevels PositionState.fieldHashPair
    infer_instance

instance follows_appendEach {commitments : List BytesN32} {index : ℕ}
    {fullRoot : Option BytesN32} : Follows (commitmentOverlay H A)
      (PositionState.appendEach commitments index fullRoot :
        Contract H (ℕ × Option BytesN32)) := by
  induction commitments generalizing index fullRoot with
  | nil => unfold PositionState.appendEach; infer_instance
  | cons commitment commitments ih =>
    unfold PositionState.appendEach PositionState.appendFrontier PositionState.validateCommitment
    infer_instance

instance follows_appendMany {writer : Address} {commitments : List BytesN32} :
    Follows (commitmentOverlay H A)
      (PositionState.appendMany writer commitments : Contract H AppendReceipt) := by
  have hwriter : Follows (commitmentOverlay H A)
      (PositionState.requireWriter writer : Contract H Unit) := by
    unfold PositionState.requireWriter
    infer_instance
  have hcount : Follows (commitmentOverlay H A) (PositionState.leafCount : Contract H ℕ) := by
    unfold PositionState.leafCount PositionState.requirePoseidon2Tree
    infer_instance
  unfold PositionState.appendMany PositionState.rootFromFrontier
  refine Follows.andThen inferInstance fun _ => Follows.andThen inferInstance fun _ => ?_
  refine Follows.andThen inferInstance fun _ => Follows.andThen inferInstance fun _ => ?_
  refine Follows.andThen inferInstance fun appended => Follows.andThen ?_ fun _ => inferInstance
  cases appended.2 with
  | none => infer_instance
  | some root => infer_instance

/-! ### Batch settlement -/

instance follows_validatePublicItems {values : List BytesN32} {requireNonEmpty : Bool} :
    Follows (commitmentOverlay H A)
      (BatchSettlement.validatePublicItems values requireNonEmpty : Contract H Unit) := by
  unfold BatchSettlement.validatePublicItems
  infer_instance

instance follows_validateSettleArgs {args : SettleArgs} :
    Follows (commitmentOverlay H A)
      (BatchSettlement.validateSettleArgs args : Contract H Unit) := by
  unfold BatchSettlement.validateSettleArgs
  repeat refine Follows.andThen inferInstance fun _ => ?_
  infer_instance

instance follows_batchValidateProof {proof : ProofMeta} :
    Follows (commitmentOverlay H A) (BatchSettlement.validateProof proof : Contract H Unit) := by
  unfold BatchSettlement.validateProof
  infer_instance

instance follows_batchValidatePublicInputs {args : SettleArgs} :
    Follows (commitmentOverlay H A)
      (BatchSettlement.validatePublicInputs args : Contract H Unit) := by
  unfold BatchSettlement.validatePublicInputs
  infer_instance

instance follows_validateActiveEach {registry : Address} {items : List (BytesN32 × BytesN32)}
    {seen : List BytesN32} : Follows (commitmentOverlay H A)
      (BatchSettlement.validateActiveEach registry items seen : Contract H Unit) := by
  induction items generalizing seen with
  | nil => unfold BatchSettlement.validateActiveEach; infer_instance
  | cons item items ih => unfold BatchSettlement.validateActiveEach; infer_instance

instance follows_validateActiveIntents {filledIntents payloads : List BytesN32} :
    Follows (commitmentOverlay H A)
      (BatchSettlement.validateActiveIntents filledIntents payloads : Contract H Unit) := by
  unfold BatchSettlement.validateActiveIntents
  infer_instance

instance follows_validateExecutionPriority {filledIntents makerIntents takerIntents : List BytesN32} :
    Follows (commitmentOverlay H A) (BatchSettlement.validateExecutionPriority filledIntents
      makerIntents takerIntents : Contract H Unit) := by
  unfold BatchSettlement.validateExecutionPriority
  infer_instance

instance follows_spendMarginNullifiers {nullifiers : List BytesN32} :
    Follows (commitmentOverlay H A)
      (BatchSettlement.spendMarginNullifiers nullifiers : Contract H Unit) := by
  unfold BatchSettlement.spendMarginNullifiers
  infer_instance

instance follows_recordMarginChanges {commitments : List BytesN32} :
    Follows (commitmentOverlay H A)
      (BatchSettlement.recordMarginChanges commitments : Contract H Unit) := by
  unfold BatchSettlement.recordMarginChanges ShieldedPool.deposit
  infer_instance

instance follows_clearResidualMargin {item : BatchSettlement.ResidualItem} :
    Follows (commitmentOverlay H A)
      (BatchSettlement.clearResidualMargin item : Contract H Unit) := by
  unfold BatchSettlement.clearResidualMargin
  refine Follows.andThen inferInstance fun previous => ?_
  cases previous with
  | none => infer_instance
  | some previous => infer_instance

set_option synthInstance.maxSize 1024 in
instance follows_consumeFilledIntents {args : SettleArgs} :
    Follows (commitmentOverlay H A)
      (BatchSettlement.consumeFilledIntents args : Contract H Unit) := by
  have hitem (registry : Address) (item : BatchSettlement.ResidualItem) :
      Follows (commitmentOverlay H A)
        (BatchSettlement.consumeFilledIntent registry item : Contract H Unit) := by
    unfold BatchSettlement.consumeFilledIntent
    repeat refine Follows.andThen inferInstance fun _ => ?_
    infer_instance
  unfold BatchSettlement.consumeFilledIntents
  infer_instance

instance follows_checkedMarketPrice {marketId : BytesN32} :
    Follows (commitmentOverlay H A)
      (BatchSettlement.checkedMarketPrice marketId : Contract H MarketPrice) := by
  unfold BatchSettlement.checkedMarketPrice
  infer_instance

instance follows_appendPositions {commitments : List BytesN32} :
    Follows (commitmentOverlay H A)
      (BatchSettlement.appendPositions commitments : Contract H AppendReceipt) := by
  unfold BatchSettlement.appendPositions
  infer_instance

instance follows_accrueFees {insurance treasury : I128} :
    Follows (commitmentOverlay H A)
      (BatchSettlement.accrueFees insurance treasury : Contract H Unit) := by
  unfold BatchSettlement.accrueFees
  infer_instance

instance follows_settle {args : SettleArgs} :
    Follows (commitmentOverlay H A) (BatchSettlement.settle args : Contract H Unit) := by
  unfold BatchSettlement.settle
  repeat refine Follows.andThen inferInstance fun _ => ?_
  infer_instance

instance follows_claimResidual {intentCommitment commitment : BytesN32} {proof : ProofMeta} :
    Follows (commitmentOverlay H A)
      (BatchSettlement.claimResidual intentCommitment commitment proof : Contract H Unit) := by
  unfold BatchSettlement.claimResidual
  repeat refine Follows.andThen inferInstance fun _ => ?_
  infer_instance

end Contracts

end Pnlx
