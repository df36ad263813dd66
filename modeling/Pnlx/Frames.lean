import Pnlx.System

/-!
# What a call leaves alone

A call changes the storage of contracts of its own kind and of the kinds that it calls.
`Call.touches` lists them, and `sameAt_run` says that the contracts of every other kind keep their
storage. From it, a proof ledger has recorded what some transaction of the run asked it to record
(`recorded_of_run`).
-/

namespace Pnlx

open Program Runs

variable {H : Host} {k : Kind}

/-- The contracts of kind `k` keep their storage. -/
def Chain.SameAt (k : Kind) (c c' : Chain H) : Prop := c'.storage k = c.storage k

instance : Std.Refl (Chain.SameAt (H := H) k) := ⟨fun _ => rfl⟩

instance : IsTrans (Chain H) (Chain.SameAt k) := ⟨fun _ _ _ h h' => h'.trans h⟩

instance sameAt_modifyStorage {k' : Kind} [hk : Fact (k ≠ k')] {f : k'.Storage → k'.Storage} :
    Respects (Chain.SameAt (H := H) k) (modifyStorage k' f) where
  rel h := by
    rw [returns_modifyStorage.mp h]
    funext a
    exact Chain.storage_modify_of_kind hk.out

theorem sameAt_of_sameStorage {α : Type} {x : Contract H α}
    (hx : Respects Chain.SameStorage x) : Respects (Chain.SameAt k) x :=
  hx.mono fun c c' h => congrFun (show c'.storage = c.storage from h) k

instance sameAt_runExternal {α : Type} {f : H.State → Except String (α × H.State)} :
    Respects (Chain.SameAt k) (runExternal f : Contract H α) := sameAt_of_sameStorage inferInstance

/-! ## Oracle prices -/

section Market

instance sameAt_readOraclePrice {config : MarketConfig} :
    Respects (Chain.SameAt k) (Market.readOraclePrice config : Contract H MarketPrice) :=
  sameAt_of_sameStorage inferInstance

instance sameAt_validateOracleMarkPrice {market : Option Address} {marketId : BytesN32}
    {price : I128} : Respects (Chain.SameAt k)
      (Market.validateOracleMarkPrice market marketId price : Contract H Unit) :=
  sameAt_of_sameStorage inferInstance

instance sameAt_checkedMarketPrice {marketId : BytesN32} : Respects (Chain.SameAt k)
    (BatchSettlement.checkedMarketPrice marketId : Contract H MarketPrice) :=
  sameAt_of_sameStorage inferInstance

end Market

/-! ## Contracts that others call -/

section PositionState

variable [Fact (k ≠ .positionState)]

instance sameAt_appendLevels {remaining level cursor : ℕ} {node : BytesN32} :
    Respects (Chain.SameAt k)
      (PositionState.appendLevels remaining level cursor node : Contract H (Option BytesN32)) := by
  induction remaining generalizing level cursor node with
  | zero => unfold PositionState.appendLevels; infer_instance
  | succ remaining ih => unfold PositionState.appendLevels; infer_instance

instance sameAt_storeEmptyLevels {remaining level : ℕ} {root : BytesN32} :
    Respects (Chain.SameAt k)
      (PositionState.storeEmptyLevels remaining level root : Contract H BytesN32) := by
  induction remaining generalizing level root with
  | zero => unfold PositionState.storeEmptyLevels; infer_instance
  | succ remaining ih => unfold PositionState.storeEmptyLevels; infer_instance

instance sameAt_appendEach {commitments : List BytesN32} {index : ℕ}
    {fullRoot : Option BytesN32} : Respects (Chain.SameAt k)
      (PositionState.appendEach commitments index fullRoot :
        Contract H (ℕ × Option BytesN32)) := by
  induction commitments generalizing index fullRoot with
  | nil => unfold PositionState.appendEach; infer_instance
  | cons commitment commitments ih =>
    unfold PositionState.appendEach PositionState.appendFrontier
    infer_instance

instance sameAt_appendMany {writer : Address} {commitments : List BytesN32} :
    Respects (Chain.SameAt k)
      (PositionState.appendMany writer commitments : Contract H AppendReceipt) := by
  unfold PositionState.appendMany
  repeat refine Respects.andThen inferInstance fun _ => ?_
  rename_i appended
  have hroot : Respects (Chain.SameAt (H := H) k) (match appended.2 with
      | some root => pure root
      | none => PositionState.rootFromFrontier appended.1) := by
    cases appended.2 <;> infer_instance
  exact Respects.andThen hroot fun root => inferInstance

instance sameAt_spendPosition {writer : Address} {root commitment nullifier : BytesN32} :
    Respects (Chain.SameAt k)
      (PositionState.spendPosition writer root commitment nullifier : Contract H Unit) := by
  unfold PositionState.spendPosition
  repeat refine Respects.andThen inferInstance fun _ => ?_
  infer_instance

end PositionState

section ShieldedPool

variable [Fact (k ≠ .shieldedPool)]

instance sameAt_transfer {token sender recipient : Address} {amount : I128} :
    Respects (Chain.SameAt k)
      (ShieldedPool.transfer token sender recipient amount : Contract H Unit) :=
  sameAt_runExternal

instance sameAt_recordCommitment {commitment : BytesN32} :
    Respects (Chain.SameAt k) (ShieldedPool.recordCommitment commitment : Contract H Unit) := by
  unfold ShieldedPool.recordCommitment
  infer_instance

instance sameAt_recordNullifier {nullifier : BytesN32} :
    Respects (Chain.SameAt k) (ShieldedPool.recordNullifier nullifier : Contract H Unit) := by
  unfold ShieldedPool.recordNullifier
  infer_instance

instance sameAt_recordChangeCommitment {commitment : BytesN32} : Respects (Chain.SameAt k)
    (ShieldedPool.recordChangeCommitment commitment : Contract H Unit) := by
  unfold ShieldedPool.recordChangeCommitment
  infer_instance

instance sameAt_deposit {commitment : BytesN32} :
    Respects (Chain.SameAt k) (ShieldedPool.deposit commitment : Contract H Unit) :=
  sameAt_recordCommitment

instance sameAt_spend {writer : Address} {nullifier : BytesN32} :
    Respects (Chain.SameAt k) (ShieldedPool.spend writer nullifier : Contract H Unit) := by
  unfold ShieldedPool.spend
  infer_instance

set_option synthInstance.maxSize 1024 in
instance sameAt_depositClaim {writer token : Address} {amount : I128} {commitment : BytesN32}
    {proof : ProofMeta} : Respects (Chain.SameAt k)
      (ShieldedPool.depositClaim writer token amount commitment proof : Contract H Unit) := by
  unfold ShieldedPool.depositClaim
  infer_instance

instance sameAt_poolAccrueFees {writer token : Address} {insurance treasury : I128} :
    Respects (Chain.SameAt k)
      (ShieldedPool.accrueFees writer token insurance treasury : Contract H Unit) := by
  unfold ShieldedPool.accrueFees
  repeat refine Respects.andThen inferInstance fun _ => ?_
  infer_instance

set_option synthInstance.maxSize 1024 in
instance sameAt_distributeFeeReserve {token : Address} {insurance : Bool} :
    Respects (Chain.SameAt k)
      (ShieldedPool.distributeFeeReserve token insurance : Contract H I128) := by
  unfold ShieldedPool.distributeFeeReserve
  infer_instance

end ShieldedPool

section IntentRegistry

variable [Fact (k ≠ .intentRegistry)]

instance sameAt_markCancelled {intentCommitment : BytesN32} :
    Respects (Chain.SameAt k)
      (IntentRegistry.markCancelled intentCommitment : Contract H Unit) := by
  unfold IntentRegistry.markCancelled
  infer_instance

instance sameAt_consume {settler : Address} {intentCommitment : BytesN32} :
    Respects (Chain.SameAt k)
      (IntentRegistry.consume settler intentCommitment : Contract H Unit) := by
  unfold IntentRegistry.consume
  infer_instance

instance sameAt_rollover {settler : Address} {source residual payload : BytesN32} :
    Respects (Chain.SameAt k)
      (IntentRegistry.rollover settler source residual payload : Contract H Unit) := by
  unfold IntentRegistry.rollover
  repeat refine Respects.andThen inferInstance fun _ => ?_
  infer_instance

end IntentRegistry

/-! ## Contracts that call others -/

section Settlements

variable [Fact (k ≠ .positionState)]

instance sameAt_closeInit [Fact (k ≠ .positionClose)]
    {governance ledger order market state : Address} {circuitId : BytesN32} :
    Respects (Chain.SameAt k)
      (PositionClose.init governance ledger order market state circuitId : Contract H Unit) := by
  unfold PositionClose.init
  infer_instance

instance sameAt_settlePositionClose [Fact (k ≠ .positionClose)] {args : CloseArgs}
    {trigger : Bool} :
    Respects (Chain.SameAt k)
      (PositionClose.settlePositionClose args trigger : Contract H Unit) := by
  unfold PositionClose.settlePositionClose PositionClose.validateOracleMarkPrice
    PositionClose.spendAndAppendPosition PositionState.append
  repeat refine Respects.andThen inferInstance fun _ => ?_
  infer_instance

instance sameAt_settlePair [Fact (k ≠ .positionClose)] {trader maker : CloseArgs}
    {conditional : Bool} :
    Respects (Chain.SameAt k)
      (PositionClose.settlePair trader maker conditional : Contract H Unit) := by
  unfold PositionClose.settlePair
  infer_instance

instance sameAt_liquidationInit [Fact (k ≠ .liquidation)]
    {governance ledger market state : Address} {circuitId : BytesN32} :
    Respects (Chain.SameAt k)
      (Liquidation.init governance ledger market state circuitId : Contract H Unit) := by
  unfold Liquidation.init
  infer_instance

instance sameAt_liquidate [Fact (k ≠ .liquidation)] {args : LiquidationArgs} :
    Respects (Chain.SameAt k) (Liquidation.liquidate args : Contract H Unit) := by
  unfold Liquidation.liquidate Liquidation.validateOracleMarkPrice Liquidation.spendPosition
  repeat refine Respects.andThen inferInstance fun _ => ?_
  infer_instance

instance sameAt_appendPositions {commitments : List BytesN32} :
    Respects (Chain.SameAt k)
      (BatchSettlement.appendPositions commitments : Contract H AppendReceipt) := by
  unfold BatchSettlement.appendPositions
  infer_instance

end Settlements

section FundingSettlement

variable [Fact (k ≠ .fundingSettlement)]

instance sameAt_fundingInit {governance ledger market : Address} {circuitId : BytesN32} :
    Respects (Chain.SameAt k)
      (FundingSettlement.init governance ledger market circuitId : Contract H Unit) := by
  unfold FundingSettlement.init
  infer_instance

instance sameAt_fundingSettle [Fact (k ≠ .market)] {args : FundingArgs} :
    Respects (Chain.SameAt k) (FundingSettlement.settle args : Contract H Unit) := by
  have hprice : Respects (Chain.SameAt k)
      (FundingSettlement.validateOracleMarkPrice args.marketId args.markPrice : Contract H Unit) :=
    sameAt_of_sameStorage inferInstance
  unfold FundingSettlement.settle Market.advanceFunding Market.setMarket
  repeat refine Respects.andThen inferInstance fun _ => ?_
  infer_instance

end FundingSettlement

section BatchSettlement

instance sameAt_spendMarginNullifiers [Fact (k ≠ .shieldedPool)] {nullifiers : List BytesN32} :
    Respects (Chain.SameAt k)
      (BatchSettlement.spendMarginNullifiers nullifiers : Contract H Unit) := by
  unfold BatchSettlement.spendMarginNullifiers
  infer_instance

instance sameAt_recordMarginChanges [Fact (k ≠ .shieldedPool)] {commitments : List BytesN32} :
    Respects (Chain.SameAt k)
      (BatchSettlement.recordMarginChanges commitments : Contract H Unit) := by
  unfold BatchSettlement.recordMarginChanges
  infer_instance

instance sameAt_accrueFees [Fact (k ≠ .shieldedPool)] {insurance treasury : I128} :
    Respects (Chain.SameAt k)
      (BatchSettlement.accrueFees insurance treasury : Contract H Unit) := by
  unfold BatchSettlement.accrueFees
  infer_instance

variable [Fact (k ≠ .batchSettlement)]

instance sameAt_clearResidualMargin {item : BatchSettlement.ResidualItem} :
    Respects (Chain.SameAt k) (BatchSettlement.clearResidualMargin item : Contract H Unit) := by
  unfold BatchSettlement.clearResidualMargin
  refine Respects.andThen inferInstance fun previous => ?_
  cases previous <;> infer_instance

set_option synthInstance.maxSize 1024 in
instance sameAt_consumeFilledIntents [Fact (k ≠ .intentRegistry)] {args : SettleArgs} :
    Respects (Chain.SameAt k) (BatchSettlement.consumeFilledIntents args : Contract H Unit) := by
  have hitem (registry : Address) (item : BatchSettlement.ResidualItem) :
      Respects (Chain.SameAt k)
        (BatchSettlement.consumeFilledIntent registry item : Contract H Unit) := by
    unfold BatchSettlement.consumeFilledIntent
    infer_instance
  unfold BatchSettlement.consumeFilledIntents
  infer_instance

instance sameAt_configureFeeToken {token : Address} :
    Respects (Chain.SameAt k) (BatchSettlement.configureFeeToken token : Contract H Unit) := by
  unfold BatchSettlement.configureFeeToken
  refine Respects.andThen inferInstance fun _ => Respects.andThen inferInstance fun _ =>
    Respects.andThen inferInstance fun _ => Respects.andThen inferInstance fun configured => ?_
  cases configured <;> infer_instance

instance sameAt_batchInit {governance ledger market state pool registry : Address}
    {circuitId : BytesN32} : Respects (Chain.SameAt k)
      (BatchSettlement.init governance ledger market state pool registry circuitId :
        Contract H Unit) := by
  unfold BatchSettlement.init
  infer_instance

instance sameAt_claimResidual [Fact (k ≠ .shieldedPool)] {intentCommitment commitment : BytesN32}
    {proof : ProofMeta} : Respects (Chain.SameAt k)
      (BatchSettlement.claimResidual intentCommitment commitment proof : Contract H Unit) := by
  unfold BatchSettlement.claimResidual
  iterate 8 refine Respects.andThen inferInstance fun _ => ?_
  infer_instance

instance sameAt_settle [Fact (k ≠ .shieldedPool)] [Fact (k ≠ .intentRegistry)]
    [Fact (k ≠ .positionState)] {args : SettleArgs} :
    Respects (Chain.SameAt k) (BatchSettlement.settle args : Contract H Unit) := by
  unfold BatchSettlement.settle
  repeat refine Respects.andThen inferInstance fun _ => ?_
  infer_instance

end BatchSettlement

/-! ## Calls -/

/-- The kinds of contracts whose storage a call may change. -/
def Call.touches : Call → List Kind
  | governanceInit .. | governanceSetPaused .. | governanceSetUpgradeAuthority ..
  | governanceRotateUpgradeAuthority .. | governanceSetVerifier .. => [.governance]
  | proofLedgerInit .. | proofLedgerRecord .. => [.proofLedger]
  | marketInit .. | marketUpsert .. | marketSetFundingUpdater .. | marketAdvanceFunding .. =>
    [.market]
  | registryInit .. | registrySubmit .. | registryCancel .. | registrySetUpgradeAuthority ..
  | registryRotateUpgradeAuthority .. | registryConsume .. | registryRollover .. =>
    [.intentRegistry]
  | stateInit .. | stateSetWriter .. | stateResetForPoseidon2 | stateAppend .. | stateAppendMany ..
  | stateSpendPosition .. => [.positionState]
  | poolInit .. | poolDeposit .. | poolSetWriter .. | poolConfigureFeeDestinations ..
  | poolDepositAsset .. | poolDepositClaim .. | poolSpend .. | poolAccrueFees ..
  | poolDistributeInsurance .. | poolDistributeTreasury .. | poolWithdraw .. | poolWithdrawAsset .. =>
    [.shieldedPool]
  | orderInit .. | orderRegister .. | orderTrigger .. => [.conditionalOrder]
  | closeInit .. | closeSettle .. | closeSettleManual .. | closeSettlePairManual ..
  | closeSettlePairConditional .. => [.positionClose, .positionState]
  | liquidationInit .. | liquidationLiquidate .. => [.liquidation, .positionState]
  | fundingInit .. | fundingSettle .. => [.fundingSettlement, .market]
  | batchInit .. | batchConfigureFeeToken .. | batchSettle .. | batchClaimResidual .. =>
    [.batchSettlement, .shieldedPool, .intentRegistry, .positionState]

set_option synthInstance.maxSize 2048 in
/-- **Frames.** A call leaves alone the contracts of every kind that it does not touch. -/
theorem sameAt_run {call : Call} (h : k ∉ call.touches) :
    Respects (Chain.SameAt k) (call.run : Contract H Unit) := by
  have hne (k' : Kind) (hk' : k' ∈ call.touches) : Fact (k ≠ k') := ⟨fun he => h (he ▸ hk')⟩
  cases call <;> dsimp only [Call.run]
  case governanceInit | governanceSetPaused | governanceSetUpgradeAuthority |
      governanceRotateUpgradeAuthority | governanceSetVerifier =>
    have := hne .governance List.mem_cons_self
    simp only [Governance.init, Governance.setPaused, Governance.setUpgradeAuthority,
      Governance.rotateUpgradeAuthority, Governance.setVerifier]
    infer_instance
  case proofLedgerInit | proofLedgerRecord =>
    have := hne .proofLedger List.mem_cons_self
    simp only [ProofLedger.init, ProofLedger.record]
    repeat refine Respects.andThen inferInstance fun _ => ?_
    infer_instance
  case marketInit | marketUpsert | marketSetFundingUpdater | marketAdvanceFunding =>
    have := hne .market List.mem_cons_self
    simp only [Market.init, Market.upsert, Market.setFundingUpdater, Market.advanceFunding,
      Market.setMarket]
    infer_instance
  case registryInit | registrySubmit | registryCancel | registrySetUpgradeAuthority |
      registryRotateUpgradeAuthority =>
    have := hne .intentRegistry List.mem_cons_self
    simp only [IntentRegistry.init, IntentRegistry.submit, IntentRegistry.cancel,
      IntentRegistry.setUpgradeAuthority, IntentRegistry.rotateUpgradeAuthority]
    infer_instance
  case registryConsume | registryRollover =>
    have := hne .intentRegistry List.mem_cons_self
    infer_instance
  case stateInit | stateSetWriter | stateResetForPoseidon2 | stateAppend =>
    have := hne .positionState List.mem_cons_self
    simp only [PositionState.init, PositionState.setWriter, PositionState.resetForPoseidon2,
      PositionState.append, PositionState.storeEmptyNodes]
    infer_instance
  case stateAppendMany | stateSpendPosition =>
    have := hne .positionState List.mem_cons_self
    infer_instance
  case poolInit | poolSetWriter | poolConfigureFeeDestinations | poolDepositAsset | poolWithdraw |
      poolWithdrawAsset =>
    have := hne .shieldedPool List.mem_cons_self
    simp only [ShieldedPool.init, ShieldedPool.setWriter, ShieldedPool.configureFeeDestinations,
      ShieldedPool.depositAsset, ShieldedPool.withdraw, ShieldedPool.withdrawAsset]
    infer_instance
  case poolDeposit | poolDepositClaim | poolSpend | poolAccrueFees | poolDistributeInsurance |
      poolDistributeTreasury =>
    have := hne .shieldedPool List.mem_cons_self
    infer_instance
  case orderInit | orderRegister | orderTrigger =>
    have := hne .conditionalOrder List.mem_cons_self
    simp only [ConditionalOrder.init, ConditionalOrder.register, ConditionalOrder.trigger,
      ConditionalOrder.validateOracleMarkPrice]
    repeat refine Respects.andThen inferInstance fun _ => ?_
    infer_instance
  case closeInit | closeSettle | closeSettleManual | closeSettlePairManual |
      closeSettlePairConditional =>
    have := hne .positionClose List.mem_cons_self
    have := hne .positionState (List.mem_cons_of_mem _ List.mem_cons_self)
    infer_instance
  case liquidationInit | liquidationLiquidate =>
    have := hne .liquidation List.mem_cons_self
    have := hne .positionState (List.mem_cons_of_mem _ List.mem_cons_self)
    infer_instance
  case fundingInit | fundingSettle =>
    have := hne .fundingSettlement List.mem_cons_self
    have := hne .market (List.mem_cons_of_mem _ List.mem_cons_self)
    infer_instance
  case batchInit | batchConfigureFeeToken | batchSettle | batchClaimResidual =>
    have := hne .batchSettlement List.mem_cons_self
    have := hne .shieldedPool (List.mem_cons_of_mem _ List.mem_cons_self)
    have := hne .intentRegistry
      (List.mem_cons_of_mem _ (List.mem_cons_of_mem _ List.mem_cons_self))
    have := hne .positionState (List.mem_cons_of_mem _ (List.mem_cons_of_mem _
      (List.mem_cons_of_mem _ List.mem_cons_self)))
    infer_instance

/-! ## Recorded proofs -/

/-- The proofs that an action asks a proof ledger to record. -/
def Action.recordedKeys : Action H → List ProofKey
  | invoke ⟨_, _, _, .proofLedgerRecord _ key⟩ => [key]
  | _ => []

/-- The initialisation of a proof ledger records nothing. -/
theorem init_proof {governance : Address} {env : Env} {c c' : Chain H} {u : Unit}
    (h : Returns (ProofLedger.init governance) env c u c') (ledger : Address) :
    (c'.storage .proofLedger ledger).proof = (c.storage .proofLedger ledger).proof := by
  unfold ProofLedger.init at h
  simp only [returns_bind, returns_load, returns_failIf, returns_modifyStorage, exists_eq_left,
    exists_and_left, and_assoc, exists_const] at h
  rw [h.2]
  by_cases hl : ledger = env.current
  · subst hl
    rw [Chain.storage_modify_self]
  · rw [Chain.storage_modify_of_address hl]

theorem record_proof {authority : Address} {key : ProofKey} {env : Env} {c c' : Chain H} {u : Unit}
    (h : Returns (ProofLedger.record authority key) env c u c') {ledger : Address} {key' : ProofKey}
    (hproof : (c'.storage .proofLedger ledger).proof key') :
    (c.storage .proofLedger ledger).proof key' ∨ key' = key := by
  unfold ProofLedger.record at h
  simp only [returns_bind, returns_requireAuth, returns_validateHash, returns_load, returns_stored,
    returns_call, returns_failIf, returns_modifyStorage, exists_eq_left, exists_and_left, and_assoc,
    exists_const] at h
  obtain ⟨-, -, -, -, -, _, -, -, _, -, -, _, -, -, rfl⟩ := h
  by_cases hl : ledger = env.current
  · subst hl
    rw [Chain.storage_modify_self] at hproof
    by_cases hk : key' = key
    · exact Or.inr hk
    · exact Or.inl (by simpa only [Function.update_of_ne hk] using hproof)
  · rw [Chain.storage_modify_of_address hl] at hproof
    exact Or.inl hproof

/-- A step records no other proof than the one that it asks to record. -/
theorem proof_of_step {c c' : Chain H} {a : Action H} (h : step c a = .ok c') {ledger : Address}
    {key : ProofKey} (hproof : (c'.storage .proofLedger ledger).proof key) :
    (c.storage .proofLedger ledger).proof key ∨ key ∈ a.recordedKeys := by
  cases a with
  | external state =>
    obtain rfl := Except.ok.inj h
    exact Or.inl hproof
  | invoke tx =>
    have hrun := step_invoke_eq_ok.mp h
    obtain ⟨signers, timestamp, target, call⟩ := tx
    by_cases htouches : Kind.proofLedger ∈ call.touches
    · cases call
      case proofLedgerInit => exact Or.inl (init_proof hrun ledger ▸ hproof)
      case proofLedgerRecord =>
        exact (record_proof hrun hproof).imp_right List.mem_singleton.mpr
      all_goals simp [Call.touches] at htouches
    · have hsame : Chain.SameAt .proofLedger c c' := (sameAt_run htouches).rel hrun
      rw [show c'.storage .proofLedger = c.storage .proofLedger from hsame] at hproof
      exact Or.inl hproof

/-- What a proof ledger has recorded in a run, some action of the run has asked it to record. -/
theorem recorded_of_run {e : H.State} {as : List (Action H)} :
    ∀ x ∈ accepted step (Chain.blank e) as, ∀ ledger key,
      (x.pre.storage .proofLedger ledger).proof key → key ∈ as.flatMap Action.recordedKeys := by
  let recorded : Chain H → Prop := fun c => ∀ ledger key,
    (c.storage .proofLedger ledger).proof key → key ∈ as.flatMap Action.recordedKeys
  have hstep (c : Chain H) (a : Action H) (c' : Chain H) (ha : a ∈ as) (hc : recorded c)
      (h : step c a = .ok c') : recorded c' := by
    intro ledger key hproof
    rcases proof_of_step h hproof with hold | hnew
    · exact hc ledger key hold
    · exact List.mem_flatMap.mpr ⟨a, ha, hnew⟩
  have hblank : recorded (Chain.blank e) := fun _ _ h => absurd h Bool.false_ne_true
  intro x hx
  exact (accepted_of_inv hstep hblank (fun _ ha => ha) x hx).1

end Pnlx
