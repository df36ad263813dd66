import Pnlx.Properties.Withdrawals

/-!
# Who records a nullifier

A nullifier of a pool is recorded by a withdrawal under it, or by a call that a registered writer
of the pool has authorised (`spent_of_step`). All other calls leave the nullifiers of every pool as
they are (`samePool_run`).
-/

namespace Pnlx

open Program

variable {H : Host}

/-- The nullifiers and the writers of every pool stay. -/
def SamePool (c c' : Chain H) : Prop :=
  ∀ p, (c'.storage .shieldedPool p).nullifier = (c.storage .shieldedPool p).nullifier ∧
    (c'.storage .shieldedPool p).writer = (c.storage .shieldedPool p).writer

instance : Std.Refl (SamePool (H := H)) := ⟨fun _ _ => ⟨rfl, rfl⟩⟩

instance : IsTrans (Chain H) SamePool :=
  ⟨fun _ _ _ h h' p => ⟨(h' p).1.trans (h p).1, (h' p).2.trans (h p).2⟩⟩

section Frames

variable {α : Type}

theorem samePool_of_sameAt {x : Contract H α} (hx : Respects (Chain.SameAt .shieldedPool) x) :
    Respects SamePool x :=
  hx.mono fun c c' h p => by
    rw [show c'.storage .shieldedPool = c.storage .shieldedPool from h]
    exact ⟨rfl, rfl⟩

/-- An update of a pool that leaves its nullifiers and writers alone. -/
theorem samePool_of_modifyPool {f : ShieldedPoolStorage → ShieldedPoolStorage} {env : Env}
    {c c' : Chain H} {u : Unit} (h : Returns (modifyStorage .shieldedPool f) env c u c')
    (hf : ∀ s, (f s).nullifier = s.nullifier ∧ (f s).writer = s.writer) : SamePool c c' := by
  intro p
  rw [returns_modifyStorage.mp h]
  by_cases hp : p = env.current
  · subst hp
    rw [Chain.storage_modify_self]
    exact hf _
  · rw [Chain.storage_modify_of_address hp]
    exact ⟨rfl, rfl⟩

theorem samePool_modifyPool {f : ShieldedPoolStorage → ShieldedPoolStorage}
    (hf : ∀ s, (f s).nullifier = s.nullifier ∧ (f s).writer = s.writer) :
    Respects SamePool (modifyStorage .shieldedPool f : Contract H Unit) where
  rel h := samePool_of_modifyPool h hf

instance samePool_transfer {token sender recipient : Address} {amount : I128} :
    Respects SamePool
      (ShieldedPool.transfer token sender recipient amount : Contract H Unit) :=
  samePool_of_sameAt sameAt_runExternal

end Frames

/-! ## The calls that leave the pools alone -/

section Calls

instance samePool_recordCommitment {commitment : BytesN32} :
    Respects SamePool (ShieldedPool.recordCommitment commitment : Contract H Unit) := by
  unfold ShieldedPool.recordCommitment
  exact Respects.andThen inferInstance fun _ => Respects.andThen inferInstance fun _ =>
    samePool_modifyPool fun _ => ⟨rfl, rfl⟩

instance samePool_deposit {commitment : BytesN32} :
    Respects SamePool (ShieldedPool.deposit commitment : Contract H Unit) :=
  samePool_recordCommitment

instance samePool_recordChangeCommitment {commitment : BytesN32} :
    Respects SamePool (ShieldedPool.recordChangeCommitment commitment : Contract H Unit) := by
  unfold ShieldedPool.recordChangeCommitment
  infer_instance

set_option synthInstance.maxSize 1024 in
instance samePool_depositClaim {writer token : Address} {amount : I128} {commitment : BytesN32}
    {proof : ProofMeta} : Respects SamePool
      (ShieldedPool.depositClaim writer token amount commitment proof : Contract H Unit) := by
  unfold ShieldedPool.depositClaim
  infer_instance

instance samePool_accrueFees {writer token : Address} {insurance treasury : I128} :
    Respects SamePool
      (ShieldedPool.accrueFees writer token insurance treasury : Contract H Unit) := by
  unfold ShieldedPool.accrueFees
  repeat refine Respects.andThen inferInstance fun _ => ?_
  exact samePool_modifyPool fun _ => ⟨rfl, rfl⟩

instance samePool_distributeFeeReserve {token : Address} {insurance : Bool} :
    Respects SamePool
      (ShieldedPool.distributeFeeReserve token insurance : Contract H I128) := by
  unfold ShieldedPool.distributeFeeReserve
  refine Respects.andThen inferInstance fun _ => Respects.andThen inferInstance fun _ => ?_
  refine @Respects.ite _ _ _ _ _ _ _ _ _ inferInstance ?_
  refine Respects.andThen (samePool_modifyPool fun _ => ⟨rfl, rfl⟩) fun _ => ?_
  repeat refine Respects.andThen inferInstance fun _ => ?_
  exact Respects.andThen (samePool_modifyPool fun _ => ⟨rfl, rfl⟩) fun _ => inferInstance

instance : Fact (Kind.shieldedPool ≠ .positionState) := ⟨by decide⟩

instance : Fact (Kind.shieldedPool ≠ .intentRegistry) := ⟨by decide⟩

instance : Fact (Kind.shieldedPool ≠ .batchSettlement) := ⟨by decide⟩

/-- The calls that may change the nullifiers or the writers of a pool. -/
def Call.changesPool : Call → Bool
  | poolSetWriter .. | poolSpend .. | poolWithdraw .. | poolWithdrawAsset .. | batchSettle .. => true
  | _ => false

set_option synthInstance.maxSize 1024 in
/-- No other call changes the nullifiers or the writers of a pool. -/
theorem samePool_run {call : Call} (h : call.changesPool = false) :
    Respects SamePool (call.run : Contract H Unit) := by
  by_cases htouches : Kind.shieldedPool ∈ call.touches
  · cases call <;> dsimp only [Call.run]
    case poolInit =>
      unfold ShieldedPool.init
      repeat refine Respects.andThen inferInstance fun _ => ?_
      exact samePool_modifyPool fun _ => ⟨rfl, rfl⟩
    case poolConfigureFeeDestinations =>
      unfold ShieldedPool.configureFeeDestinations
      repeat refine Respects.andThen inferInstance fun _ => ?_
      exact samePool_modifyPool fun _ => ⟨rfl, rfl⟩
    case poolDepositAsset => unfold ShieldedPool.depositAsset; infer_instance
    case poolDeposit | poolDepositClaim | poolAccrueFees | poolDistributeInsurance |
        poolDistributeTreasury => infer_instance
    case batchInit | batchConfigureFeeToken => exact samePool_of_sameAt inferInstance
    case batchClaimResidual =>
      have hset (f : BatchSettlementStorage → BatchSettlementStorage) :
          Respects SamePool (modifyStorage .batchSettlement f : Contract H Unit) :=
        samePool_of_sameAt inferInstance
      unfold BatchSettlement.claimResidual
      iterate 8 refine Respects.andThen inferInstance fun _ => ?_
      infer_instance
    all_goals simp [Call.changesPool, Call.touches] at h htouches
  · exact samePool_of_sameAt (sameAt_run htouches)

end Calls

/-! ## The calls that record nullifiers -/

/-- Every nullifier that is recorded anew is recorded in a pool with the registered writer
`writer`. The writers stay. -/
def SpendsBy (writer : Address) (c c' : Chain H) : Prop :=
  ∀ p, (c'.storage .shieldedPool p).writer = (c.storage .shieldedPool p).writer ∧
    ∀ k, (c'.storage .shieldedPool p).nullifier k → (c.storage .shieldedPool p).nullifier k ∨
      (c.storage .shieldedPool p).writer writer = some true

instance {writer : Address} : Std.Refl (SpendsBy (H := H) writer) :=
  ⟨fun _ _ => ⟨rfl, fun _ h => Or.inl h⟩⟩

instance {writer : Address} : IsTrans (Chain H) (SpendsBy writer) where
  trans c c₁ c₂ h h' p := by
    refine ⟨(h' p).1.trans (h p).1, fun k hk => ?_⟩
    rcases (h' p).2 k hk with hk | hw
    · exact (h p).2 k hk
    · exact Or.inr ((h p).1 ▸ hw)

theorem SamePool.spendsBy {c c' : Chain H} (h : SamePool c c') (writer : Address) :
    SpendsBy writer c c' :=
  fun p => ⟨(h p).2, fun _ hk => Or.inl ((h p).1 ▸ hk)⟩

/-- A spend records its nullifier, for a registered writer that has authorised it. -/
theorem spend_authorized {writer : Address} {nullifier : BytesN32} {env : Env} {c c' : Chain H}
    {u : Unit} (h : Returns (ShieldedPool.spend writer nullifier) env c u c') :
    (writer ∈ env.signers ∨ env.invoker = some writer) ∧ SpendsBy writer c c' := by
  unfold ShieldedPool.spend ShieldedPool.requireWriter at h
  simp only [returns_bind, returns_requireAuth, returns_failIf, returns_load,
    ShieldedPool.returns_recordNullifier, exists_eq_left, exists_and_left, and_assoc, exists_const,
    not_not] at h
  obtain ⟨hauth, hwriter, -, rfl⟩ := h
  have hregistered : (c.storage .shieldedPool env.current).writer writer = some true := by
    cases hw : (c.storage .shieldedPool env.current).writer writer with
    | none => rw [hw] at hwriter; exact absurd hwriter (by simp)
    | some enabled => rw [hw] at hwriter; exact congrArg some hwriter
  refine ⟨hauth, fun p => ?_⟩
  by_cases hp : p = env.current
  · subst hp
    rw [Chain.storage_modify_self]
    exact ⟨rfl, fun _ _ => Or.inr hregistered⟩
  · rw [Chain.storage_modify_of_address hp]
    exact ⟨rfl, fun _ hk => Or.inl hk⟩

instance spendsBy_spend {writer : Address} {nullifier : BytesN32} :
    Respects (SpendsBy writer) (ShieldedPool.spend writer nullifier : Contract H Unit) where
  rel h := (spend_authorized h).2

instance samePool_recordMarginChanges {commitments : List BytesN32} :
    Respects SamePool (BatchSettlement.recordMarginChanges commitments : Contract H Unit) := by
  unfold BatchSettlement.recordMarginChanges
  infer_instance

instance samePool_settlementFees {insurance treasury : I128} :
    Respects SamePool (BatchSettlement.accrueFees insurance treasury : Contract H Unit) := by
  unfold BatchSettlement.accrueFees
  infer_instance

/-- A settlement spends as the writer that its contract is. -/
theorem settle_spendsBy {args : SettleArgs} {env : Env} {c c' : Chain H} {u : Unit}
    (h : Returns (BatchSettlement.settle args) env c u c') : SpendsBy env.current c c' := by
  unfold BatchSettlement.settle at h
  simp only [returns_bind, returns_load, returns_failIf, exists_eq_left, exists_and_left, and_assoc,
    exists_const] at h
  obtain ⟨_, _, hargs, _, _, hproof, _, _, hinputs, -, _, _, hactive, _, _, hpriority, _, c₁, hspend,
    _, c₂, hchange, _, c₃, hconsume, _, c₄, hprice, _, c₅, happend, _, c₆, haccrue, hset⟩ := h
  obtain rfl := (ReadOnly.eq hargs).symm
  obtain rfl := (ReadOnly.eq hproof).symm
  obtain rfl := (ReadOnly.eq hinputs).symm
  obtain rfl := (ReadOnly.eq hactive).symm
  obtain rfl := (ReadOnly.eq hpriority).symm
  have hloop : SpendsBy env.current c c₁ := by
    unfold BatchSettlement.spendMarginNullifiers at hspend
    simp only [returns_bind, returns_stored, returns_currentContract, exists_eq_left,
      exists_and_left, and_assoc] at hspend
    obtain ⟨_, -, hloop⟩ := hspend
    exact Respects.rel hloop
  have h₂ : SamePool c₁ c₂ := Respects.rel hchange
  have h₃ : SamePool c₂ c₃ := (samePool_of_sameAt sameAt_consumeFilledIntents).rel hconsume
  have h₄ : SamePool c₃ c₄ := (samePool_of_sameAt sameAt_checkedMarketPrice).rel hprice
  have h₅ : SamePool c₄ c₅ := (samePool_of_sameAt sameAt_appendPositions).rel happend
  have h₆ : SamePool c₅ c₆ := Respects.rel haccrue
  have h₇ : SamePool c₆ c' := (samePool_of_sameAt sameAt_modifyStorage).rel hset
  have hrest : SamePool c₁ c' :=
    trans_of _ h₂ (trans_of _ h₃ (trans_of _ h₄ (trans_of _ h₅ (trans_of _ h₆ h₇))))
  exact trans_of _ hloop (hrest.spendsBy _)

/-- Every nullifier that is recorded anew is `nullifier` in the pool `pool`. -/
def SpendsOnly (pool : Address) (nullifier : BytesN32) (c c' : Chain H) : Prop :=
  ∀ p k, (c'.storage .shieldedPool p).nullifier k →
    (c.storage .shieldedPool p).nullifier k ∨ (p = pool ∧ k = nullifier)

/-- After the record of a nullifier, the pools stay. -/
theorem spendsOnly_of_record {nullifier : BytesN32} {env : Env} {c c₁ c' : Chain H} {u : Unit}
    (h : Returns (ShieldedPool.recordNullifier nullifier) env c u c₁) (h' : SamePool c₁ c') :
    SpendsOnly env.current nullifier c c' := by
  intro p k hk
  rw [(h' p).1, (ShieldedPool.returns_recordNullifier.mp h).2] at hk
  by_cases hp : p = env.current
  · subst hp
    rw [Chain.storage_modify_self] at hk
    by_cases hn : k = nullifier
    · exact Or.inr ⟨rfl, hn⟩
    · exact Or.inl (by simpa only [Function.update_of_ne hn] using hk)
  · rw [Chain.storage_modify_of_address hp] at hk
    exact Or.inl hk

theorem withdraw_spendsOnly {root nullifier tokenDigest recipient change : BytesN32} {amount : I128}
    {proof : ProofMeta} {env : Env} {c c' : Chain H} {u : Unit}
    (h : Returns (ShieldedPool.withdraw root nullifier tokenDigest recipient amount proof change)
      env c u c') : SpendsOnly env.current nullifier c c' := by
  unfold ShieldedPool.withdraw at h
  simp only [returns_bind, returns_failIf, exists_eq_left, exists_and_left, and_assoc,
    exists_const] at h
  obtain ⟨-, _, _, hproof, _, _, hinputs, _, c₁, hrecord, _, c₂, hset, hchange⟩ := h
  obtain rfl := (ReadOnly.eq hproof).symm
  obtain rfl := (ReadOnly.eq hinputs).symm
  have hset' : SamePool c₁ c₂ := samePool_of_modifyPool hset fun _ => ⟨rfl, rfl⟩
  exact spendsOnly_of_record hrecord (trans_of _ hset' (Respects.rel hchange))

theorem withdrawAsset_spendsOnly {token recipient : Address} {root nullifier change : BytesN32}
    {amount : I128} {proof : ProofMeta} {env : Env} {c c' : Chain H} {u : Unit}
    (h : Returns (ShieldedPool.withdrawAsset token root nullifier recipient amount proof change)
      env c u c') : SpendsOnly env.current nullifier c c' := by
  unfold ShieldedPool.withdrawAsset at h
  simp only [returns_bind, returns_failIf, returns_load, returns_unwrapOr, returns_currentContract,
    exists_eq_left, exists_and_left, and_assoc, exists_const] at h
  obtain ⟨-, _, _, hproof, _, _, hinputs, _, c₁, hrecord, _, -, _, c₂, hbalance, -, _, c₃, htransfer,
    _, c₄, hset, hchange⟩ := h
  obtain rfl := (ReadOnly.eq hproof).symm
  obtain rfl := (ReadOnly.eq hinputs).symm
  have h₂ : SamePool c₁ c₂ := Respects.rel hbalance
  have h₃ : SamePool c₂ c₃ := Respects.rel htransfer
  have h₄ : SamePool c₃ c₄ := samePool_of_modifyPool hset fun _ => ⟨rfl, rfl⟩
  have h₅ : SamePool c₄ c' := Respects.rel hchange
  exact spendsOnly_of_record hrecord (trans_of _ h₂ (trans_of _ h₃ (trans_of _ h₄ h₅)))

/-- The registration of a writer records no nullifier. -/
theorem setWriter_nullifier {writer : Address} {enabled : Bool} {env : Env} {c c' : Chain H}
    {u : Unit} (h : Returns (ShieldedPool.setWriter writer enabled) env c u c') (p : Address) :
    (c'.storage .shieldedPool p).nullifier = (c.storage .shieldedPool p).nullifier := by
  unfold ShieldedPool.setWriter at h
  obtain ⟨_, c₁, hadmin, hset⟩ := returns_bind.mp h
  obtain rfl := (ReadOnly.eq hadmin).symm
  rw [returns_modifyStorage.mp hset]
  by_cases hp : p = env.current
  · subst hp
    rw [Chain.storage_modify_self]
  · rw [Chain.storage_modify_of_address hp]

/-- A registered writer of the pool has authorised the transaction, or is the called contract. -/
def AuthorizedWriter (c : Chain H) (tx : Tx) (pool : Address) : Prop :=
  ∃ writer, (c.storage .shieldedPool pool).writer writer = some true ∧
    (writer ∈ tx.signers ∨ writer = tx.target)

/-- **Who records a nullifier.** A transaction that records a nullifier of a pool is a withdrawal
from that pool under that nullifier, or a registered writer has authorised it. -/
theorem spent_of_step {c c' : Chain H} {tx : Tx} (h : step c (.invoke tx) = .ok c') {p : Address}
    {k : BytesN32} (hfresh : ¬ (c.storage .shieldedPool p).nullifier k)
    (hspent : (c'.storage .shieldedPool p).nullifier k) :
    (tx.target = p ∧ ∃ w ∈ tx.call.withdrawals H, w.nullifier = k) ∨ AuthorizedWriter c tx p := by
  have hrun := step_invoke_eq_ok.mp h
  by_cases hchanges : tx.call.changesPool = false
  · have hsame : SamePool c c' := (samePool_run hchanges).rel hrun
    exact absurd ((hsame p).1 ▸ hspent) hfresh
  · cases hcall : tx.call <;> rw [hcall] at hchanges hrun
    case poolSetWriter => exact absurd (setWriter_nullifier hrun p ▸ hspent) hfresh
    case poolSpend writer nullifier =>
      obtain ⟨hauth, hspends⟩ := spend_authorized hrun
      rcases (hspends p).2 k hspent with hold | hwriter
      · exact absurd hold hfresh
      · exact Or.inr ⟨writer, hwriter, Or.inl (hauth.resolve_right (by simp [Tx.env]))⟩
    case poolWithdraw =>
      rcases withdraw_spendsOnly hrun p k hspent with hold | ⟨rfl, rfl⟩
      · exact absurd hold hfresh
      · exact Or.inl ⟨rfl, _, List.mem_singleton_self _, rfl⟩
    case poolWithdrawAsset =>
      rcases withdrawAsset_spendsOnly hrun p k hspent with hold | ⟨rfl, rfl⟩
      · exact absurd hold hfresh
      · exact Or.inl ⟨rfl, _, List.mem_singleton_self _, rfl⟩
    case batchSettle =>
      rcases (settle_spendsBy hrun p).2 k hspent with hold | hwriter
      · exact absurd hold hfresh
      · exact Or.inr ⟨_, hwriter, Or.inr rfl⟩
    all_goals exact absurd rfl hchanges

end Pnlx
