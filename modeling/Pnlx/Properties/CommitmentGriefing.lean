import Pnlx.Properties.CommitmentSets
import Pnlx.Properties.PoolNullifiers
import Pnlx.Properties.Withdrawals

/-!
# Griefing through the commitment sets

A pool rejects a commitment that it has recorded already, and `deposit` records any commitment for
anybody. So a transaction that records commitments fails when somebody who has seen it records one
of them before.

1. `recordsCommitment_iff`: an accepted transaction records its own commitments and no others.
2. `accepts_iff_of_grows`: on a ledger with more records, the commitment sets stop a transaction
   exactly when one of its commitments is among the new ones.
3. `accepted_after_iff`: the same for the calls that others insert before it.
-/

namespace Pnlx

open Program Runs

variable {H : Host}

/-! ## What a transaction records -/

/-- The calls of users and settlements that record commitments. -/
def Call.RecordsNotes : Call → Prop
  | poolDepositAsset .. | poolWithdrawAsset .. | batchSettle .. | batchClaimResidual .. => True
  | _ => False

/-- The commitments that a call records. -/
def Call.commitments : Call → List BytesN32
  | poolDepositAsset _ _ _ commitment _ => [commitment]
  | poolWithdrawAsset _ _ _ _ _ _ change => if change = 0 then [] else [change]
  | batchSettle args => args.marginChangeCommitments
  | batchClaimResidual _ commitment _ => [commitment]
  | _ => []

/-- The pool in which a transaction records its commitments. -/
def Chain.poolOf (c : Chain H) (tx : Tx) : Option Address :=
  match tx.call with
  | .poolDepositAsset .. | .poolWithdrawAsset .. => some tx.target
  | .batchSettle .. | .batchClaimResidual .. => (c.storage .batchSettlement tx.target).shieldedPool
  | _ => none

def Tx.Records (c : Chain H) (tx : Tx) (p : Address) (k : BytesN32) : Prop :=
  c.poolOf tx = some p ∧ k ∈ tx.call.commitments

/-- The ledger accepts the transaction. -/
def Accepts (c : Chain H) (tx : Tx) : Prop := (step c (.invoke tx)).isOk

instance {c : Chain H} {tx : Tx} : Decidable (Accepts c tx) :=
  inferInstanceAs (Decidable (_ = true))

theorem accepts_iff {c : Chain H} {tx : Tx} :
    Accepts c tx ↔ ∃ c', Returns tx.call.run tx.env c () c' := by
  simp only [← step_invoke_eq_ok]
  unfold Accepts
  cases step c (.invoke tx) with
  | error e => exact ⟨fun h => absurd h Bool.false_ne_true, fun ⟨_, h⟩ => nomatch h⟩
  | ok c' => exact ⟨fun _ => ⟨c', rfl⟩, fun _ => rfl⟩

/-- The pools have the commitments that they had. -/
def Chain.SameCommitments (c c' : Chain H) : Prop :=
  ∀ p, (c'.storage .shieldedPool p).commitment = (c.storage .shieldedPool p).commitment

instance : Std.Refl (Chain.SameCommitments (H := H)) := ⟨fun _ _ => rfl⟩

instance : IsTrans (Chain H) Chain.SameCommitments := ⟨fun _ _ _ h h' p => (h' p).trans (h p)⟩

/-- The pools have more commitments by those of `R`, which are fresh. -/
def Chain.Adds (c c' : Chain H) (R : Address → BytesN32 → Prop) : Prop :=
  ∀ p k, ((c'.storage .shieldedPool p).commitment k ↔
    (c.storage .shieldedPool p).commitment k ∨ R p k) ∧
      (R p k → ¬ (c.storage .shieldedPool p).commitment k)

namespace Chain.Adds

variable {c c₁ c' : Chain H} {R R' : Address → BytesN32 → Prop}

theorem recordsCommitment_iff (h : c.Adds c' R) {p : Address} {k : BytesN32} :
    RecordsCommitment c c' p k ↔ R p k := by
  obtain ⟨hiff, hfresh⟩ := h p k
  unfold RecordsCommitment
  rw [hiff]
  constructor
  · rintro ⟨hnew, hold | hR⟩
    · exact absurd hold hnew
    · exact hR
  · exact fun hR => ⟨hfresh hR, Or.inr hR⟩

theorem after (hsame : c.SameCommitments c₁) (h : c₁.Adds c' R) : c.Adds c' R := by
  intro p k
  rw [← hsame p]
  exact h p k

theorem before (h : c.Adds c₁ R) (hsame : c₁.SameCommitments c') : c.Adds c' R := by
  intro p k
  rw [hsame p]
  exact h p k

theorem refl (c : Chain H) : c.Adds c fun _ _ => False :=
  fun _ _ => ⟨by rw [or_false], False.elim⟩

theorem congr (h : c.Adds c' R) (hR : ∀ p k, R p k ↔ R' p k) : c.Adds c' R' := by
  intro p k
  rw [← hR]
  exact h p k

theorem trans (h : c.Adds c₁ R) (h' : c₁.Adds c' R') :
    c.Adds c' fun p k => R p k ∨ R' p k := by
  intro p k
  obtain ⟨hiff, hfresh⟩ := h p k
  obtain ⟨hiff', hfresh'⟩ := h' p k
  refine ⟨by rw [hiff', hiff, or_assoc], ?_⟩
  rintro (hR | hR')
  · exact hfresh hR
  · exact fun hold => hfresh' hR' (hiff.mpr (Or.inl hold))

end Chain.Adds

section SameCommitments

variable {α : Type}

theorem sameCommitments_of_sameAt {x : Contract H α}
    (hx : Respects (Chain.SameAt .shieldedPool) x) : Respects Chain.SameCommitments x :=
  hx.mono fun c c' h p => by rw [show c'.storage .shieldedPool = c.storage .shieldedPool from h]

theorem sameCommitments_modifyStorage {f : ShieldedPoolStorage → ShieldedPoolStorage}
    (hf : ∀ s, (f s).commitment = s.commitment) :
    Respects Chain.SameCommitments (modifyStorage .shieldedPool f : Contract H Unit) where
  rel {env c _ _} h p := by
    rw [returns_modifyStorage.mp h]
    by_cases hp : p = env.current
    · subst hp
      rw [Chain.storage_modify_self, hf]
    · rw [Chain.storage_modify_of_address hp]

instance sameCommitments_transfer {token sender recipient : Address} {amount : I128} :
    Respects Chain.SameCommitments
      (ShieldedPool.transfer token sender recipient amount : Contract H Unit) :=
  sameCommitments_of_sameAt inferInstance

instance sameCommitments_recordNullifier {nullifier : BytesN32} :
    Respects Chain.SameCommitments (ShieldedPool.recordNullifier nullifier : Contract H Unit) := by
  unfold ShieldedPool.recordNullifier
  refine Respects.andThen inferInstance fun _ => Respects.andThen inferInstance fun _ => ?_
  exact sameCommitments_modifyStorage fun _ => rfl

instance sameCommitments_spendMarginNullifiers {nullifiers : List BytesN32} :
    Respects Chain.SameCommitments
      (BatchSettlement.spendMarginNullifiers nullifiers : Contract H Unit) := by
  unfold BatchSettlement.spendMarginNullifiers ShieldedPool.spend
  infer_instance

instance sameCommitments_accrueFees {insurance treasury : I128} :
    Respects Chain.SameCommitments
      (BatchSettlement.accrueFees insurance treasury : Contract H Unit) := by
  have hset (token : Address) (insurance treasury : I128) : Respects (Chain.SameCommitments (H := H))
      (modifyStorage .shieldedPool fun s =>
        { s with feeReserve := Function.update s.feeReserve token (some ⟨insurance, treasury⟩) }) :=
    sameCommitments_modifyStorage fun _ => rfl
  have haccrue (writer token : Address) : Respects (Chain.SameCommitments (H := H))
      (ShieldedPool.accrueFees writer token insurance treasury) := by
    unfold ShieldedPool.accrueFees
    repeat refine Respects.andThen inferInstance fun _ => ?_
    exact hset token _ _
  unfold BatchSettlement.accrueFees
  infer_instance

end SameCommitments

section Adds

variable {env : Env} {c c' : Chain H} {u : Unit}

theorem recordCommitment_adds {commitment : BytesN32}
    (h : Returns (ShieldedPool.recordCommitment commitment) env c u c') :
    c.Adds c' fun p k => p = env.current ∧ k = commitment := by
  refine fun p k => ⟨commitment_recordCommitment h p k, ?_⟩
  rintro ⟨rfl, rfl⟩
  exact (returns_recordCommitment.mp h).1

theorem recordChangeCommitment_adds {change : BytesN32}
    (h : Returns (ShieldedPool.recordChangeCommitment change) env c u c') :
    c.Adds c' fun p k => p = env.current ∧ k ∈ if change = 0 then [] else [change] := by
  unfold ShieldedPool.recordChangeCommitment at h
  rcases returns_doIf.mp h with ⟨hne, h⟩ | ⟨hzero, rfl⟩
  · rw [if_neg hne]
    exact (recordCommitment_adds h).congr fun p k => by rw [List.mem_singleton]
  · rw [if_pos (not_not.mp hzero)]
    exact (Chain.Adds.refl c').congr fun p k => by simp

/-- **The step lemma of the loop.** A loop of deposits records its commitments. -/
theorem depositEach_adds {pool : Address} {commitments : List BytesN32}
    (h : Returns (forEach (fun commitment => call pool (ShieldedPool.deposit commitment))
      commitments) env c u c') : c.Adds c' fun p k => p = pool ∧ k ∈ commitments := by
  induction commitments generalizing c with
  | nil =>
    rw [(returns_pure.mp h).2]
    exact (Chain.Adds.refl c).congr fun p k => by simp
  | cons commitment commitments ih =>
    obtain ⟨_, c₁, hfirst, hrest⟩ := returns_bind.mp h
    have hadds := (recordCommitment_adds (returns_call.mp hfirst)).trans (ih hrest)
    refine hadds.congr fun p k => ?_
    rw [List.mem_cons, Env.current_invoke, and_or_left]

theorem recordMarginChanges_adds {commitments : List BytesN32}
    (h : Returns (BatchSettlement.recordMarginChanges commitments) env c u c') :
    c.Adds c' fun p k => (c.storage .batchSettlement env.current).shieldedPool = some p ∧
      k ∈ commitments := by
  unfold BatchSettlement.recordMarginChanges at h
  simp only [returns_bind, returns_stored, exists_eq_left, exists_and_left, and_assoc] at h
  obtain ⟨pool, hpool, hloop⟩ := h
  refine (depositEach_adds hloop).congr fun p k => ?_
  rw [hpool, Option.some.injEq, eq_comm]

theorem depositAsset_adds {token sender : Address} {amount : I128} {commitment : BytesN32}
    {proof : ProofMeta}
    (h : Returns (ShieldedPool.depositAsset token sender amount commitment proof) env c u c') :
    c.Adds c' fun p k => p = env.current ∧ k = commitment := by
  unfold ShieldedPool.depositAsset ShieldedPool.validateDepositPublicInputs at h
  simp only [returns_bind, returns_failIf, returns_validateHash, returns_requireAuth,
    returns_currentContract, exists_eq_left, exists_and_left, and_assoc, exists_const] at h
  obtain ⟨-, -, _, _, hproof, -, -, _, _, htransfer, hrecord⟩ := h
  obtain rfl := ReadOnly.eq hproof
  exact (recordCommitment_adds hrecord).after (Respects.rel htransfer)

theorem depositClaim_adds {writer token : Address} {amount : I128} {commitment : BytesN32}
    {proof : ProofMeta}
    (h : Returns (ShieldedPool.depositClaim writer token amount commitment proof) env c u c') :
    c.Adds c' fun p k => p = env.current ∧ k = commitment := by
  unfold ShieldedPool.depositClaim ShieldedPool.validateDepositPublicInputs at h
  simp only [returns_bind, returns_failIf, returns_validateHash, exists_eq_left, exists_and_left,
    and_assoc, exists_const] at h
  obtain ⟨_, _, hwriter, -, -, _, _, hproof, -, hrecord⟩ := h
  obtain rfl := ReadOnly.eq hwriter
  obtain rfl := ReadOnly.eq hproof
  exact recordCommitment_adds hrecord

theorem withdrawAsset_adds {token recipient : Address} {root nullifier change : BytesN32}
    {amount : I128} {proof : ProofMeta}
    (h : Returns (ShieldedPool.withdrawAsset token root nullifier recipient amount proof change)
      env c u c') :
    c.Adds c' fun p k => p = env.current ∧ k ∈ if change = 0 then [] else [change] := by
  unfold ShieldedPool.withdrawAsset ShieldedPool.validatePublicInputs ShieldedPool.balance at h
  simp only [returns_bind, returns_failIf, returns_load, returns_unwrapOr, returns_queryExternal,
    returns_currentContract, exists_eq_left, exists_and_left, and_assoc, exists_const] at h
  obtain ⟨-, _, _, hproof, -, _, c₁, hnullifier, _, -, _, -, -, _, c₂, htransfer, _, c₃, hrecord,
    hchange⟩ := h
  obtain rfl := ReadOnly.eq hproof
  have hset : Respects (Chain.SameCommitments (H := H)) (modifyStorage .shieldedPool fun s =>
      { s with
        assetWithdrawal := Function.update s.assetWithdrawal nullifier
          (some (token, root, recipient, amount, proof)) }) :=
    sameCommitments_modifyStorage fun _ => rfl
  have hsame : Chain.SameCommitments c₁ c₃ :=
    trans_of _ (Respects.rel htransfer) (hset.rel hrecord)
  exact ((recordChangeCommitment_adds hchange).after hsame).after (Respects.rel hnullifier)

theorem claimResidual_adds {intent commitment : BytesN32} {proof : ProofMeta}
    (h : Returns (BatchSettlement.claimResidual intent commitment proof) env c u c') :
    c.Adds c' fun p k => (c.storage .batchSettlement env.current).shieldedPool = some p ∧
      k = commitment := by
  unfold BatchSettlement.claimResidual at h
  simp only [returns_bind, returns_failIf, returns_validateHash, returns_requireAuth, returns_stored,
    returns_call, returns_load, returns_currentContract, returns_modifyStorage, exists_eq_left,
    exists_and_left, and_assoc, exists_const] at h
  obtain ⟨_, -, _, -, -, -, _, -, -, _, -, -, pool, hpool, _, -, hdeposit⟩ := h
  have hsame : Chain.SameCommitments c (c.modify .batchSettlement env.current fun s =>
      { s with
        residualMargin := Function.update s.residualMargin intent none
        claimedResidual := Function.update s.claimedResidual intent (some commitment) }) :=
    fun p => by rw [Chain.storage_modify_of_kind (by decide)]
  refine ((depositClaim_adds hdeposit).after hsame).congr fun p k => ?_
  rw [hpool, Option.some.injEq, Env.current_invoke, eq_comm]

theorem settle_adds {args : SettleArgs} (h : Returns (BatchSettlement.settle args) env c u c') :
    c.Adds c' fun p k => (c.storage .batchSettlement env.current).shieldedPool = some p ∧
      k ∈ args.marginChangeCommitments := by
  unfold BatchSettlement.settle at h
  simp only [returns_bind, returns_load, returns_failIf, exists_eq_left, exists_and_left, and_assoc,
    exists_const] at h
  obtain ⟨_, _, hargs, _, _, hproof, _, _, hinputs, -, _, _, hactive, _, _, hpriority, _, c₁, hspend,
    _, c₂, hchange, _, c₃, hconsume, _, c₄, hprice, _, c₅, happend, _, c₆, haccrue, hset⟩ := h
  obtain rfl := ReadOnly.eq hargs
  obtain rfl := ReadOnly.eq hproof
  obtain rfl := ReadOnly.eq hinputs
  obtain rfl := ReadOnly.eq hactive
  obtain rfl := ReadOnly.eq hpriority
  have hpool := (Respects.rel (R := BatchSettlement.SameConfig) hspend env.current).1
  have hadds := (recordMarginChanges_adds hchange).after (Respects.rel hspend)
  rw [hpool] at hadds
  -- nothing after the deposits touches a commitment
  refine hadds.before ?_
  have hconsume : Chain.SameCommitments c₂ c₃ := (sameCommitments_of_sameAt inferInstance).rel hconsume
  have hprice : Chain.SameCommitments c₃ c₄ := (sameCommitments_of_sameAt inferInstance).rel hprice
  have happend : Chain.SameCommitments c₄ c₅ := (sameCommitments_of_sameAt inferInstance).rel happend
  have haccrue : Chain.SameCommitments c₅ c₆ := Respects.rel haccrue
  have hset : Chain.SameCommitments c₆ c' := (sameCommitments_of_sameAt inferInstance).rel hset
  exact trans_of _ hconsume (trans_of _ hprice (trans_of _ happend (trans_of _ haccrue hset)))

end Adds

/-- **The records of a transaction.** When it succeeds, the commitments that it records are its
own. -/
theorem recordsCommitment_iff {c c' : Chain H} {tx : Tx} (hcall : tx.call.RecordsNotes)
    (h : step c (.invoke tx) = .ok c') (p : Address) (k : BytesN32) :
    RecordsCommitment c c' p k ↔ tx.Records c p k := by
  obtain ⟨signers, timestamp, target, call⟩ := tx
  have hrun := step_invoke_eq_ok.mp h
  unfold Tx.Records Chain.poolOf
  cases call
  case poolDepositAsset =>
    rw [(depositAsset_adds hrun).recordsCommitment_iff]
    simp [Call.commitments, Tx.env, eq_comm]
  case poolWithdrawAsset =>
    rw [(withdrawAsset_adds hrun).recordsCommitment_iff]
    simp only [Call.commitments, Tx.env, Option.some.injEq, eq_comm (a := p)]
  case batchSettle => exact (settle_adds hrun).recordsCommitment_iff
  case batchClaimResidual =>
    rw [(claimResidual_adds hrun).recordsCommitment_iff]
    simp only [Call.commitments, Tx.env, List.mem_singleton]
  all_goals exact hcall.elim

/-! ## Two runs -/

/-- The ledger with the commitment sets of another. -/
def Chain.withCommitments (c' c : Chain H) : Chain H :=
  { c' with
    storage := Function.update c'.storage .shieldedPool fun p =>
      { c'.storage .shieldedPool p with commitment := (c.storage .shieldedPool p).commitment } }

theorem commitment_withCommitments {c c' : Chain H} {p : Address} :
    ((c'.withCommitments c).storage .shieldedPool p).commitment =
      (c.storage .shieldedPool p).commitment := by
  unfold Chain.withCommitments
  simp only [Function.update_self]

/-- A ledger with more records is one with more commitments. -/
theorem withCommitments_addCommitments {c c' : Chain H} (hgrows : c.Grows c') :
    (c'.withCommitments c).addCommitments (fun p => (c'.storage .shieldedPool p).commitment) =
      c' := by
  have hcommitment (p : Address) : (fun k => (c.storage .shieldedPool p).commitment k ||
      (c'.storage .shieldedPool p).commitment k) = (c'.storage .shieldedPool p).commitment := by
    funext k
    cases hk : (c.storage .shieldedPool p).commitment k with
    | false => rw [Bool.false_or]
    | true => rw [Bool.true_or, (hgrows .shieldedPool p).1 k hk]
  unfold Chain.addCommitments Chain.withCommitments
  simp only [Function.update_self, Function.update_idem, hcommitment]
  rw [Function.update_eq_self]

/-- The calls that record commitments do the same among more commitments. -/
theorem follows_run {A : Address → BytesN32 → Bool} {call : Call} (hcall : call.RecordsNotes) :
    Follows (commitmentOverlay H A) call.run := by
  cases call
  case poolDepositAsset => exact follows_depositAsset
  case poolWithdrawAsset => exact follows_withdrawAsset
  case batchSettle => exact follows_settle
  case batchClaimResidual => exact follows_claimResidual
  all_goals exact hcall.elim

/-- **Two ledgers.** On a ledger with more records, a transaction is accepted when it is accepted
with the old commitment sets and none of its commitments is new. -/
theorem accepts_iff_of_grows {c c' : Chain H} {tx : Tx} (hcall : tx.call.RecordsNotes)
    (hgrows : c.Grows c') :
    Accepts c' tx ↔ Accepts (c'.withCommitments c) tx ∧
      ∀ p k, tx.Records c' p k → ¬ RecordsCommitment c c' p k := by
  have hrun : Accepts c' tx ↔ ∃ t, Returns tx.call.run tx.env
      ((c'.withCommitments c).addCommitments fun p => (c'.storage .shieldedPool p).commitment)
        () t := by
    rw [withCommitments_addCommitments hgrows, accepts_iff]
  have hpool : (c'.withCommitments c).poolOf tx = c'.poolOf tx := by
    have hbatch : (c'.withCommitments c).storage .batchSettlement = c'.storage .batchSettlement := by
      unfold Chain.withCommitments
      simp only [Function.update_of_ne (by decide : Kind.batchSettlement ≠ .shieldedPool)]
    unfold Chain.poolOf
    rw [hbatch]
  have hfollows := (follows_run hcall (A := fun p => (c'.storage .shieldedPool p).commitment)
    ).enlarged tx.env (c'.withCommitments c) ()
  -- the run clashes when it records a commitment of the larger ledger
  have hclash {s' : Chain H} (h : Returns tx.call.run tx.env (c'.withCommitments c) () s') :
      (commitmentOverlay H fun p => (c'.storage .shieldedPool p).commitment).Clash
          (c'.withCommitments c) s' ↔
        ∃ p k, tx.Records c' p k ∧ RecordsCommitment c c' p k := by
    have hrecords (p : Address) (k : BytesN32) :
        RecordsCommitment (c'.withCommitments c) s' p k ↔ tx.Records c' p k := by
      rw [recordsCommitment_iff hcall (step_invoke_eq_ok.mpr h)]
      unfold Tx.Records
      rw [hpool]
    constructor
    · rintro ⟨p, k, hA, hrecord⟩
      refine ⟨p, k, (hrecords p k).mp hrecord, ?_, hA⟩
      have hold := hrecord.1
      rwa [commitment_withCommitments] at hold
    · rintro ⟨p, k, hrecord, hnew⟩
      exact ⟨p, k, hnew.2, (hrecords p k).mpr hrecord⟩
  rw [hrun]
  constructor
  · rintro ⟨t, ht⟩
    obtain ⟨s', h, hnone, -⟩ := (hfollows t).mp ht
    refine ⟨accepts_iff.mpr ⟨s', h⟩, fun p k hrecord hnew => hnone ?_⟩
    exact (hclash h).mpr ⟨p, k, hrecord, hnew⟩
  · rintro ⟨haccepts, hnone⟩
    obtain ⟨s', h⟩ := accepts_iff.mp haccepts
    refine ⟨_, (hfollows _).mpr ⟨s', h, fun hmeet => ?_, rfl⟩⟩
    obtain ⟨p, k, hrecord, hnew⟩ := (hclash h).mp hmeet
    exact hnone p k hrecord hnew

/-- What has been recorded between the ends of a run, one of its steps has recorded. -/
theorem recordsCommitment_final_iff {c : Chain H} {as : List (Action H)} {p : Address}
    {k : BytesN32} : RecordsCommitment c (final step c as) p k ↔
      ∃ x ∈ accepted step c as, RecordsCommitment x.pre x.post p k := by
  constructor
  · rintro ⟨hfresh, hrecorded⟩
    exact exists_flip (P := fun c : Chain H => ((c.storage .shieldedPool p).commitment k : Prop))
      hfresh hrecorded
  · rintro ⟨x, hx, hfresh, hrecorded⟩
    have hrun : Chain.Grows c (final step c as) ∧ ∀ x ∈ accepted step c as,
        Chain.Grows c x.pre ∧ Chain.Grows x.post (final step c as) :=
      related_of_mem (R := Chain.Grows) fun _ _ _ h => step_grows h
    obtain ⟨hpre, hpost⟩ := hrun.2 x hx
    exact ⟨fun h => hfresh ((hpre .shieldedPool p).1 k h), (hpost .shieldedPool p).1 k hrecorded⟩

/-! ## Inserted deposits -/

/-- The action is a call of `deposit` for the commitment `k` in the pool `p`. -/
def Action.Deposits (a : Action H) (p : Address) (k : BytesN32) : Prop :=
  ∃ signers timestamp, a = .invoke ⟨signers, timestamp, p, .poolDeposit k⟩

/-- A call of `deposit` records its commitment, if nobody has, and does nothing else. -/
theorem final_deposit {c : Chain H} {a : Action H} {pool : Address} {commitment : BytesN32}
    (ha : a.Deposits pool commitment) :
    (∀ p k, ((final step c [a]).storage .shieldedPool p).commitment k ↔
      (c.storage .shieldedPool p).commitment k ∨ p = pool ∧ k = commitment) ∧
    ∀ c₀, (final step c [a]).withCommitments c₀ = c.withCommitments c₀ := by
  obtain ⟨signers, timestamp, rfl⟩ := ha
  cases h : step c (.invoke ⟨signers, timestamp, pool, .poolDeposit commitment⟩) with
  | ok c' =>
    have hrun : Returns (ShieldedPool.recordCommitment commitment)
        ⟨signers, none, pool, timestamp⟩ c () c' := step_invoke_eq_ok.mp h
    rw [final_cons_ok h, final_nil]
    refine ⟨commitment_recordCommitment hrun, fun c₀ => ?_⟩
    rw [(returns_recordCommitment.mp hrun).2]
    unfold Chain.withCommitments Chain.modify
    simp only [Function.update_self, Function.update_idem]
    congr 2
    funext p
    by_cases hp : p = pool
    · subst hp
      rw [Function.update_self]
    · rw [Function.update_of_ne hp]
  | error e =>
    rw [final_cons_error h, final_nil]
    refine ⟨fun p k => ?_, fun _ => rfl⟩
    -- the commitment is there already
    have hold : (c.storage .shieldedPool pool).commitment commitment := by
      by_contra hfresh
      have hrun : Returns (ShieldedPool.recordCommitment commitment)
          ⟨signers, none, pool, timestamp⟩ c () _ := returns_recordCommitment.mpr ⟨hfresh, rfl⟩
      have hstep := h.symm.trans (step_invoke_eq_ok.mpr hrun)
      exact nomatch hstep
    constructor
    · exact Or.inl
    · rintro (hk | ⟨rfl, rfl⟩)
      · exact hk
      · exact hold

/-- **The run lemma.** What a run of deposits has recorded. -/
theorem final_deposits {c : Chain H} {ins : List (Action H)}
    (hins : ∀ a ∈ ins, ∃ p k, a.Deposits p k) :
    (∀ p k, ((final step c ins).storage .shieldedPool p).commitment k ↔
      (c.storage .shieldedPool p).commitment k ∨ ∃ a ∈ ins, a.Deposits p k) ∧
    ∀ c₀, (final step c ins).withCommitments c₀ = c.withCommitments c₀ := by
  induction ins generalizing c with
  | nil => exact ⟨fun p k => by simp, fun _ => rfl⟩
  | cons a ins ih =>
    obtain ⟨pool, commitment, ha⟩ := hins a List.mem_cons_self
    obtain ⟨hfirst, hkeep⟩ := final_deposit (c := c) ha
    obtain ⟨hrest, hkeep'⟩ := ih (c := final step c [a])
      fun b hb => hins b (List.mem_cons_of_mem _ hb)
    rw [final_cons]
    refine ⟨fun p k => ?_, fun c₀ => (hkeep' c₀).trans (hkeep c₀)⟩
    have hdeposits : a.Deposits p k ↔ p = pool ∧ k = commitment := by
      obtain ⟨signers, timestamp, rfl⟩ := ha
      constructor
      · rintro ⟨signers', timestamp', h⟩
        cases h
        exact ⟨rfl, rfl⟩
      · rintro ⟨rfl, rfl⟩
        exact ⟨signers, timestamp, rfl⟩
    rw [hrest, hfirst, List.exists_mem_cons_iff, hdeposits, or_assoc]

/-- **Griefing, exactly.** Others insert calls before a transaction that the ledger would accept.
The ledger accepts it after them exactly when it would with the old commitment sets and no inserted
call has recorded one of its commitments. If the inserted calls are deposits, it accepts it exactly
when none of them is for one of its commitments. -/
theorem accepted_after_iff (e : H.State) (as ins : List (Action H)) {tx : Tx}
    (hcall : tx.call.RecordsNotes) (haccepts : Accepts (final step (Chain.blank e) as) tx) :
    let c := final step (Chain.blank e) as
    let c' := final step c ins
    (Accepts c' tx ↔ Accepts (c'.withCommitments c) tx ∧
      ∀ x ∈ accepted step c ins, ∀ p k, tx.Records c' p k →
        ¬ RecordsCommitment x.pre x.post p k) ∧
    ((∀ a ∈ ins, ∃ p k, a.Deposits p k) →
      (Accepts c' tx ↔ ∀ a ∈ ins, ∀ p k, a.Deposits p k → ¬ tx.Records c p k)) := by
  intro c c'
  have hgrows : c.Grows c' :=
    (related_of_mem (R := Chain.Grows) fun _ _ _ h => step_grows h).1
  have hiff := accepts_iff_of_grows hcall hgrows
  refine ⟨?_, fun hins => ?_⟩
  · rw [hiff]
    refine and_congr_right fun _ => ⟨fun h x hx p k hrecord hnew => ?_, fun h p k hrecord hnew => ?_⟩
    · exact h p k hrecord (recordsCommitment_final_iff.mpr ⟨x, hx, hnew⟩)
    · obtain ⟨x, hx, hnew⟩ := recordsCommitment_final_iff.mp hnew
      exact h x hx p k hrecord hnew
  · obtain ⟨hrecorded, hkeep⟩ := final_deposits (c := c) hins
    have hback : c'.withCommitments c = c := by
      rw [hkeep c]
      unfold Chain.withCommitments
      rw [Function.update_eq_self]
    have hbatch : c'.storage .batchSettlement = c.storage .batchSettlement := by
      conv_rhs => rw [← hback]
      unfold Chain.withCommitments
      simp only [Function.update_of_ne (by decide : Kind.batchSettlement ≠ .shieldedPool)]
    have hrecords (p : Address) (k : BytesN32) : tx.Records c' p k ↔ tx.Records c p k := by
      unfold Tx.Records Chain.poolOf
      rw [hbatch]
    rw [hiff, hback, and_iff_right haccepts]
    constructor
    · intro h a ha p k hdeposit hrecord
      obtain ⟨t, ht⟩ := accepts_iff.mp haccepts
      have hfresh := ((recordsCommitment_iff hcall (step_invoke_eq_ok.mpr ht) p k).mpr hrecord).1
      exact h p k ((hrecords p k).mpr hrecord)
        ⟨hfresh, (hrecorded p k).mpr (Or.inr ⟨a, ha, hdeposit⟩)⟩
    · rintro h p k hrecord ⟨hfresh, hnew⟩
      obtain ⟨a, ha, hdeposit⟩ := ((hrecorded p k).mp hnew).resolve_left hfresh
      exact h a ha p k hdeposit ((hrecords p k).mp hrecord)

section Examples

open SampleHost

/-- Account 9 has 1000 tokens and shows a recorded proof for the deposit of 100 of them. -/
def fundedAccount : sampleHost.State := ⟨[((sampleToken, .account 9), 1000)], []⟩

def depositProof : ProofMeta :=
  proofOf 6 [100, toField (addressDigest sampleHost sampleToken), 77]

def recordDeposit : List (Action sampleHost) :=
  deployPool ++ [adminTx (.contract 2) (.governanceSetVerifier 6 2 sampleAdmin),
    adminTx (.contract 3) (.proofLedgerRecord sampleAdmin depositProof.key)]

def userDeposit : Tx :=
  ⟨[.account 9], 0, .contract 4, .poolDepositAsset sampleToken (.account 9) 100 77 depositProof⟩

/-- A call of `deposit` that nobody has signed. -/
def strangerDeposit (commitment : BytesN32) : Action sampleHost :=
  .invoke ⟨[], 0, .contract 4, .poolDeposit commitment⟩

/-- The deposit of another commitment does not matter. -/
theorem accepts_userDeposit :
    let c := final step (Chain.blank fundedAccount) recordDeposit
    Accepts (final step c [strangerDeposit 78]) userDeposit := by
  intro c
  refine (accepted_after_iff fundedAccount recordDeposit [strangerDeposit 78]
    (by exact trivial : userDeposit.call.RecordsNotes) (by decide +kernel)).2 ?_ |>.mpr ?_
  · intro a ha
    rw [List.mem_singleton] at ha
    exact ⟨_, _, _, _, ha⟩
  · rintro a ha p k ⟨signers, timestamp, rfl⟩ ⟨-, hk⟩
    rw [List.mem_singleton] at ha
    cases ha
    exact absurd hk (by decide)

/-- A stranger records the commitment of a user's deposit, and the deposit fails. -/
theorem exists_griefed_deposit :
    ∃ (e : sampleHost.State) (as : List (Action sampleHost)) (tx : Tx) (k : BytesN32),
      let c := final step (Chain.blank e) as
      tx.call.RecordsNotes ∧ Accepts c tx ∧ k ∈ tx.call.commitments ∧
        ¬ Accepts (final step c [.invoke ⟨[], 0, tx.target, .poolDeposit k⟩]) tx :=
  ⟨fundedAccount, recordDeposit, userDeposit, 77, trivial, by decide +kernel, by decide,
    by decide +kernel⟩

end Examples

end Pnlx
