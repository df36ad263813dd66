import Mathlib.Data.Fintype.BigOperators
import Pnlx.Contracts.ShieldedPool
import Pnlx.Lib.Earmark
import Pnlx.Lib.Runs
import Pnlx.SampleAsset
import Pnlx.SampleHost

/-!
# The fee reserves of the pool

A run of one pool: its calls, by anybody and at any time, and whatever happens outside it. For every
token the pool is an account with an earmarked part for insurance and one for the treasury
(`account`), and every step is an allowed move of that account (`Moved`).

1. `moved_of_run`, `step_moved`: what a call, and a step, does to the accounts.
2. `reserved_run`, `fee_reserves`: the reserves are covered and conserved.
-/

namespace Pnlx.ShieldedPool

open Program Runs

variable {H : Host}

/-! ## Runs of a pool -/

/-- A call of the pool. -/
inductive Call where
  | init (governance proofLedger : Address) (depositCircuitId withdrawCircuitId : BytesN32)
  | deposit (commitment : BytesN32)
  | setWriter (writer : Address) (enabled : Bool)
  | configureFeeDestinations (insurance treasury : Address)
  | depositAsset (token sender : Address) (amount : I128) (commitment : BytesN32)
      (proof : ProofMeta)
  | depositClaim (writer token : Address) (amount : I128) (commitment : BytesN32)
      (proof : ProofMeta)
  | spend (writer : Address) (nullifier : BytesN32)
  | accrueFees (writer token : Address) (insurance treasury : I128)
  | distributeInsurance (token : Address)
  | distributeTreasury (token : Address)
  | withdraw (root nullifier tokenDigest recipient : BytesN32) (amount : I128) (proof : ProofMeta)
      (changeCommitment : BytesN32)
  | withdrawAsset (token : Address) (root nullifier : BytesN32) (recipient : Address)
      (amount : I128) (proof : ProofMeta) (changeCommitment : BytesN32)

def Call.run : Call → Contract H Unit
  | init governance proofLedger depositCircuitId withdrawCircuitId =>
    ShieldedPool.init governance proofLedger depositCircuitId withdrawCircuitId
  | deposit commitment => ShieldedPool.deposit commitment
  | setWriter writer enabled => ShieldedPool.setWriter writer enabled
  | configureFeeDestinations insurance treasury =>
    ShieldedPool.configureFeeDestinations insurance treasury
  | depositAsset token sender amount commitment proof =>
    ShieldedPool.depositAsset token sender amount commitment proof
  | depositClaim writer token amount commitment proof =>
    ShieldedPool.depositClaim writer token amount commitment proof
  | spend writer nullifier => ShieldedPool.spend writer nullifier
  | accrueFees writer token insurance treasury =>
    ShieldedPool.accrueFees writer token insurance treasury
  | distributeInsurance token => do
    let _ ← ShieldedPool.distributeInsurance token
  | distributeTreasury token => do
    let _ ← ShieldedPool.distributeTreasury token
  | withdraw root nullifier tokenDigest recipient amount proof changeCommitment =>
    ShieldedPool.withdraw root nullifier tokenDigest recipient amount proof changeCommitment
  | withdrawAsset token root nullifier recipient amount proof changeCommitment =>
    ShieldedPool.withdrawAsset token root nullifier recipient amount proof changeCommitment

/-- A call of the pool by an account or by another contract, or a step that the pool has no part
in, which can change everything but the storage of the pool. A transaction of another contract that
calls the pool is a few of these. -/
inductive Action (H : Host) where
  | invoke (signers : List Address) (invoker : Option Address) (timestamp : ℕ) (call : Call)
  | other (storage : (k : Kind) → Address → k.Storage) (external : H.State)

/-- A call that panics changes nothing. -/
def step (pool : Address) (c : Chain H) : Action H → Except String (Chain H)
  | .invoke signers invoker timestamp call =>
    (call.run ⟨signers, invoker, pool, timestamp⟩ c).map Prod.snd
  | .other storage external =>
    .ok (Chain.modify ⟨storage, external⟩ .shieldedPool pool fun _ => c.storage .shieldedPool pool)

theorem step_invoke_eq_ok {pool : Address} {c c' : Chain H} {signers : List Address}
    {invoker : Option Address} {timestamp : ℕ} {call : Call} :
    step pool c (.invoke signers invoker timestamp call) = .ok c' ↔
      Returns call.run ⟨signers, invoker, pool, timestamp⟩ c () c' := by
  show (call.run ⟨signers, invoker, pool, timestamp⟩ c).map Prod.snd = .ok c' ↔
    call.run ⟨signers, invoker, pool, timestamp⟩ c = .ok ((), c')
  cases call.run ⟨signers, invoker, pool, timestamp⟩ c with
  | error e => simp [Except.map]
  | ok p => simp [Except.map, Prod.ext_iff]

/-- What a call asks the pool to add to a reserve. -/
def Call.accrual (token : Address) (insurance : Bool) : Call → ℤ
  | accrueFees _ accrued toInsurance toTreasury =>
    if token = accrued then (FeeReserve.part ⟨toInsurance, toTreasury⟩ insurance).toInt else 0
  | _ => 0

/-- The reserve that a call asks the pool to pay out. -/
def Call.distributes : Call → Option (Address × Bool)
  | distributeInsurance token => some (token, true)
  | distributeTreasury token => some (token, false)
  | _ => none

def Action.accrual (token : Address) (insurance : Bool) : Action H → ℤ
  | .invoke _ _ _ call => call.accrual token insurance
  | .other .. => 0

def Action.distributes : Action H → Option (Address × Bool)
  | .invoke _ _ _ call => call.distributes
  | .other .. => none

/-- The step is a step without the pool. -/
def Action.Foreign : Action H → Prop
  | .invoke .. => False
  | .other .. => True

/-! ## Accounts -/

/-- What the tokens promise: a holding is never negative, it is what the token reports, and a
transfer moves exactly its amount. -/
structure ExactTokens (H : Host) where
  held : H.State → (token holder : Address) → ℤ
  held_nonneg : ∀ e token holder, 0 ≤ held e token holder
  balance_exact : ∀ {e token holder amount},
    H.tokenBalance e token holder = .ok amount → amount.toInt = held e token holder
  transfer_exact : ∀ {e token sender recipient amount e'},
    H.tokenTransfer e token sender recipient amount = .ok e' → ∀ t holder,
      held e' t holder = held e t holder -
        (if t = token ∧ holder = sender then amount.toInt else 0) +
        (if t = token ∧ holder = recipient then amount.toInt else 0)

/-- The fee reserve that the pool has recorded for a token. -/
def reserveOf (pool : Address) (c : Chain H) (token : Address) : FeeReserve :=
  ((c.storage .shieldedPool pool).feeReserve token).getD ⟨0, 0⟩

/-- The fees of a token that the pool has recorded as paid. -/
def paidOf (pool : Address) (c : Chain H) (token : Address) : FeeReserve :=
  ((c.storage .shieldedPool pool).feePaid token).getD ⟨0, 0⟩

/-- The account of the pool in a token, with a part for insurance and one for the treasury. -/
def account (T : ExactTokens H) (pool : Address) (c : Chain H) (token : Address) :
    Earmark.Account Bool where
  held := T.held c.external token pool
  part insurance := (FeeReserve.part (reserveOf pool c token) insurance).toInt
  paid insurance := (FeeReserve.part (paidOf pool c token) insurance).toInt

theorem part_setPart (reserve : FeeReserve) (insurance category : Bool) (amount : I128) :
    FeeReserve.part (FeeReserve.setPart reserve insurance amount) category =
      if category = insurance then amount else FeeReserve.part reserve category := by
  cases insurance <;> cases category <;> rfl

theorem sum_part (T : ExactTokens H) (pool : Address) (c : Chain H) (token : Address) :
    ∑ k, (account T pool c token).part k =
      (reserveOf pool c token).insurance.toInt + (reserveOf pool c token).treasury.toInt :=
  Fintype.sum_bool _

/-! ## Frames -/

/-- The pools keep their fee records and move no token. -/
structure SameBooks (c c' : Chain H) : Prop where
  reserve : ∀ pool, (c'.storage .shieldedPool pool).feeReserve =
    (c.storage .shieldedPool pool).feeReserve
  paid : ∀ pool, (c'.storage .shieldedPool pool).feePaid = (c.storage .shieldedPool pool).feePaid
  destinations : ∀ pool, (c'.storage .shieldedPool pool).feeDestinations =
    (c.storage .shieldedPool pool).feeDestinations
  external : c'.external = c.external

instance : Std.Refl (SameBooks (H := H)) :=
  ⟨fun _ => ⟨fun _ => rfl, fun _ => rfl, fun _ => rfl, rfl⟩⟩

instance : IsTrans (Chain H) SameBooks :=
  ⟨fun _ _ _ h h' => ⟨fun pool => (h'.reserve pool).trans (h.reserve pool),
    fun pool => (h'.paid pool).trans (h.paid pool),
    fun pool => (h'.destinations pool).trans (h.destinations pool), h'.external.trans h.external⟩⟩

/-- A storage key keeps its value if the update leaves it alone. -/
theorem key_modify {α : Type} {c : Chain H} {pool pool' : Address}
    {f : ShieldedPoolStorage → ShieldedPoolStorage} (key : ShieldedPoolStorage → α)
    (hf : ∀ s, key (f s) = key s) :
    key ((c.modify .shieldedPool pool f).storage .shieldedPool pool') =
      key (c.storage .shieldedPool pool') := by
  by_cases h : pool' = pool
  · rw [h, Chain.storage_modify_self, hf]
  · rw [Chain.storage_modify_of_address h]

theorem sameBooks_modify {c : Chain H} {pool : Address}
    {f : ShieldedPoolStorage → ShieldedPoolStorage} (hr : ∀ s, (f s).feeReserve = s.feeReserve)
    (hp : ∀ s, (f s).feePaid = s.feePaid) (hd : ∀ s, (f s).feeDestinations = s.feeDestinations) :
    SameBooks c (c.modify .shieldedPool pool f) where
  reserve _ := key_modify (·.feeReserve) hr
  paid _ := key_modify (·.feePaid) hp
  destinations _ := key_modify (·.feeDestinations) hd
  external := rfl

/-- An update that leaves the fee records alone. -/
theorem sameBooks_modifyStorage {f : ShieldedPoolStorage → ShieldedPoolStorage}
    (hr : ∀ s, (f s).feeReserve = s.feeReserve) (hp : ∀ s, (f s).feePaid = s.feePaid)
    (hd : ∀ s, (f s).feeDestinations = s.feeDestinations) :
    Respects (SameBooks (H := H)) (modifyStorage .shieldedPool f) where
  rel h := returns_modifyStorage.mp h ▸ sameBooks_modify hr hp hd

section Frames

instance sameBooks_recordCommitment {commitment : BytesN32} :
    Respects SameBooks (recordCommitment commitment : Contract H Unit) := by
  unfold recordCommitment
  repeat refine Respects.andThen inferInstance fun _ => ?_
  exact sameBooks_modifyStorage (fun _ => rfl) (fun _ => rfl) fun _ => rfl

instance sameBooks_recordNullifier {nullifier : BytesN32} :
    Respects SameBooks (recordNullifier nullifier : Contract H Unit) := by
  unfold recordNullifier
  repeat refine Respects.andThen inferInstance fun _ => ?_
  exact sameBooks_modifyStorage (fun _ => rfl) (fun _ => rfl) fun _ => rfl

instance sameBooks_recordChangeCommitment {commitment : BytesN32} :
    Respects SameBooks (recordChangeCommitment commitment : Contract H Unit) := by
  unfold recordChangeCommitment
  infer_instance

instance sameBooks_init {governance ledger : Address} {depositCircuit withdrawCircuit : BytesN32} :
    Respects SameBooks
      (init governance ledger depositCircuit withdrawCircuit : Contract H Unit) := by
  unfold init
  repeat refine Respects.andThen inferInstance fun _ => ?_
  exact sameBooks_modifyStorage (fun _ => rfl) (fun _ => rfl) fun _ => rfl

instance sameBooks_setWriter {writer : Address} {enabled : Bool} :
    Respects SameBooks (setWriter writer enabled : Contract H Unit) := by
  unfold setWriter
  repeat refine Respects.andThen inferInstance fun _ => ?_
  exact sameBooks_modifyStorage (fun _ => rfl) (fun _ => rfl) fun _ => rfl

instance sameBooks_deposit {commitment : BytesN32} :
    Respects SameBooks (deposit commitment : Contract H Unit) := sameBooks_recordCommitment

set_option synthInstance.maxSize 1024 in
instance sameBooks_depositClaim {writer token : Address} {amount : I128} {commitment : BytesN32}
    {proof : ProofMeta} :
    Respects SameBooks (depositClaim writer token amount commitment proof : Contract H Unit) := by
  unfold depositClaim
  infer_instance

instance sameBooks_spend {writer : Address} {nullifier : BytesN32} :
    Respects SameBooks (spend writer nullifier : Contract H Unit) := by
  unfold spend
  infer_instance

instance sameBooks_withdraw {root nullifier tokenDigest recipient change : BytesN32}
    {amount : I128} {proof : ProofMeta} : Respects SameBooks
      (withdraw root nullifier tokenDigest recipient amount proof change : Contract H Unit) := by
  unfold withdraw
  repeat refine Respects.andThen inferInstance fun _ => ?_
  exact Respects.andThen
    (sameBooks_modifyStorage (fun _ => rfl) (fun _ => rfl) fun _ => rfl) fun _ => inferInstance

end Frames

/-! ## What the calls do -/

section Effects

variable {env : Env} {c c' : Chain H} {u : Unit}

theorem configureFeeDestinations_returns {insurance treasury : Address}
    (h : Returns (configureFeeDestinations insurance treasury) env c u c') :
    insurance ≠ env.current ∧ treasury ≠ env.current ∧
      c' = c.modify .shieldedPool env.current fun s =>
        { s with feeDestinations := some ⟨insurance, treasury⟩ } := by
  unfold configureFeeDestinations at h
  simp only [returns_bind, returns_failIf, returns_load, returns_currentContract,
    returns_modifyStorage, exists_eq_left, exists_and_left, and_assoc, exists_const, not_or] at h
  obtain ⟨_, c₁, hadmin, -, -, hi, ht, rfl⟩ := h
  obtain rfl := ReadOnly.eq hadmin
  exact ⟨hi, ht, rfl⟩

theorem depositAsset_returns {token sender : Address} {amount : I128} {commitment : BytesN32}
    {proof : ProofMeta}
    (h : Returns (depositAsset token sender amount commitment proof) env c u c') :
    0 < amount.toInt ∧ ∃ e, H.tokenTransfer c.external token sender env.current amount = .ok e ∧
      SameBooks { c with external := e } c' := by
  unfold depositAsset validateDepositPublicInputs at h
  simp only [returns_bind, returns_failIf, returns_validateHash, returns_requireAuth,
    returns_currentContract, returns_transfer, exists_eq_left, exists_and_left, and_assoc,
    exists_const, not_le] at h
  obtain ⟨hpos, -, _, c₁, hproof, -, -, _, ⟨e, htransfer, rfl⟩, hrecord⟩ := h
  obtain rfl := ReadOnly.eq hproof
  exact ⟨hpos, e, htransfer, Respects.rel hrecord⟩

/-- A withdrawal leaves what the pool has reserved. -/
theorem withdrawAsset_covered {token recipient : Address} {root nullifier change : BytesN32}
    {amount : I128} {proof : ProofMeta}
    (h : Returns (withdrawAsset token root nullifier recipient amount proof change) env c u c') :
    ∃ held reserved : I128,
      I128.checkedAdd (reserveOf env.current c token).insurance
        (reserveOf env.current c token).treasury = some reserved ∧
      H.tokenBalance c.external token env.current = .ok held ∧
      reserved.toInt ≤ ((I128.checkedSub held amount).map BitVec.toInt).getD (-1) ∧
      ∃ e, H.tokenTransfer c.external token env.current recipient amount = .ok e ∧
        SameBooks { c with external := e } c' := by
  unfold withdrawAsset validatePublicInputs balance at h
  simp only [returns_bind, returns_failIf, returns_load, returns_unwrapOr,
    returns_currentContract, returns_queryExternal, returns_transfer, returns_modifyStorage,
    exists_eq_left, exists_and_left, and_assoc, exists_const, not_lt] at h
  obtain ⟨-, _, c₁, hproof, -, _, c₂, hnullifier, reserved, hreserved, held, hheld, hcover, _,
    ⟨e, htransfer, rfl⟩, hchange⟩ := h
  obtain rfl := ReadOnly.eq hproof
  have hrecorded : SameBooks c₁ c₂ := Respects.rel hnullifier
  rw [show (c₂.storage .shieldedPool env.current).feeReserve = _ from hrecorded.reserve _]
    at hreserved
  rw [hrecorded.external] at hheld htransfer
  refine ⟨held, reserved, hreserved, hheld, hcover, e, htransfer, ?_⟩
  have hstart : SameBooks { c₁ with external := e } { c₂ with external := e } :=
    ⟨hrecorded.reserve, hrecorded.paid, hrecorded.destinations, rfl⟩
  have hmodify := @sameBooks_modify H { c₂ with external := e } env.current (fun s => { s with
      assetWithdrawal := Function.update s.assetWithdrawal nullifier
        (some (token, root, recipient, amount, proof)) })
    (fun _ => rfl) (fun _ => rfl) fun _ => rfl
  exact trans_of SameBooks (trans_of SameBooks hstart hmodify) (Respects.rel hchange)

/-- What an accrual adds to the reserve is held. -/
theorem accrueFees_returns {writer token : Address} {insurance treasury : I128}
    (h : Returns (accrueFees writer token insurance treasury) env c u c') :
    ∃ (reserve : FeeReserve) (held : I128), 0 ≤ insurance.toInt ∧ 0 ≤ treasury.toInt ∧
      reserve.insurance.toInt = (reserveOf env.current c token).insurance.toInt + insurance.toInt ∧
      reserve.treasury.toInt = (reserveOf env.current c token).treasury.toInt + treasury.toInt ∧
      H.tokenBalance c.external token env.current = .ok held ∧
      reserve.insurance.toInt + reserve.treasury.toInt ≤ held.toInt ∧
      c'.storage .shieldedPool env.current =
        { c.storage .shieldedPool env.current with
          feeReserve := Function.update (c.storage .shieldedPool env.current).feeReserve token
            (some reserve) } ∧
      c'.external = c.external := by
  unfold accrueFees balance at h
  simp only [returns_bind, returns_failIf, returns_load, returns_unwrapOr,
    returns_currentContract, returns_queryExternal, returns_modifyStorage,
    exists_eq_left, exists_and_left, and_assoc, exists_const, not_lt, not_or] at h
  obtain ⟨_, c₁, hwriter, hi, ht, -, insured, hinsured, kept, hkept, held, hheld, reserved,
    hreserved, hcover, rfl⟩ := h
  obtain rfl := ReadOnly.eq hwriter
  rw [I128.checkedAdd, I128.ofInt?_eq_some] at hinsured hkept hreserved
  refine ⟨⟨insured, kept⟩, held, hi, ht, hinsured, hkept, hheld, ?_, Chain.storage_modify_self,
    rfl⟩
  rw [← hreserved]
  exact hcover

/-- A distribution pays the whole part to its destination. -/
theorem distributeFeeReserve_returns {token : Address} {insurance : Bool} {amount : I128}
    (h : Returns (distributeFeeReserve token insurance) env c amount c') :
    amount = FeeReserve.part (reserveOf env.current c token) insurance ∧
    ∃ destinations, (c.storage .shieldedPool env.current).feeDestinations = some destinations ∧
      (amount = 0 ∧ c' = c ∨ ∃ total : I128,
        total.toInt =
          (FeeReserve.part (paidOf env.current c token) insurance).toInt + amount.toInt ∧
        H.tokenTransfer c.external token env.current
          (if insurance then destinations.insurance else destinations.treasury) amount =
            .ok c'.external ∧
        c'.storage .shieldedPool env.current =
          { c.storage .shieldedPool env.current with
            feeReserve := Function.update (c.storage .shieldedPool env.current).feeReserve token
              (some (FeeReserve.setPart (reserveOf env.current c token) insurance 0))
            feePaid := Function.update (c.storage .shieldedPool env.current).feePaid token
              (some (FeeReserve.setPart (paidOf env.current c token) insurance total)) }) := by
  unfold distributeFeeReserve at h
  simp only [returns_bind, returns_stored, returns_load, returns_ite, returns_pure,
    returns_modifyStorage, returns_unwrapOr, returns_currentContract, returns_transfer,
    exists_eq_left, exists_and_left, and_assoc, exists_const, Chain.storage_modify_self,
    Chain.external_modify] at h
  obtain ⟨destinations, hdestinations, ⟨hzero, rfl, rfl⟩ |
    ⟨-, total, htotal, _, ⟨e, htransfer, rfl⟩, rfl, rfl⟩⟩ := h
  · exact ⟨hzero.symm, destinations, hdestinations, Or.inl ⟨rfl, rfl⟩⟩
  · rw [I128.checkedAdd, I128.ofInt?_eq_some] at htotal
    refine ⟨rfl, destinations, hdestinations, Or.inr ⟨total, htotal, htransfer, ?_⟩⟩
    simp only [Chain.storage_modify_self]
    rfl

end Effects

/-! ## Every call is a move of the accounts -/

section Moves

variable {T : ExactTokens H} {pool : Address} {c c' : Chain H}

/-- In every token the account of the pool makes an allowed move. -/
def Moved (T : ExactTokens H) (pool : Address) (c c' : Chain H)
    (m : Address → Earmark.Move Bool) : Prop :=
  ∀ token, (account T pool c token).Allows (m token) ∧
    account T pool c' token = (account T pool c token).apply (m token)

/-- The fees of the pool go to others. -/
def Destined (pool : Address) (c : Chain H) : Prop :=
  ∀ d, (c.storage .shieldedPool pool).feeDestinations = some d →
    d.insurance ≠ pool ∧ d.treasury ≠ pool

/-- The accounts of the pool are sound, and its fees go to others. -/
structure Reserved (T : ExactTokens H) (pool : Address) (c : Chain H) : Prop where
  sound : ∀ token, (account T pool c token).Sound
  destined : Destined pool c

theorem Moved.sound {m : Address → Earmark.Move Bool} (h : Moved T pool c c' m)
    (hc : Reserved T pool c) (token : Address) : (account T pool c' token).Sound := by
  rw [(h token).2]
  exact (hc.sound token).move (h token).1

/-- While the fee records stay, the holdings may change as long as they cover the reserves. -/
theorem moved_float
    (hr : (c'.storage .shieldedPool pool).feeReserve = (c.storage .shieldedPool pool).feeReserve)
    (hp : (c'.storage .shieldedPool pool).feePaid = (c.storage .shieldedPool pool).feePaid)
    (hheld : ∀ token,
      ∑ k, (account T pool c token).part k ≤ (account T pool c' token).held) :
    Moved T pool c c' fun token => .float (account T pool c' token).held := by
  intro token
  refine ⟨hheld token, ?_⟩
  unfold account reserveOf paidOf
  rw [hr, hp]
  rfl

/-- The holdings of the pool do not fall. -/
def Keeping (T : ExactTokens H) (pool : Address) (c c' : Chain H) : Prop :=
  ∀ token, T.held c.external token pool ≤ T.held c'.external token pool

theorem SameBooks.moved (hc : Reserved T pool c) (h : SameBooks c c') :
    Moved T pool c c' fun token => .float (account T pool c' token).held := by
  refine moved_float (h.reserve pool) (h.paid pool) fun token => ?_
  show _ ≤ T.held c'.external token pool
  rw [h.external]
  exact (hc.sound token).covered

theorem depositAsset_moved {env : Env} {token sender : Address} {amount : I128}
    {commitment : BytesN32} {proof : ProofMeta} (hc : Reserved T env.current c)
    (h : Returns (depositAsset token sender amount commitment proof) env c () c') :
    Moved T env.current c c' fun t => .float (account T env.current c' t).held := by
  obtain ⟨hpos, e, htransfer, hbooks⟩ := depositAsset_returns h
  refine moved_float (hbooks.reserve _) (hbooks.paid _) fun t => (hc.sound t).covered.trans ?_
  show T.held c.external t env.current ≤ T.held c'.external t env.current
  rw [show c'.external = e from hbooks.external, T.transfer_exact htransfer]
  -- the pool receives the amount, whoever has sent it
  by_cases ht : t = token
  · rw [if_pos (⟨ht, rfl⟩ : t = token ∧ env.current = env.current)]
    split_ifs <;> omega
  · rw [if_neg fun hand => ht hand.1, if_neg fun hand => ht hand.1]
    omega

theorem withdrawAsset_moved {env : Env} {token recipient : Address}
    {root nullifier change : BytesN32} {amount : I128} {proof : ProofMeta}
    (hc : Reserved T env.current c)
    (h : Returns (withdrawAsset token root nullifier recipient amount proof change) env c () c') :
    Moved T env.current c c' fun t => .float (account T env.current c' t).held := by
  obtain ⟨held, reserved, hreserved, hheld, hcover, e, htransfer, hbooks⟩ := withdrawAsset_covered h
  have hpos := (withdrawAsset_returns h).1.amount_pos
  refine moved_float (hbooks.reserve _) (hbooks.paid _) fun t => ?_
  show _ ≤ T.held c'.external t env.current
  rw [show c'.external = e from hbooks.external, T.transfer_exact htransfer]
  by_cases ht : t = token
  · subst ht
    rw [I128.checkedAdd, I128.ofInt?_eq_some] at hreserved
    have hnonneg : 0 ≤ reserved.toInt := by
      rw [hreserved]
      exact add_nonneg ((hc.sound t).nonneg true) ((hc.sound t).nonneg false)
    have hleft : reserved.toInt ≤ T.held c.external t env.current - amount.toInt := by
      cases hsub : I128.checkedSub held amount with
      | none =>
        rw [hsub] at hcover
        exact absurd (hnonneg.trans hcover) (by decide)
      | some left =>
        rw [hsub] at hcover
        rw [I128.checkedSub, I128.ofInt?_eq_some] at hsub
        rw [← T.balance_exact hheld, ← hsub]
        exact hcover
    rw [sum_part, ← hreserved, if_pos (⟨rfl, rfl⟩ : t = t ∧ env.current = env.current)]
    have hamount : 0 < amount.toInt := hpos
    split_ifs <;> omega
  · rw [if_neg fun hand => ht hand.1, if_neg fun hand => ht hand.1, sub_zero, add_zero]
    exact (hc.sound t).covered

/-- A move of the account in one token, while the others stay. -/
theorem moved_at {token : Address} {m : Earmark.Move Bool} (hc : Reserved T pool c)
    (hm : (account T pool c token).Allows m)
    (htoken : account T pool c' token = (account T pool c token).apply m)
    (hother : ∀ t, t ≠ token → account T pool c' t = account T pool c t) :
    Moved T pool c c'
      (Function.update (fun t => .float (account T pool c' t).held) token m) := by
  intro t
  by_cases ht : t = token
  · subst ht
    rw [Function.update_self]
    exact ⟨hm, htoken⟩
  · rw [Function.update_of_ne ht, hother t ht]
    exact ⟨(hc.sound t).covered, rfl⟩

theorem accrueFees_moved {env : Env} {writer token : Address} {insurance treasury : I128}
    (hc : Reserved T env.current c)
    (h : Returns (accrueFees writer token insurance treasury) env c () c') :
    Moved T env.current c c' (Function.update (fun t => .float (account T env.current c' t).held)
      token (.accrue fun k => (FeeReserve.part ⟨insurance, treasury⟩ k).toInt)) := by
  obtain ⟨reserve, held, hi, ht, hinsurance, htreasury, hheld, hcover, hstorage, hexternal⟩ :=
    accrueFees_returns h
  have hpart (k : Bool) : (FeeReserve.part reserve k).toInt =
      (account T env.current c token).part k + (FeeReserve.part ⟨insurance, treasury⟩ k).toInt := by
    cases k with
    | true => exact hinsurance
    | false => exact htreasury
  refine moved_at hc ⟨fun k => ?_, ?_⟩ ?_ fun t hne => ?_
  · cases k with
    | true => exact hi
    | false => exact ht
  · rw [← Finset.sum_congr rfl fun k _ => hpart k, Fintype.sum_bool]
    show _ ≤ T.held c.external token env.current
    rw [← T.balance_exact hheld]
    exact hcover
  · unfold account reserveOf paidOf
    rw [hstorage, hexternal]
    refine Earmark.Account.ext rfl (funext fun k => ?_) rfl
    dsimp only
    rw [Function.update_self]
    exact hpart k
  · unfold account reserveOf paidOf
    rw [hstorage, hexternal]
    refine Earmark.Account.ext rfl (funext fun k => ?_) rfl
    dsimp only
    rw [Function.update_of_ne hne]

/-- The parts of a reserve, or of what has been paid, after one of them has been set. -/
theorem part_update {fees : Address → Option FeeReserve} {token : Address} {insurance : Bool}
    {amount : I128} (t : Address) (k : Bool) :
    (FeeReserve.part ((Function.update fees token (some
      (FeeReserve.setPart ((fees token).getD ⟨0, 0⟩) insurance amount)) t).getD ⟨0, 0⟩) k).toInt =
      if t = token ∧ k = insurance then amount.toInt
      else (FeeReserve.part ((fees t).getD ⟨0, 0⟩) k).toInt := by
  by_cases ht : t = token
  · subst ht
    rw [Function.update_self, Option.getD_some, part_setPart]
    by_cases hk : k = insurance
    · rw [if_pos hk, if_pos ⟨rfl, hk⟩]
    · rw [if_neg hk, if_neg fun hand => hk hand.2]
  · rw [Function.update_of_ne ht, if_neg fun hand => ht hand.1]

theorem distributeFeeReserve_moved {env : Env} {token : Address} {insurance : Bool} {amount : I128}
    (hc : Reserved T env.current c)
    (h : Returns (distributeFeeReserve token insurance) env c amount c') :
    Moved T env.current c c' (Function.update (fun t => .float (account T env.current c' t).held)
      token (.pay insurance)) := by
  obtain ⟨hamount, d, hd, ⟨hzero, rfl⟩ | ⟨total, htotal, htransfer, hstorage⟩⟩ :=
    distributeFeeReserve_returns h
  · -- there is nothing to pay
    have hpart : (account T env.current c' token).part insurance = 0 := by
      show (FeeReserve.part _ insurance).toInt = 0
      rw [← hamount, hzero]
      rfl
    refine moved_at hc trivial
      (Earmark.Account.ext ?_ (funext fun k => ?_) (funext fun k => ?_)) fun _ _ => rfl
    · show _ = _ - (account T env.current c' token).part insurance
      rw [hpart, sub_zero]
    · show _ = if k = insurance then 0 else _
      by_cases hk : k = insurance
      · rw [if_pos hk, hk, hpart]
      · rw [if_neg hk]
    · show _ = if k = insurance then _ + (account T env.current c' token).part k else _
      by_cases hk : k = insurance
      · rw [if_pos hk, hk, hpart, add_zero]
      · rw [if_neg hk]
  · have hother : (if insurance then d.insurance else d.treasury) ≠ env.current := by
      cases insurance with
      | true => exact (hc.destined d hd).1
      | false => exact (hc.destined d hd).2
    have hreserve (t : Address) (k : Bool) : (account T env.current c' t).part k =
        if t = token ∧ k = insurance then 0 else (account T env.current c t).part k := by
      show (FeeReserve.part (reserveOf env.current c' t) k).toInt = _
      unfold reserveOf
      rw [hstorage]
      exact part_update t k
    have hpaid (t : Address) (k : Bool) : (account T env.current c' t).paid k =
        if t = token ∧ k = insurance then total.toInt else (account T env.current c t).paid k := by
      show (FeeReserve.part (paidOf env.current c' t) k).toInt = _
      unfold paidOf
      rw [hstorage]
      exact part_update t k
    refine moved_at hc trivial
      (Earmark.Account.ext ?_ (funext fun k => ?_) (funext fun k => ?_)) fun t ht =>
      Earmark.Account.ext ?_ (funext fun k => ?_) (funext fun k => ?_)
    · show T.held c'.external token env.current = T.held c.external token env.current - _
      rw [T.transfer_exact htransfer,
        if_pos (⟨rfl, rfl⟩ : token = token ∧ env.current = env.current),
        if_neg fun hand => hother hand.2.symm, add_zero, hamount]
      rfl
    · rw [hreserve]
      show _ = if k = insurance then 0 else _
      by_cases hk : k = insurance
      · rw [if_pos ⟨rfl, hk⟩, if_pos hk]
      · rw [if_neg fun hand => hk hand.2, if_neg hk]
    · rw [hpaid]
      show _ = if k = insurance then _ else _
      by_cases hk : k = insurance
      · rw [if_pos ⟨rfl, hk⟩, if_pos hk, htotal, hamount, hk]
        rfl
      · rw [if_neg fun hand => hk hand.2, if_neg hk]
    · show T.held c'.external t env.current = T.held c.external t env.current
      rw [T.transfer_exact htransfer, if_neg fun hand => ht hand.1, if_neg fun hand => ht hand.1,
        sub_zero, add_zero]
    · rw [hreserve, if_neg fun hand => ht hand.1]
    · rw [hpaid, if_neg fun hand => ht hand.1]

theorem distributes_returns {env : Env} {call : Call} {token : Address} {insurance : Bool}
    (h : Returns call.run env c () c') (hcall : call.distributes = some (token, insurance)) :
    ∃ amount, Returns (distributeFeeReserve token insurance) env c amount c' := by
  unfold Call.run at h
  unfold Call.distributes at hcall
  cases call with
  | distributeInsurance | distributeTreasury =>
    obtain ⟨amount, _, hpay, hdone⟩ := returns_bind.mp h
    obtain rfl := (returns_pure.mp hdone).2
    obtain ⟨rfl, rfl⟩ := Prod.mk.inj (Option.some.inj hcall)
    exact ⟨amount, hpay⟩
  | _ => cases hcall

/-- A step that pays a reserve out transfers it to its destination. -/
theorem distributes_transfers {env : Env} {call : Call} {token : Address} {insurance : Bool}
    (h : Returns call.run env c () c') (hcall : call.distributes = some (token, insurance))
    (hd : Destined env.current c)
    (hpart : FeeReserve.part (reserveOf env.current c token) insurance ≠ 0) :
    ∃ recipient, recipient ≠ env.current ∧ H.tokenTransfer c.external token env.current recipient
      (FeeReserve.part (reserveOf env.current c token) insurance) = .ok c'.external := by
  obtain ⟨amount, hpay⟩ := distributes_returns h hcall
  obtain ⟨rfl, d, hdestinations, ⟨hzero, -⟩ | ⟨total, -, htransfer, -⟩⟩ :=
    distributeFeeReserve_returns hpay
  · exact absurd hzero hpart
  · refine ⟨_, ?_, htransfer⟩
    cases insurance with
    | true => exact (hd d hdestinations).1
    | false => exact (hd d hdestinations).2

/-- Only one call changes where the fees go, and it sends them to others. -/
theorem destined_of_run {env : Env} {call : Call} (h : Returns call.run env c () c')
    (hc : Destined env.current c) : Destined env.current c' := by
  have hsame (hd : (c'.storage .shieldedPool env.current).feeDestinations =
      (c.storage .shieldedPool env.current).feeDestinations) : Destined env.current c' :=
    fun d hd' => hc d (hd ▸ hd')
  cases call with
  | init | deposit | setWriter | depositClaim | spend | withdraw =>
    unfold Call.run at h
    have hbooks : SameBooks c c' := Respects.rel h
    exact hsame (hbooks.destinations _)
  | configureFeeDestinations insurance treasury =>
    obtain ⟨hi, ht, rfl⟩ := configureFeeDestinations_returns h
    intro d hd
    rw [Chain.storage_modify_self] at hd
    rw [← Option.some.inj hd]
    exact ⟨hi, ht⟩
  | depositAsset =>
    obtain ⟨-, e, -, hbooks⟩ := depositAsset_returns h
    exact hsame (hbooks.destinations _)
  | withdrawAsset =>
    obtain ⟨held, reserved, -, -, -, e, -, hbooks⟩ := withdrawAsset_covered h
    exact hsame (hbooks.destinations _)
  | accrueFees =>
    obtain ⟨reserve, held, -, -, -, -, -, -, hstorage, -⟩ := accrueFees_returns h
    exact hsame (by rw [hstorage])
  | distributeInsurance | distributeTreasury =>
    obtain ⟨amount, hpay⟩ := distributes_returns h rfl
    obtain ⟨-, d, -, ⟨-, rfl⟩ | ⟨total, -, -, hstorage⟩⟩ := distributeFeeReserve_returns hpay
    · exact hc
    · exact hsame (by rw [hstorage])

theorem destined_step {a : Action H} (hc : Destined pool c) (h : step pool c a = .ok c') :
    Destined pool c' := by
  cases a with
  | other storage external =>
    rw [← Except.ok.inj h]
    intro d hd
    rw [Chain.storage_modify_self] at hd
    exact hc d hd
  | invoke signers invoker timestamp call =>
    have hrun := step_invoke_eq_ok.mp h
    exact destined_of_run hrun hc

/-- What a distribution takes out of a reserve. -/
def payout (pool : Address) (c : Chain H) (distributes : Option (Address × Bool)) (token : Address)
    (insurance : Bool) : ℤ :=
  if distributes = some (token, insurance) then
    (FeeReserve.part (reserveOf pool c token) insurance).toInt
  else 0

/-- The moves accrue and pay the given amounts. -/
structure Matches (T : ExactTokens H) (pool : Address) (c : Chain H)
    (accrual : Address → Bool → ℤ) (distributes : Option (Address × Bool))
    (m : Address → Earmark.Move Bool) : Prop where
  accrued : ∀ token k, (m token).accrued k = accrual token k
  payout : ∀ token k, (account T pool c token).payout (m token) k =
    payout pool c distributes token k

theorem matches_float {held : Address → ℤ} :
    Matches T pool c (fun _ _ => 0) none fun token => .float (held token) where
  accrued _ _ := rfl
  payout token k := by
    unfold ShieldedPool.payout
    rw [if_neg (fun h => by cases h)]
    rfl

theorem matches_accrue {held : Address → ℤ} {token : Address} {amount : Bool → ℤ} :
    Matches T pool c (fun t k => if t = token then amount k else 0) none
      (Function.update (fun t => .float (held t)) token (.accrue amount)) where
  accrued t k := by
    by_cases ht : t = token
    · rw [ht, Function.update_self, if_pos rfl]
      rfl
    · rw [Function.update_of_ne ht, if_neg ht]
      rfl
  payout t k := by
    unfold ShieldedPool.payout
    rw [if_neg (fun h => by cases h)]
    by_cases ht : t = token
    · rw [ht, Function.update_self]
      rfl
    · rw [Function.update_of_ne ht]
      rfl

theorem matches_pay {held : Address → ℤ} {token : Address} {insurance : Bool} :
    Matches T pool c (fun _ _ => 0) (some (token, insurance))
      (Function.update (fun t => .float (held t)) token (.pay insurance)) where
  accrued t k := by
    by_cases ht : t = token
    · rw [ht, Function.update_self]
      rfl
    · rw [Function.update_of_ne ht]
      rfl
  payout t k := by
    unfold ShieldedPool.payout
    by_cases ht : t = token
    · subst ht
      rw [Function.update_self]
      show (if k = insurance then _ else 0) = _
      by_cases hk : k = insurance
      · rw [if_pos hk, if_pos (by rw [hk])]
        rfl
      · rw [if_neg hk, if_neg fun h => hk (Prod.mk.inj (Option.some.inj h)).2.symm]
    · rw [Function.update_of_ne ht, if_neg fun h => ht (Prod.mk.inj (Option.some.inj h)).1.symm]
      rfl

theorem moved_of_run {env : Env} {call : Call} (h : Returns call.run env c () c')
    (hc : Reserved T env.current c) :
    ∃ m, Moved T env.current c c' m ∧
      Matches T env.current c (fun token k => call.accrual token k) call.distributes m := by
  cases call with
  | init | deposit | setWriter | depositClaim | spend | withdraw =>
    unfold Call.run at h
    have hbooks : SameBooks c c' := Respects.rel h
    exact ⟨_, hbooks.moved hc, matches_float⟩
  | configureFeeDestinations insurance treasury =>
    obtain ⟨-, -, rfl⟩ := configureFeeDestinations_returns h
    exact ⟨_, moved_float (key_modify (·.feeReserve) fun _ => rfl)
      (key_modify (·.feePaid) fun _ => rfl) fun token => (hc.sound token).covered, matches_float⟩
  | depositAsset => exact ⟨_, depositAsset_moved hc h, matches_float⟩
  | withdrawAsset => exact ⟨_, withdrawAsset_moved hc h, matches_float⟩
  | accrueFees => exact ⟨_, accrueFees_moved hc h, matches_accrue⟩
  | distributeInsurance | distributeTreasury =>
    obtain ⟨amount, hpay⟩ := distributes_returns h rfl
    exact ⟨_, distributeFeeReserve_moved hc hpay, matches_pay⟩

/-- **The step lemma.** -/
theorem step_moved {x : Step (Chain H) (Action H)} (hx : step pool x.pre x.act = .ok x.post)
    (hc : Reserved T pool x.pre) (hforeign : x.act.Foreign → Keeping T pool x.pre x.post) :
    Reserved T pool x.post ∧ ∃ m, Moved T pool x.pre x.post m ∧
      Matches T pool x.pre (fun token k => x.act.accrual token k) x.act.distributes m := by
  obtain ⟨c, act, c'⟩ := x
  dsimp only at hx hc hforeign ⊢
  cases act with
  | other storage external =>
    have hstorage : c'.storage .shieldedPool pool = c.storage .shieldedPool pool := by
      rw [← Except.ok.inj hx]
      exact Chain.storage_modify_self
    have hmoved := moved_float (T := T) (congrArg (·.feeReserve) hstorage)
      (congrArg (·.feePaid) hstorage)
      fun token => ((hc.sound token).covered).trans (hforeign trivial token)
    exact ⟨⟨fun token => hmoved.sound hc token, destined_step hc.destined hx⟩, _, hmoved,
      matches_float⟩
  | invoke signers invoker timestamp call =>
    have hrun := step_invoke_eq_ok.mp hx
    obtain ⟨m, hmoved, hmatches⟩ := moved_of_run hrun hc
    exact ⟨⟨fun token => hmoved.sound hc token, destined_step hc.destined hx⟩, m, hmoved, hmatches⟩

/-- The books of a run: the accounts are sound, and in every token and for both purposes the steps
have accrued what is reserved and what has been paid, and have taken out what has been paid. -/
structure Booked (T : ExactTokens H) (pool : Address) (c : Chain H)
    (steps : List (Step (Chain H) (Action H))) : Prop where
  reserved : Reserved T pool c
  accrued : ∀ token k, (steps.map fun x => x.act.accrual token k).sum =
    (account T pool c token).part k + (account T pool c token).paid k
  paid : ∀ token k, (steps.map fun x => payout pool x.pre x.act.distributes token k).sum =
    (account T pool c token).paid k

theorem Booked.step {x : Step (Chain H) (Action H)} {steps : List (Step (Chain H) (Action H))}
    (hforeign : x.act.Foreign → Keeping T pool x.pre x.post)
    (hx : ShieldedPool.step pool x.pre x.act = .ok x.post) (h : Booked T pool x.pre steps) :
    Booked T pool x.post (steps ++ [x]) := by
  obtain ⟨hreserved, m, hmoved, hmatches⟩ := step_moved hx h.reserved hforeign
  refine ⟨hreserved, fun token k => ?_, fun token k => ?_⟩
  · rw [List.map_append, List.sum_append, h.accrued, List.map_singleton, List.sum_singleton,
      ← hmatches.accrued, (hmoved token).2, Earmark.Account.part_add_paid]
  · rw [List.map_append, List.sum_append, h.paid, List.map_singleton, List.sum_singleton,
      ← hmatches.payout, (hmoved token).2, Earmark.Account.paid_apply]

theorem destined_blank {c : Chain H}
    (hc : c.storage .shieldedPool pool = Kind.blank .shieldedPool) : Destined pool c := by
  intro d hd
  rw [hc] at hd
  cases hd

theorem booked_blank {c : Chain H} (hc : c.storage .shieldedPool pool = Kind.blank .shieldedPool) :
    Booked T pool c [] := by
  have hpart (token : Address) (k : Bool) : (account T pool c token).part k = 0 := by
    unfold account reserveOf
    rw [hc]
    cases k <;> rfl
  have hpaid (token : Address) (k : Bool) : (account T pool c token).paid k = 0 := by
    unfold account paidOf
    rw [hc]
    cases k <;> rfl
  refine ⟨⟨fun token => ⟨fun k => (hpart token k).ge, ?_⟩, destined_blank hc⟩, fun token k => ?_,
    fun token k => (hpaid token k).symm⟩
  · rw [Finset.sum_congr rfl fun k _ => hpart token k, Finset.sum_const_zero]
    exact T.held_nonneg _ _ _
  · rw [hpart, hpaid]
    rfl

/-- **The run lemma.** -/
theorem booked_run {c : Chain H} (as : List (Action H))
    (hc : c.storage .shieldedPool pool = Kind.blank .shieldedPool)
    (hforeign : ∀ x ∈ accepted (step pool) c as, x.act.Foreign → Keeping T pool x.pre x.post) :
    Booked T pool (final (step pool) c as) (accepted (step pool) c as) :=
  final_of_steps (fun _ hx hstep _ h => h.step hx hstep) (booked_blank hc) hforeign

end Moves

/-- **Fee reserves are covered and conserved.** A pool starts blank, in a ledger in whatever state,
and nothing but its calls takes tokens from it. Then what it has reserved of a token is never more
than it holds. The accruals of the run add up to the recorded reserve and what has been paid, and
what the distributions have taken out to what has been paid; a distribution transfers just that to
its destination. A rejected call changes nothing. -/
theorem fee_reserves (T : ExactTokens H) {pool : Address} {c₀ : Chain H} {as : List (Action H)}
    (hblank : c₀.storage .shieldedPool pool = Kind.blank .shieldedPool)
    (hforeign : ∀ x ∈ accepted (step pool) c₀ as, x.act.Foreign →
      ∀ token, T.held x.pre.external token pool ≤ T.held x.post.external token pool) :
    let c := final (step pool) c₀ as
    let steps := accepted (step pool) c₀ as
    (∀ token, (reserveOf pool c token).insurance.toInt + (reserveOf pool c token).treasury.toInt ≤
      T.held c.external token pool) ∧
    (∀ token insurance,
      (steps.map fun x => x.act.accrual token insurance).sum =
        (FeeReserve.part (reserveOf pool c token) insurance).toInt +
          (FeeReserve.part (paidOf pool c token) insurance).toInt ∧
      (steps.map fun x => payout pool x.pre x.act.distributes token insurance).sum =
        (FeeReserve.part (paidOf pool c token) insurance).toInt) ∧
    (∀ x ∈ steps, ∀ token insurance, x.act.distributes = some (token, insurance) →
      FeeReserve.part (reserveOf pool x.pre token) insurance ≠ 0 →
      ∃ recipient, recipient ≠ pool ∧ H.tokenTransfer x.pre.external token pool recipient
        (FeeReserve.part (reserveOf pool x.pre token) insurance) = .ok x.post.external) ∧
    ∀ a message, step pool c a = .error message → final (step pool) c [a] = c := by
  intro c steps
  have hbooked : Booked T pool c steps := booked_run as hblank hforeign
  refine ⟨fun token => ?_, fun token k => ⟨hbooked.accrued token k, hbooked.paid token k⟩,
    fun x hx token insurance hdist hpart => ?_, fun a message h => final_cons_error h []⟩
  · rw [← sum_part T]
    exact (hbooked.reserved.sound token).covered
  · have hdestined : Destined pool x.pre :=
      (accepted_of_inv (fun _ _ _ (_ : True) h hstep => destined_step h hstep)
        (destined_blank hblank) (fun _ _ => trivial) x hx).1
    obtain ⟨hstep, -⟩ := accepted_ok x hx
    obtain ⟨pre, act, post⟩ := x
    cases act with
    | other storage external => cases hdist
    | invoke signers invoker timestamp call =>
      have hrun := step_invoke_eq_ok.mp hstep
      exact distributes_transfers hrun hdist hdestined hpart

/-! ## A pool in use -/

open LiquidityVault (sampleAsset sampleTokens) in
/-- A host on which every token is like `sampleAsset`, and which has no oracles. -/
def feeHost : Host where
  State := Address → sampleAsset.State
  sha256 := sampleHost.sha256
  poseidon2Permutation := sampleHost.poseidon2Permutation
  computeHash := sampleHost.computeHash
  poseidon2Hash := sampleHost.poseidon2Hash
  tokenBalance s token holder := .ok (sampleAsset.balance (s token) holder)
  tokenTransfer s token sender recipient amount :=
    (sampleAsset.transfer (s token) [sender] sender recipient amount).map (Function.update s token)
  oracleDecimals _ _ := .error "no oracle"
  sep40LastPrice _ _ _ := .error "no oracle"
  sep40Prices _ _ _ _ := .error "no oracle"
  beamEstimateCost _ _ _ := .error "no oracle"
  beamLastPrice _ _ _ _ _ := .error "no oracle"
  beamPrices _ _ _ _ _ _ := .error "no oracle"

open LiquidityVault (sampleAsset) in
theorem transfer_update {s s' : Address → sampleAsset.State} {token sender recipient : Address}
    {amount : I128}
    (h : (sampleAsset.transfer (s token) [sender] sender recipient amount).map
      (Function.update s token) = .ok s') (t holder : Address) :
    (sampleAsset.balance (s' t) holder).toInt = (sampleAsset.balance (s t) holder).toInt -
      (if t = token ∧ holder = sender then amount.toInt else 0) +
      (if t = token ∧ holder = recipient then amount.toInt else 0) := by
  cases htransfer : sampleAsset.transfer (s token) [sender] sender recipient amount with
  | error e =>
    rw [htransfer] at h
    cases h
  | ok moved =>
    rw [htransfer] at h
    rw [← Except.ok.inj h]
    by_cases ht : t = token
    · subst ht
      rw [Function.update_self, sampleAsset.transfer_exact htransfer]
      simp only [true_and]
    · rw [Function.update_of_ne ht, if_neg fun hand => ht hand.1, if_neg fun hand => ht hand.1,
        sub_zero, add_zero]

open LiquidityVault (sampleAsset) in
def feeTokens : ExactTokens feeHost where
  held s token holder := (sampleAsset.balance (s token) holder).toInt
  held_nonneg _ _ _ := sampleAsset.balance_nonneg _ _
  balance_exact h := congrArg BitVec.toInt (Except.ok.inj h).symm
  transfer_exact h := transfer_update h

def feePool : Address := .contract 4

def feeWriter : Address := .contract 6

def feeCoin : Address := .contract 100

/-- Every account has a thousand of every token. -/
def feeLedger : Chain feeHost := Chain.blank fun _ => LiquidityVault.sampleTokens

/-- The governance contract gets its admin. -/
def feeSetup : Action feeHost :=
  .other (feeLedger.modify .governance (.contract 2) fun s =>
    { s with admin := some SampleHost.sampleAdmin }).storage feeLedger.external

/-- Fees are accrued, more than the pool holds in the second call, and the insurance reserve is paid
out. -/
def feeCalls : List (Action feeHost) :=
  [.invoke [] none 0 (.init (.contract 2) (.contract 3) 5 6),
    .invoke [SampleHost.sampleAdmin] none 0 (.setWriter feeWriter true),
    .invoke [SampleHost.sampleAdmin] none 0 (.configureFeeDestinations (.account 7) (.account 8)),
    .invoke [] (some feeWriter) 0 (.accrueFees feeWriter feeCoin 30 20),
    .invoke [] (some feeWriter) 0 (.accrueFees feeWriter feeCoin 900 100),
    .invoke [] none 0 (.distributeInsurance feeCoin)]

theorem feePool_fees :
    let c := final (step feePool) feeLedger (feeSetup :: feeCalls)
    let steps := accepted (step feePool) feeLedger (feeSetup :: feeCalls)
    (reserveOf feePool c feeCoin, paidOf feePool c feeCoin) = (⟨0, 20⟩, ⟨30, 0⟩) ∧
    (feeTokens.held c.external feeCoin feePool, feeTokens.held c.external feeCoin (.account 7)) =
      (970, 1030) ∧
    (reserveOf feePool c feeCoin).insurance.toInt + (reserveOf feePool c feeCoin).treasury.toInt ≤
      feeTokens.held c.external feeCoin feePool ∧
    (steps.map fun x => x.act.accrual feeCoin true).sum =
      (FeeReserve.part (reserveOf feePool c feeCoin) true).toInt +
        (FeeReserve.part (paidOf feePool c feeCoin) true).toInt := by
  have hcalls : ∀ a ∈ feeCalls, ¬ a.Foreign := by
    simp [feeCalls, Action.Foreign]
  have h := @fee_reserves feeHost feeTokens feePool feeLedger (feeSetup :: feeCalls) rfl
    fun x hx hforeign => by
      rcases List.mem_cons.mp hx with rfl | hx
      · exact fun _ => le_rfl
      · exact absurd hforeign (hcalls x.act (accepted_ok x hx).2)
  exact ⟨by decide +kernel, by decide +kernel, h.1 feeCoin, (h.2.1 feeCoin true).1⟩

end Pnlx.ShieldedPool
