import Pnlx.Circuits.ConditionalClose
import Pnlx.Properties.PositionSpending

/-!
# Conditional orders and their owners

An order is registered by anybody, for a market and a position nullifier, under its close commitment
alone. The first registration of a commitment stays for ever.

1. `returns_register`, `returns_trigger`: what the two calls check and do.
2. `order_of_run`: a registered order is never replaced.
3. `owns_after_iff`: the owner registers and triggers his order exactly when nobody registers its
   commitment before him.
4. `triggered_for`: an order that is triggered for a market and a position has shown a proof of its
   own commitment at the market's price.
-/

namespace Pnlx

open Program Runs

variable {H : Host}

namespace ConditionalOrder

section Effects

variable {env : Env} {c c' : Chain H} {u : Unit}
  {marketId positionNullifier closeCommitment : BytesN32} {markPrice : I128} {proof : ProofMeta}

/-- The storage with a registered order. -/
def registered (marketId positionNullifier closeCommitment : BytesN32)
    (s : ConditionalOrderStorage) : ConditionalOrderStorage :=
  { s with order := Function.update s.order closeCommitment (some ⟨marketId, positionNullifier⟩) }

/-- A registration is of a commitment that nobody has registered. -/
theorem returns_register :
    Returns (register marketId positionNullifier closeCommitment) env c u c' ↔
      (c.storage .conditionalOrder env.current).governance ≠ none ∧ marketId ≠ 0 ∧
      positionNullifier ≠ 0 ∧ closeCommitment ≠ 0 ∧
      (c.storage .conditionalOrder env.current).order closeCommitment = none ∧
      c' = c.modify .conditionalOrder env.current
        (registered marketId positionNullifier closeCommitment) := by
  unfold register
  simp only [returns_bind, returns_load, returns_failIf, returns_validateHash,
    returns_modifyStorage, exists_eq_left, exists_and_left, and_assoc, exists_const]
  simp only [Bool.not_eq_true, Option.isSome_eq_false_iff, Option.isNone_iff_eq_none]
  rfl

theorem register_order
    (h : Returns (register marketId positionNullifier closeCommitment) env c u c') (a : Address)
    (k : BytesN32) : (c'.storage .conditionalOrder a).order k =
      if a = env.current ∧ k = closeCommitment then some ⟨marketId, positionNullifier⟩
      else (c.storage .conditionalOrder a).order k := by
  obtain ⟨-, -, -, -, -, rfl⟩ := returns_register.mp h
  by_cases ha : a = env.current
  · subst ha
    rw [Chain.storage_modify_self]
    unfold registered
    dsimp only
    by_cases hk : k = closeCommitment
    · rw [hk, Function.update_self, if_pos ⟨rfl, rfl⟩]
    · rw [Function.update_of_ne hk, if_neg fun he => hk he.2]
  · rw [Chain.storage_modify_of_address ha, if_neg fun he => ha he.1]

/-- A trigger is for an order of this market and position that has not been triggered. -/
theorem returns_trigger :
    Returns (trigger marketId positionNullifier closeCommitment markPrice proof) env c u c' ↔
      marketId ≠ 0 ∧ positionNullifier ≠ 0 ∧ closeCommitment ≠ 0 ∧ 0 < markPrice.toInt ∧
      (c.storage .conditionalOrder env.current).order closeCommitment =
        some ⟨marketId, positionNullifier⟩ ∧
      ∃ c₁, Returns (validateOracleMarkPrice marketId markPrice) env c () c₁ ∧
        Returns (validateProof proof) env c₁ () c₁ ∧
        proof.publicInputHash =
          H.sha256 (publicInputBytes markPrice positionNullifier closeCommitment) ∧
        (c.storage .conditionalOrder env.current).trigger closeCommitment = none ∧
        c' = c₁.modify .conditionalOrder env.current fun s =>
          { s with
            trigger := Function.update s.trigger closeCommitment
              (some ⟨marketId, markPrice, positionNullifier, proof⟩) } := by
  unfold trigger
  simp only [returns_bind, returns_load, returns_stored, returns_failIf, returns_validateHash,
    returns_modifyStorage, exists_eq_left, exists_and_left, and_assoc, exists_const]
  constructor
  · rintro ⟨hmarket, hnullifier, hcommitment, hprice, order, horder, hmatch, _, c₁, hread, _, c₂,
      hproof, hhash, hfresh, rfl⟩
    obtain rfl := ReadOnly.eq hproof
    have hsame : c₂.storage = c.storage := Respects.rel (R := Chain.SameStorage) hread
    obtain ⟨hm, hn⟩ := not_or.mp hmatch
    obtain ⟨m, n⟩ := order
    obtain rfl : m = marketId := not_not.mp hm
    obtain rfl : n = positionNullifier := not_not.mp hn
    rw [hsame] at hfresh
    exact ⟨hmarket, hnullifier, hcommitment, not_le.mp hprice, horder, c₂, hread, hproof,
      not_not.mp hhash, Option.not_isSome_iff_eq_none.mp hfresh, rfl⟩
  · rintro ⟨hmarket, hnullifier, hcommitment, hprice, horder, c₁, hread, hproof, hhash, hfresh, rfl⟩
    have hsame : c₁.storage = c.storage := Respects.rel (R := Chain.SameStorage) hread
    rw [← hsame] at hfresh
    exact ⟨hmarket, hnullifier, hcommitment, not_le.mpr hprice, _, horder,
      not_or.mpr ⟨not_not.mpr rfl, not_not.mpr rfl⟩, (), c₁, hread, (), c₁, hproof,
      not_not.mpr hhash, Option.not_isSome_iff_eq_none.mpr hfresh, rfl⟩

end Effects

/-! ## Registered orders stay -/

/-- The orders and their contracts are the same, or more orders are registered. -/
structure KeepsOrders (c c' : Chain H) : Prop where
  governance : ∀ a, (c.storage .conditionalOrder a).governance ≠ none →
    (c'.storage .conditionalOrder a).governance ≠ none
  order : ∀ a k entry, (c.storage .conditionalOrder a).order k = some entry →
    (c'.storage .conditionalOrder a).order k = some entry

instance : Std.Refl (KeepsOrders (H := H)) := ⟨fun _ => ⟨fun _ h => h, fun _ _ _ h => h⟩⟩

instance : IsTrans (Chain H) KeepsOrders :=
  ⟨fun _ _ _ h h' => ⟨fun a ha => h'.governance a (h.governance a ha),
    fun a k entry hk => h'.order a k entry (h.order a k entry hk)⟩⟩

theorem keepsOrders_of_eq {c c' : Chain H}
    (h : c'.storage .conditionalOrder = c.storage .conditionalOrder) : KeepsOrders c c' :=
  ⟨fun _ ha => h ▸ ha, fun _ _ _ hk => h ▸ hk⟩

theorem keepsOrders_modify {c : Chain H} {a : Address}
    {f : ConditionalOrderStorage → ConditionalOrderStorage}
    (hgovernance : ∀ s, s.governance ≠ none → (f s).governance ≠ none)
    (horder : ∀ k entry, (c.storage .conditionalOrder a).order k = some entry →
      (f (c.storage .conditionalOrder a)).order k = some entry) :
    KeepsOrders c (c.modify .conditionalOrder a f) := by
  constructor
  · intro b hb
    by_cases hba : b = a
    · subst hba
      rw [Chain.storage_modify_self]
      exact hgovernance _ hb
    · rwa [Chain.storage_modify_of_address hba]
  · intro b k entry hk
    by_cases hba : b = a
    · subst hba
      rw [Chain.storage_modify_self]
      exact horder k entry hk
    · rwa [Chain.storage_modify_of_address hba]

/-- **The step lemma.** No action replaces a registered order. -/
theorem keepsOrders_of_step {c c' : Chain H} {a : Action H} (h : step c a = .ok c') :
    KeepsOrders c c' := by
  cases a with
  | external state =>
    obtain rfl := Except.ok.inj h
    exact keepsOrders_of_eq rfl
  | invoke tx =>
    obtain ⟨signers, timestamp, target, call⟩ := tx
    have hrun := step_invoke_eq_ok.mp h
    by_cases htouches : Kind.conditionalOrder ∈ call.touches
    · cases call
      case orderInit governance ledger market circuitId =>
        have hinit : Returns (init governance ledger market circuitId) _ c () c' := hrun
        unfold init at hinit
        simp only [returns_bind, returns_load, returns_failIf, returns_validateHash,
          returns_modifyStorage, exists_eq_left, exists_and_left, and_assoc, exists_const] at hinit
        obtain ⟨-, -, rfl⟩ := hinit
        exact keepsOrders_modify (fun _ _ => Option.some_ne_none _) fun _ _ h => h
      case orderRegister marketId positionNullifier closeCommitment =>
        obtain ⟨-, -, -, -, hfresh, rfl⟩ := returns_register.mp hrun
        refine keepsOrders_modify (fun _ h => h) fun k entry hk => ?_
        unfold registered
        dsimp only
        by_cases hkc : k = closeCommitment
        · rw [hkc] at hk
          exact absurd (hfresh.symm.trans hk) (Option.some_ne_none entry).symm
        · rwa [Function.update_of_ne hkc]
      case orderTrigger marketId positionNullifier closeCommitment markPrice proof =>
        obtain ⟨-, -, -, -, -, c₁, hread, -, -, -, rfl⟩ := returns_trigger.mp hrun
        have hsame : c₁.storage = c.storage := Respects.rel (R := Chain.SameStorage) hread
        refine trans_of KeepsOrders (keepsOrders_of_eq (congrFun hsame _)) ?_
        exact keepsOrders_modify (fun _ h => h) fun _ _ h => h
      all_goals simp [Call.touches] at htouches
    · have hframe : c'.storage .conditionalOrder = c.storage .conditionalOrder :=
        (sameAt_run htouches).rel hrun
      exact keepsOrders_of_eq hframe

/-- **The run lemma.** A registered order is never replaced. -/
theorem order_of_run (c : Chain H) (as : List (Action H)) : KeepsOrders c (final step c as) :=
  (related_of_mem (R := KeepsOrders) fun _ _ _ h => keepsOrders_of_step h).1

/-! ## The owner of an order -/

/-- The arguments of a registration. -/
structure Order where
  marketId : BytesN32
  positionNullifier : BytesN32
  closeCommitment : BytesN32
  deriving DecidableEq

/-- The registration of an order. -/
def Order.registerTx (o : Order) (signers : List Address) (timestamp : ℕ) (contract : Address) :
    Action H :=
  .invoke ⟨signers, timestamp, contract,
    .orderRegister o.marketId o.positionNullifier o.closeCommitment⟩

def Order.triggerTx (o : Order) (signers : List Address) (timestamp : ℕ) (contract : Address)
    (markPrice : I128) (proof : ProofMeta) : Action H :=
  .invoke ⟨signers, timestamp, contract,
    .orderTrigger o.marketId o.positionNullifier o.closeCommitment markPrice proof⟩

/-- A proof of the order is verified for the current price of its market, and the order has not
been triggered. -/
structure Order.Due (o : Order) (env : Env) (c : Chain H) (markPrice : I128) (proof : ProofMeta) :
    Prop where
  positive : 0 < markPrice.toInt
  checked : ∃ c₁, Returns (validateOracleMarkPrice o.marketId markPrice) env c () c₁ ∧
    Returns (validateProof proof) env c₁ () c₁
  hash : proof.publicInputHash =
    H.sha256 (publicInputBytes markPrice o.positionNullifier o.closeCommitment)
  untriggered : (c.storage .conditionalOrder env.current).trigger o.closeCommitment = none

/-- The owner's registration is accepted, and at any later time so is every trigger that is due. -/
def Order.Owned (o : Order) (signers : List Address) (timestamp : ℕ) (contract : Address)
    (c : Chain H) : Prop :=
  ∃ c₁, step c (o.registerTx signers timestamp contract) = .ok c₁ ∧
    ∀ (later : List (Action H)) (signers' : List Address) (timestamp' : ℕ) (markPrice : I128)
      (proof : ProofMeta),
      o.Due ⟨signers', none, contract, timestamp'⟩ (final step c₁ later) markPrice proof →
      ∃ c₂, step (final step c₁ later)
        (o.triggerTx signers' timestamp' contract markPrice proof) = .ok c₂

section Owned

variable {o : Order} {contract : Address} {c : Chain H}

/-- The contract accepts the registration of an order. -/
structure Order.Free (o : Order) (contract : Address) (c : Chain H) : Prop where
  governance : (c.storage .conditionalOrder contract).governance ≠ none
  marketId : o.marketId ≠ 0
  positionNullifier : o.positionNullifier ≠ 0
  closeCommitment : o.closeCommitment ≠ 0
  order : (c.storage .conditionalOrder contract).order o.closeCommitment = none

theorem Order.free_iff (signers : List Address) (timestamp : ℕ) :
    (∃ c₁, step c (o.registerTx signers timestamp contract) = .ok c₁) ↔ o.Free contract c := by
  constructor
  · rintro ⟨c₁, h⟩
    obtain ⟨h₁, h₂, h₃, h₄, h₅, -⟩ := returns_register.mp (step_invoke_eq_ok.mp h)
    exact ⟨h₁, h₂, h₃, h₄, h₅⟩
  · intro h
    exact ⟨_, step_invoke_eq_ok.mpr (returns_register.mpr
      ⟨h.governance, h.marketId, h.positionNullifier, h.closeCommitment, h.order, rfl⟩)⟩

/-- A registered order belongs to its owner for ever. -/
theorem Order.owned_iff_free (signers : List Address) (timestamp : ℕ) :
    o.Owned signers timestamp contract c ↔ o.Free contract c := by
  rw [← Order.free_iff signers timestamp]
  refine ⟨fun ⟨c₁, h, _⟩ => ⟨c₁, h⟩, fun ⟨c₁, h⟩ => ⟨c₁, h, ?_⟩⟩
  intro later signers' timestamp' markPrice proof hdue
  obtain ⟨-, hmarket, hnullifier, hcommitment, -, rfl⟩ :=
    returns_register.mp (step_invoke_eq_ok.mp h)
  have hentry : ((c.modify .conditionalOrder contract (registered o.marketId o.positionNullifier
      o.closeCommitment)).storage .conditionalOrder contract).order o.closeCommitment =
      some ⟨o.marketId, o.positionNullifier⟩ := by
    rw [Chain.storage_modify_self]
    exact Function.update_self _ _ _
  have horder := (order_of_run _ later).order contract _ _ hentry
  obtain ⟨c₁, hread, hproof⟩ := hdue.checked
  exact ⟨_, step_invoke_eq_ok.mpr (returns_trigger.mpr ⟨hmarket, hnullifier, hcommitment,
    hdue.positive, horder, c₁, hread, hproof, hdue.hash, hdue.untriggered, rfl⟩)⟩

/-- The registration of `o'` takes the commitment of `o`. -/
structure Order.Takes (o' o : Order) : Prop where
  marketId : o'.marketId ≠ 0
  positionNullifier : o'.positionNullifier ≠ 0
  closeCommitment : o'.closeCommitment = o.closeCommitment

instance {o' o : Order} : Decidable (o'.Takes o) :=
  decidable_of_iff (o'.marketId ≠ 0 ∧ o'.positionNullifier ≠ 0 ∧
    o'.closeCommitment = o.closeCommitment) ⟨fun ⟨h₁, h₂, h₃⟩ => ⟨h₁, h₂, h₃⟩,
      fun h => ⟨h.marketId, h.positionNullifier, h.closeCommitment⟩⟩

/-- The action is a registration of the order in the contract. -/
def Registers (a : Action H) (contract : Address) (o : Order) : Prop :=
  ∃ signers timestamp, a = o.registerTx signers timestamp contract

/-- **The step lemma.** A registration in some contract. -/
theorem Order.Free.register (h : o.Free contract c) (o' : Order) (signers : List Address)
    (timestamp : ℕ) (contract' : Address) :
    o.Free contract (final step c [o'.registerTx signers timestamp contract']) ↔
      ¬ (contract' = contract ∧ o'.Takes o) := by
  cases hstep : step c (o'.registerTx signers timestamp contract') with
  | error e =>
    rw [final_cons_error hstep, final_nil]
    refine iff_of_true h ?_
    rintro ⟨rfl, htakes⟩
    -- such a registration would be accepted
    have hfree : o'.Free contract' c := ⟨h.governance, htakes.marketId, htakes.positionNullifier,
      htakes.closeCommitment ▸ h.closeCommitment, htakes.closeCommitment ▸ h.order⟩
    obtain ⟨c₁, hok⟩ := (Order.free_iff signers timestamp).mpr hfree
    rw [hstep] at hok
    cases hok
  | ok c₁ =>
    have hrun := step_invoke_eq_ok.mp hstep
    obtain ⟨-, hmarket, hnullifier, -, -, -⟩ := returns_register.mp hrun
    have horder : (c₁.storage .conditionalOrder contract).order o.closeCommitment =
        if contract = contract' ∧ o.closeCommitment = o'.closeCommitment then
          some ⟨o'.marketId, o'.positionNullifier⟩
        else (c.storage .conditionalOrder contract).order o.closeCommitment :=
      register_order hrun contract o.closeCommitment
    rw [final_cons_ok hstep, final_nil]
    constructor
    · rintro hfree ⟨rfl, htakes⟩
      rw [if_pos ⟨rfl, htakes.closeCommitment.symm⟩] at horder
      exact absurd (horder.symm.trans hfree.order) (Option.some_ne_none _)
    · intro hnot
      refine ⟨(keepsOrders_of_step hstep).governance _ h.governance, h.marketId,
        h.positionNullifier, h.closeCommitment, ?_⟩
      rw [horder, if_neg fun he => hnot ⟨he.1.symm, hmarket, hnullifier, he.2.symm⟩]
      exact h.order

/-- **The run lemma.** A commitment stays free while nobody takes it. -/
theorem Order.Free.registers (h : o.Free contract c) {ins : List (Action H)}
    (hins : ∀ a ∈ ins, ∃ contract' o', Registers a contract' o') :
    o.Free contract (final step c ins) ↔
      ∀ a ∈ ins, ∀ o', Registers a contract o' → ¬ o'.Takes o := by
  induction ins generalizing c with
  | nil => exact iff_of_true h fun a ha => absurd ha List.not_mem_nil
  | cons a ins ih =>
    obtain ⟨contract', o', signers, timestamp, rfl⟩ := hins a List.mem_cons_self
    have hrest : ∀ b ∈ ins, ∃ contract' o', Registers b contract' o' :=
      fun b hb => hins b (List.mem_cons_of_mem _ hb)
    have hfirst := h.register o' signers timestamp contract'
    have honly : (∀ o'', Registers (o'.registerTx signers timestamp contract' : Action H) contract
        o'' → ¬ o''.Takes o) ↔ ¬ (contract' = contract ∧ o'.Takes o) := by
      constructor
      · rintro hall ⟨rfl, htakes⟩
        exact hall o' ⟨signers, timestamp, rfl⟩ htakes
      · rintro hnot ⟨m, n, k⟩ ⟨signers', timestamp', he⟩ htakes
        obtain ⟨m', n', k'⟩ := o'
        cases he
        exact hnot ⟨rfl, htakes⟩
    rw [final_cons, List.forall_mem_cons, honly, ← hfirst]
    by_cases hfree : o.Free contract (final step c [o'.registerTx signers timestamp contract'])
    · rw [ih hfree hrest]
      exact (and_iff_right hfree).symm
    · refine iff_of_false (fun hafter => hfree ?_) fun hboth => hfree hboth.1
      have hkeep := order_of_run c [o'.registerTx signers timestamp contract']
      refine ⟨hkeep.governance _ h.governance, h.marketId, h.positionNullifier,
        h.closeCommitment, Option.eq_none_iff_forall_ne_some.mpr fun entry hentry => ?_⟩
      have hlater := (order_of_run _ ins).order _ _ _ hentry
      exact absurd (hlater.symm.trans hafter.order) (Option.some_ne_none entry)

end Owned

/-! ## Triggered orders -/

/-- `is_triggered_for` answers true for the order. -/
def Order.TriggeredFor (o : Order) (contract : Address) (c : Chain H) : Prop :=
  ∀ env : Env, env.current = contract →
    Returns (isTriggeredFor o.marketId o.positionNullifier o.closeCommitment) env c true c

theorem Order.triggeredFor_iff {o : Order} {contract : Address} {c : Chain H} :
    o.TriggeredFor contract c ↔
      ∃ markPrice proof, (c.storage .conditionalOrder contract).trigger o.closeCommitment =
        some ⟨o.marketId, markPrice, o.positionNullifier, proof⟩ := by
  unfold Order.TriggeredFor
  simp only [returns_load, and_true]
  constructor
  · intro h
    have hanswer := h ⟨[], none, contract, 0⟩ rfl
    cases htrigger : (c.storage .conditionalOrder contract).trigger o.closeCommitment with
    | none =>
      rw [htrigger] at hanswer
      cases hanswer
    | some t =>
      rw [htrigger] at hanswer
      obtain ⟨hmarket, hnullifier⟩ := (Bool.and_eq_true_iff).mp hanswer.symm
      obtain ⟨m, markPrice, n, proof⟩ := t
      obtain rfl : m = o.marketId := eq_of_beq hmarket
      obtain rfl : n = o.positionNullifier := eq_of_beq hnullifier
      exact ⟨markPrice, proof, rfl⟩
  · rintro ⟨markPrice, proof, htrigger⟩ env rfl
    rw [htrigger]
    simp only [beq_self_eq_true, Bool.and_self]

/-- A trigger that is recorded was recorded before or is the action's. -/
theorem trigger_of_step {c c' : Chain H} {a : Action H} (h : step c a = .ok c') {p : Address}
    {k : BytesN32} {t : ConditionalTriggerMeta}
    (ht : (c'.storage .conditionalOrder p).trigger k = some t) :
    (c.storage .conditionalOrder p).trigger k = some t ∨ ∃ signers timestamp,
      a = .invoke ⟨signers, timestamp, p,
        .orderTrigger t.marketId t.positionNullifier k t.markPrice t.proof⟩ := by
  cases a with
  | external state =>
    obtain rfl := Except.ok.inj h
    exact Or.inl ht
  | invoke tx =>
    obtain ⟨signers, timestamp, target, call⟩ := tx
    have hrun := step_invoke_eq_ok.mp h
    by_cases htouches : Kind.conditionalOrder ∈ call.touches
    · cases call
      case orderInit governance ledger market circuitId =>
        have hinit : Returns (init governance ledger market circuitId)
            ⟨signers, none, target, timestamp⟩ c () c' := hrun
        unfold init at hinit
        simp only [returns_bind, returns_load, returns_failIf, returns_validateHash,
          returns_modifyStorage, exists_eq_left, exists_and_left, and_assoc, exists_const] at hinit
        obtain ⟨-, -, rfl⟩ := hinit
        left
        by_cases hp : p = target
        · subst hp
          rw [Chain.storage_modify_self] at ht
          exact ht
        · rwa [Chain.storage_modify_of_address hp] at ht
      case orderRegister marketId positionNullifier closeCommitment =>
        have hregister : Returns (register marketId positionNullifier closeCommitment)
            ⟨signers, none, target, timestamp⟩ c () c' := hrun
        obtain ⟨-, -, -, -, -, rfl⟩ := returns_register.mp hregister
        left
        by_cases hp : p = target
        · subst hp
          rw [Chain.storage_modify_self] at ht
          exact ht
        · rwa [Chain.storage_modify_of_address hp] at ht
      case orderTrigger marketId positionNullifier closeCommitment markPrice proof =>
        have htrigger : Returns (trigger marketId positionNullifier closeCommitment markPrice proof)
            ⟨signers, none, target, timestamp⟩ c () c' := hrun
        obtain ⟨-, -, -, -, -, c₁, hread, -, -, -, rfl⟩ := returns_trigger.mp htrigger
        have hsame : c₁.storage = c.storage := Respects.rel (R := Chain.SameStorage) hread
        by_cases hp : p = target
        · subst hp
          rw [Chain.storage_modify_self, hsame] at ht
          dsimp only at ht
          by_cases hk : k = closeCommitment
          · subst hk
            rw [Function.update_self] at ht
            obtain rfl := Option.some.inj ht
            exact Or.inr ⟨signers, timestamp, rfl⟩
          · rw [Function.update_of_ne hk] at ht
            exact Or.inl ht
        · rw [Chain.storage_modify_of_address hp, hsame] at ht
          exact Or.inl ht
      all_goals simp [Call.touches] at htouches
    · have hframe : c'.storage .conditionalOrder = c.storage .conditionalOrder :=
        (sameAt_run htouches).rel hrun
      rw [hframe] at ht
      exact Or.inl ht

/-- The proof ledger of the contract has records of proven statements only: each hash that it
records for the circuit is the hash of the public inputs of a satisfying assignment. -/
def OrderLedgerSound (S : Set Bytes) (contract : Address) (c : Chain H) : Prop :=
  ∀ ledger key, (c.storage .conditionalOrder contract).proofLedger = some ledger →
    (c.storage .conditionalOrder contract).circuit = some key.circuitId →
    (c.storage .proofLedger ledger).proof key →
    ∃ a : ConditionalClose.Assignment, ConditionalClose.main H a = some () ∧
      encodePublicInputs a.publicInputs ∈ S ∧
      key.publicInputHash = H.sha256 (encodePublicInputs a.publicInputs)

/-- The order has been triggered in a step of a run: a proof was satisfied whose public inputs are
those of its own commitment and position at the price that the oracle of its market gave then, all
of them modulo the field. -/
def Order.TriggeredBy (o : Order) (contract : Address) (x : Step (Chain H) (Action H)) : Prop :=
  ∃ signers timestamp markPrice proof,
    x.act = o.triggerTx signers timestamp contract markPrice proof ∧
    (∃ m, (x.pre.storage .conditionalOrder contract).marketContract = some m ∧
      Market.IsMarkPrice ⟨signers, none, contract, timestamp⟩ x.pre m o.marketId markPrice) ∧
    ∃ a : ConditionalClose.Assignment, ConditionalClose.main H a = some () ∧
      a.publicInputs = publicInputs markPrice o.positionNullifier o.closeCommitment

/-- The strings that the triggers of an action hash. -/
def triggerStrings : Action H → List Bytes
  | .invoke ⟨_, _, _, .orderTrigger _ positionNullifier closeCommitment markPrice _⟩ =>
    [encodePublicInputs (publicInputs markPrice positionNullifier closeCommitment)]
  | _ => []

/-- **A triggered order is proven.** -/
theorem Order.TriggeredFor.exists_step {e : H.State} {as : List (Action H)} {o : Order}
    {contract : Address} (h : o.TriggeredFor contract (final step (Chain.blank e) as))
    {S : Set Bytes} (hS : H.ShaInjOn S)
    (hsound : ∀ x ∈ accepted step (Chain.blank e) as,
      OrderLedgerSound S contract x.pre ∧ ∀ bytes ∈ triggerStrings x.act, bytes ∈ S) :
    ∃ x ∈ accepted step (Chain.blank e) as, o.TriggeredBy contract x := by
  obtain ⟨markPrice, proof, ht⟩ := Order.triggeredFor_iff.mp h
  obtain ⟨x, hx, hnew, htriggered⟩ := exists_flip
    (P := fun c : Chain H => (c.storage .conditionalOrder contract).trigger o.closeCommitment =
      some ⟨o.marketId, markPrice, o.positionNullifier, proof⟩)
    (Option.some_ne_none _).symm ht
  have hstep := (accepted_ok x hx).1
  obtain ⟨signers, timestamp, hact⟩ := (trigger_of_step hstep htriggered).resolve_left hnew
  rw [hact] at hstep
  have hfacts : Triggered ⟨signers, none, contract, timestamp⟩ x.pre o.marketId o.positionNullifier
      o.closeCommitment markPrice proof := trigger_returns (step_invoke_eq_ok.mp hstep)
  obtain ⟨ledger, hledger, hproof⟩ := hfacts.proof
  obtain ⟨a, hmain, hmem, hhash⟩ := (hsound x hx).1 ledger proof.key hledger hfacts.circuit hproof
  have hsha : H.sha256 (encodePublicInputs a.publicInputs) = H.sha256 (encodePublicInputs
      (publicInputs markPrice o.positionNullifier o.closeCommitment)) := by
    rw [← hhash, ← hfacts.hash]
    rfl
  have hstring : encodePublicInputs (publicInputs markPrice o.positionNullifier
      o.closeCommitment) ∈ S := (hsound x hx).2 _ (by rw [hact]; exact List.mem_singleton_self _)
  have hinputs := encodePublicInputs_injective (hS hmem hstring hsha)
  exact ⟨x, hx, signers, timestamp, markPrice, proof, hact, hfacts.price, a, hmain, hinputs⟩

/-- **Conditional orders and their owners.** In every reachable state in which an order is free, its
owner registers and triggers it after the registrations of others exactly when none of them takes
its commitment. And whenever it is triggered for its market and position, a proof of its own
commitment was satisfied at the price of the market at that time. -/
theorem owned_after_iff (e : H.State) (as ins : List (Action H)) (o : Order) (contract : Address)
    (signers : List Address) (timestamp : ℕ)
    (hfree : ∃ c₁, step (final step (Chain.blank e) as) (o.registerTx signers timestamp contract) =
      .ok c₁)
    (hins : ∀ a ∈ ins, ∃ contract' o', Registers a contract' o') :
    (o.Owned signers timestamp contract (final step (final step (Chain.blank e) as) ins) ↔
      ∀ a ∈ ins, ∀ o', Registers a contract o' → ¬ o'.Takes o) ∧
    ∀ (S : Set Bytes) (later : List (Action H)), H.ShaInjOn S →
      (∀ x ∈ accepted step (Chain.blank e) later,
        OrderLedgerSound S contract x.pre ∧ ∀ bytes ∈ triggerStrings x.act, bytes ∈ S) →
      o.TriggeredFor contract (final step (Chain.blank e) later) →
      ∃ x ∈ accepted step (Chain.blank e) later, o.TriggeredBy contract x := by
  have hopen : o.Free contract (final step (Chain.blank e) as) :=
    (Order.free_iff signers timestamp).mp hfree
  refine ⟨?_, fun S later hS hsound h => h.exists_step hS hsound⟩
  rw [Order.owned_iff_free]
  exact hopen.registers hins

section Examples

open SampleHost

/-- A take-profit order on a long position of market A, at the price of 1500. -/
def takeProfit : ConditionalClose.Assignment where
  isLong := true
  isTakeProfit := true
  reduceOnly := true
  marketDigest := marketDigest sampleHost "A"
  triggerPrice := 1400
  markPrice := 1500
  size := 200000000
  positionNullifier := 12
  closeCommitment := ConditionalClose.conditionalCommitment sampleHost (marketDigest sampleHost "A")
    12 true true 1400 200000000 true 14
  saltDigest := 14
  zeroValue := 0

def ownOrder : Order :=
  ⟨marketKey sampleHost "A", ofField takeProfit.positionNullifier,
    ofField takeProfit.closeCommitment⟩

def orderProof : ProofMeta := proofOf 5 takeProfit.publicInputs

/-- The deployment of the contracts around conditional orders, and the record of a proof. -/
def deployOrders : List (Action sampleHost) :=
  [adminTx (.contract 2) (.governanceInit sampleAdmin),
    adminTx (.contract 2) (.governanceSetVerifier 5 2 sampleAdmin),
    adminTx (.contract 3) (.proofLedgerInit (.contract 2)),
    adminTx (.contract 6) (.marketInit (.contract 2)),
    adminTx (.contract 6) (.marketUpsert (marketKey sampleHost "A") (sampleMarket "A")),
    adminTx (.contract 9) (.orderInit (.contract 2) (.contract 3) (.contract 6) 5),
    adminTx (.contract 3) (.proofLedgerRecord sampleAdmin orderProof.key)]

def ownRegister : Action sampleHost := ownOrder.registerTx [] 0 (.contract 9)

def ownTrigger : Action sampleHost := ownOrder.triggerTx [] 0 (.contract 9) 1500 orderProof

/-- The registration of another commitment by somebody else. -/
def otherOrder : Order := { ownOrder with closeCommitment := 1 }

/-- The registration of the owner's commitment for another position. -/
def squatted : Order := { ownOrder with positionNullifier := 1 }

def triggeredOrder : List (Action sampleHost) := deployOrders ++ [ownRegister, ownTrigger]

theorem orderLedgerSound_triggeredOrder : ∀ x ∈ accepted step oracleLedger triggeredOrder,
    OrderLedgerSound {bytes | bytes ∈ [encodePublicInputs takeProfit.publicInputs]} (.contract 9)
      x.pre := by
  intro x hx ledger key _ _ hproof
  have hkey : key ∈ triggeredOrder.flatMap Action.recordedKeys :=
    recorded_of_run x hx ledger key hproof
  have hkeys : triggeredOrder.flatMap Action.recordedKeys = [orderProof.key] := rfl
  rw [hkeys, List.mem_singleton] at hkey
  rw [hkey]
  exact ⟨takeProfit, by decide +kernel, List.mem_singleton_self _, rfl⟩

theorem registers_registerTx (o : Order) (contract : Address) :
    ∀ a ∈ [o.registerTx (H := sampleHost) [] 0 contract], ∃ contract' o',
      Registers a contract' o' := by
  intro a ha
  exact ⟨contract, o, [], 0, List.mem_singleton.mp ha⟩

/-- What runs is accepted. -/
theorem exists_of_isOk {c : Chain H} {a : Action H} (h : (step c a).isOk) :
    ∃ c', step c a = .ok c' := by
  cases hstep : step c a with
  | ok c' => exact ⟨c', rfl⟩
  | error e =>
    rw [hstep] at h
    cases h

/-- The registration of another commitment does not matter, and the order is triggered. -/
theorem owned_ownOrder :
    ownOrder.Owned [] 0 (.contract 9) (final step (final step oracleLedger deployOrders)
      [otherOrder.registerTx [] 0 (.contract 9)]) ∧
    ∃ x ∈ accepted step oracleLedger triggeredOrder, ownOrder.TriggeredBy (.contract 9) x := by
  have hfacts : (step (final step oracleLedger deployOrders) ownRegister).isOk ∧
      ¬ otherOrder.Takes ownOrder ∧
      (∀ x ∈ accepted step oracleLedger triggeredOrder, ∀ bytes ∈ triggerStrings x.act,
        bytes ∈ [encodePublicInputs takeProfit.publicInputs]) ∧
      ((final step oracleLedger triggeredOrder).storage .conditionalOrder (.contract 9)).trigger
        ownOrder.closeCommitment =
          some ⟨ownOrder.marketId, 1500, ownOrder.positionNullifier, orderProof⟩ := by
    decide +kernel
  obtain ⟨haccepted, hother, hstrings, htriggered⟩ := hfacts
  have hfree : ∃ c₁, step (final step oracleLedger deployOrders) ownRegister = .ok c₁ :=
    exists_of_isOk haccepted
  have howned := owned_after_iff _ deployOrders [otherOrder.registerTx [] 0 (.contract 9)] ownOrder
    (.contract 9) [] 0 hfree (registers_registerTx otherOrder (.contract 9))
  constructor
  · refine howned.1.mpr fun a ha o' hregisters htakes => ?_
    rw [List.mem_singleton.mp ha] at hregisters
    obtain ⟨signers, timestamp, he⟩ := hregisters
    obtain ⟨m, n, k⟩ := o'
    cases he
    exact hother htakes
  · have hS : sampleHost.ShaInjOn {bytes | bytes ∈ [encodePublicInputs takeProfit.publicInputs]} :=
      shaInjOn_of_list (by decide +kernel)
    have hsound : ∀ x ∈ accepted step oracleLedger triggeredOrder,
        OrderLedgerSound {bytes | bytes ∈ [encodePublicInputs takeProfit.publicInputs]}
          (.contract 9) x.pre ∧
        ∀ bytes ∈ triggerStrings x.act,
          bytes ∈ {bytes | bytes ∈ [encodePublicInputs takeProfit.publicInputs]} :=
      fun x hx => ⟨orderLedgerSound_triggeredOrder x hx, hstrings x hx⟩
    have hanswer : ownOrder.TriggeredFor (.contract 9) (final step oracleLedger triggeredOrder) :=
      Order.triggeredFor_iff.mpr ⟨1500, orderProof, htriggered⟩
    exact howned.2 _ triggeredOrder hS hsound hanswer

/-- **An order is squatted.** The order would be registered and triggered with a proof that is
satisfied and recorded. A stranger who has seen the registration sends his own for the same
commitment first, and neither is possible any more. -/
theorem exists_squatted_order :
    ∃ (e : sampleHost.State) (as ins : List (Action sampleHost)) (o : Order) (contract : Address)
      (a : ConditionalClose.Assignment) (proof : ProofMeta),
      ConditionalClose.main sampleHost a = some () ∧
      a.publicInputs = publicInputs 1500 o.positionNullifier o.closeCommitment ∧
      (step (final step (Chain.blank e) as) (o.registerTx [] 0 contract)).isOk ∧
      (step (final step (Chain.blank e) (as ++ [o.registerTx [] 0 contract]))
        (o.triggerTx [] 0 contract 1500 proof)).isOk ∧
      (∀ x ∈ ins, ∃ contract' o', Registers x contract' o') ∧
      ¬ o.Owned [] 0 contract (final step (final step (Chain.blank e) as) ins) ∧
      (step (final step (Chain.blank e) (as ++ ins ++ [o.registerTx [] 0 contract]))
        (o.triggerTx [] 0 contract 1500 proof)).isOk = false := by
  have hfacts : ConditionalClose.main sampleHost takeProfit = some () ∧
      takeProfit.publicInputs =
        publicInputs 1500 ownOrder.positionNullifier ownOrder.closeCommitment ∧
      (step (final step oracleLedger deployOrders) ownRegister).isOk ∧
      (step (final step oracleLedger (deployOrders ++ [ownRegister])) ownTrigger).isOk ∧
      (step (final step (final step oracleLedger deployOrders)
        [squatted.registerTx [] 0 (.contract 9)]) ownRegister).isOk = false ∧
      (step (final step oracleLedger (deployOrders ++ [squatted.registerTx [] 0 (.contract 9)] ++
        [ownRegister])) ownTrigger).isOk = false := by
    decide +kernel
  obtain ⟨hmain, hinputs, hregister, htrigger, hrefused, hblocked⟩ := hfacts
  refine ⟨_, deployOrders, [squatted.registerTx [] 0 (.contract 9)], ownOrder, .contract 9,
    takeProfit, orderProof, hmain, hinputs, hregister, htrigger,
    registers_registerTx squatted (.contract 9), ?_, hblocked⟩
  rintro ⟨c₁, hok, -⟩
  have haccepted : (step (final step (final step oracleLedger deployOrders)
      [squatted.registerTx [] 0 (.contract 9)]) ownRegister).isOk = true := by
    rw [show step (final step (final step oracleLedger deployOrders)
      [squatted.registerTx [] 0 (.contract 9)]) ownRegister = .ok c₁ from hok]
    rfl
  rw [hrefused] at haccepted
  cases haccepted

end Examples

end ConditionalOrder

end Pnlx
