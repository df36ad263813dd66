import Pnlx.Properties.PositionSpending

/-!
# Funding updates

A market's funding index moves up and down, so that it comes back to values that it has had before.
The record of a settlement bears only the market and the two values, and stays for ever.

1. `fundingSettled_of_run`: what is recorded is what the transactions of the run have settled.
2. `accepts_due_iff`: an update that is due is accepted exactly when its contract is an updater of
   the market contract and has not settled the same two values of the market before.
3. `returned_index_blocks`: a market whose index has come back does not get the update that is due.
-/

namespace Pnlx

open Program Runs

variable {H : Host}

/-! ## Recorded settlements -/

/-- A contract with the market and the two values of one of its settlements. -/
abbrev FundingKey := Address × BytesN32 × I128 × I128

/-- The settlements of funding that an action makes. -/
def Action.fundingKeys : Action H → List FundingKey
  | .invoke ⟨_, _, target, .fundingSettle args⟩ => [(target, args.key)]
  | _ => []

/-- The contract has a record of the settlement. -/
def FundingSettled (c : Chain H) (k : FundingKey) : Prop :=
  ((c.storage .fundingSettlement k.1).funding k.2).isSome

namespace FundingSettlement

theorem init_funding {governance ledger market : Address} {circuitId : BytesN32} {env : Env}
    {c c' : Chain H} {u : Unit} (h : Returns (init governance ledger market circuitId) env c u c')
    (a : Address) :
    (c'.storage .fundingSettlement a).funding = (c.storage .fundingSettlement a).funding := by
  unfold init at h
  simp only [returns_bind, returns_validateHash, returns_load, returns_failIf,
    returns_modifyStorage, exists_eq_left, exists_and_left, and_assoc, exists_const] at h
  obtain ⟨-, -, rfl⟩ := h
  by_cases ha : a = env.current
  · rw [ha, Chain.storage_modify_self]
  · rw [Chain.storage_modify_of_address ha]

/-- A settlement adds its own record. -/
theorem settle_funding {args : FundingArgs} {env : Env} {c c' : Chain H} {u : Unit}
    (h : Returns (settle args) env c u c') (k : FundingKey) :
    FundingSettled c' k ↔ FundingSettled c k ∨ k = (env.current, args.key) := by
  obtain ⟨-, -, -, -, m, -, -, _, c₁, hread, _, -, -, -, rfl⟩ := returns_settle.mp h
  have hsame : c₁.storage = c.storage := Respects.rel (R := Chain.SameStorage) hread
  obtain ⟨a, key⟩ := k
  unfold FundingSettled
  dsimp only
  by_cases ha : a = env.current
  · subst ha
    rw [Chain.storage_modify_self, Chain.storage_modify_of_kind (by decide), hsame]
    unfold recorded
    dsimp only
    by_cases hkey : key = args.key
    · subst hkey
      rw [Function.update_self]
      exact ⟨fun _ => Or.inr rfl, fun _ => rfl⟩
    · rw [Function.update_of_ne hkey]
      exact ⟨Or.inl, fun h => h.resolve_right fun he => hkey (Prod.mk.inj he).2⟩
  · rw [Chain.storage_modify_of_address ha, Chain.storage_modify_of_kind (by decide), hsame]
    exact ⟨Or.inl, fun h => h.resolve_right fun he => ha (Prod.mk.inj he).1⟩

end FundingSettlement

/-- **The step lemma.** The settlement that an action makes is recorded, and no other. -/
theorem fundingSettled_of_step {c c' : Chain H} {a : Action H} (h : step c a = .ok c')
    (k : FundingKey) : FundingSettled c' k ↔ FundingSettled c k ∨ k ∈ a.fundingKeys := by
  have hsame (hstorage : (c'.storage .fundingSettlement k.1).funding =
      (c.storage .fundingSettlement k.1).funding) (hkeys : a.fundingKeys = []) :
      FundingSettled c' k ↔ FundingSettled c k ∨ k ∈ a.fundingKeys := by
    unfold FundingSettled
    rw [hstorage, hkeys]
    exact (or_iff_left List.not_mem_nil).symm
  cases a with
  | external state =>
    obtain rfl := Except.ok.inj h
    exact hsame rfl rfl
  | invoke tx =>
    obtain ⟨signers, timestamp, target, call⟩ := tx
    have hrun := step_invoke_eq_ok.mp h
    by_cases htouches : Kind.fundingSettlement ∈ call.touches
    · cases call
      case fundingInit => exact hsame (FundingSettlement.init_funding hrun k.1) rfl
      case fundingSettle args =>
        rw [FundingSettlement.settle_funding hrun k]
        exact or_congr_right List.mem_singleton.symm
      all_goals simp [Call.touches] at htouches
    · refine hsame ?_ ?_
      · have hframe : c'.storage .fundingSettlement = c.storage .fundingSettlement :=
          (sameAt_run htouches).rel hrun
        rw [hframe]
      · cases call <;> first | rfl | exact absurd (by simp [Call.touches]) htouches

/-- **The run lemma.** What is recorded is what the run has settled. -/
theorem fundingSettled_of_run (e : H.State) (as : List (Action H)) (k : FundingKey) :
    FundingSettled (final step (Chain.blank e) as) k ↔
      ∃ x ∈ accepted step (Chain.blank e) as, k ∈ x.act.fundingKeys := by
  have hstep (x : Step (Chain H) (Action H)) (hx : step x.pre x.act = .ok x.post)
      (l : List (Step (Chain H) (Action H)))
      (hl : FundingSettled x.pre k ↔ ∃ y ∈ l, k ∈ y.act.fundingKeys) :
      FundingSettled x.post k ↔ ∃ y ∈ l ++ [x], k ∈ y.act.fundingKeys := by
    rw [fundingSettled_of_step hx, hl]
    simp only [List.mem_append, List.mem_singleton, or_and_right, exists_or, exists_eq_left]
  have hblank : FundingSettled (Chain.blank e : Chain H) k ↔
      ∃ y ∈ ([] : List (Step (Chain H) (Action H))), k ∈ y.act.fundingKeys := by
    constructor
    · intro h
      exact absurd h Bool.false_ne_true
    · rintro ⟨y, hy, -⟩
      exact absurd hy List.not_mem_nil
  have hfinal := @final_of_steps _ _ _ step (fun _ => True)
    (fun c l => FundingSettled c k ↔ ∃ y ∈ l, k ∈ y.act.fundingKeys)
    (fun x _ hx l hl => hstep x hx l hl) _ as [] hblank fun _ _ => trivial
  rwa [List.nil_append] at hfinal

/-! ## Updates that are due -/

namespace FundingSettlement

/-- A proof is verified for a move of the current funding index of an active market to another
value, at the market's current price and with valid parameters. -/
structure Due (env : Env) (c : Chain H) (args : FundingArgs) : Prop where
  valid : args.Valid
  verified : Verified c env.current args.proof
  inputs : ∃ bytes, publicInputBytes args = some bytes ∧
    args.proof.publicInputHash = H.sha256 bytes
  market : ∃ m config, (c.storage .fundingSettlement env.current).marketContract = some m ∧
    Market.IsMarkPrice env c m args.marketId args.markPrice ∧
    (c.storage .market m).market args.marketId = some config ∧ config.active ∧
    config.fundingIndex = args.oldIndex

/-- The contract is an updater of its market contract. -/
def Enabled (c : Chain H) (contract : Address) : Prop :=
  ∃ m, (c.storage .fundingSettlement contract).marketContract = some m ∧
    (c.storage .market m).fundingUpdater contract = some true

/-- An update that is due needs an enabled contract without a record of the settlement. -/
theorem Due.returns_iff {env : Env} {c : Chain H} {args : FundingArgs} (h : Due env c args) :
    (∃ c', Returns (settle args) env c () c') ↔
      Enabled c env.current ∧ ¬ FundingSettled c (env.current, args.key) := by
  have hnone : ¬ FundingSettled c (env.current, args.key) ↔
      (c.storage .fundingSettlement env.current).funding args.key = none :=
    Option.not_isSome_iff_eq_none
  rw [hnone]
  constructor
  · rintro ⟨c', hreturns⟩
    obtain ⟨-, -, -, hfresh, m, hm, hupdater, -⟩ := returns_settle.mp hreturns
    exact ⟨⟨m, hm, hupdater⟩, hfresh⟩
  · rintro ⟨⟨m, hm, hupdater⟩, hfresh⟩
    obtain ⟨m', config, hm', ⟨timestamp, c₁, hread⟩, hconfig, hactive, hindex⟩ := h.market
    obtain rfl : m = m' := Option.some.inj (hm.symm.trans hm')
    exact ⟨_, returns_settle.mpr ⟨h.valid, h.verified, h.inputs, hfresh, m, hm, hupdater, timestamp,
      c₁, hread, config, hconfig, hactive, hindex, rfl⟩⟩

/-- **Acceptance.** In every state that a run reaches, an update that is due is accepted exactly
when its contract is an updater of the market contract and none of its settlements in the run has
moved the same market between the same two values. -/
theorem accepts_due_iff (e : H.State) (as : List (Action H)) (signers : List Address)
    (timestamp : ℕ) (contract : Address) (args : FundingArgs)
    (h : Due ⟨signers, none, contract, timestamp⟩ (final step (Chain.blank e) as) args) :
    let c := final step (Chain.blank e) as
    (∃ c', step c (.invoke ⟨signers, timestamp, contract, .fundingSettle args⟩) = .ok c') ↔
      Enabled c contract ∧
        ∀ x ∈ accepted step (Chain.blank e) as, (contract, args.key) ∉ x.act.fundingKeys := by
  intro c
  have hsettled := fundingSettled_of_run e as (contract, args.key)
  have hnone : ¬ FundingSettled c (contract, args.key) ↔
      ∀ x ∈ accepted step (Chain.blank e) as, (contract, args.key) ∉ x.act.fundingKeys := by
    rw [hsettled]
    push Not
    rfl
  rw [← hnone, ← h.returns_iff]
  exact exists_congr fun c' => step_invoke_eq_ok

/-! ## An index that comes back -/

section Examples

open SampleHost

/-- A price that the market contract can read is the mark price. -/
theorem isMarkPrice_of_read {env : Env} {c : Chain H} {m : Address} {marketId : BytesN32}
    {price : I128}
    (h : (Market.markPrice marketId (env.invoke m) c).map (·.1.price) = .ok price) :
    Market.IsMarkPrice env c m marketId price := by
  cases hread : Market.markPrice marketId (env.invoke m) c with
  | error e =>
    rw [hread] at h
    cases h
  | ok out =>
    rw [hread] at h
    obtain ⟨⟨price', timestamp⟩, c'⟩ := out
    obtain rfl : price' = price := Except.ok.inj h
    exact ⟨timestamp, c', hread⟩

/-- An update of market A by the premium of some time, with the proof of its public inputs. -/
def updateOf (oldIndex newIndex premiumRate : I128) (elapsedMs : U64) : FundingArgs :=
  let args : FundingArgs :=
    ⟨marketKey sampleHost "A", oldIndex, newIndex, 1500, premiumRate, elapsedMs, 3600000, 0, false,
      ⟨5, 1, 2, 0, 3⟩⟩
  { args with
    proof.publicInputHash := SampleHost.sha256 ((publicInputBytes args).getD []) }

def recordUpdate (args : FundingArgs) : Action sampleHost :=
  adminTx (.contract 3) (.proofLedgerRecord sampleAdmin args.proof.key)

/-- The record of the proof of an update, and its settlement by somebody without any
authorisation. -/
def settleUpdate (args : FundingArgs) : List (Action sampleHost) :=
  [recordUpdate args, .invoke ⟨[], 0, .contract 9, .fundingSettle args⟩]

/-- The deployment of the contracts around a market whose funding index is zero. -/
def deployFunding : List (Action sampleHost) :=
  [adminTx (.contract 2) (.governanceInit sampleAdmin),
    adminTx (.contract 2) (.governanceSetVerifier 5 2 sampleAdmin),
    adminTx (.contract 3) (.proofLedgerInit (.contract 2)),
    adminTx (.contract 6) (.marketInit (.contract 2)),
    adminTx (.contract 6) (.marketUpsert (marketKey sampleHost "A") (sampleMarket "A")),
    adminTx (.contract 6) (.marketSetFundingUpdater (.contract 9) true),
    adminTx (.contract 9) (.fundingInit (.contract 2) (.contract 3) (.contract 6) 5)]

def premium : FundingArgs := updateOf 0 15 10000 3600000

def discount : FundingArgs := updateOf 15 0 (-10000) 3600000

/-- Another update from zero, by half the premium of twice the time. -/
def laterPremium : FundingArgs := updateOf 0 15 5000 7200000

/-- The index moves up and back, and the proof of the next update is recorded. -/
def returnedIndex : List (Action sampleHost) :=
  deployFunding ++ settleUpdate premium ++ settleUpdate discount ++ [recordUpdate laterPremium]

/-- The checks that make an update of the deployed contract due. -/
abbrev Checked (c : Chain sampleHost) (args : FundingArgs) : Prop :=
  (args.marketId ≠ 0 ∧ args.newIndex ≠ args.oldIndex ∧ 0 < args.markPrice.toInt ∧
    0 ≤ args.maxDelta.toInt ∧ args.elapsedMs ≠ 0 ∧ args.intervalMs ≠ 0 ∧
    (args.maxDeltaEnabled → args.maxDelta ≠ 0)) ∧
  (args.proof.circuitId ≠ 0 ∧ args.proof.circuitHash ≠ 0 ∧ args.proof.verifierHash ≠ 0 ∧
    args.proof.publicInputHash ≠ 0 ∧ args.proof.proofDigest ≠ 0) ∧
  ((c.storage .fundingSettlement (.contract 9)).circuit = some args.proof.circuitId ∧
    (c.storage .fundingSettlement (.contract 9)).governance = some (.contract 2) ∧
    (c.storage .fundingSettlement (.contract 9)).proofLedger = some (.contract 3) ∧
    (c.storage .fundingSettlement (.contract 9)).marketContract = some (.contract 6)) ∧
  ¬ (c.storage .governance (.contract 2)).paused.getD false ∧
  (c.storage .governance (.contract 2)).verifier args.proof.circuitId =
    some args.proof.verifierHash ∧
  (c.storage .proofLedger (.contract 3)).proof args.proof.key ∧
  (publicInputBytes args).map sampleHost.sha256 = some args.proof.publicInputHash ∧
  (Market.markPrice args.marketId (Env.invoke (.contract 6) ⟨[], none, .contract 9, 0⟩) c).map
    (·.1.price) = .ok args.markPrice ∧
  (c.storage .market (.contract 6)).market args.marketId =
    some { sampleMarket "A" with fundingIndex := args.oldIndex }

theorem due_of_checked {c : Chain sampleHost} {args : FundingArgs} (h : Checked c args) :
    Due ⟨[], none, .contract 9, 0⟩ c args := by
  obtain ⟨⟨hid, hmoves, hpositive, hdelta, helapsed, hinterval, hcapped⟩,
    ⟨h₁, h₂, h₃, h₄, h₅⟩, ⟨hcircuit, hgovernance, hledger, hcontract⟩, hpaused, hverifier, hproof,
    hinputs, hprice, hmarket⟩ := h
  obtain ⟨bytes, hbytes, hhash⟩ := Option.map_eq_some_iff.mp hinputs
  exact ⟨⟨hid, hmoves, hpositive, hdelta, helapsed, hinterval, hcapped⟩,
    ⟨h₁, h₂, h₃, h₄, h₅, hcircuit, ⟨_, hgovernance, hpaused, hverifier⟩, _, hledger, hproof⟩,
    ⟨bytes, hbytes, hhash.symm⟩, _, _, hcontract, isMarkPrice_of_read hprice, hmarket, rfl, rfl⟩

theorem enabled_of_checked {c : Chain sampleHost} {args : FundingArgs} (h : Checked c args)
    (hupdater : (c.storage .market (.contract 6)).fundingUpdater (.contract 9) = some true) :
    Enabled c (.contract 9) :=
  ⟨_, h.2.2.1.2.2.2, hupdater⟩

/-- The first update is due when its proof is recorded, and it is accepted. -/
theorem premium_accepted :
    ∃ c', step (final step oracleLedger (deployFunding ++ [recordUpdate premium]))
      (.invoke ⟨[], 0, .contract 9, .fundingSettle premium⟩) = .ok c' := by
  have hfacts : Checked (final step oracleLedger (deployFunding ++ [recordUpdate premium]))
      premium ∧
      ((final step oracleLedger (deployFunding ++ [recordUpdate premium])).storage .market
        (.contract 6)).fundingUpdater (.contract 9) = some true ∧
      ∀ x ∈ accepted step oracleLedger (deployFunding ++ [recordUpdate premium]),
        (.contract 9, premium.key) ∉ x.act.fundingKeys := by
    decide +kernel
  obtain ⟨hchecked, hupdater, hunsettled⟩ := hfacts
  have hdue : Due ⟨[], none, .contract 9, 0⟩
      (final step oracleLedger (deployFunding ++ [recordUpdate premium])) premium :=
    due_of_checked hchecked
  have henabled : Enabled (final step oracleLedger (deployFunding ++ [recordUpdate premium]))
      (.contract 9) := enabled_of_checked hchecked hupdater
  have haccepts := accepts_due_iff _ _ [] 0 (.contract 9) premium hdue
  exact haccepts.mpr ⟨henabled, hunsettled⟩

/-- **A market is stuck.** The index has come back to zero, and the update that is due is refused
because an earlier one has moved it between the same two values. -/
theorem returned_index_blocks :
    ¬ ∀ (e : sampleHost.State) (as : List (Action sampleHost)) (signers : List Address)
      (timestamp : ℕ) (contract : Address) (args : FundingArgs),
      Due ⟨signers, none, contract, timestamp⟩ (final step (Chain.blank e) as) args →
      Enabled (final step (Chain.blank e) as) contract →
      ∃ c', step (final step (Chain.blank e) as)
        (.invoke ⟨signers, timestamp, contract, .fundingSettle args⟩) = .ok c' := by
  intro h
  have hfacts : Checked (final step oracleLedger returnedIndex) laterPremium ∧
      ((final step oracleLedger returnedIndex).storage .market (.contract 6)).fundingUpdater
        (.contract 9) = some true ∧
      (step (final step oracleLedger returnedIndex)
        (.invoke ⟨[], 0, .contract 9, .fundingSettle laterPremium⟩)).isOk = false := by
    decide +kernel
  obtain ⟨hchecked, hupdater, hrefused⟩ := hfacts
  have hdue : Due ⟨[], none, .contract 9, 0⟩ (final step oracleLedger returnedIndex)
      laterPremium := due_of_checked hchecked
  have henabled : Enabled (final step oracleLedger returnedIndex) (.contract 9) :=
    enabled_of_checked hchecked hupdater
  obtain ⟨c', hstep⟩ := h _ returnedIndex [] 0 (.contract 9) laterPremium hdue henabled
  have hok : (step (final step oracleLedger returnedIndex)
      (.invoke ⟨[], 0, .contract 9, .fundingSettle laterPremium⟩)).isOk = true := by
    show (step (final step (Chain.blank _) returnedIndex) _).isOk = true
    rw [hstep]
    rfl
  rw [hrefused] at hok
  cases hok

end Examples

end FundingSettlement

end Pnlx
