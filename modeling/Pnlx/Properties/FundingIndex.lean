import Pnlx.Lib.Tally
import Pnlx.Properties.FundingUpdates

/-!
# The funding index of a market

Funding advances the index of a market, and a change of the market's configuration replaces the
index with everything else.

1. `fundingIndex_of_step`: what an action does to the funding index of a market.
2. `fundingIndex_iff`: no advance is ever lost exactly when every change of the configuration
   carries the index that the market has at that time.
3. `exists_lost_advance`: a change that was prepared before an advance undoes it.
-/

namespace Pnlx

open Program Runs

variable {H : Host}

/-- The markets of the market contracts. -/
def Chain.markets (c : Chain H) (k : Address × BytesN32) : Option MarketConfig :=
  (c.storage .market k.1).market k.2

/-- The markets are the same. -/
def Chain.SameMarkets (c c' : Chain H) : Prop := c'.markets = c.markets

instance : Std.Refl (Chain.SameMarkets (H := H)) := ⟨fun _ => rfl⟩

instance : IsTrans (Chain H) Chain.SameMarkets := ⟨fun _ _ _ h h' => h'.trans h⟩

theorem sameMarkets_of_sameAt {α : Type} {x : Contract H α}
    (hx : Respects (Chain.SameAt .market) x) : Respects Chain.SameMarkets x :=
  hx.mono fun c c' h => by
    unfold Chain.SameMarkets Chain.markets
    rw [show c'.storage .market = c.storage .market from h]

theorem sameMarkets_modifyStorage {f : MarketStorage → MarketStorage}
    (hf : ∀ s, (f s).market = s.market) :
    Respects Chain.SameMarkets (modifyStorage .market f : Contract H Unit) where
  rel {env c _ _} h := by
    rw [returns_modifyStorage.mp h]
    funext k
    unfold Chain.markets
    by_cases hk : k.1 = env.current
    · rw [hk, Chain.storage_modify_self, hf]
    · rw [Chain.storage_modify_of_address hk]

namespace Market

section Effects

variable {env : Env} {c c' : Chain H} {u : Unit} {k : Address × BytesN32}

/-- A market is set in the contract at `a`. -/
theorem markets_modify {a : Address} {marketId : BytesN32} {config : MarketConfig} :
    (c.modify .market a fun s =>
      { s with market := Function.update s.market marketId (some config) }).markets =
      Function.update c.markets (a, marketId) (some config) := by
  funext k
  obtain ⟨b, id⟩ := k
  unfold Chain.markets
  dsimp only
  by_cases ha : b = a
  · subst ha
    rw [Chain.storage_modify_self]
    dsimp only
    by_cases hid : id = marketId
    · rw [hid, Function.update_self, Function.update_self]
    · rw [Function.update_of_ne hid, Function.update_of_ne fun he => hid (Prod.mk.inj he).2]
  · rw [Chain.storage_modify_of_address ha, Function.update_of_ne fun he => ha (Prod.mk.inj he).1]

theorem upsert_markets {marketId : BytesN32} {config : MarketConfig}
    (h : Returns (upsert marketId config) env c u c') :
    c'.markets = Function.update c.markets (env.current, marketId) (some config) := by
  unfold upsert setMarket at h
  simp only [returns_bind, returns_modifyStorage] at h
  obtain ⟨_, c₁, hadmin, _, c₂, hconfig, _, c₃, hread, rfl⟩ := h
  have hprice : Respects Chain.SameStorage
      (doIf (config.active = true) (do let _ ← readOraclePrice config) : Contract H Unit) := by
    infer_instance
  have hsame : c₃.storage = c.storage :=
    trans_of Chain.SameStorage (trans_of Chain.SameStorage (Respects.rel hadmin)
      (Respects.rel hconfig)) (hprice.rel hread)
  rw [markets_modify]
  unfold Chain.markets
  rw [hsame]

theorem advanceFunding_markets {updater : Address} {marketId : BytesN32} {oldIndex newIndex : I128}
    (h : Returns (advanceFunding updater marketId oldIndex newIndex) env c u c') :
    ∃ config, c.markets (env.current, marketId) = some config ∧ config.fundingIndex = oldIndex ∧
      c'.markets = Function.update c.markets (env.current, marketId)
        (some { config with fundingIndex := newIndex }) := by
  obtain ⟨-, -, -, config, hconfig, -, hindex, rfl⟩ := returns_advanceFunding.mp h
  exact ⟨config, hconfig, hindex, markets_modify⟩

theorem init_markets {governance : Address} (h : Returns (init governance) env c u c') :
    c'.markets = c.markets := by
  have hsame : Respects Chain.SameMarkets (init governance : Contract H Unit) := by
    unfold init
    repeat refine Respects.andThen inferInstance fun _ => ?_
    exact sameMarkets_modifyStorage fun _ => rfl
  exact hsame.rel h

theorem setFundingUpdater_markets {updater : Address} {enabled : Bool}
    (h : Returns (setFundingUpdater updater enabled) env c u c') : c'.markets = c.markets := by
  have hsame : Respects Chain.SameMarkets
      (setFundingUpdater updater enabled : Contract H Unit) := by
    unfold setFundingUpdater
    exact Respects.andThen inferInstance fun _ => sameMarkets_modifyStorage fun _ => rfl
  exact hsame.rel h

end Effects

end Market

theorem FundingSettlement.settle_markets {args : FundingArgs} {env : Env} {c c' : Chain H}
    {u : Unit} (h : Returns (settle args) env c u c') :
    ∃ m config, (c.storage .fundingSettlement env.current).marketContract = some m ∧
      c.markets (m, args.marketId) = some config ∧ config.fundingIndex = args.oldIndex ∧
      c'.markets = Function.update c.markets (m, args.marketId)
        (some { config with fundingIndex := args.newIndex }) := by
  obtain ⟨-, -, -, -, m, hm, -, _, c₁, hread, config, hconfig, -, hindex, rfl⟩ :=
    returns_settle.mp h
  have hsame : c₁.storage = c.storage := Respects.rel (R := Chain.SameStorage) hread
  refine ⟨m, config, hm, hconfig, hindex, ?_⟩
  have hframe (d : Chain H) (f : FundingSettlementStorage → FundingSettlementStorage) :
      (d.modify .fundingSettlement env.current f).markets = d.markets := by
    funext k
    unfold Chain.markets
    rw [Chain.storage_modify_of_kind (by decide)]
  have hmarkets : c₁.markets = c.markets := by
    unfold Chain.markets
    rw [hsame]
  rw [hframe, Market.markets_modify, hmarkets]

/-! ## Changes of the index -/

/-- The configuration that an action sets for a market. -/
def upserted (k : Address × BytesN32) : Action H → Option MarketConfig
  | .invoke ⟨_, _, target, .marketUpsert marketId config⟩ =>
    if k = (target, marketId) then some config else none
  | _ => none

/-- The move of a market's funding index by an accepted action. -/
def fundingDelta (k : Address × BytesN32) (x : Step (Chain H) (Action H)) : ℤ :=
  match x.act with
  | .invoke ⟨_, _, target, .marketAdvanceFunding _ marketId oldIndex newIndex⟩ =>
    if k = (target, marketId) then newIndex.toInt - oldIndex.toInt else 0
  | .invoke ⟨_, _, target, .fundingSettle args⟩ =>
    if (x.pre.storage .fundingSettlement target).marketContract = some k.1 ∧
        args.marketId = k.2 then
      args.newIndex.toInt - args.oldIndex.toInt
    else
      0
  | _ => 0

/-- The market exists. -/
def Chain.HasMarket (k : Address × BytesN32) (c : Chain H) : Prop := (c.markets k).isSome

/-- The funding index of a market that exists. -/
def Chain.fundingIndex (k : Address × BytesN32) (c : Chain H) : ℤ :=
  ((c.markets k).map (·.fundingIndex.toInt)).getD 0

theorem Chain.fundingIndex_of_eq {c : Chain H} {k : Address × BytesN32} {config : MarketConfig}
    (h : c.markets k = some config) :
    c.HasMarket k ∧ c.fundingIndex k = config.fundingIndex.toInt := by
  unfold Chain.HasMarket Chain.fundingIndex
  rw [h]
  exact ⟨rfl, rfl⟩

section Steps

variable {c c' : Chain H} {k a : Address × BytesN32} {config : MarketConfig}

theorem Chain.HasMarket.of_eq (h : c'.markets k = c.markets k) (hk : c.HasMarket k) :
    c'.HasMarket k ∧ c'.fundingIndex k = c.fundingIndex k + 0 := by
  unfold Chain.HasMarket Chain.fundingIndex at *
  rw [h, add_zero]
  exact ⟨hk, rfl⟩

/-- An advance of a market adds to its own index. -/
theorem Chain.HasMarket.of_advance {newIndex : I128} (ha : c.markets a = some config)
    (h : c'.markets = Function.update c.markets a (some { config with fundingIndex := newIndex }))
    (hk : c.HasMarket k) : c'.HasMarket k ∧ c'.fundingIndex k =
      c.fundingIndex k + if k = a then newIndex.toInt - config.fundingIndex.toInt else 0 := by
  by_cases hka : k = a
  · subst hka
    have hold := Chain.fundingIndex_of_eq ha
    have hnew := Chain.fundingIndex_of_eq
      ((congrFun h k).trans (Function.update_self k _ c.markets))
    refine ⟨hnew.1, ?_⟩
    rw [hnew.2, hold.2, if_pos rfl]
    ring
  · rw [if_neg hka]
    refine hk.of_eq ?_
    rw [h, Function.update_of_ne hka]

/-- **The step lemma.** A market stays, and its index is set or moved as the action says. -/
theorem fundingIndex_of_step {act : Action H} (h : step c act = .ok c') (hk : c.HasMarket k) :
    c'.HasMarket k ∧ c'.fundingIndex k =
      ((upserted k act).map (·.fundingIndex.toInt)).getD
        (c.fundingIndex k + fundingDelta k ⟨c, act, c'⟩) := by
  cases act with
  | external state =>
    obtain rfl := Except.ok.inj h
    exact hk.of_eq rfl
  | invoke tx =>
    obtain ⟨signers, timestamp, target, call⟩ := tx
    have hrun := step_invoke_eq_ok.mp h
    by_cases htouches : Kind.market ∈ call.touches
    · cases call
      case marketInit => exact hk.of_eq (congrFun (Market.init_markets hrun) k)
      case marketSetFundingUpdater =>
        exact hk.of_eq (congrFun (Market.setFundingUpdater_markets hrun) k)
      case marketUpsert marketId config =>
        have hmarkets := Market.upsert_markets hrun
        have hwritten : upserted k (.invoke ⟨signers, timestamp, target,
            .marketUpsert marketId config⟩ : Action H) =
            if k = (target, marketId) then some config else none := rfl
        rw [hwritten]
        by_cases hka : k = (target, marketId)
        · subst hka
          have hnew := Chain.fundingIndex_of_eq
            ((congrFun hmarkets _).trans (Function.update_self _ _ c.markets))
          rw [if_pos rfl]
          exact hnew
        · have hsame : c'.markets k = c.markets k := by
            rw [hmarkets]
            exact Function.update_of_ne hka _ _
          rw [if_neg hka]
          exact hk.of_eq hsame
      case marketAdvanceFunding updater marketId oldIndex newIndex =>
        obtain ⟨config, hconfig, rfl, hmarkets⟩ := Market.advanceFunding_markets hrun
        exact hk.of_advance hconfig hmarkets
      case fundingInit governance ledger market circuitId =>
        have hsame : Respects Chain.SameMarkets
            (FundingSettlement.init governance ledger market circuitId : Contract H Unit) := by
          have : Fact (Kind.market ≠ .fundingSettlement) := ⟨by decide⟩
          refine sameMarkets_of_sameAt ?_
          unfold FundingSettlement.init
          infer_instance
        exact hk.of_eq (congrFun (hsame.rel hrun) k)
      case fundingSettle args =>
        obtain ⟨m, config, hm, hconfig, hindex, hmarkets⟩ := FundingSettlement.settle_markets hrun
        obtain ⟨hkept, hmoved⟩ := hk.of_advance hconfig hmarkets
        refine ⟨hkept, hmoved.trans (congrArg (c.fundingIndex k + ·) ?_)⟩
        have hiff : k = (m, args.marketId) ↔
            (c.storage .fundingSettlement target).marketContract = some k.1 ∧
              args.marketId = k.2 := by
          rw [show (c.storage .fundingSettlement target).marketContract = some m from hm,
            Option.some.injEq, Prod.ext_iff, eq_comm, @eq_comm _ k.2]
        rw [hindex]
        exact if_congr hiff rfl rfl
      all_goals simp [Call.touches] at htouches
    · have hframe : c'.storage .market = c.storage .market := (sameAt_run htouches).rel hrun
      have hsame : c'.markets k = c.markets k := by
        unfold Chain.markets
        rw [hframe]
      cases call <;> first
        | exact hk.of_eq hsame
        | exact absurd (by simp [Call.touches]) htouches

/-- The funding index is added to by advances and written by changes of the configuration. -/
theorem tallies_fundingIndex (k : Address × BytesN32) :
    Tallies (step (H := H)) (Chain.HasMarket k) (Chain.fundingIndex k) (fundingDelta k)
      fun x => (upserted k x.act).map (·.fundingIndex.toInt) where
  keeps _ _ _ hk h := (fundingIndex_of_step h hk).1
  effect _ hk h := (fundingIndex_of_step h hk).2
  added_eq x v hv := by
    obtain ⟨config, hconfig, -⟩ := Option.map_eq_some_iff.mp hv
    obtain ⟨pre, act, post⟩ := x
    cases act with
    | external state => exact absurd hconfig (Option.some_ne_none config).symm
    | invoke tx =>
      obtain ⟨signers, timestamp, target, call⟩ := tx
      cases call <;> first
        | rfl
        | exact absurd hconfig (Option.some_ne_none config).symm

/-- **Advances are never lost.** In every state that a run reaches from one with the market, its
index is the initial one plus all accepted moves, exactly when every accepted change of the market's
configuration carries the index that the market has at that time. -/
theorem fundingIndex_iff (hk : c.HasMarket k) (as : List (Action H)) :
    (∀ before, before <+: as → (final step c before).fundingIndex k =
      c.fundingIndex k + ((accepted step c before).map (fundingDelta k)).sum) ↔
    ∀ x ∈ accepted step c as, ∀ config ∈ upserted k x.act,
      config.fundingIndex.toInt = x.pre.fundingIndex k := by
  rw [(tallies_fundingIndex k).total_iff hk as]
  refine forall_congr' fun x => imp_congr_right fun _ => ?_
  simp only [Option.map_eq_some_iff, forall_exists_index, and_imp, forall_apply_eq_imp_iff₂,
    Option.mem_def]

end Steps

/-! ## A lost advance -/

/-- Every accepted change of the market was prepared from a configuration that the market has had,
with the same funding index. -/
def Prepared (k : Address × BytesN32) (c : Chain H) (as : List (Action H)) : Prop :=
  ∀ before x after, accepted step c as = before ++ x :: after →
    ∀ config ∈ upserted k x.act, ∃ earlier ∈ c :: before.map Step.post, ∃ read,
      earlier.markets k = some read ∧ config.fundingIndex = read.fundingIndex

section Examples

open SampleHost FundingSettlement

/-- A change of the maximal leverage of market A that was prepared at this funding index. -/
def changeLeverage (fundingIndex : I128) : Action sampleHost :=
  adminTx (.contract 6) (.marketUpsert (marketKey sampleHost "A")
    { sampleMarket "A" with fundingIndex := fundingIndex, maxLeverage := 20 })

/-- The change is prepared after the premium. -/
def freshChange : List (Action sampleHost) :=
  settleUpdate premium ++ [changeLeverage 15] ++ settleUpdate discount

/-- The change is prepared before the premium and sent after it. -/
def staleChange : List (Action sampleHost) := settleUpdate premium ++ [changeLeverage 0]

def marketA : Address × BytesN32 := (.contract 6, marketKey sampleHost "A")

theorem fundingIndex_freshChange :
    (final step (final step oracleLedger deployFunding) freshChange).fundingIndex marketA =
      (final step oracleLedger deployFunding).fundingIndex marketA +
        ((accepted step (final step oracleLedger deployFunding) freshChange).map
          (fundingDelta marketA)).sum := by
  have hfacts : ((final step oracleLedger deployFunding).markets marketA).isSome ∧
      ∀ x ∈ accepted step (final step oracleLedger deployFunding) freshChange,
        ∀ config ∈ upserted marketA x.act,
          config.fundingIndex.toInt = x.pre.fundingIndex marketA := by
    decide +kernel
  have hmarket : (final step oracleLedger deployFunding).HasMarket marketA := hfacts.1
  exact (fundingIndex_iff hmarket freshChange).mpr hfacts.2 _ List.prefix_rfl

/-- **An advance is lost.** The change of the leverage takes the index back to zero, although the
premium has been settled. -/
theorem exists_lost_advance :
    ¬ ∀ (e : sampleHost.State) (deploy as : List (Action sampleHost)) (k : Address × BytesN32),
      (final step (Chain.blank e) deploy).HasMarket k →
      Prepared k (final step (Chain.blank e) deploy) as →
      (final step (final step (Chain.blank e) deploy) as).fundingIndex k =
        (final step (Chain.blank e) deploy).fundingIndex k +
          ((accepted step (final step (Chain.blank e) deploy) as).map (fundingDelta k)).sum := by
  intro h
  have hfacts : (final step oracleLedger deployFunding).markets marketA = some (sampleMarket "A") ∧
      (∀ x ∈ accepted step (final step oracleLedger deployFunding) staleChange,
        ∀ config ∈ upserted marketA x.act, config.fundingIndex = (sampleMarket "A").fundingIndex) ∧
      (final step (final step oracleLedger deployFunding) staleChange).fundingIndex marketA = 0 ∧
      (final step oracleLedger deployFunding).fundingIndex marketA = 0 ∧
      ((accepted step (final step oracleLedger deployFunding) staleChange).map
        (fundingDelta marketA)).sum = 15 := by
    decide +kernel
  obtain ⟨hmarket, hchanges, hfinal, hinitial, hmoves⟩ := hfacts
  have hprepared : Prepared marketA (final step oracleLedger deployFunding) staleChange := by
    intro before x after hsplit config hconfig
    have hx : x ∈ accepted step (final step oracleLedger deployFunding) staleChange := by
      rw [hsplit]
      exact List.mem_append_right _ List.mem_cons_self
    exact ⟨_, List.mem_cons_self, _, hmarket, hchanges x hx config hconfig⟩
  have hlaw := h oracleLedger.external deployFunding staleChange marketA
    (Chain.fundingIndex_of_eq hmarket).1 hprepared
  have hlost : (final step (final step oracleLedger deployFunding) staleChange).fundingIndex
      marketA = (final step oracleLedger deployFunding).fundingIndex marketA +
        ((accepted step (final step oracleLedger deployFunding) staleChange).map
          (fundingDelta marketA)).sum := hlaw
  rw [hfinal, hinitial, hmoves] at hlost
  exact absurd hlost (by decide)

end Examples

end Pnlx
