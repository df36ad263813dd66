import Pnlx.Properties.LiquidationHealth
import Pnlx.Properties.PositionSpending

/-!
# The terms of a liquidation

The requirement of a liquidation takes its maintenance rate from an argument of the caller, and its
equity takes the funding payment from private arguments of the prover. The market contract knows the
rate and the funding index, but nobody compares them.

1. `Assignment.onTerms_iff`: what a satisfying assignment has to pass to be on the terms of the
   market.
2. `liquidations_onTerms_iff`: an accepted call enforces the terms for a single degenerate position
   only, for which the circuit leaves the prover no choice.
3. `exists_unfair_liquidation`: anyone liquidates a position that is healthy at the configured rate.
-/

namespace Pnlx

open Program Runs

namespace LiquidationCheck

open MarketMath

/-- The configuration of a market, as the liquidation contract at `target` can read it. -/
def ConfiguredAs {H : Host} (c : Chain H) (target : Address) (marketId : BytesN32)
    (config : MarketConfig) : Prop :=
  ∃ m, (c.storage .liquidation target).marketContract = some m ∧
    (c.storage .market m).market marketId = some config

/-- A satisfying assignment whose public inputs have the hash that the proof of a call names. -/
structure Behind (H : Host) (args : LiquidationArgs) (a : Assignment) : Prop where
  main : main H a = some ()
  hash : H.sha256 (encodePublicInputs a.publicInputs) = args.proof.publicInputHash

/-- The payment of the private arguments is what the funding index of the market implies. -/
def ImpliedFunding (config : MarketConfig) (a : Assignment) : Prop :=
  expectedFundingPayment a.isLong a.size.toNat config.fundingIndex.toInt a.fundingIndex.toNat =
    .ok a.fundingPayment

/-- At the configured rate and with the implied payment, `isLiquidatable` holds of the position. -/
def BelowRequirement (config : MarketConfig) (a : Assignment) : Prop :=
  ∃ payment, expectedFundingPayment a.isLong a.size.toNat config.fundingIndex.toInt
      a.fundingIndex.toNat = .ok payment ∧
    MarketMath.isLiquidatable a.isLong a.size.toNat a.entryPrice.toNat a.markPrice.toNat
      a.margin.toNat payment config.maintenanceRate.toNat = true

/-- The requirement takes the configured rate, the equity takes the implied payment, and the position
is below its requirement. -/
structure OnTerms (config : MarketConfig) (a : Assignment) : Prop where
  rate : a.maintenanceRate = config.maintenanceRate
  funding : ImpliedFunding config a
  below : BelowRequirement config a

/-- The strings that are hashed for a call and for an assignment. -/
def hashedInputs (args : LiquidationArgs) (a : Assignment) : Set Bytes :=
  {encodePublicInputs args.publicInputs, encodePublicInputs a.publicInputs}

section

variable {H : Host} {args : LiquidationArgs} {a : Assignment} {config : MarketConfig}

/-- The public inputs of the assignment behind a successful liquidation. -/
theorem Behind.publicInputs_eq {env : Env} {c c' : Chain H} (ha : Behind H args a)
    (h : Liquidation.Liquidated env c c' args) (hsha : H.ShaInjOn (hashedInputs args a)) :
    (a.markPrice = args.markPrice ∧ a.maintenanceRate = args.maintenanceRate) ∧
      a.priceScale = Liquidation.priceScale ∧ a.rateScale = Liquidation.rateScale := by
  have hhash : H.sha256 (encodePublicInputs a.publicInputs) =
      H.sha256 (encodePublicInputs args.publicInputs) := ha.hash.trans h.hash
  have hinputs : a.publicInputs = args.publicInputs :=
    encodePublicInputs_injective (hsha (Or.inr rfl) (Or.inl rfl) hhash)
  simp only [Assignment.publicInputs, LiquidationArgs.publicInputs, List.cons.injEq] at hinputs
  obtain ⟨hmark, hrate, hprice, hscale, -⟩ := hinputs
  exact ⟨⟨asField_injective hmark, asField_injective hrate⟩, asField_injective hprice,
    asField_injective hscale⟩

theorem belowRequirement_iff (hrate : a.maintenanceRate = config.maintenanceRate)
    (hfunding : ImpliedFunding config a) :
    BelowRequirement config a ↔ a.margin.toNat + a.pnl - a.fundingPayment < a.requirement := by
  rw [← isLiquidatable_iff]
  unfold BelowRequirement Assignment.isLiquidatable
  rw [hrate, show expectedFundingPayment _ _ _ _ = .ok a.fundingPayment from hfunding]
  refine ⟨?_, fun h => ⟨_, rfl, h⟩⟩
  rintro ⟨payment, hpayment, h⟩
  obtain rfl := Except.ok.inj hpayment
  exact h

/-- A satisfying assignment is on the terms of the market exactly when it takes the configured rate
and the implied payment, and no gain makes up for what the circuit finds missing. -/
theorem Assignment.onTerms_iff (hmain : main H a = some ())
    (hprice : a.priceScale = Liquidation.priceScale)
    (hscale : a.rateScale = Liquidation.rateScale) :
    OnTerms config a ↔ a.maintenanceRate = config.maintenanceRate ∧ ImpliedFunding config a ∧
      ¬ GainDecides a a.fundingPayment := by
  have hunhealthy := (main_eq_some_iff.mp hmain).2
  have hentry := hunhealthy.entryPrice_pos
  have hlt := hunhealthy.equity_lt
  have hrequirement := requirement_eq hprice hscale
  have hequity := equity_eq a
  have hbelow : a.margin.toNat + a.pnl - a.fundingPayment < a.requirement ↔
      ¬ GainDecides a a.fundingPayment := by
    unfold GainDecides
    rcases pnl_cases hprice with hloss | ⟨hgain, hloss⟩
    · omega
    · omega
  constructor
  · exact fun h => ⟨h.rate, h.funding, hbelow.mp ((belowRequirement_iff h.rate h.funding).mp h.below)⟩
  · rintro ⟨hrate, hfunding, hgain⟩
    exact ⟨hrate, hfunding, (belowRequirement_iff hrate hfunding).mpr (hbelow.mpr hgain)⟩

/-- With a debit instead of its funding payment. -/
def Assignment.debited (a : Assignment) (n : U128) : Assignment :=
  { a with fundingPaymentAbs := n, fundingIsCredit := false }

/-- A debit that takes enough of the equity satisfies the circuit for the same public inputs. -/
theorem Behind.debited (ha : Behind H args a) {n : U128} (hlt : (a.debited n).equity < a.maintenance) :
    Behind H args (a.debited n) := by
  obtain ⟨hmember, hunhealthy⟩ := main_eq_some_iff.mp ha.main
  refine ⟨main_eq_some_iff.mpr ⟨?_, ?_⟩, ha.hash⟩
  · exact ⟨hmember.root_ne, hmember.commitment_ne, hmember.nullifier_ne, hmember.reward_ne,
      hmember.position, hmember.root, hmember.nullifier⟩
  · exact ⟨hunhealthy.size_pos, hunhealthy.entryPrice_pos, hunhealthy.markPrice_pos,
      hunhealthy.priceScale_pos, hunhealthy.rateScale_pos,
      ⟨hunhealthy.products.value, hunhealthy.products.markValue, hunhealthy.products.weighted⟩, hlt⟩

/-- A satisfying assignment behind the call that opens the position, where SHA-256 does not collide
on the two strings. -/
structure Opens (H : Host) (args : LiquidationArgs) (p : Position) (a : Assignment) : Prop where
  behind : Behind H args a
  position : a.position = p
  sha : H.ShaInjOn (hashedInputs args a)

/-- The degenerate position of a call: with the largest margin, neither profit nor loss and a
requirement of one, only the largest debit satisfies the circuit, and it is the implied payment at
the configured rate. -/
structure NoChoice (config : MarketConfig) (a : Assignment) : Prop where
  rate : a.maintenanceRate = config.maintenanceRate
  margin : a.margin.toNat = 2 ^ 128 - 1
  pnl : a.pnl = 0
  requirement : a.requirement = 1
  funding : expectedFundingPayment a.isLong a.size.toNat config.fundingIndex.toInt
    a.fundingIndex.toNat = .ok (2 ^ 128 - 1)

/-- Two debits of a call whose satisfying assignments are all on the terms are one. -/
theorem debit_eq {m n : U128} (hm : OnTerms config (a.debited m)) (hn : OnTerms config (a.debited n)) :
    m.toNat = n.toNat := by
  have hpayment := Except.ok.inj (hm.funding.symm.trans hn.funding)
  exact Int.ofNat.inj hpayment

theorem Opens.debited (h : Opens H args a.position a) {n : U128}
    (hn : (a.debited n).equity < a.maintenance) : Opens H args a.position (a.debited n) :=
  ⟨h.behind.debited hn, rfl, h.sha⟩

/-- A call enforces the terms of the market only where the prover has no choice. -/
theorem Opens.noChoice (h : Opens H args a.position a)
    (hprice : a.priceScale = Liquidation.priceScale)
    (hscale : a.rateScale = Liquidation.rateScale)
    (hall : ∀ a', Opens H args a.position a' → OnTerms config a') : NoChoice config a := by
  have hlt := (main_eq_some_iff.mp h.behind.main).2.equity_lt
  have hpos : 0 < a.maintenance := Nat.zero_lt_of_lt hlt
  have hmargin := a.margin.isLt
  have hrequirement := requirement_eq hprice hscale
  have hpnl := pnl_cases hprice
  obtain ⟨most, hmost⟩ := exists_toNat_eq (show 2 ^ 128 - 1 < 2 ^ 128 by omega)
  obtain ⟨next, hnext⟩ := exists_toNat_eq (show 2 ^ 128 - 2 < 2 ^ 128 by omega)
  have hdebited (n : U128) : (a.debited n).equity = a.margin.toNat - a.loss - n.toNat := rfl
  have hterms : OnTerms config (a.debited most) :=
    hall _ (h.debited (by rw [hdebited]; omega))
  -- the second largest debit does not satisfy the circuit
  have hrefused : ¬ (a.debited next).equity < a.maintenance := fun hnextLt => by
    have heq := debit_eq hterms (hall _ (h.debited hnextLt))
    omega
  rw [hdebited] at hrefused
  have hbelow := (belowRequirement_iff hterms.rate hterms.funding).mp hterms.below
  have hpayment : (a.debited most).fundingPayment = most.toNat := rfl
  replace hbelow : a.margin.toNat + a.pnl - (most.toNat : ℤ) < a.requirement := hbelow
  have hfunding := hterms.funding
  unfold ImpliedFunding at hfunding
  rw [hpayment, hmost] at hfunding
  exact ⟨hterms.rate, by omega, by omega, by omega, hfunding⟩

/-- Where the prover has no choice, every assignment for the position is on the terms. -/
theorem NoChoice.onTerms {a' : Assignment} (h : NoChoice config a) (hmain : main H a' = some ())
    (hposition : a'.position = a.position) (hmark : a'.markPrice = a.markPrice)
    (hrate : a'.maintenanceRate = a.maintenanceRate)
    (hprice : a'.priceScale = Liquidation.priceScale)
    (hscale : a'.rateScale = Liquidation.rateScale) : OnTerms config a' := by
  simp only [Assignment.position, Position.mk.injEq] at hposition
  obtain ⟨hlong, hsize, hentry, hmargin, hindex, -⟩ := hposition
  have hpnl : a'.pnl = 0 := by
    rw [← h.pnl]
    unfold Assignment.pnl
    rw [hlong, hsize, hentry, hmark]
  have hone : a'.requirement = 1 := by
    rw [← h.requirement]
    unfold Assignment.requirement
    rw [hsize, hmark, hrate]
  have hfull : a'.margin.toNat = 2 ^ 128 - 1 := hmargin ▸ h.margin
  have hlt := (main_eq_some_iff.mp hmain).2.equity_lt
  have hrequirement := requirement_eq hprice hscale
  have hequity := equity_eq a'
  have hloss := pnl_cases hprice
  have habs := a'.fundingPaymentAbs.isLt
  -- only the largest debit leaves less than one
  have hpayment : a'.fundingPayment = 2 ^ 128 - 1 := by
    unfold Assignment.fundingPayment at hequity ⊢
    split_ifs at hequity ⊢ with hcredit
    · omega
    · omega
  have hfunding : ImpliedFunding config a' := by
    unfold ImpliedFunding
    rw [hlong, hsize, hindex, hpayment]
    exact h.funding
  have hrates := hrate.trans h.rate
  refine ⟨hrates, hfunding, (belowRequirement_iff hrates hfunding).mpr ?_⟩
  omega

end

end LiquidationCheck

open LiquidationCheck

/-- The liquidations of an action, with the contract that they call. -/
def Action.liquidations {H : Host} : Action H → List (Address × LiquidationArgs)
  | .invoke ⟨_, _, target, .liquidationLiquidate args⟩ => [(target, args)]
  | _ => []

variable {H : Host}

theorem liquidated_of_step {c c' : Chain H} {act : Action H} (h : step c act = .ok c')
    {l : Address × LiquidationArgs} (hl : l ∈ act.liquidations) :
    ∃ env : Env, env.current = l.1 ∧ Liquidation.Liquidated env c c' l.2 := by
  cases act with
  | external state => exact absurd hl List.not_mem_nil
  | invoke tx =>
    obtain ⟨signers, timestamp, target, call⟩ := tx
    cases call <;> try exact absurd hl List.not_mem_nil
    case liquidationLiquidate args =>
      rw [List.mem_singleton.mp hl]
      exact ⟨_, rfl, Liquidation.liquidate_returns (step_invoke_eq_ok.mp h)⟩

/-- **The terms of a liquidation.** In every run, and for every assignment behind a liquidation, all
satisfying assignments for its position are on the terms of the market exactly when the position
leaves the prover no choice. -/
theorem liquidations_onTerms_iff {c : Chain H} {as : List (Action H)} :
    ∀ x ∈ accepted step c as, ∀ l ∈ x.act.liquidations, ∃ config,
      ConfiguredAs x.pre l.1 l.2.marketId config ∧ ∀ a, Opens H l.2 a.position a →
        ((∀ a', Opens H l.2 a.position a' → OnTerms config a') ↔ NoChoice config a) := by
  rintro ⟨c₁, act, c₂⟩ hx l hl
  have hstep : step c₁ act = .ok c₂ := (accepted_ok _ hx).1
  obtain ⟨env, htarget, hliquidated⟩ := liquidated_of_step hstep hl
  obtain ⟨m, hm, hread⟩ := hliquidated.price
  obtain ⟨config, hconfig⟩ := hread.exists_config
  refine ⟨config, ⟨m, htarget ▸ hm, hconfig⟩, fun a ha => ?_⟩
  obtain ⟨⟨hmark, hrate⟩, hprice, hscale⟩ := ha.behind.publicInputs_eq hliquidated ha.sha
  refine ⟨ha.noChoice hprice hscale, fun h a' ha' => ?_⟩
  obtain ⟨⟨hmark', hrate'⟩, hprice', hscale'⟩ :=
    ha'.behind.publicInputs_eq hliquidated ha'.sha
  exact h.onTerms ha'.behind.main ha'.position (hmark'.trans hmark.symm) (hrate'.trans hrate.symm)
    hprice' hscale'

section Examples

open SampleHost

/-- A long position of market A with a notional of 3000 at the mark price 1500. -/
def positionWithMargin (margin : U128) : Position :=
  ⟨true, 200000000, 1000, margin, 0, marketDigest sampleHost "A", 5, 6, 7⟩

/-- The liquidation of the position at a maintenance rate. -/
def liquidationAt (margin rate : U128) : LiquidationCheck.Assignment :=
  liquidatePosition (positionWithMargin margin) 1500 rate 0 false 21 11

/-- The call that shows a proof of an assignment. -/
def callOf (a : LiquidationCheck.Assignment) : LiquidationArgs :=
  liquidationArgs (marketKey sampleHost "A") 9 a

/-- The deployment with a liquidation contract, and a liquidation by somebody without any
authorisation. -/
def liquidatedOnce (a : LiquidationCheck.Assignment) : List (Action sampleHost) :=
  deployPositions a.position ++ deployLiquidation ++ [recordLiquidation a,
    liquidationTx (callOf a)]

/-- The liquidation of a margin of 100 at the configured rate. -/
def fairLiquidation : LiquidationCheck.Assignment := liquidationAt 100 50000

/-- The liquidation of a margin of 200, which is healthy at the configured rate. -/
def unfairLiquidation : LiquidationCheck.Assignment := liquidationAt 200 100000

/-- A short position of one unit at its entry price, whose margin and funding index are the largest
numbers, leaves no choice. -/
example : NoChoice (sampleMarket "A")
    (liquidatePosition ⟨false, 100000000, 20, 2 ^ 128 - 1, 2 ^ 128 - 1,
      marketDigest sampleHost "A", 5, 6, 7⟩ 20 50000 (2 ^ 128 - 1) false 21 11) :=
  ⟨rfl, by decide +kernel, by decide, by decide, by decide +kernel⟩

theorem opens_callOf {a : LiquidationCheck.Assignment}
    (hmain : LiquidationCheck.main sampleHost a = some ())
    (hinputs : (callOf a).publicInputs = a.publicInputs) :
    Opens sampleHost (callOf a) a.position a := by
  refine ⟨⟨hmain, rfl⟩, rfl, ?_⟩
  unfold hashedInputs
  rw [hinputs, Set.pair_eq_singleton]
  exact Set.injOn_singleton _ _

/-- Not even a liquidation at the configured rate enforces the terms of the market. -/
theorem liquidations_onTerms_fairLiquidation :
    ∃ x ∈ accepted step oracleLedger (liquidatedOnce fairLiquidation),
      ∃ l ∈ x.act.liquidations, ∃ config, ConfiguredAs x.pre l.1 l.2.marketId config ∧
        l.2.maintenanceRate = config.maintenanceRate ∧
        ∃ a, Opens sampleHost l.2 fairLiquidation.position a ∧ ¬ OnTerms config a := by
  have hrun : ∃ x ∈ accepted step oracleLedger (liquidatedOnce fairLiquidation),
      ∃ l ∈ x.act.liquidations, l.2 = callOf fairLiquidation ∧
        (x.pre.storage .liquidation l.1).marketContract = some (.contract 6) ∧
        (x.pre.storage .market (.contract 6)).market l.2.marketId = some (sampleMarket "A") := by
    decide +kernel
  obtain ⟨x, hx, l, hl, hargs, hmarket, hsample⟩ := hrun
  obtain ⟨config, hconfig, hterms⟩ := liquidations_onTerms_iff x hx l hl
  obtain ⟨m, hm, hmarketConfig⟩ := id hconfig
  obtain rfl : .contract 6 = m := Option.some.inj (hmarket.symm.trans hm)
  obtain rfl : sampleMarket "A" = config := Option.some.inj (hsample.symm.trans hmarketConfig)
  refine ⟨x, hx, l, hl, _, hconfig, ?_, ?_⟩
  · rw [hargs]
    decide
  · have hopens : Opens sampleHost l.2 fairLiquidation.position fairLiquidation := by
      rw [hargs]
      exact opens_callOf (by decide +kernel) (by decide +kernel)
    have hchoice : ¬ NoChoice (sampleMarket "A") fairLiquidation := fun h =>
      absurd h.margin (by decide)
    by_contra hnone
    push Not at hnone
    exact hchoice ((hterms fairLiquidation hopens).mp hnone)

/-- Anyone can liquidate a position that is healthy at the configured rate. -/
theorem exists_unfair_liquidation :
    ∃ (e : sampleHost.State) (as : List (Action sampleHost)) (a : LiquidationCheck.Assignment),
      (∀ key ∈ as.flatMap Action.recordedKeys,
        key.publicInputHash = sampleHost.sha256 (encodePublicInputs a.publicInputs)) ∧
      ∃ x ∈ accepted step (Chain.blank e) as, ∃ l ∈ x.act.liquidations,
        Behind sampleHost l.2 a ∧ l.2.publicInputs = a.publicInputs ∧
          ∃ config, ConfiguredAs x.pre l.1 l.2.marketId config ∧
            a.maintenanceRate ≠ config.maintenanceRate ∧ ImpliedFunding config a ∧
            ¬ BelowRequirement config a := by
  have hrun : ∃ x ∈ accepted step oracleLedger (liquidatedOnce unfairLiquidation),
      ∃ l ∈ x.act.liquidations, l.2 = callOf unfairLiquidation ∧
        (x.pre.storage .liquidation l.1).marketContract = some (.contract 6) ∧
        (x.pre.storage .market (.contract 6)).market l.2.marketId = some (sampleMarket "A") := by
    decide +kernel
  obtain ⟨x, hx, l, hl, hargs, hmarket, hconfig⟩ := hrun
  refine ⟨_, liquidatedOnce unfairLiquidation, unfairLiquidation, by decide +kernel, x, hx, l, hl,
    ?_, ?_, sampleMarket "A", ⟨_, hmarket, hconfig⟩, by decide, rfl, ?_⟩
  · rw [hargs]
    exact ⟨by decide +kernel, rfl⟩
  · rw [hargs]
    decide +kernel
  · rintro ⟨payment, hpayment, hbelow⟩
    obtain rfl : (0 : ℤ) = payment := Except.ok.inj hpayment
    exact absurd hbelow (by decide)

end Examples

end Pnlx
