import Pnlx.Circuits.ConditionalClose
import Pnlx.Circuits.LiquidationCheck
import Pnlx.Digests
import Pnlx.Properties.PositionSpending

/-!
# The market of a mark price

A close, a liquidation and a trigger take the market as an argument and read its oracle. The proofs
that they check commit to a market too, but the argument is not among the public inputs. The mark
price is that of the committed market in every run that passes the key of the committed market
(`prices_of_market`).
-/

namespace Pnlx

open Program Runs

variable {H : Host}

/-- A call that checks a proof at a mark price. -/
inductive PricedCall where
  | close (args : CloseArgs)
  | liquidation (args : LiquidationArgs)
  | trigger (marketId positionNullifier closeCommitment : BytesN32) (markPrice : I128)
      (proof : ProofMeta)
  deriving DecidableEq

namespace PricedCall

def marketId : PricedCall → BytesN32
  | close args => args.marketId
  | liquidation args => args.marketId
  | trigger marketId _ _ _ _ => marketId

def markPrice : PricedCall → I128
  | close args => args.markPrice
  | liquidation args => args.markPrice
  | trigger _ _ _ markPrice _ => markPrice

def proof : PricedCall → ProofMeta
  | close args => args.proof
  | liquidation args => args.proof
  | trigger _ _ _ _ proof => proof

def publicInputs : PricedCall → List Fr
  | close args => args.publicInputs
  | liquidation args => args.publicInputs
  | trigger _ positionNullifier closeCommitment markPrice _ =>
    ConditionalOrder.publicInputs markPrice positionNullifier closeCommitment

/-- The market contract that the called contract uses. -/
def marketContract (c : Chain H) (target : Address) : PricedCall → Option Address
  | close _ => (c.storage .positionClose target).marketContract
  | liquidation _ => (c.storage .liquidation target).marketContract
  | trigger .. => (c.storage .conditionalOrder target).marketContract

/-- A satisfying assignment for the public inputs of the call, with its pairs in `Q`, opens a
position or a conditional commitment with the given market digest. -/
def OpensMarket (H : Host) (Q : Set (Fr × Fr)) (s : PricedCall) (digest : Fr) : Prop :=
  match s with
  | close args => ∃ a : PositionCloseCircuit.Assignment,
      PositionCloseCircuit.main H a = some () ∧ a.publicInputs = args.publicInputs ∧
        (∀ q ∈ a.queries H, q ∈ Q) ∧ a.marketDigest = digest
  | liquidation args => ∃ a : LiquidationCheck.Assignment,
      LiquidationCheck.main H a = some () ∧ a.publicInputs = args.publicInputs ∧
        (∀ q ∈ a.queries H, q ∈ Q) ∧ a.marketDigest = digest
  | trigger _ positionNullifier closeCommitment markPrice _ => ∃ a : ConditionalClose.Assignment,
      ConditionalClose.main H a = some () ∧
        a.publicInputs =
          ConditionalOrder.publicInputs markPrice positionNullifier closeCommitment ∧
        (∀ q ∈ a.queries H, q ∈ Q) ∧ a.marketDigest = digest

/-- The call has shown a proof of its public inputs, which start with the mark price, and the mark
price is what the oracle of market `marketId` gives. -/
structure PricedAt (env : Env) (c : Chain H) (s : PricedCall) (marketId : BytesN32) : Prop where
  hash : s.proof.publicInputHash = H.sha256 (encodePublicInputs s.publicInputs)
  head : s.publicInputs.head? = some (asField s.markPrice)
  price : ∃ m, s.marketContract c env.current = some m ∧
    Market.IsMarkPrice env c m marketId s.markPrice

theorem pricedAt_of_closed {args : CloseArgs} {env : Env} {c c' : Chain H}
    (h : PositionClose.Closed env c c' args) : PricedAt env c (close args) args.marketId :=
  ⟨h.hash, rfl, h.price⟩

theorem pricedAt_of_liquidated {args : LiquidationArgs} {env : Env} {c c' : Chain H}
    (h : Liquidation.Liquidated env c c' args) : PricedAt env c (liquidation args) args.marketId :=
  ⟨h.hash, rfl, h.price⟩

theorem pricedAt_of_triggered {marketId positionNullifier closeCommitment : BytesN32}
    {markPrice : I128} {proof : ProofMeta} {env : Env} {c : Chain H}
    (h : ConditionalOrder.Triggered env c marketId positionNullifier closeCommitment markPrice
      proof) :
    PricedAt env c (trigger marketId positionNullifier closeCommitment markPrice proof) marketId :=
  ⟨h.hash, rfl, h.price⟩

end PricedCall

open PricedCall

/-- The priced proofs of a call. -/
def Call.priced : Call → List PricedCall
  | closeSettle args | closeSettleManual args => [.close args]
  | closeSettlePairManual trader maker | closeSettlePairConditional trader maker =>
    [.close trader, .close maker]
  | liquidationLiquidate args => [.liquidation args]
  | orderTrigger marketId positionNullifier closeCommitment markPrice proof =>
    [.trigger marketId positionNullifier closeCommitment markPrice proof]
  | _ => []

/-- Both closes of a pair are priced at the start of the pair. -/
theorem pricedAt_of_pair {trader maker : CloseArgs} {conditional : Bool} {env : Env}
    {c c' : Chain H} (h : Returns (PositionClose.settlePair trader maker conditional) env c () c') :
    PricedAt env c (close trader) trader.marketId ∧ PricedAt env c (close maker) maker.marketId := by
  obtain ⟨hmarket, hprice, c₁, htrader, hmaker⟩ := PositionClose.settlePair_returns h
  have ht := pricedAt_of_closed (PositionClose.settlePositionClose_returns htrader)
  have hm := pricedAt_of_closed (PositionClose.settlePositionClose_returns hmaker)
  refine ⟨ht, hm.hash, rfl, ?_⟩
  -- the maker has the market and the price of the trader
  obtain ⟨m, hm, hread⟩ := ht.price
  refine ⟨m, hm, ?_⟩
  rw [← hmarket]
  exact (show trader.markPrice = (close maker).markPrice from hprice) ▸ hread

/-- The price of a successful call is that of the market that it names. -/
theorem pricedAt_of_step {c c' : Chain H} {tx : Tx} (h : step c (.invoke tx) = .ok c') :
    ∀ s ∈ tx.call.priced, PricedAt tx.env c s s.marketId := by
  have hrun := step_invoke_eq_ok.mp h
  intro s hs
  cases hcall : tx.call <;> rw [hcall] at hrun hs
  case closeSettle | closeSettleManual =>
    rw [List.mem_singleton.mp hs]
    exact pricedAt_of_closed (PositionClose.settlePositionClose_returns hrun)
  case closeSettlePairManual | closeSettlePairConditional =>
    obtain ⟨ht, hm⟩ := pricedAt_of_pair hrun
    rcases List.mem_cons.mp hs with rfl | hs
    · exact ht
    · rw [List.mem_singleton.mp hs]
      exact hm
  case liquidationLiquidate =>
    rw [List.mem_singleton.mp hs]
    exact pricedAt_of_liquidated (Liquidation.liquidate_returns hrun)
  case orderTrigger =>
    rw [List.mem_singleton.mp hs]
    exact pricedAt_of_triggered (ConditionalOrder.trigger_returns hrun)
  all_goals exact absurd hs List.not_mem_nil

/-- The priced proofs of an action with the environment of their call. -/
def Action.priced : Action H → List (Env × PricedCall)
  | invoke tx => tx.call.priced.map fun s => (tx.env, s)
  | external _ => []

/-- Of the given markets, the call names the one that its proof commits to. -/
def NamesMarket (H : Host) (Q : Set (Fr × Fr)) (markets : Set String) (s : PricedCall) : Prop :=
  ∀ market ∈ markets, OpensMarket H Q s (marketDigest H market) → s.marketId = marketKey H market

/-- **Prices of the right market.** In a run whose closes, liquidations and triggers name the
market that their proofs commit to, each of them is priced by the oracle of that market. -/
theorem prices_of_market {Q : Set (Fr × Fr)} {markets : Set String} {c : Chain H}
    {as : List (Action H)}
    (hnames : ∀ x ∈ accepted step c as, ∀ s ∈ x.act.priced, NamesMarket H Q markets s.2) :
    ∀ x ∈ accepted step c as, ∀ s ∈ x.act.priced, ∀ market ∈ markets,
      OpensMarket H Q s.2 (marketDigest H market) →
        PricedAt s.1 x.pre s.2 (marketKey H market) := by
  rintro ⟨c₁, a, c₂⟩ hx s hs market hmarket hopens
  have hstep : step c₁ a = .ok c₂ := (accepted_ok _ hx).1
  rw [← hnames _ hx s hs market hmarket hopens]
  cases a with
  | external state => exact absurd hs List.not_mem_nil
  | invoke tx =>
    obtain ⟨t, ht, rfl⟩ := List.mem_map.mp hs
    exact pricedAt_of_step hstep t ht

section Examples

open SampleHost

/-- The close of a position of market A at the price of a market. -/
def closeAt (price payout : U128) : PositionCloseCircuit.Assignment :=
  closePosition ⟨true, 200000000, 1000, 5000, 0, marketDigest sampleHost "A", 5, 6, 7⟩ price 0 false
    0 payout 3 21 11

/-- The deployment, and the close of the position at the price and under the key of a market. -/
def closeUnder (market : String) (a : PositionCloseCircuit.Assignment) :
    List (Action sampleHost) :=
  deployPositions a.position ++ [recordClose a, closeTx (closeArgs (marketKey sampleHost market) 5 a)]

def ownPrice : PositionCloseCircuit.Assignment := closeAt 1500 6000

def otherPrice : PositionCloseCircuit.Assignment := closeAt 1600 6200

def sampleMarkets : Set String := {m | m ∈ ["A", "B"]}

/-- The position that `ownPrice` closes is one of market A, whoever opens it. -/
theorem marketDigest_ownPrice {a : PositionCloseCircuit.Assignment}
    (h : PositionCloseCircuit.main sampleHost a = some ())
    (hinputs : a.publicInputs = ownPrice.publicInputs)
    (hwithin : ∀ q ∈ a.queries sampleHost, q ∈ {q | q ∈ ownPrice.queries sampleHost}) :
    a.marketDigest = marketDigest sampleHost "A" := by
  have hQ : CollisionFree (hashPair sampleHost) {q | q ∈ ownPrice.queries sampleHost} :=
    collisionFree_of_list (by decide +kernel)
  have hcommitment : a.positionCommitmentPublic = ownPrice.positionCommitmentPublic := by
    simp only [PositionCloseCircuit.Assignment.publicInputs, List.cons.injEq] at hinputs
    exact hinputs.2.2.2.1
  have hposition : a.position = ownPrice.position :=
    Position.commitment_inj hQ (PositionCloseCircuit.Assignment.position_within hwithin)
      (PositionCloseCircuit.Assignment.position_within fun _ hq => hq)
      (by rw [(PositionCloseCircuit.facts h).position, hcommitment]; rfl)
  exact congrArg Position.marketDigest hposition

theorem namesMarket_ownPrice :
    ∀ x ∈ accepted step oracleLedger (closeUnder "A" ownPrice), ∀ s ∈ x.act.priced,
      NamesMarket sampleHost {q | q ∈ ownPrice.queries sampleHost} sampleMarkets s.2 := by
  have hrun : ∀ x ∈ accepted step oracleLedger (closeUnder "A" ownPrice), ∀ s ∈ x.act.priced,
      s.2 = .close (closeArgs (marketKey sampleHost "A") 5 ownPrice) := by decide +kernel
  have hne : ∀ m ∈ ["A", "B"], marketDigest sampleHost "A" = marketDigest sampleHost m →
      marketKey sampleHost "A" = marketKey sampleHost m := by decide +kernel
  have hinputs : (closeArgs (marketKey sampleHost "A") 5 ownPrice).publicInputs =
      ownPrice.publicInputs := by decide +kernel
  intro x hx s hs market hmarket hopens
  rw [hrun x hx s hs] at hopens ⊢
  obtain ⟨a, hmain, ha, hwithin, hdigest⟩ := hopens
  exact hne market hmarket
    ((marketDigest_ownPrice hmain (ha.trans hinputs) hwithin).symm.trans hdigest)

/-- One close is priced in the run, at the price of its market. -/
theorem prices_of_market_ownPrice :
    ((accepted step oracleLedger (closeUnder "A" ownPrice)).flatMap (·.act.priced)).length = 1 ∧
      ∀ x ∈ accepted step oracleLedger (closeUnder "A" ownPrice), ∀ s ∈ x.act.priced,
        ∀ market ∈ sampleMarkets,
          OpensMarket sampleHost {q | q ∈ ownPrice.queries sampleHost} s.2
            (marketDigest sampleHost market) →
          PricedAt s.1 x.pre s.2 (marketKey sampleHost market) :=
  ⟨by decide +kernel, prices_of_market namesMarket_ownPrice⟩

/-- The mark price in the environment of a call. -/
def readMarkPrice (env : Env) (c : Chain sampleHost) (market : String) : Except String I128 :=
  (Market.markPrice (marketKey sampleHost market) (env.invoke (.contract 6)) c).map (·.1.price)

/-- A position of market A is closed at the price of market B. -/
theorem exists_close_at_other_price :
    ∃ (e : sampleHost.State) (as : List (Action sampleHost))
      (a : PositionCloseCircuit.Assignment),
      PositionCloseCircuit.main sampleHost a = some () ∧
      (∀ key ∈ as.flatMap Action.recordedKeys,
        key.publicInputHash = sampleHost.sha256 (encodePublicInputs a.publicInputs)) ∧
      CollisionFree (hashPair sampleHost) {q | q ∈ a.queries sampleHost} ∧
      ∃ x ∈ accepted step (Chain.blank e) as, ∃ s ∈ x.act.priced,
        OpensMarket sampleHost {q | q ∈ a.queries sampleHost} s.2 (marketDigest sampleHost "A") ∧
          ¬ PricedAt s.1 x.pre s.2 (marketKey sampleHost "A") := by
  have hrun : ∃ x ∈ accepted step oracleLedger (closeUnder "B" otherPrice), ∃ s ∈ x.act.priced,
      s.2 = .close (closeArgs (marketKey sampleHost "B") 5 otherPrice) ∧
        s.2.marketContract x.pre s.1.current = some (.contract 6) ∧
        readMarkPrice s.1 x.pre "A" = .ok 1500 := by decide +kernel
  obtain ⟨x, hx, s, hs, hclose, hcontract, hprice⟩ := hrun
  refine ⟨_, closeUnder "B" otherPrice, otherPrice, by decide +kernel, by decide +kernel,
    collisionFree_of_list (by decide +kernel), x, hx, s, hs, ?_, ?_⟩
  · rw [hclose]
    exact ⟨otherPrice, by decide +kernel, by decide +kernel, fun _ hq => hq, rfl⟩
  · rintro ⟨-, -, m, hm, timestamp, c', hread⟩
    obtain rfl : Address.contract 6 = m := Option.some.inj (hcontract.symm.trans hm)
    have hvalue : readMarkPrice s.1 x.pre "A" = .ok s.2.markPrice := by
      unfold readMarkPrice
      rw [show Market.markPrice _ _ _ = _ from hread]
      rfl
    rw [hprice, hclose] at hvalue
    exact absurd hvalue (by decide)

end Examples

end Pnlx
