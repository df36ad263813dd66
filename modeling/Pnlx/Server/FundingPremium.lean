import Pnlx.Lib.Impact
import Pnlx.Server.Matching

/-!
# The funding premium

`fundingPremiumSample` compares the index price with the prices at which the impact notional can be
executed against the open orders of each side, and `currentFundingPremium` averages the samples of
the last interval.
-/

namespace Pnlx.Server

open BatchMatch (Text decimal decimalSigned)
open Impact

/-- `localeCompare`: `le a b` if it is not positive. The collation is the one of the host, and it
orders all texts. -/
structure Collation where
  le : Text → Text → Bool
  total : ∀ a b, le a b ∨ le b a
  trans : ∀ a b c, le a b → le b c → le a c

/-- A text of the type `Hex`, with hexadecimal digits. -/
def isHex (text : Text) : Bool :=
  text.take 2 = "0x".toList ∧ (text.drop 2).all fun c =>
    c.isDigit ∨ ('a' ≤ c ∧ c ≤ 'f') ∨ ('A' ≤ c ∧ c ≤ 'F')

/-- The collation compares two hexadecimal texts as equal only if they are. -/
def Collation.TellsHex (collation : Collation) : Prop :=
  ∀ a b, isHex a → isHex b → collation.le a b → collation.le b a → a = b

inductive BookSide where
  | ask
  | bid
  deriving DecidableEq

/-- The size of an intent: `availableSize`. -/
def availableSize (intent : PrivateMatchIntent) : ℤ :=
  if intent.signedSize < 0 then -intent.signedSize else intent.signedSize

/-- The price `left` is a better one for the other side than `right`. -/
def BookSide.Better (side : BookSide) (left right : ℤ) : Prop :=
  match side with
  | .bid => right < left
  | .ask => left < right

instance (side : BookSide) : DecidableRel side.Better := fun left right => by
  unfold BookSide.Better
  cases side <;> infer_instance

/-- The comparator of the sort is not positive. -/
def executesBefore (collation : Collation) (side : BookSide) (left right : PrivateMatchIntent) :
    Prop :=
  if left.limitPrice = right.limitPrice then
    collation.le left.intentCommitment right.intentCommitment = true
  else side.Better left.limitPrice right.limitPrice

instance (collation : Collation) (side : BookSide) :
    DecidableRel (executesBefore collation side) := fun left right => by
  unfold executesBefore; infer_instance

def impactExecutionPrice (collation : Collation) (intents : List PrivateMatchIntent)
    (impactNotional : ℤ) (side : BookSide) : Except String (Option ℤ) :=
  if impactNotional ≤ 0 then .error "impact notional must be positive"
  else
    let ordered := intents.insertionSort (executesBefore collation side)
    let taken := walk availableSize (·.limitPrice) priceScale impactNotional ⟨0, 0, 0⟩ ordered
    if taken.notional < impactNotional ∨ taken.size = 0 then .ok none
    else .ok (some (taken.cost.tdiv taken.size))

def clampSigned (value cap : ℤ) : Except String ℤ :=
  if cap ≤ 0 then .error "funding premium cap must be positive"
  else if cap < value then .ok cap
  else if value < -cap then .ok (-cap)
  else .ok value

/-- The fields of a `MarketConfig` that a sample reads. -/
structure SampledMarket where
  marketId : Text
  oraclePrice : ℤ
  initialMarginRate : ℤ
  deriving DecidableEq

structure FundingPremiumSampleRecord where
  impactAskPrice : Option ℤ
  impactBidPrice : Option ℤ
  impactNotional : ℤ
  indexPrice : ℤ
  marketId : Text
  premiumRate : ℤ
  sampledAt : ℤ
  deriving DecidableEq

def fundingPremiumSample (collation : Collation) (market : SampledMarket)
    (intents : List PrivateMatchIntent) (sampledAt impactMargin premiumRateCap : ℤ) :
    Except String FundingPremiumSampleRecord := do
  if market.oraclePrice ≤ 0 then .error "funding index price must be positive"
  else if market.initialMarginRate ≤ 0 then
    .error "funding initial margin rate must be positive"
  else if impactMargin ≤ 0 then .error "funding impact margin must be positive"
  else if premiumRateCap ≤ 0 then .error "funding premium cap must be positive"
  else do
    let impactNotional := (impactMargin * rateScale).tdiv market.initialMarginRate
    let bids := intents.filter fun intent => 0 < intent.signedSize
    let asks := intents.filter fun intent => intent.signedSize < 0
    let impactBidPrice ← impactExecutionPrice collation bids impactNotional .bid
    let impactAskPrice ← impactExecutionPrice collation asks impactNotional .ask
    let positive :=
      match impactBidPrice with
      | some price => if price ≠ 0 ∧ market.oraclePrice < price then
          ((price - market.oraclePrice) * rateScale).tdiv market.oraclePrice else 0
      | none => 0
    let negative :=
      match impactAskPrice with
      | some price => if price ≠ 0 ∧ price < market.oraclePrice then
          ((market.oraclePrice - price) * rateScale).tdiv market.oraclePrice else 0
      | none => 0
    let premiumRate ← clampSigned (positive - negative) premiumRateCap
    .ok
      { impactAskPrice, impactBidPrice, impactNotional, premiumRate, sampledAt
        indexPrice := market.oraclePrice
        marketId := market.marketId }

inductive FundingPremiumMode where
  | fixed
  | impactTwap
  deriving DecidableEq

/-- The fields of a `FundingEngineConfig` that the premium reads. -/
structure FundingEngineConfig where
  intervalMs : ℤ
  minimumSamples : Option ℤ
  premiumMode : Option FundingPremiumMode
  premiumRate : ℤ
  premiumRateCap : Option ℤ
  deriving DecidableEq

def defaultMinimumSamples : ℤ := 10

def defaultPremiumRateCap : ℤ := 5000

structure FundingPremium where
  rate : ℤ
  reason : Option Text
  sampleCount : Option ℕ
  source : FundingPremiumMode
  deriving DecidableEq

/-- The samples that count for a premium, oldest first. -/
def countedSamples (records : List FundingPremiumSampleRecord) (intervalMs : ℤ) (marketId : Text)
    (appliedAt : ℤ) : List FundingPremiumSampleRecord :=
  let cutoff := appliedAt - intervalMs
  ((records.filter fun sample => sample.marketId = marketId).filter fun sample =>
    cutoff < sample.sampledAt ∧ sample.sampledAt ≤ appliedAt).insertionSort
      fun left right => left.sampledAt ≤ right.sampledAt

def currentFundingPremium (records : List FundingPremiumSampleRecord) (config : FundingEngineConfig)
    (marketId : Text) (appliedAt : ℤ) (override : Option ℤ) : Except String FundingPremium :=
  if override.isSome ∨ config.premiumMode.getD .fixed = .fixed then do
    let rate ← clampSigned (override.getD config.premiumRate)
      (config.premiumRateCap.getD defaultPremiumRateCap)
    .ok { rate, reason := none, sampleCount := none, source := .fixed }
  else
    let samples := countedSamples records config.intervalMs marketId appliedAt
    let minimum := config.minimumSamples.getD defaultMinimumSamples
    if (samples.length : ℤ) < minimum then
      .ok
        { rate := 0
          reason := some ("insufficient premium samples: ".toList ++
            decimal samples.length ++ '/' :: decimalSigned minimum)
          sampleCount := some samples.length
          source := .impactTwap }
    else if samples.length = 0 then .error "Division by zero"
    else do
      let total : ℤ := (samples.map fun sample => sample.premiumRate).sum
      let average := total.tdiv samples.length
      let rate ← clampSigned average (config.premiumRateCap.getD defaultPremiumRateCap)
      .ok { rate, reason := none, sampleCount := some samples.length, source := .impactTwap }

end Pnlx.Server
