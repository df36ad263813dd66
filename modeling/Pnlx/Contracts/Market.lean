import Pnlx.Contracts.Governance

/-!
# The market contract

A market is a configuration with an oracle. `markPrice` reads the oracle of an active market,
checks that every price it uses is fresh, and scales the price to the market's decimals.
-/

namespace Pnlx.Market

open Program

variable {H : Host}

def requireMarketAdmin : Contract H Unit := do
  let governance ← stored .market (·.governance) "not initialized"
  failIf (← call governance Governance.paused) "paused"
  requireAuth (← call governance Governance.admin)

abbrev isFundingUpdater (updater : Address) : Contract H Bool :=
  load .market fun s => (s.fundingUpdater updater).getD false

def requireFundingUpdater (updater : Address) : Contract H Unit := do
  requireAuth updater
  failIf (¬ (← isFundingUpdater updater)) "unauthorized funding updater"

def validateConfig (config : MarketConfig) : Contract H Unit := do
  failIf (config.oracleContract = (← currentContract)) "invalid oracle"
  failIf (config.oracleKind ≠ "sep40" ∧ config.oracleKind ≠ "beam") "invalid oracle kind"
  failIf (config.oracleKind = "beam" ∧ config.beamFeeToken.isNone) "missing beam fee token"
  failIf (config.oracleMaxAge = 0) "invalid oracle age"
  failIf (config.priceDecimals > 18) "invalid price decimals"
  failIf (config.maxLeverage.toInt ≤ 0) "invalid leverage"
  failIf (config.initialRate.toInt ≤ 0 ∨ config.maintenanceRate.toInt ≤ 0) "invalid margin rate"
  failIf (config.maintenanceRate.toInt > config.initialRate.toInt) "invalid maintenance rate"

section Respects

variable {R : Chain H → Chain H → Prop} [Std.Refl R] [IsTrans _ R]

instance : Respects R (requireMarketAdmin : Contract H Unit) := by
  unfold requireMarketAdmin
  infer_instance

instance {updater : Address} : Respects R (requireFundingUpdater updater : Contract H Unit) := by
  unfold requireFundingUpdater
  infer_instance

instance {config : MarketConfig} : Respects R (validateConfig config : Contract H Unit) := by
  unfold validateConfig
  repeat refine Respects.andThen inferInstance fun _ => ?_
  infer_instance

end Respects

/-! ## Oracle prices -/

def pow10 : ℕ → Option I128
  | 0 => some 1
  | exponent + 1 => do I128.checkedMul (← pow10 exponent) 10

def scalePrice (price : I128) (sourceDecimals targetDecimals : ℕ) : Option I128 :=
  if sourceDecimals = targetDecimals then
    some price
  else if sourceDecimals < targetDecimals then do
    I128.checkedMul price (← pow10 (targetDecimals - sourceDecimals))
  else do
    I128.checkedDiv price (← pow10 (sourceDecimals - targetDecimals))

def validatePriceFreshness (data : PriceData) (maxAge : ℕ) : Contract H Unit := do
  failIf (data.price.toInt ≤ 0) "invalid oracle price"
  let now ← ledgerTimestamp
  failIf (data.timestamp > now) "future oracle price"
  failIf (now - data.timestamp > maxAge) "stale oracle price"

def oracleDecimals (config : MarketConfig) : Contract H ℕ :=
  if config.oracleKind = "sep40" ∨ config.oracleKind = "beam" then
    queryExternal fun e => H.oracleDecimals e config.oracleContract
  else
    fail "invalid oracle kind"

/-- The burn that the contract authorises for a Beam oracle call, if it costs anything. -/
def authorizeBeamSpend (config : MarketConfig) (periods : ℕ) :
    Contract H (Option (Address × I128)) := do
  let token ← unwrapOr config.beamFeeToken "missing beam fee token"
  let cost ← queryExternal fun e => H.beamEstimateCost e config.oracleContract periods
  pure (if cost.toInt ≤ 0 then none else some (token, cost))

/-- The oracle call of `oracle_last_price`. -/
def callLastPrice (config : MarketConfig) : Contract H (Option PriceData) :=
  if config.oracleKind = "sep40" then
    queryExternal fun e => H.sep40LastPrice e config.oracleContract config.oracleAsset
  else if config.oracleKind = "beam" then do
    let allowance ← authorizeBeamSpend config 1
    let caller ← currentContract
    runExternal fun e => H.beamLastPrice e config.oracleContract caller config.oracleAsset allowance
  else
    fail "invalid oracle kind"

def oracleLastPrice (config : MarketConfig) : Contract H PriceData := do
  unwrapOr (← callLastPrice config) "oracle price unavailable"

/-- The oracle call of `oracle_twap`. -/
def callPrices (config : MarketConfig) (records : ℕ) : Contract H (Option (List PriceData)) :=
  if config.oracleKind = "sep40" then
    queryExternal fun e => H.sep40Prices e config.oracleContract config.oracleAsset records
  else if config.oracleKind = "beam" then do
    let allowance ← authorizeBeamSpend config records
    let caller ← currentContract
    runExternal fun e =>
      H.beamPrices e config.oracleContract caller config.oracleAsset records allowance
  else
    fail "invalid oracle kind"

/-- The loop of `oracle_twap`: every price is fresh, the total of the prices, the last timestamp. -/
def sumPrices (maxAge : ℕ) : List PriceData → I128 → ℕ → Contract H (I128 × ℕ)
  | [], total, timestamp => pure (total, timestamp)
  | item :: items, total, timestamp => do
    validatePriceFreshness item maxAge
    let total ← unwrapOr (I128.checkedAdd total item.price) "attempt to add with overflow"
    sumPrices maxAge items total (max timestamp item.timestamp)

def oracleTwap (config : MarketConfig) (records : ℕ) : Contract H PriceData := do
  let prices ← unwrapOr (← callPrices config records) "oracle twap unavailable"
  failIf (prices.length < records) "oracle twap unavailable"
  let sum ← sumPrices config.oracleMaxAge prices 0 0
  let price ← unwrapOr (I128.checkedDiv sum.1 (BitVec.ofNat 128 prices.length))
    "attempt to divide by zero"
  pure ⟨price, sum.2⟩

def readOraclePrice (config : MarketConfig) : Contract H MarketPrice := do
  let records := if config.oracleTwapRecords < 2 then 1 else config.oracleTwapRecords
  let decimals ← oracleDecimals config
  let data ← (if records = 1 then oracleLastPrice config else oracleTwap config records)
  validatePriceFreshness data config.oracleMaxAge
  let price ← unwrapOr (scalePrice data.price decimals config.priceDecimals)
    "attempt to multiply with overflow"
  pure ⟨price, data.timestamp⟩

section Respects

variable {R : Chain H → Chain H → Prop} [Std.Refl R] [IsTrans _ R] {config : MarketConfig}

instance {data : PriceData} {maxAge : ℕ} :
    Respects R (validatePriceFreshness data maxAge : Contract H Unit) := by
  unfold validatePriceFreshness
  infer_instance

instance : Respects R (oracleDecimals config : Contract H ℕ) := by
  unfold oracleDecimals
  infer_instance

instance {periods : ℕ} :
    Respects R (authorizeBeamSpend config periods : Contract H (Option (Address × I128))) := by
  unfold authorizeBeamSpend
  infer_instance

instance {maxAge : ℕ} {items : List PriceData} {total : I128} {timestamp : ℕ} :
    Respects R (sumPrices maxAge items total timestamp : Contract H (I128 × ℕ)) := by
  induction items generalizing total timestamp with
  | nil => unfold sumPrices; infer_instance
  | cons item items ih => unfold sumPrices; infer_instance

end Respects

/-- Reading a price touches nothing but the state of the oracle. -/
instance sameStorage_readOraclePrice {config : MarketConfig} :
    Respects Chain.SameStorage (readOraclePrice config : Contract H MarketPrice) := by
  have hlast : Respects Chain.SameStorage (oracleLastPrice config : Contract H PriceData) := by
    unfold oracleLastPrice callLastPrice
    infer_instance
  have htwap (records : ℕ) :
      Respects Chain.SameStorage (oracleTwap config records : Contract H PriceData) := by
    unfold oracleTwap callPrices
    infer_instance
  unfold readOraclePrice
  repeat refine Respects.andThen inferInstance fun _ => ?_
  infer_instance

/-! ## Calls -/

def init (governance : Address) : Contract H Unit := do
  failIf (← load .market (·.governance.isSome)) "already initialized"
  modifyStorage .market fun s => { s with governance := some governance }

def setMarket (marketId : BytesN32) (config : MarketConfig) : Contract H Unit :=
  modifyStorage .market fun s =>
    { s with market := Function.update s.market marketId (some config) }

def upsert (marketId : BytesN32) (config : MarketConfig) : Contract H Unit := do
  requireMarketAdmin
  validateConfig config
  doIf config.active (do let _ ← readOraclePrice config)
  setMarket marketId config

def setFundingUpdater (updater : Address) (enabled : Bool) : Contract H Unit := do
  requireMarketAdmin
  modifyStorage .market fun s =>
    { s with fundingUpdater := Function.update s.fundingUpdater updater (some enabled) }

abbrev get (marketId : BytesN32) : Contract H MarketConfig :=
  stored .market (·.market marketId) "unknown market"

def fundingIndex (marketId : BytesN32) : Contract H I128 := do
  pure (← get marketId).fundingIndex

def isActive (marketId : BytesN32) : Contract H Bool := do
  pure (← get marketId).active

def markPrice (marketId : BytesN32) : Contract H MarketPrice := do
  let config ← get marketId
  failIf (¬ config.active) "inactive market"
  readOraclePrice config

def advanceFunding (updater : Address) (marketId : BytesN32) (oldIndex newIndex : I128) :
    Contract H Unit := do
  requireFundingUpdater updater
  failIf (newIndex = oldIndex) "funding unchanged"
  let config ← get marketId
  failIf (¬ config.active) "inactive market"
  failIf (config.fundingIndex ≠ oldIndex) "stale funding index"
  setMarket marketId { config with fundingIndex := newIndex }

instance sameStorage_markPrice {marketId : BytesN32} :
    Respects Chain.SameStorage (markPrice marketId : Contract H MarketPrice) := by
  unfold markPrice
  infer_instance

instance {R : Chain H → Chain H → Prop} [Std.Refl R] [IsTrans _ R] {marketId : BytesN32} :
    Respects R (isActive marketId : Contract H Bool) := by
  unfold isActive
  infer_instance

instance keeps_init {a : Address} : Keeps (init a : Contract H Unit) := by
  unfold init
  repeat refine Respects.andThen inferInstance fun _ => ?_
  exact keeps_modifyStorage fun _ => trivial

instance keeps_setMarket {marketId : BytesN32} {config : MarketConfig} :
    Keeps (setMarket marketId config : Contract H Unit) :=
  keeps_modifyStorage fun _ => trivial

instance keeps_upsert {marketId : BytesN32} {config : MarketConfig} :
    Keeps (upsert marketId config : Contract H Unit) := by
  have hread : Keeps (readOraclePrice config : Contract H MarketPrice) :=
    keeps_of_sameStorage inferInstance
  unfold upsert
  infer_instance

instance keeps_setFundingUpdater {updater : Address} {enabled : Bool} :
    Keeps (setFundingUpdater updater enabled : Contract H Unit) := by
  unfold setFundingUpdater
  exact Respects.andThen inferInstance fun _ => keeps_modifyStorage fun _ => trivial

instance keeps_advanceFunding {updater : Address} {marketId : BytesN32} {old new : I128} :
    Keeps (advanceFunding updater marketId old new : Contract H Unit) := by
  unfold advanceFunding
  infer_instance

/-- An advance of the funding index: an enabled updater moves an active market from its index. -/
theorem returns_advanceFunding {updater : Address} {marketId : BytesN32} {oldIndex newIndex : I128}
    {env : Env} {c c' : Chain H} {u : Unit} :
    Returns (advanceFunding updater marketId oldIndex newIndex) env c u c' ↔
      (updater ∈ env.signers ∨ env.invoker = some updater) ∧
      (c.storage .market env.current).fundingUpdater updater = some true ∧ newIndex ≠ oldIndex ∧
      ∃ config, (c.storage .market env.current).market marketId = some config ∧ config.active ∧
        config.fundingIndex = oldIndex ∧ c' = c.modify .market env.current fun s =>
          { s with
            market := Function.update s.market marketId
              (some { config with fundingIndex := newIndex }) } := by
  have hupdater : ¬ ¬ (((c.storage .market env.current).fundingUpdater updater).getD false = true) ↔
      (c.storage .market env.current).fundingUpdater updater = some true := by
    cases (c.storage .market env.current).fundingUpdater updater with
    | none => simp
    | some enabled => simp
  unfold advanceFunding requireFundingUpdater setMarket
  simp only [returns_bind, returns_requireAuth, returns_load, returns_failIf, returns_stored,
    returns_modifyStorage, exists_eq_left, exists_and_left, and_assoc, exists_const, hupdater]
  constructor
  · rintro ⟨hauth, hupdater, hmoves, config, hconfig, hactive, hindex, rfl⟩
    exact ⟨hauth, hupdater, hmoves, config, hconfig, not_not.mp hactive, not_not.mp hindex, rfl⟩
  · rintro ⟨hauth, hupdater, hmoves, config, hconfig, hactive, hindex, rfl⟩
    exact ⟨hauth, hupdater, hmoves, config, hconfig, not_not.mpr hactive, not_not.mpr hindex, rfl⟩

/-! ## The mark price of a proof -/

/-- `validate_oracle_mark_price` of the contracts that settle at a mark price. -/
def validateOracleMarkPrice (marketContract : Option Address) (marketId : BytesN32)
    (markPrice : I128) : Contract H Unit := do
  let marketContract ← unwrapOr marketContract "not initialized"
  failIf (¬ (← call marketContract (isActive marketId))) "inactive market"
  let oracle ← call marketContract (Market.markPrice marketId)
  failIf (oracle.price ≠ markPrice) "mark price mismatch"

instance sameStorage_validateOracleMarkPrice {marketContract : Option Address}
    {marketId : BytesN32} {markPrice : I128} :
    Respects Chain.SameStorage
      (validateOracleMarkPrice marketContract marketId markPrice : Contract H Unit) := by
  unfold validateOracleMarkPrice
  infer_instance

/-- `price` is what the oracle of the market gives at this moment. -/
def IsMarkPrice (env : Env) (c : Chain H) (marketContract : Address) (marketId : BytesN32)
    (price : I128) : Prop :=
  ∃ timestamp c', Returns (markPrice marketId) (env.invoke marketContract) c ⟨price, timestamp⟩ c'

/-- A market with a mark price is configured. -/
theorem IsMarkPrice.exists_config {env : Env} {c : Chain H} {marketContract : Address}
    {marketId : BytesN32} {price : I128} (h : IsMarkPrice env c marketContract marketId price) :
    ∃ config, (c.storage .market marketContract).market marketId = some config := by
  obtain ⟨timestamp, c', hread⟩ := h
  unfold markPrice at hread
  simp only [returns_bind, returns_stored, Env.current_invoke] at hread
  obtain ⟨config, _, ⟨hconfig, -⟩, -⟩ := hread
  exact ⟨config, hconfig⟩

theorem validateOracleMarkPrice_returns {marketContract : Option Address} {marketId : BytesN32}
    {price : I128} {env : Env} {c c' : Chain H} {u : Unit}
    (h : Returns (validateOracleMarkPrice marketContract marketId price) env c u c') :
    ∃ m, marketContract = some m ∧ IsMarkPrice env c m marketId price := by
  unfold validateOracleMarkPrice isActive at h
  simp only [returns_bind, returns_unwrapOr, returns_failIf, returns_call, returns_stored,
    returns_pure, exists_eq_left, exists_and_left, and_assoc, not_not, ne_eq] at h
  obtain ⟨m, hm, _, _, ⟨_, -, -, rfl⟩, -, _, data, c₁, hread, hprice, -⟩ := h
  exact ⟨m, hm, data.timestamp, c₁, hprice ▸ hread⟩

end Pnlx.Market
