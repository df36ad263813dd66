import Mathlib.Data.List.DropRight
import Mathlib.Logic.Function.Basic
import Pnlx.Host
import Pnlx.Lib.Program
import Pnlx.Lib.Selection

/-!
# The price oracle

A committee of publishers submits prices for numbered rounds of an asset. The submission that
reaches the threshold publishes the round: the median of the submitted prices, unless one of them
deviates from it, with the oldest of their timestamps. The admin writes prices directly.

The oracle calls nobody, so it is a system of its own. A symbol asset and a contract asset take the
same paths, so a call carries the asset.

1. `findMedian_sorted`: the search finds the element in the middle of the sorted prices.
2. `returns_submitPrice`: what a submission checks and does.
3. `median_of_run`: no call ends with a missing median.
-/

namespace Pnlx.PriceOracle

open Program

/-! ## Storage -/

def maxRecords : ℕ := 64

def maxCommitteeSubmissions : ℕ := 16

def bpsScale : I128 := 10000

structure CommitteeConfig where
  threshold : ℕ
  maxDeviationBps : ℕ
  maxTimestampAge : ℕ
  deriving DecidableEq

structure Storage where
  admin : Option Address
  upgradeAuthority : Option Address
  committeeConfig : Option CommitteeConfig
  decimals : Option ℕ
  latestRound : OracleAsset → Option ℕ
  price : OracleAsset → Option PriceData
  prices : OracleAsset → Option (List PriceData)
  publisher : Address → Option Bool
  roundSubmissions : OracleAsset × ℕ → Option (List PriceData)
  submission : OracleAsset × ℕ × Address → Option PriceData

def Storage.blank : Storage :=
  ⟨none, none, none, none, fun _ => none, fun _ => none, fun _ => none, fun _ => none,
    fun _ => none, fun _ => none⟩

/-- The environment of a call: who has authorised it, and the ledger time. -/
structure OracleEnv where
  signers : List Address
  timestamp : ℕ

abbrev OracleCall := Program OracleEnv Storage String

/-! ## Primitives -/

section Primitives

variable {α : Type}

def get (key : Storage → α) : OracleCall α := fun _ s => .ok (key s, s)

/-- `storage.get(key).unwrap_or_else(|| panic!(message))`. -/
def required (key : Storage → Option α) (message : String) : OracleCall α := do
  unwrapOr (← get key) message

def requireAuth (address : Address) : OracleCall Unit := do
  let env ← environment
  failIf (address ∉ env.signers) "not authorized"

def ledgerTimestamp : OracleCall ℕ := fun env s => .ok (env.timestamp, s)

end Primitives

/-! ## Administration -/

def requireAdmin (admin : Address) : OracleCall Unit := do
  let storedAdmin ← required (·.admin) "not initialized"
  failIf (admin ≠ storedAdmin) "unauthorized"
  requireAuth admin

def setUpgradeAuthority (authority : Address) : OracleCall Unit := do
  let admin ← required (·.admin) "not initialized"
  requireAuth admin
  failIf (authority = admin ∨ (← get (·.upgradeAuthority.isSome))) "invalid upgrade authority"
  update fun s => { s with upgradeAuthority := some authority }

def rotateUpgradeAuthority (authority : Address) : OracleCall Unit := do
  requireAuth (← required (·.upgradeAuthority) "upgrade authority not configured")
  let admin ← required (·.admin) "called `Option::unwrap()` on a `None` value"
  failIf (authority = admin) "upgrade authority must differ from admin"
  update fun s => { s with upgradeAuthority := some authority }

def defaultCommitteeConfig : CommitteeConfig where
  threshold := 1
  maxDeviationBps := 100
  maxTimestampAge := 300

def validateCommitteeConfig (threshold maxTimestampAge maxDeviationBps : ℕ) : OracleCall Unit := do
  failIf (threshold = 0 ∨ threshold > maxCommitteeSubmissions) "invalid threshold"
  failIf (maxTimestampAge = 0) "invalid timestamp age"
  failIf (maxDeviationBps = 0 ∨ maxDeviationBps > 10000) "invalid deviation"

def init (admin : Address) (decimals : ℕ) : OracleCall Unit := do
  failIf (← get (·.admin.isSome)) "already initialized"
  failIf (decimals > 18) "invalid decimals"
  requireAuth admin
  update fun s =>
    { s with
      admin := some admin
      decimals := some decimals
      committeeConfig := some defaultCommitteeConfig
      publisher := Function.update s.publisher admin (some true) }

def configureCommittee (admin : Address) (threshold maxTimestampAge maxDeviationBps : ℕ) :
    OracleCall Unit := do
  requireAdmin admin
  validateCommitteeConfig threshold maxTimestampAge maxDeviationBps
  update fun s =>
    { s with committeeConfig := some ⟨threshold, maxDeviationBps, maxTimestampAge⟩ }

def setPublisher (admin publisher : Address) (enabled : Bool) : OracleCall Unit := do
  requireAdmin admin
  update fun s => { s with publisher := Function.update s.publisher publisher (some enabled) }

/-! ## Aggregation -/

/-- How many of the prices are less than the candidate, and how many equal it. -/
def countAround (submissions : List PriceData) (candidate : I128) : ℕ × ℕ :=
  submissions.foldl (fun (lower, equal) data =>
    (if data.price.toInt < candidate.toInt then lower + 1 else lower,
      if data.price = candidate then equal + 1 else equal)) (0, 0)

/-- The first of the candidates that has the rank `target` among the submissions. -/
def findMedian (submissions : List PriceData) (target : ℕ) : List PriceData → Option I128
  | [] => none
  | data :: rest =>
    let (lower, equal) := countAround submissions data.price
    if lower ≤ target ∧ target < lower + equal then some data.price
    else findMedian submissions target rest

def medianPrice (submissions : List PriceData) : OracleCall I128 :=
  unwrapOr (findMedian submissions (submissions.length / 2) submissions) "missing median"

/-- The oldest timestamp of the submissions, starting from the ledger time. -/
def minTimestamp (submissions : List PriceData) : OracleCall ℕ := do
  let now ← ledgerTimestamp
  pure (submissions.foldl (fun timestamp data =>
    if data.timestamp < timestamp then data.timestamp else timestamp) now)

/-- `if price >= median { price - median } else { median - price }` -/
def diffOf (price median : I128) : OracleCall I128 :=
  if price.toInt ≥ median.toInt then
    unwrapOr (I128.checkedSub price median) "attempt to subtract with overflow"
  else
    unwrapOr (I128.checkedSub median price) "attempt to subtract with overflow"

def validateDeviation (submissions : List PriceData) (median : I128) (maxDeviationBps : ℕ) :
    OracleCall Unit :=
  forEach (fun data => do
    let diff ← diffOf data.price median
    let scaled ← unwrapOr (I128.checkedMul diff bpsScale) "attempt to multiply with overflow"
    let bound ← unwrapOr (I128.checkedMul median (BitVec.ofNat 128 maxDeviationBps))
      "attempt to multiply with overflow"
    failIf (scaled.toInt > bound.toInt) "price deviation") submissions

def aggregatePrice (submissions : List PriceData) (maxDeviationBps : ℕ) : OracleCall PriceData := do
  let median ← medianPrice submissions
  validateDeviation submissions median maxDeviationBps
  let timestamp ← minTimestamp submissions
  pure ⟨median, timestamp⟩

/-! ## Prices -/

/-- `while prices.len() > MAX_RECORDS { prices.pop_front(); }` -/
def trim : List PriceData → List PriceData
  | [] => []
  | data :: rest => if (data :: rest).length > maxRecords then trim rest else data :: rest

def appendPrice (asset : OracleAsset) (data : PriceData) : OracleCall Unit := do
  let prices ← get fun s => (s.prices asset).getD []
  update fun s =>
    { s with
      price := Function.update s.price asset (some data)
      prices := Function.update s.prices asset (some (trim (prices ++ [data]))) }

def validatePrice (price : I128) : OracleCall Unit := failIf (price.toInt ≤ 0) "invalid price"

def writePrice (admin : Address) (asset : OracleAsset) (price : I128) (timestamp : ℕ) :
    OracleCall Unit := do
  validatePrice price
  requireAdmin admin
  appendPrice asset ⟨price, timestamp⟩

def isPublisher (publisher : Address) : OracleCall Bool :=
  get fun s => (s.publisher publisher).getD false

def committeeConfig : OracleCall CommitteeConfig := required (·.committeeConfig) "not initialized"

def validateSubmissionTimestamp (timestamp maxTimestampAge : ℕ) : OracleCall Unit := do
  let now ← ledgerTimestamp
  failIf (timestamp > now) "future price"
  failIf (now - timestamp > maxTimestampAge) "stale price"

def submitPrice (publisher : Address) (asset : OracleAsset) (round : ℕ) (price : I128)
    (timestamp : ℕ) : OracleCall Unit := do
  validatePrice price
  failIf (¬ (← isPublisher publisher)) "unauthorized publisher"
  requireAuth publisher
  let config ← committeeConfig
  validateSubmissionTimestamp timestamp config.maxTimestampAge
  let latestRound ← get fun s => (s.latestRound asset).getD 0
  failIf (round ≤ latestRound) "stale round"
  failIf (← get fun s => (s.submission (asset, round, publisher)).isSome) "duplicate submission"
  update fun s =>
    { s with
      submission := Function.update s.submission (asset, round, publisher)
        (some ⟨price, timestamp⟩) }
  let submissions ← get fun s => (s.roundSubmissions (asset, round)).getD []
  failIf (submissions.length ≥ maxCommitteeSubmissions) "too many submissions"
  let submissions := submissions ++ [⟨price, timestamp⟩]
  update fun s =>
    { s with
      roundSubmissions := Function.update s.roundSubmissions (asset, round) (some submissions) }
  doIf (submissions.length ≥ config.threshold) do
    let aggregated ← aggregatePrice submissions config.maxDeviationBps
    update fun s => { s with latestRound := Function.update s.latestRound asset (some round) }
    appendPrice asset aggregated

/-! ## Views -/

def decimals : OracleCall ℕ := required (·.decimals) "not initialized"

def lastprice (asset : OracleAsset) : OracleCall (Option PriceData) := get (·.price asset)

def prices (asset : OracleAsset) (records : ℕ) : OracleCall (Option (List PriceData)) := do
  if records = 0 ∨ records > maxRecords then
    pure none
  else do
    match ← get (·.prices asset) with
    | none => pure none
    | some prices =>
      if prices.length < records then
        pure none
      else
        pure (some (prices.drop (prices.length - records)))

/-! ## Runs -/

/-- A call of the oracle. -/
inductive Call where
  | init (admin : Address) (decimals : ℕ)
  | setUpgradeAuthority (authority : Address)
  | rotateUpgradeAuthority (authority : Address)
  | configureCommittee (admin : Address) (threshold maxTimestampAge maxDeviationBps : ℕ)
  | setPublisher (admin publisher : Address) (enabled : Bool)
  | writePrice (admin : Address) (asset : OracleAsset) (price : I128) (timestamp : ℕ)
  | submitPrice (publisher : Address) (asset : OracleAsset) (round : ℕ) (price : I128)
      (timestamp : ℕ)
  deriving DecidableEq

def Call.run : Call → OracleCall Unit
  | init admin decimals => PriceOracle.init admin decimals
  | setUpgradeAuthority authority => PriceOracle.setUpgradeAuthority authority
  | rotateUpgradeAuthority authority => PriceOracle.rotateUpgradeAuthority authority
  | configureCommittee admin threshold maxTimestampAge maxDeviationBps =>
    PriceOracle.configureCommittee admin threshold maxTimestampAge maxDeviationBps
  | setPublisher admin publisher enabled => PriceOracle.setPublisher admin publisher enabled
  | writePrice admin asset price timestamp => PriceOracle.writePrice admin asset price timestamp
  | submitPrice publisher asset round price timestamp =>
    PriceOracle.submitPrice publisher asset round price timestamp

/-- A transaction: who has authorised it, the ledger time, and the call. -/
structure Tx where
  signers : List Address
  timestamp : ℕ
  call : Call
  deriving DecidableEq

/-- A transaction that panics changes nothing. -/
def step (s : Storage) (tx : Tx) : Except String Storage :=
  (tx.call.run ⟨tx.signers, tx.timestamp⟩ s).map Prod.snd

theorem step_eq_ok {s s' : Storage} {tx : Tx} :
    step s tx = .ok s' ↔ Returns tx.call.run ⟨tx.signers, tx.timestamp⟩ s () s' := by
  show (tx.call.run ⟨tx.signers, tx.timestamp⟩ s).map Prod.snd = .ok s' ↔
    tx.call.run ⟨tx.signers, tx.timestamp⟩ s = .ok ((), s')
  cases tx.call.run ⟨tx.signers, tx.timestamp⟩ s with
  | error e => simp [Except.map]
  | ok p => simp [Except.map, Prod.ext_iff]

theorem fails_of_step {s : Storage} {tx : Tx} {e : String} (h : step s tx = .error e) :
    Fails tx.call.run ⟨tx.signers, tx.timestamp⟩ s e := by
  have h : (tx.call.run ⟨tx.signers, tx.timestamp⟩ s).map Prod.snd = .error e := h
  unfold Fails
  cases hrun : tx.call.run ⟨tx.signers, tx.timestamp⟩ s with
  | error e' =>
    rw [hrun] at h
    exact congrArg Except.error (Except.error.inj h)
  | ok p =>
    rw [hrun] at h
    cases h

/-! ## What the calls do -/

section Effects

variable {env : OracleEnv} {s s' : Storage} {u : Unit} {α : Type}

@[simp] theorem returns_get {key : Storage → α} {a : α} :
    Returns (get key) env s a s' ↔ a = key s ∧ s' = s := returns_pure (r := env)

@[simp] theorem returns_required {key : Storage → Option α} {message : String} {a : α} :
    Returns (required key message) env s a s' ↔ key s = some a ∧ s' = s := by
  unfold required
  simp only [returns_bind, returns_get, returns_unwrapOr]
  constructor
  · rintro ⟨_, _, ⟨rfl, rfl⟩, h⟩
    exact h
  · exact fun h => ⟨_, s, ⟨rfl, rfl⟩, h⟩

@[simp] theorem returns_requireAuth {address : Address} :
    Returns (requireAuth address) env s u s' ↔ address ∈ env.signers ∧ s' = s := by
  unfold requireAuth
  simp only [returns_bind, returns_environment, returns_failIf, not_not]
  constructor
  · rintro ⟨_, _, ⟨rfl, rfl⟩, h⟩
    exact h
  · exact fun h => ⟨env, s, ⟨rfl, rfl⟩, h⟩

@[simp] theorem returns_ledgerTimestamp {now : ℕ} :
    Returns ledgerTimestamp env s now s' ↔ now = env.timestamp ∧ s' = s := returns_pure (r := env)

@[simp] theorem returns_requireAdmin {admin : Address} :
    Returns (requireAdmin admin) env s u s' ↔
      (s.admin = some admin ∧ admin ∈ env.signers) ∧ s' = s := by
  unfold requireAdmin
  simp only [returns_bind, returns_required, returns_failIf, returns_requireAuth, not_not]
  constructor
  · rintro ⟨_, _, ⟨hadmin, rfl⟩, _, _, ⟨rfl, rfl⟩, hauth, rfl⟩
    exact ⟨⟨hadmin, hauth⟩, rfl⟩
  · rintro ⟨⟨hadmin, hauth⟩, rfl⟩
    exact ⟨admin, s', ⟨hadmin, rfl⟩, (), s', ⟨rfl, rfl⟩, hauth, rfl⟩

/-! ### Views of the storage -/

/-- The submissions that a round of an asset has received. -/
def Storage.submissions (s : Storage) (asset : OracleAsset) (round : ℕ) : List PriceData :=
  (s.roundSubmissions (asset, round)).getD []

/-- The latest round that has been published, or 0. -/
def Storage.latest (s : Storage) (asset : OracleAsset) : ℕ := (s.latestRound asset).getD 0

/-- The prices of an asset that are kept. -/
def Storage.history (s : Storage) (asset : OracleAsset) : List PriceData := (s.prices asset).getD []

/-- The storage with another submission. -/
def Storage.record (s : Storage) (publisher : Address) (asset : OracleAsset) (round : ℕ)
    (data : PriceData) : Storage :=
  { s with
    submission := Function.update s.submission (asset, round, publisher) (some data)
    roundSubmissions := Function.update s.roundSubmissions (asset, round)
      (some (s.submissions asset round ++ [data])) }

/-- The storage with another price. -/
def Storage.append (s : Storage) (asset : OracleAsset) (data : PriceData) : Storage :=
  { s with
    price := Function.update s.price asset (some data)
    prices := Function.update s.prices asset (some (trim (s.history asset ++ [data]))) }

/-- The storage after a round has been published. -/
def Storage.publish (s : Storage) (asset : OracleAsset) (round : ℕ) (data : PriceData) : Storage :=
  { s with latestRound := Function.update s.latestRound asset (some round) }.append asset data

@[simp] theorem returns_appendPrice {asset : OracleAsset} {data : PriceData} :
    Returns (appendPrice asset data) env s u s' ↔ s' = s.append asset data := by
  unfold appendPrice
  simp only [returns_bind, returns_get, returns_update]
  constructor
  · rintro ⟨_, _, ⟨rfl, rfl⟩, h⟩
    exact h
  · intro h
    exact ⟨_, s, ⟨rfl, rfl⟩, h⟩

theorem returns_writePrice {admin : Address} {asset : OracleAsset} {price : I128} {timestamp : ℕ} :
    Returns (writePrice admin asset price timestamp) env s u s' ↔
      0 < price.toInt ∧ (s.admin = some admin ∧ admin ∈ env.signers) ∧
        s' = s.append asset ⟨price, timestamp⟩ := by
  unfold writePrice validatePrice
  simp only [returns_bind, returns_failIf, returns_requireAdmin, returns_appendPrice, not_le]
  constructor
  · rintro ⟨_, _, ⟨hpos, rfl⟩, _, _, ⟨hadmin, rfl⟩, h⟩
    exact ⟨hpos, hadmin, h⟩
  · rintro ⟨hpos, hadmin, h⟩
    exact ⟨(), s, ⟨hpos, rfl⟩, (), s, ⟨hadmin, rfl⟩, h⟩

/-! ### The median -/

/-- The submitted prices. -/
def pricesOf (submissions : List PriceData) : List ℤ := submissions.map fun data => data.price.toInt

theorem countAround_eq (submissions : List PriceData) (candidate : I128) :
    countAround submissions candidate =
      ((pricesOf submissions).countP (· < candidate.toInt),
        (pricesOf submissions).count candidate.toInt) := by
  suffices h : ∀ lower equal, submissions.foldl (fun (lower, equal) data =>
      (if data.price.toInt < candidate.toInt then lower + 1 else lower,
        if data.price = candidate then equal + 1 else equal)) (lower, equal) =
      (lower + (pricesOf submissions).countP (· < candidate.toInt),
        equal + (pricesOf submissions).count candidate.toInt) by
    unfold countAround
    rw [h, Nat.zero_add, Nat.zero_add]
  induction submissions with
  | nil => exact fun lower equal => rfl
  | cons data rest ih =>
    intro lower equal
    rw [List.foldl_cons, ih]
    unfold pricesOf
    rw [List.map_cons, List.countP_cons, List.count_cons]
    have heq : data.price = candidate ↔ data.price.toInt = candidate.toInt :=
      BitVec.toInt_inj.symm
    by_cases hlt : data.price.toInt < candidate.toInt
    · have hne : ¬ data.price.toInt = candidate.toInt := hlt.ne
      simp only [heq, hlt, hne, beq_iff_eq, decide_true, if_true, if_false, Prod.mk.injEq]
      omega
    · by_cases he : data.price.toInt = candidate.toInt
      · simp only [heq, he, lt_irrefl, beq_self_eq_true, decide_false, Bool.false_eq_true, if_true,
          if_false, Prod.mk.injEq]
        omega
      · simp only [heq, hlt, he, beq_iff_eq, decide_false, Bool.false_eq_true, if_false,
          Prod.mk.injEq]
        omega

/-- The search goes through the candidates for the one of the given rank. -/
theorem findMedian_eq (submissions candidates : List PriceData) (target : ℕ) :
    (findMedian submissions target candidates).map BitVec.toInt =
      (pricesOf candidates).find? fun x => Selection.HasRank (pricesOf submissions) target x := by
  induction candidates with
  | nil => rfl
  | cons data rest ih =>
    unfold findMedian
    rw [countAround_eq]
    show _ = List.find? _ (data.price.toInt :: pricesOf rest)
    rw [List.find?_cons]
    by_cases hrank : Selection.HasRank (pricesOf submissions) target data.price.toInt
    · rw [decide_eq_true hrank]
      exact congrArg (Option.map BitVec.toInt) (if_pos hrank)
    · rw [decide_eq_false hrank, ← ih]
      exact congrArg (Option.map BitVec.toInt) (if_neg hrank)

/-- **The median.** It is the element in the middle of the sorted prices. -/
theorem findMedian_sorted {submissions : List PriceData} (hne : submissions ≠ []) :
    (findMedian submissions (submissions.length / 2) submissions).map BitVec.toInt =
      (pricesOf submissions).mergeSort[submissions.length / 2]? := by
  have hlength : (pricesOf submissions).length = submissions.length := List.length_map ..
  have hpos := List.length_pos_iff.mpr hne
  rw [findMedian_eq, Selection.find?_hasRank]
  omega

theorem findMedian_eq_some {submissions : List PriceData} (hne : submissions ≠ []) {median : I128} :
    findMedian submissions (submissions.length / 2) submissions = some median ↔
      Selection.HasRank (pricesOf submissions) (submissions.length / 2) median.toInt := by
  have hlength : (pricesOf submissions).length = submissions.length := List.length_map ..
  have hpos := List.length_pos_iff.mpr hne
  rw [Selection.hasRank_iff (by omega), ← findMedian_sorted hne, Option.map_eq_some_iff]
  constructor
  · exact fun h => ⟨median, h, rfl⟩
  · rintro ⟨median', h, he⟩
    rwa [← BitVec.toInt_inj.mp he]

/-- Submissions have a median, and it does not depend on their order. -/
theorem exists_findMedian {submissions : List PriceData} (hne : submissions ≠ []) :
    ∃ median, ∀ order, order.Perm submissions →
      findMedian order (order.length / 2) order = some median := by
  have hpos := List.length_pos_iff.mpr hne
  have hlength : submissions.length / 2 < (pricesOf submissions).mergeSort.length := by
    rw [List.length_mergeSort, pricesOf, List.length_map]
    omega
  have hsorted := findMedian_sorted hne
  rw [List.getElem?_eq_getElem hlength] at hsorted
  obtain ⟨median, hmedian, -⟩ := Option.map_eq_some_iff.mp hsorted
  refine ⟨median, fun order horder => ?_⟩
  have hne' : order ≠ [] := by
    rintro rfl
    exact hne horder.symm.eq_nil
  have hprices : (pricesOf order).Perm (pricesOf submissions) := horder.map _
  rw [findMedian_eq_some hne', Selection.HasRank.perm hprices, horder.length_eq]
  exact (findMedian_eq_some hne).mp hmedian

/-! ### The deviation -/

/-- `price` is at most the given part of the median away from it, and the products fit. -/
def Within (bps median price : ℤ) : Prop :=
  |price - median| * 10000 ≤ median * bps ∧ median * bps < 2 ^ 127

theorem ofInt?_of_bounds {z : ℤ} (hz : -2 ^ 127 ≤ z ∧ z < 2 ^ 127) :
    ∃ x : I128, I128.ofInt? z = some x ∧ x.toInt = z := by
  have h : I128.ofInt? z = some (BitVec.ofInt 128 z) := if_pos hz
  exact ⟨_, h, I128.ofInt?_eq_some.mp h⟩

theorem returns_diffOf {price median diff : I128} :
    Returns (diffOf price median) env s diff s' ↔
      diff.toInt = |price.toInt - median.toInt| ∧ s' = s := by
  unfold diffOf
  rw [returns_ite, returns_unwrapOr, returns_unwrapOr, I128.checkedSub, I128.checkedSub,
    I128.ofInt?_eq_some, I128.ofInt?_eq_some]
  by_cases h : price.toInt ≥ median.toInt
  · rw [abs_of_nonneg (sub_nonneg.mpr h)]
    simp only [h, true_and, not_true_eq_false, false_and, or_false]
  · rw [abs_of_neg (sub_neg.mpr (not_le.mp h)), neg_sub]
    simp only [h, false_and, not_false_eq_true, true_and, false_or]

theorem returns_validateDeviation {submissions : List PriceData} {median : I128} {bps : ℕ} :
    Returns (validateDeviation submissions median bps) env s u s' ↔
      (∀ data ∈ submissions,
        Within (BitVec.ofNat 128 bps).toInt median.toInt data.price.toInt) ∧ s' = s := by
  unfold validateDeviation
  refine returns_forEach_check fun data s u s' => ?_
  simp only [returns_bind, returns_diffOf, returns_unwrapOr, returns_failIf, I128.checkedMul,
    I128.ofInt?_eq_some, not_lt]
  constructor
  · rintro ⟨diff, _, ⟨hd, rfl⟩, scaled, _, ⟨hs, rfl⟩, bound, _, ⟨hb, rfl⟩, hle, rfl⟩
    have hlt := BitVec.toInt_lt (x := bound)
    refine ⟨⟨?_, ?_⟩, rfl⟩
    · rw [← hd, ← hb]
      calc diff.toInt * 10000 = scaled.toInt := hs.symm
        _ ≤ bound.toInt := hle
    · rw [← hb]
      simpa using hlt
  · rintro ⟨⟨hle, hlt⟩, rfl⟩
    have hnonneg := abs_nonneg (data.price.toInt - median.toInt)
    obtain ⟨diff, -, hd⟩ := ofInt?_of_bounds (z := |data.price.toInt - median.toInt|) (by omega)
    obtain ⟨scaled, -, hs⟩ := ofInt?_of_bounds (z := |data.price.toInt - median.toInt| * 10000)
      (by omega)
    obtain ⟨bound, -, hb⟩ := ofInt?_of_bounds
      (z := median.toInt * (BitVec.ofNat 128 bps).toInt) (by omega)
    refine ⟨diff, s', ⟨hd, rfl⟩, scaled, s', ⟨?_, rfl⟩, bound, s', ⟨hb, rfl⟩, ?_, rfl⟩
    · rw [hs, hd]
      rfl
    · rw [hs, hb]
      exact hle

/-! ### The timestamp -/

/-- The oldest of the ledger time and the timestamps of the submissions. -/
structure Oldest (now : ℕ) (submissions : List PriceData) (timestamp : ℕ) : Prop where
  le_now : timestamp ≤ now
  le : ∀ data ∈ submissions, timestamp ≤ data.timestamp
  mem : timestamp = now ∨ ∃ data ∈ submissions, timestamp = data.timestamp

theorem oldest_foldl (submissions : List PriceData) (now : ℕ) :
    Oldest now submissions (submissions.foldl (fun timestamp data =>
      if data.timestamp < timestamp then data.timestamp else timestamp) now) := by
  induction submissions generalizing now with
  | nil => exact ⟨le_rfl, fun _ h => absurd h List.not_mem_nil, Or.inl rfl⟩
  | cons data rest ih =>
    rw [List.foldl_cons]
    have hrest := ih (if data.timestamp < now then data.timestamp else now)
    have hmin :
        (if data.timestamp < now then data.timestamp else now) = min data.timestamp now := by
      by_cases h : data.timestamp < now
      · rw [if_pos h, min_eq_left h.le]
      · rw [if_neg h, min_eq_right (not_lt.mp h)]
    refine ⟨hrest.le_now.trans (hmin ▸ min_le_right _ _), fun d hd => ?_, ?_⟩
    · rcases List.mem_cons.mp hd with rfl | hd
      · exact hrest.le_now.trans (hmin ▸ min_le_left _ _)
      · exact hrest.le d hd
    · rcases hrest.mem with he | ⟨d, hd, he⟩
      · rw [he, hmin]
        rcases min_choice data.timestamp now with h | h
        · exact Or.inr ⟨data, List.mem_cons_self, h⟩
        · exact Or.inl h
      · exact Or.inr ⟨d, List.mem_cons_of_mem _ hd, he⟩

/-! ### Submissions -/

/-- What the submissions of a round are aggregated to. -/
structure Aggregates (submissions : List PriceData) (bps : ℕ) (now : ℕ) (data : PriceData) :
    Prop where
  median : findMedian submissions (submissions.length / 2) submissions = some data.price
  within : ∀ d ∈ submissions,
    Within (BitVec.ofNat 128 bps).toInt data.price.toInt d.price.toInt
  timestamp : data.timestamp = submissions.foldl (fun timestamp d =>
    if d.timestamp < timestamp then d.timestamp else timestamp) now

theorem returns_aggregatePrice {submissions : List PriceData} {bps : ℕ} {data : PriceData} :
    Returns (aggregatePrice submissions bps) env s data s' ↔
      Aggregates submissions bps env.timestamp data ∧ s' = s := by
  unfold aggregatePrice medianPrice minTimestamp
  simp only [returns_bind, returns_unwrapOr, returns_validateDeviation, returns_ledgerTimestamp,
    returns_pure]
  constructor
  · rintro ⟨median, _, ⟨hmedian, rfl⟩, _, _, ⟨hwithin, rfl⟩, timestamp, _,
      ⟨_, _, ⟨rfl, rfl⟩, htimestamp, rfl⟩, rfl, rfl⟩
    exact ⟨⟨hmedian, hwithin, htimestamp⟩, rfl⟩
  · rintro ⟨⟨hmedian, hwithin, htimestamp⟩, rfl⟩
    exact ⟨data.price, s', ⟨hmedian, rfl⟩, (), s', ⟨hwithin, rfl⟩, data.timestamp, s',
      ⟨env.timestamp, s', ⟨rfl, rfl⟩, htimestamp, rfl⟩, rfl, rfl⟩

/-- What a submission has to pass before it is recorded. -/
structure Admissible (env : OracleEnv) (s : Storage) (publisher : Address) (asset : OracleAsset)
    (round : ℕ) (data : PriceData) (config : CommitteeConfig) : Prop where
  positive : 0 < data.price.toInt
  authorised : s.publisher publisher = some true
  signed : publisher ∈ env.signers
  configured : s.committeeConfig = some config
  past : data.timestamp ≤ env.timestamp
  fresh : env.timestamp - data.timestamp ≤ config.maxTimestampAge
  next : s.latest asset < round
  unused : s.submission (asset, round, publisher) = none
  room : (s.submissions asset round).length < maxCommitteeSubmissions

/-- **A submission.** It is recorded, and the round is published when the threshold is reached. -/
theorem returns_submitPrice {publisher : Address} {asset : OracleAsset} {round : ℕ} {price : I128}
    {timestamp : ℕ} :
    Returns (submitPrice publisher asset round price timestamp) env s u s' ↔
      ∃ config, Admissible env s publisher asset round ⟨price, timestamp⟩ config ∧
        ((s.submissions asset round).length + 1 < config.threshold ∧
            s' = s.record publisher asset round ⟨price, timestamp⟩ ∨
          config.threshold ≤ (s.submissions asset round).length + 1 ∧ ∃ data,
            Aggregates (s.submissions asset round ++ [⟨price, timestamp⟩]) config.maxDeviationBps
              env.timestamp data ∧
            s' = (s.record publisher asset round ⟨price, timestamp⟩).publish asset round data) := by
  unfold submitPrice validatePrice isPublisher committeeConfig validateSubmissionTimestamp
  simp only [returns_bind, returns_failIf, returns_get, returns_requireAuth, returns_required,
    returns_ledgerTimestamp, returns_update, returns_doIf, returns_aggregatePrice,
    returns_appendPrice, exists_eq_left, exists_and_left, and_assoc, exists_const,
    not_le, gt_iff_lt, not_lt, Bool.not_eq_true, Option.isSome_eq_false_iff,
    Option.isNone_iff_eq_none, ge_iff_le, List.length_append, List.length_singleton]
  have hpublisher : ¬ (s.publisher publisher).getD false = false ↔
      s.publisher publisher = some true := by
    cases s.publisher publisher with
    | none => simp
    | some enabled => simp
  rw [hpublisher]
  constructor
  · rintro ⟨hpos, hauthorised, hsigned, config, hconfig, hpast, hfresh, hnext, hunused, hroom, h⟩
    refine ⟨config, ⟨hpos, hauthorised, hsigned, hconfig, hpast, hfresh, hnext, hunused, hroom⟩, ?_⟩
    rcases h with ⟨hreached, data, hdata, rfl⟩ | ⟨hshort, rfl⟩
    · exact Or.inr ⟨hreached, data, hdata, rfl⟩
    · exact Or.inl ⟨hshort, rfl⟩
  · rintro ⟨config, h, hdone⟩
    refine ⟨h.positive, h.authorised, h.signed, config, h.configured, h.past, h.fresh, h.next,
      h.unused, h.room, ?_⟩
    rcases hdone with ⟨hshort, rfl⟩ | ⟨hreached, data, hdata, rfl⟩
    · exact Or.inr ⟨hshort, rfl⟩
    · exact Or.inl ⟨hreached, data, hdata, rfl⟩

/-! ### Kept prices -/

theorem trim_eq (prices : List PriceData) : trim prices = prices.rtake maxRecords := by
  unfold List.rtake
  induction prices with
  | nil => rfl
  | cons data rest ih =>
    unfold trim
    by_cases h : (data :: rest).length > maxRecords
    · rw [if_pos h, ih, List.length_cons] at *
      rw [show rest.length + 1 - maxRecords = rest.length - maxRecords + 1 by omega,
        List.drop_succ_cons]
    · rw [if_neg h, Nat.sub_eq_zero_of_le (not_lt.mp h), List.drop_zero]

/-! ### The storage after a call -/

section Views

variable (s : Storage) (publisher publisher' : Address) (asset asset' : OracleAsset)
  (round round' : ℕ) (data : PriceData)

theorem submissions_record :
    (s.record publisher asset round data).submissions asset' round' =
      if asset = asset' ∧ round = round' then s.submissions asset' round' ++ [data]
      else s.submissions asset' round' := by
  unfold Storage.record Storage.submissions
  dsimp only
  by_cases h : asset = asset' ∧ round = round'
  · obtain ⟨rfl, rfl⟩ := h
    rw [if_pos ⟨rfl, rfl⟩, Function.update_self, Option.getD_some]
  · rw [if_neg h, Function.update_of_ne fun he => h ?_]
    exact ⟨(Prod.mk.inj he).1.symm, (Prod.mk.inj he).2.symm⟩

theorem submission_record :
    (s.record publisher asset round data).submission (asset', round', publisher') =
      if asset = asset' ∧ round = round' ∧ publisher = publisher' then some data
      else s.submission (asset', round', publisher') := by
  unfold Storage.record
  by_cases h : asset = asset' ∧ round = round' ∧ publisher = publisher'
  · obtain ⟨rfl, rfl, rfl⟩ := h
    rw [if_pos ⟨rfl, rfl, rfl⟩]
    exact Function.update_self ..
  · rw [if_neg h]
    refine Function.update_of_ne (fun he => h ?_) ..
    obtain ⟨ha, hrest⟩ := Prod.mk.inj he
    obtain ⟨hr, hp⟩ := Prod.mk.inj hrest
    exact ⟨ha.symm, hr.symm, hp.symm⟩

theorem history_append :
    (s.append asset data).history asset' =
      if asset = asset' then (s.history asset' ++ [data]).rtake maxRecords
      else s.history asset' := by
  unfold Storage.append Storage.history
  dsimp only
  by_cases h : asset = asset'
  · subst h
    rw [if_pos rfl, Function.update_self, Option.getD_some, trim_eq]
  · rw [if_neg h, Function.update_of_ne fun he => h he.symm]

theorem price_append :
    (s.append asset data).price asset' = if asset = asset' then some data else s.price asset' := by
  unfold Storage.append
  by_cases h : asset = asset'
  · rw [if_pos h, h]
    exact Function.update_self ..
  · rw [if_neg h]
    exact Function.update_of_ne (fun he => h he.symm) ..

/-- A round above the latest one is not the latest one. -/
theorem latestRound_ne {s : Storage} {asset : OracleAsset} {round : ℕ}
    (h : s.latest asset < round) : s.latestRound asset ≠ some round := by
  intro he
  unfold Storage.latest at h
  rw [he, Option.getD_some] at h
  exact lt_irrefl _ h

theorem latestRound_publish :
    (s.publish asset round data).latestRound asset' =
      if asset = asset' then some round else s.latestRound asset' := by
  show Function.update s.latestRound asset (some round) asset' = _
  by_cases h : asset = asset'
  · rw [if_pos h, h, Function.update_self]
  · rw [if_neg h, Function.update_of_ne fun he => h he.symm]

end Views

/-- The last prices are returned when there are as many. -/
theorem returns_prices {asset : OracleAsset} {records : ℕ} (hpos : 0 < records)
    (hmax : records ≤ maxRecords) (hle : records ≤ (s.history asset).length) :
    Returns (prices asset records) env s (some ((s.history asset).rtake records)) s := by
  unfold prices List.rtake
  rw [if_neg (by omega)]
  refine returns_bind.mpr ⟨s.prices asset, s, returns_get.mpr ⟨rfl, rfl⟩, ?_⟩
  unfold Storage.history at hle ⊢
  cases h : s.prices asset with
  | none =>
    rw [h] at hle
    exact absurd (hpos.trans_le hle) (lt_irrefl 0)
  | some kept =>
    rw [h] at hle
    show Returns (if kept.length < records then pure none
      else pure (some (kept.drop (kept.length - records)))) env s _ s
    have hle : records ≤ kept.length := hle
    rw [if_neg (not_lt.mpr hle)]
    exact returns_pure.mpr ⟨rfl, rfl⟩

/-! ### A median is never missing -/

section Failures

variable {e : String}

@[simp] theorem fails_get {key : Storage → α} : Fails (get key) env s e ↔ False :=
  ⟨fun h => (by cases h), False.elim⟩

@[simp] theorem fails_ledgerTimestamp : Fails ledgerTimestamp env s e ↔ False :=
  ⟨fun h => (by cases h), False.elim⟩

@[simp] theorem fails_required {key : Storage → Option α} {message : String} :
    Fails (required key message) env s e ↔ key s = none ∧ message = e := by
  simp [required]

@[simp] theorem fails_requireAuth {address : Address} :
    Fails (requireAuth address) env s e ↔ address ∉ env.signers ∧ "not authorized" = e := by
  simp [requireAuth]

/-- Submissions that are there have a median. -/
theorem median_of_aggregatePrice {submissions : List PriceData} {bps : ℕ} (hne : submissions ≠ []) :
    ¬ Fails (aggregatePrice submissions bps) env s "missing median" := by
  intro h
  unfold aggregatePrice at h
  rcases fails_bind.mp h with hmedian | ⟨median, s₁, -, h⟩
  · obtain ⟨median, hsome⟩ := exists_findMedian hne
    rw [medianPrice, fails_unwrapOr, hsome _ (List.Perm.refl _)] at hmedian
    cases hmedian.1
  rcases fails_bind.mp h with hdeviation | ⟨_, s₂, -, h⟩
  · obtain ⟨data, -, s₃, hbody⟩ := Fails.of_forEach hdeviation
    simp [diffOf] at hbody
  · unfold minTimestamp at h
    simp only [fails_bind, fails_ledgerTimestamp, fails_pure, false_or, and_false,
      exists_false] at h

theorem median_of_submitPrice {publisher : Address} {asset : OracleAsset} {round : ℕ} {price : I128}
    {timestamp : ℕ} :
    ¬ Fails (submitPrice publisher asset round price timestamp) env s "missing median" := by
  intro h
  unfold submitPrice at h
  simp only [fails_bind, fails_doIf] at h
  simp [validatePrice, isPublisher, committeeConfig, validateSubmissionTimestamp, appendPrice,
    median_of_aggregatePrice] at h

theorem median_of_run {call : Call} : ¬ Fails call.run env s "missing median" := by
  cases call with
  | init => simp [Call.run, init]
  | setUpgradeAuthority => simp [Call.run, setUpgradeAuthority]
  | rotateUpgradeAuthority => simp [Call.run, rotateUpgradeAuthority]
  | configureCommittee => simp [Call.run, configureCommittee, requireAdmin, validateCommitteeConfig]
  | setPublisher => simp [Call.run, setPublisher, requireAdmin]
  | writePrice => simp [Call.run, writePrice, requireAdmin, validatePrice, appendPrice]
  | submitPrice => exact median_of_submitPrice

end Failures

end Effects

end Pnlx.PriceOracle
