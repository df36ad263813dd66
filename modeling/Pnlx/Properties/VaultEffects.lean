import Pnlx.Contracts.LiquidityVault
import Pnlx.Lib.Fund

/-!
# What the parts of a vault call do to its funds

Each series of the vault is a fund (`Vault.fund`). The liquid assets of series 0 are derived from
the token balance, so a transfer changes the fund of series 0, and so does a write of the liquid
assets of another series. The theorems below say what each reading returns and what each write does
to the fund of every series.
-/

namespace Pnlx.LiquidityVault

open Program

variable {A : Asset}

/-! ## The funds of a vault -/

def Storage.current (s : Storage) : ℕ := s.currentSeries.getD 0

def Storage.limit (s : Storage) : ℕ := s.allocationLimitBps.getD 0

/-- The limit as the amount that a loan is computed with. -/
def Storage.limitAmount (s : Storage) : ℤ := (BitVec.ofNat 128 s.limit).toInt

/-- The liquid assets of a series. -/
def Vault.liquidOf (self : Address) (v : Vault A) (series : ℕ) : ℤ :=
  if series = 0 then (A.balance v.tokens self).toInt - v.storage.otherSeriesLiquid.toInt
  else (v.storage.seriesLiquid series).toInt

/-- The fund of a series. -/
def Vault.fund (self : Address) (v : Vault A) (series : ℕ) : Fund Address where
  liquid := v.liquidOf self series
  principal := (v.storage.principalOf series).toInt
  supply := (v.storage.supplyOf series).toInt
  pendingTotal := (v.storage.seriesPendingTotal series).toInt
  shares := fun owner => (v.storage.sharesOf series owner).toInt
  pending := fun owner => (v.storage.pendingOf series owner).toInt

/-- What the vault records of its owners besides their shares. -/
@[ext]
structure Records where
  deposited : Address → ℤ
  withdrawn : Address → ℤ
  series : Address → List ℕ

def Vault.records (v : Vault A) : Records where
  deposited := fun owner => (v.storage.deposited owner).toInt
  withdrawn := fun owner => (v.storage.withdrawn owner).toInt
  series := v.storage.ownerSeries

/-! ## Readings -/

section Readings

variable {env : VaultEnv} {v v' : Vault A} {a : I128} {u : Unit} {series : ℕ} {owner : Address}

@[simp] theorem returns_get {α : Type} {key : Storage → α} {x : α} :
    Returns (get key : VaultCall A α) env v x v' ↔ x = key v.storage ∧ v' = v :=
  returns_pure (r := env)

@[simp] theorem returns_required {α : Type} {key : Storage → Option α} {message : String} {x : α} :
    Returns (required key message : VaultCall A α) env v x v' ↔
      key v.storage = some x ∧ v' = v := by
  unfold required
  simp only [returns_bind, returns_get, returns_unwrapOr, exists_eq_left, exists_and_left,
    and_assoc]

@[simp] theorem returns_set {f : Storage → Storage} :
    Returns (set f : VaultCall A Unit) env v u v' ↔ v' = { v with storage := f v.storage } := by
  unfold Returns set
  rw [Except.ok.injEq, Prod.mk.injEq, eq_comm (b := v')]
  exact and_iff_right rfl

@[simp] theorem returns_currentContract {x : Address} :
    Returns (currentContract : VaultCall A Address) env v x v' ↔ x = env.current ∧ v' = v :=
  returns_pure (r := env)

@[simp] theorem returns_requireAuth {address : Address} :
    Returns (requireAuth address : VaultCall A Unit) env v u v' ↔
      (address ∈ env.signers ∧ address ≠ env.current) ∧ v' = v := by
  unfold requireAuth
  simp only [returns_bind, returns_environment, returns_failIf, not_not]
  constructor
  · rintro ⟨_, _, ⟨rfl, rfl⟩, h⟩
    exact h
  · exact fun h => ⟨env, v, ⟨rfl, rfl⟩, h⟩

@[simp] theorem returns_checkedAdd {left right : I128} :
    Returns (checkedAdd left right : VaultCall A I128) env v a v' ↔
      a.toInt = left.toInt + right.toInt ∧ v' = v := by
  unfold checkedAdd I128.checkedAdd
  rw [returns_unwrapOr, I128.ofInt?_eq_some]

@[simp] theorem returns_sub {left right : I128} :
    Returns (sub left right : VaultCall A I128) env v a v' ↔
      a.toInt = left.toInt - right.toInt ∧ v' = v := by
  unfold sub I128.checkedSub
  rw [returns_unwrapOr, I128.ofInt?_eq_some]

@[simp] theorem returns_checkedSub {left right : I128} :
    Returns (checkedSub left right : VaultCall A I128) env v a v' ↔
      (a.toInt = left.toInt - right.toInt ∧ 0 ≤ a.toInt) ∧ v' = v := by
  unfold checkedSub I128.checkedSub
  rw [returns_unwrapOr, Option.filter_eq_some_iff, I128.ofInt?_eq_some, decide_eq_true_iff]

/-- The quotient of two amounts, rounded down. -/
theorem mulDivFloor_returns {left right denominator : I128}
    (h : Returns (mulDivFloor left right denominator : VaultCall A I128) env v a v') :
    (0 ≤ left.toInt ∧ 0 ≤ right.toInt ∧ 0 < denominator.toInt ∧
      a.toInt = left.toInt * right.toInt / denominator.toInt) ∧ v' = v := by
  unfold mulDivFloor I128.checkedMul at h
  simp only [returns_bind, returns_failIf, returns_unwrapOr, I128.ofInt?_eq_some, exists_eq_left,
    exists_and_left, and_assoc, exists_const, not_or, not_lt, not_le] at h
  obtain ⟨hleft, hright, hpos, product, hproduct, hquotient, rfl⟩ := h
  refine ⟨⟨hleft, hright, hpos, ?_⟩, rfl⟩
  unfold I128.checkedDiv at hquotient
  split_ifs at hquotient with hzero
  rw [I128.ofInt?_eq_some] at hquotient
  rw [hquotient, hproduct, Int.tdiv_eq_ediv_of_nonneg (mul_nonneg hleft hright)]

@[simp] theorem returns_asset {x : Address} :
    Returns (asset : VaultCall A Address) env v x v' ↔ v.storage.asset = some x ∧ v' = v :=
  returns_required

@[simp] theorem returns_operator {x : Address} :
    Returns (operator : VaultCall A Address) env v x v' ↔ v.storage.operator = some x ∧ v' = v :=
  returns_required

@[simp] theorem returns_maker {x : Address} :
    Returns (maker : VaultCall A Address) env v x v' ↔ v.storage.maker = some x ∧ v' = v :=
  returns_required

@[simp] theorem returns_liquidAssets : Returns (liquidAssets : VaultCall A I128) env v a v' ↔
    v.storage.asset.isSome ∧ a = A.balance v.tokens env.current ∧ v' = v := by
  have hbalance (v : Vault A) : Returns (callBalance : VaultCall A I128) env v a v' ↔
      a = A.balance v.tokens env.current ∧ v' = v := returns_pure (r := env)
  unfold liquidAssets
  simp only [returns_bind, returns_asset, hbalance, Option.isSome_iff_exists, exists_and_left,
    exists_and_right, and_assoc, exists_eq_left]

@[simp] theorem returns_deposited :
    Returns (deposited owner : VaultCall A I128) env v a v' ↔
      v.storage.asset.isSome ∧ a = v.storage.deposited owner ∧ v' = v := by
  unfold deposited
  simp only [returns_bind, returns_asset, returns_get, Option.isSome_iff_exists, exists_and_left,
    exists_and_right, and_assoc, exists_eq_left]

@[simp] theorem returns_withdrawn :
    Returns (withdrawn owner : VaultCall A I128) env v a v' ↔
      v.storage.asset.isSome ∧ a = v.storage.withdrawn owner ∧ v' = v := by
  unfold withdrawn
  simp only [returns_bind, returns_asset, returns_get, Option.isSome_iff_exists, exists_and_left,
    exists_and_right, and_assoc, exists_eq_left]

@[simp] theorem returns_currentSeries {n : ℕ} :
    Returns (currentSeries : VaultCall A ℕ) env v n v' ↔
      v.storage.asset.isSome ∧ n = v.storage.current ∧ v' = v := by
  unfold currentSeries
  simp only [returns_bind, returns_asset, returns_get, Option.isSome_iff_exists, exists_and_left,
    exists_and_right, and_assoc, exists_eq_left]
  rfl

@[simp] theorem returns_checkSeries :
    Returns (checkSeries series : VaultCall A Unit) env v u v' ↔
      v.storage.asset.isSome ∧ series ≤ v.storage.current ∧ v' = v := by
  unfold checkSeries
  simp only [returns_bind, returns_currentSeries, returns_failIf, exists_and_left, and_assoc,
    exists_eq_left, not_lt, gt_iff_lt]

@[simp] theorem returns_allocationLimitBps {n : ℕ} :
    Returns (allocationLimitBps : VaultCall A ℕ) env v n v' ↔
      v.storage.asset.isSome ∧ n = v.storage.limit ∧ v' = v := by
  unfold allocationLimitBps
  simp only [returns_bind, returns_asset, returns_get, Option.isSome_iff_exists, exists_and_left,
    exists_and_right, and_assoc, exists_eq_left]
  rfl

/-- A reading of a known series. -/
theorem returns_series {key : Storage → I128} :
    Returns (do checkSeries series; get key : VaultCall A I128) env v a v' ↔
      v.storage.asset.isSome ∧ series ≤ v.storage.current ∧ a = key v.storage ∧ v' = v := by
  simp only [returns_bind, returns_checkSeries, returns_get, exists_and_left, and_assoc,
    exists_eq_left, exists_const]

@[simp] theorem returns_seriesPrincipal :
    Returns (seriesPrincipal series : VaultCall A I128) env v a v' ↔
      v.storage.asset.isSome ∧ series ≤ v.storage.current ∧
        a = v.storage.principalOf series ∧ v' = v := returns_series

@[simp] theorem returns_seriesPendingTotal :
    Returns (seriesPendingTotal series : VaultCall A I128) env v a v' ↔
      v.storage.asset.isSome ∧ series ≤ v.storage.current ∧
        a = v.storage.seriesPendingTotal series ∧ v' = v := returns_series

@[simp] theorem returns_seriesTotalShares :
    Returns (seriesTotalShares series : VaultCall A I128) env v a v' ↔
      v.storage.asset.isSome ∧ series ≤ v.storage.current ∧
        a = v.storage.supplyOf series ∧ v' = v := returns_series

@[simp] theorem returns_seriesShares :
    Returns (seriesShares series owner : VaultCall A I128) env v a v' ↔
      v.storage.asset.isSome ∧ series ≤ v.storage.current ∧
        a = v.storage.sharesOf series owner ∧ v' = v := returns_series

@[simp] theorem returns_seriesPendingShares :
    Returns (seriesPendingShares series owner : VaultCall A I128) env v a v' ↔
      v.storage.asset.isSome ∧ series ≤ v.storage.current ∧
        a = v.storage.pendingOf series owner ∧ v' = v := returns_series

/-- The liquid assets of a series, when the balance covers those of the others. -/
@[simp] theorem returns_seriesLiquid :
    Returns (seriesLiquid series : VaultCall A I128) env v a v' ↔
      v.storage.asset.isSome ∧ series ≤ v.storage.current ∧
        a.toInt = v.liquidOf env.current series ∧ (series = 0 → 0 ≤ a.toInt) ∧ v' = v := by
  unfold seriesLiquid Vault.liquidOf
  by_cases hzero : series = 0
  · subst hzero
    simp only [if_pos, returns_bind, returns_checkSeries, returns_liquidAssets, returns_get,
      returns_checkedSub, exists_and_left, and_assoc, exists_eq_left, exists_const, forall_const]
    constructor
    · rintro ⟨hasset, hle, -, h⟩
      exact ⟨hasset, hle, h⟩
    · rintro ⟨hasset, hle, h⟩
      exact ⟨hasset, hle, hasset, h⟩
  · simp only [if_neg hzero, returns_bind, returns_checkSeries, returns_get, exists_and_left,
      and_assoc, exists_eq_left, exists_const, BitVec.toInt_inj]
    simp only [hzero, IsEmpty.forall_iff, true_and]

@[simp] theorem returns_seriesAssets :
    Returns (seriesAssets series : VaultCall A I128) env v a v' ↔
      v.storage.asset.isSome ∧ series ≤ v.storage.current ∧
        a.toInt = v.liquidOf env.current series + (v.storage.principalOf series).toInt ∧
          (series = 0 → 0 ≤ v.liquidOf env.current series) ∧
          (∃ l : I128, l.toInt = v.liquidOf env.current series) ∧ v' = v := by
  unfold seriesAssets
  simp only [returns_bind, returns_seriesLiquid, returns_seriesPrincipal, returns_checkedAdd,
    exists_and_left, and_assoc, exists_eq_left]
  constructor
  · rintro ⟨hasset, hle, l, hl, hzero, -, -, ha, rfl⟩
    exact ⟨hasset, hle, hl ▸ ha, hl ▸ hzero, ⟨l, hl⟩, rfl⟩
  · rintro ⟨hasset, hle, ha, hzero, ⟨l, hl⟩, rfl⟩
    exact ⟨hasset, hle, l, hl, hl ▸ hzero, hasset, hle, hl ▸ ha, rfl⟩

@[simp] theorem returns_totalShares :
    Returns (totalShares : VaultCall A I128) env v a v' ↔ v.storage.asset.isSome ∧
      a.toInt = v.storage.totalShares.toInt + v.storage.otherSeriesShares.toInt ∧ v' = v := by
  unfold totalShares
  simp only [returns_bind, returns_asset, returns_get, returns_checkedAdd,
    Option.isSome_iff_exists, exists_and_left, exists_and_right, and_assoc, exists_eq_left]

@[simp] theorem returns_deployedPrincipal :
    Returns (deployedPrincipal : VaultCall A I128) env v a v' ↔ v.storage.asset.isSome ∧
      a.toInt = v.storage.deployedPrincipal.toInt + v.storage.otherSeriesPrincipal.toInt ∧
        v' = v := by
  unfold deployedPrincipal
  simp only [returns_bind, returns_asset, returns_get, returns_checkedAdd,
    Option.isSome_iff_exists, exists_and_left, exists_and_right, and_assoc, exists_eq_left]

/-- A deposit goes to the current series, or to the next one while assets of it are lent out. -/
@[simp] theorem returns_depositSeries {n : ℕ} :
    Returns (depositSeries : VaultCall A ℕ) env v n v' ↔ v.storage.asset.isSome ∧
      ((v.storage.principalOf v.storage.current = 0 ∧ n = v.storage.current) ∨
        (v.storage.principalOf v.storage.current ≠ 0 ∧ v.storage.current + 1 < 2 ^ 32 ∧
          n = v.storage.current + 1)) ∧ v' = v := by
  unfold depositSeries
  simp only [returns_bind, returns_currentSeries, returns_seriesPrincipal, returns_ite,
    returns_failIf, returns_pure, exists_and_left, and_assoc, exists_eq_left, exists_const,
    le_refl, true_and, not_le, ge_iff_le, and_self_left]
  refine and_congr_right fun _ => ?_
  constructor
  · rintro (⟨h, rfl, rfl⟩ | ⟨h, hlt, rfl, rfl⟩)
    · exact ⟨Or.inl ⟨h, rfl⟩, rfl⟩
    · exact ⟨Or.inr ⟨h, hlt, rfl⟩, rfl⟩
  · rintro ⟨⟨h, rfl⟩ | ⟨h, hlt, rfl⟩, rfl⟩
    · exact Or.inl ⟨h, rfl, rfl⟩
    · exact Or.inr ⟨h, hlt, rfl, rfl⟩

end Readings

/-! ## Writes -/

section Writes

variable {env : VaultEnv} {v v' : Vault A} {u : Unit} {series : ℕ} {owner : Address} {value : I128}

theorem adjustOtherTotal_returns {key : Storage → I128} {write : Storage → I128 → Storage}
    {old new : I128}
    (h : Returns (adjustOtherTotal key write old new : VaultCall A Unit) env v u v') :
    ∃ next : I128, next.toInt = (key v.storage).toInt + (new.toInt - old.toInt) ∧
      v' = { v with storage := write v.storage next } := by
  unfold adjustOtherTotal at h
  simp only [returns_bind, returns_get, returns_ite, returns_sub, returns_checkedAdd,
    returns_checkedSub, returns_set, exists_eq_left, exists_and_left, and_assoc] at h
  obtain ⟨next, v₁, hnext, rfl⟩ := h
  rcases hnext with ⟨-, d, hd, hadd, rfl⟩ | ⟨-, d, hd, hsub, -, rfl⟩
  · exact ⟨next, by rw [hadd, hd], rfl⟩
  · exact ⟨next, by rw [hsub, hd]; omega, rfl⟩

theorem setSeriesLiquid_returns
    (h : Returns (setSeriesLiquid series value : VaultCall A Unit) env v u v') :
    series ≠ 0 ∧ 0 ≤ value.toInt ∧ ∃ next : I128,
      next.toInt = v.storage.otherSeriesLiquid.toInt +
        (value.toInt - (v.storage.seriesLiquid series).toInt) ∧
      v' = { v with
        storage := { v.storage with
          otherSeriesLiquid := next
          seriesLiquid := Function.update v.storage.seriesLiquid series value } } := by
  unfold setSeriesLiquid at h
  simp only [returns_bind, returns_failIf, returns_get, returns_set, exists_eq_left,
    exists_and_left, and_assoc, exists_const, not_or, not_lt] at h
  obtain ⟨hseries, hvalue, _, v₁, hadjust, rfl⟩ := h
  obtain ⟨next, hnext, rfl⟩ := adjustOtherTotal_returns hadjust
  exact ⟨hseries, hvalue, next, hnext, rfl⟩

theorem setSeriesPrincipal_returns
    (h : Returns (setSeriesPrincipal series value : VaultCall A Unit) env v u v') :
    0 ≤ value.toInt ∧
      ((series = 0 ∧ v' = { v with storage := { v.storage with deployedPrincipal := value } }) ∨
      (series ≠ 0 ∧ ∃ next : I128,
        next.toInt = v.storage.otherSeriesPrincipal.toInt +
          (value.toInt - (v.storage.seriesPrincipal series).toInt) ∧
        v' = { v with
          storage := { v.storage with
            otherSeriesPrincipal := next
            seriesPrincipal := Function.update v.storage.seriesPrincipal series value } })) := by
  unfold setSeriesPrincipal at h
  simp only [returns_bind, returns_failIf, returns_ite, returns_get, returns_set, exists_eq_left,
    exists_and_left, and_assoc, exists_const, not_lt] at h
  obtain ⟨hvalue, ⟨hseries, rfl⟩ | ⟨hseries, _, v₁, hadjust, rfl⟩⟩ := h
  · exact ⟨hvalue, Or.inl ⟨hseries, rfl⟩⟩
  · obtain ⟨next, hnext, rfl⟩ := adjustOtherTotal_returns hadjust
    exact ⟨hvalue, Or.inr ⟨hseries, next, hnext, rfl⟩⟩

theorem setSeriesSupply_returns
    (h : Returns (setSeriesSupply series value : VaultCall A Unit) env v u v') :
    0 ≤ value.toInt ∧
      ((series = 0 ∧ v' = { v with storage := { v.storage with totalShares := value } }) ∨
      (series ≠ 0 ∧ ∃ next : I128,
        next.toInt = v.storage.otherSeriesShares.toInt +
          (value.toInt - (v.storage.seriesSupply series).toInt) ∧
        v' = { v with
          storage := { v.storage with
            otherSeriesShares := next
            seriesSupply := Function.update v.storage.seriesSupply series value } })) := by
  unfold setSeriesSupply at h
  simp only [returns_bind, returns_failIf, returns_ite, returns_get, returns_set, exists_eq_left,
    exists_and_left, and_assoc, exists_const, not_lt] at h
  obtain ⟨hvalue, ⟨hseries, rfl⟩ | ⟨hseries, _, v₁, hadjust, rfl⟩⟩ := h
  · exact ⟨hvalue, Or.inl ⟨hseries, rfl⟩⟩
  · obtain ⟨next, hnext, rfl⟩ := adjustOtherTotal_returns hadjust
    exact ⟨hvalue, Or.inr ⟨hseries, next, hnext, rfl⟩⟩

/-! ### The funds after a write -/

variable (self : Address)

/-- A write of liquid assets takes from series 0 what it gives to the series. -/
theorem fund_setSeriesLiquid
    (h : Returns (setSeriesLiquid series value : VaultCall A Unit) env v u v') (s : ℕ) :
    v'.fund self s = { v.fund self s with
      liquid := (v.fund self s).liquid +
        (if s = series then value.toInt - v.liquidOf self series else 0) -
        (if s = 0 then value.toInt - v.liquidOf self series else 0) } := by
  obtain ⟨hseries, -, next, hnext, rfl⟩ := setSeriesLiquid_returns h
  have hliquid : v.liquidOf self series = (v.storage.seriesLiquid series).toInt := if_neg hseries
  refine Fund.ext ?_ rfl rfl rfl rfl rfl
  show Vault.liquidOf self _ s = v.liquidOf self s + _ - _
  rw [hliquid]
  unfold Vault.liquidOf
  by_cases hs : s = 0
  · subst hs
    simp only [if_pos, if_neg (Ne.symm hseries), hnext]
    omega
  · by_cases hseries' : s = series
    · subst hseries'
      simp only [if_neg hs, if_pos, Function.update_self]
      omega
    · simp only [if_neg hs, if_neg hseries', Function.update_of_ne hseries']
      omega

theorem fund_setSeriesPrincipal
    (h : Returns (setSeriesPrincipal series value : VaultCall A Unit) env v u v') (s : ℕ) :
    v'.fund self s = { v.fund self s with
      principal := if s = series then value.toInt else (v.fund self s).principal } := by
  obtain ⟨-, ⟨rfl, rfl⟩ | ⟨hseries, next, -, rfl⟩⟩ := setSeriesPrincipal_returns h
  · refine Fund.ext rfl ?_ rfl rfl rfl rfl
    show (Storage.principalOf _ s).toInt = if s = 0 then _ else (v.storage.principalOf s).toInt
    unfold Storage.principalOf
    by_cases hs : s = 0
    · rw [if_pos hs, if_pos hs]
    · rw [if_neg hs, if_neg hs, if_neg hs]
  · refine Fund.ext rfl ?_ rfl rfl rfl rfl
    show (Storage.principalOf _ s).toInt = if s = series then _ else (v.storage.principalOf s).toInt
    unfold Storage.principalOf
    by_cases hs : s = series
    · subst hs
      simp only [if_neg hseries, if_pos, Function.update_self]
    · simp only [if_neg hs, Function.update_of_ne hs]

theorem fund_setSeriesSupply
    (h : Returns (setSeriesSupply series value : VaultCall A Unit) env v u v') (s : ℕ) :
    v'.fund self s = { v.fund self s with
      supply := if s = series then value.toInt else (v.fund self s).supply } := by
  obtain ⟨-, ⟨rfl, rfl⟩ | ⟨hseries, next, -, rfl⟩⟩ := setSeriesSupply_returns h
  · refine Fund.ext rfl rfl ?_ rfl rfl rfl
    show (Storage.supplyOf _ s).toInt = if s = 0 then _ else (v.storage.supplyOf s).toInt
    unfold Storage.supplyOf
    by_cases hs : s = 0
    · rw [if_pos hs, if_pos hs]
    · rw [if_neg hs, if_neg hs, if_neg hs]
  · refine Fund.ext rfl rfl ?_ rfl rfl rfl
    show (Storage.supplyOf _ s).toInt = if s = series then _ else (v.storage.supplyOf s).toInt
    unfold Storage.supplyOf
    by_cases hs : s = series
    · subst hs
      simp only [if_neg hseries, if_pos, Function.update_self]
    · simp only [if_neg hs, Function.update_of_ne hs]

theorem fund_setPendingTotal
    (h : Returns (setPendingTotal series value : VaultCall A Unit) env v u v') (s : ℕ) :
    v'.fund self s = { v.fund self s with
      pendingTotal := if s = series then value.toInt else (v.fund self s).pendingTotal } := by
  obtain rfl := returns_set.mp h
  refine Fund.ext rfl rfl rfl ?_ rfl rfl
  show (Function.update v.storage.seriesPendingTotal series value s).toInt = _
  by_cases hs : s = series
  · subst hs
    rw [if_pos rfl, Function.update_self]
  · rw [if_neg hs, Function.update_of_ne hs]
    rfl

/-- The words of the owners after one of them is written. -/
theorem toInt_update (f : Address → I128) : (fun o => (Function.update f owner value o).toInt) =
    Function.update (fun o => (f o).toInt) owner value.toInt := by
  funext o
  by_cases ho : o = owner
  · subst ho
    rw [Function.update_self, Function.update_self]
  · rw [Function.update_of_ne ho, Function.update_of_ne ho]

theorem fund_setShares (h : Returns (setShares series owner value : VaultCall A Unit) env v u v')
    (s : ℕ) : v'.fund self s = { v.fund self s with
      shares := if s = series then Function.update (v.fund self s).shares owner value.toInt
        else (v.fund self s).shares } := by
  obtain rfl := returns_set.mp h
  by_cases hseries : series = 0
  · subst hseries
    refine Fund.ext rfl rfl rfl rfl ?_ rfl
    by_cases hs : s = 0
    · simp only [Vault.fund, Storage.sharesOf, if_pos hs, if_pos, toInt_update]
    · simp only [Vault.fund, Storage.sharesOf, if_neg hs, if_pos]
  · simp only [if_neg hseries]
    refine Fund.ext rfl rfl rfl rfl ?_ rfl
    by_cases hs : s = series
    · subst hs
      simp only [Vault.fund, Storage.sharesOf, if_neg hseries, if_pos, Function.update_self,
        toInt_update]
    · simp only [Vault.fund, Storage.sharesOf, if_neg hs, Function.update_of_ne hs]

theorem fund_setPending (h : Returns (setPending series owner value : VaultCall A Unit) env v u v')
    (s : ℕ) : v'.fund self s = { v.fund self s with
      pending := if s = series then Function.update (v.fund self s).pending owner value.toInt
        else (v.fund self s).pending } := by
  obtain rfl := returns_set.mp h
  by_cases hseries : series = 0
  · subst hseries
    refine Fund.ext rfl rfl rfl rfl rfl ?_
    by_cases hs : s = 0
    · simp only [Vault.fund, Storage.pendingOf, if_pos hs, if_pos, toInt_update]
    · simp only [Vault.fund, Storage.pendingOf, if_neg hs, if_pos]
  · simp only [if_neg hseries]
    refine Fund.ext rfl rfl rfl rfl rfl ?_
    by_cases hs : s = series
    · subst hs
      simp only [Vault.fund, Storage.pendingOf, if_neg hseries, if_pos, Function.update_self,
        toInt_update]
    · simp only [Vault.fund, Storage.pendingOf, if_neg hs, Function.update_of_ne hs]

theorem transfer_returns {sender recipient : Address}
    (h : Returns (transfer sender recipient value : VaultCall A Unit) env v u v') :
    v'.storage = v.storage ∧ ∀ holder, (A.balance v'.tokens holder).toInt =
      (A.balance v.tokens holder).toInt - (if holder = sender then value.toInt else 0) +
        (if holder = recipient then value.toInt else 0) := by
  unfold transfer at h
  simp only [returns_bind, returns_asset, exists_and_left, and_assoc, exists_eq_left] at h
  obtain ⟨_, -, h⟩ := h
  unfold Returns callTransfer at h
  split at h
  case h_1 t ht =>
    obtain rfl := (Prod.mk.inj (Except.ok.inj h)).2
    exact ⟨rfl, A.transfer_exact ht⟩
  case h_2 => cases h

/-- A transfer changes the liquid assets of series 0. -/
theorem fund_transfer {sender recipient : Address}
    (h : Returns (transfer sender recipient value : VaultCall A Unit) env v u v') (s : ℕ) :
    v'.fund self s = { v.fund self s with
      liquid := (v.fund self s).liquid -
        (if s = 0 then if self = sender then value.toInt else 0 else 0) +
        (if s = 0 then if self = recipient then value.toInt else 0 else 0) } := by
  obtain ⟨hstorage, hbalance⟩ := transfer_returns h
  unfold Vault.fund Vault.liquidOf
  rw [hstorage, hbalance self]
  refine Fund.ext ?_ rfl rfl rfl rfl rfl
  by_cases hs : s = 0
  · simp only [if_pos hs]
    omega
  · simp only [if_neg hs]
    omega

/-- A write of other keys leaves the funds alone. -/
theorem fund_set {f : Storage → Storage}
    (h : Returns (set f : VaultCall A Unit) env v u v') (s : ℕ)
    (hf : ∀ s, f s = { s with
      upgradeAuthority := (f s).upgradeAuthority
      paused := (f s).paused
      allocationLimitBps := (f s).allocationLimitBps
      deposited := (f s).deposited
      withdrawn := (f s).withdrawn
      currentSeries := (f s).currentSeries
      ownerSeries := (f s).ownerSeries }) : v'.fund self s = v.fund self s := by
  obtain rfl := returns_set.mp h
  show Vault.fund self { v with storage := f v.storage } s = _
  rw [hf]
  rfl

end Writes

end Pnlx.LiquidityVault
