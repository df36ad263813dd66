import Pnlx.Properties.VaultAccounting

/-!
# The allocation limit and the solvency of the vault

Only `allocate` checks the limit, but every move keeps it: losses and settlements lower the
principal, redemptions wait until nothing is lent out, and the limit itself changes only then. As
the limit is below the whole, a series with shares always has liquid assets.

1. `covered_step`, `covered_run`: the invariant.
2. `allocation_cap`: the limit of every series, and of the vault.
3. `series_solvent`: the checks of a deposit that never fail.
-/

namespace Pnlx.LiquidityVault

open Program Runs

variable {A : Asset}

/-! ## The invariant -/

/-- What is lent out stays within a limit that the vault accepts, and series with shares have liquid
assets. -/
structure Covered (vault : Address) (v : Vault A) : Prop where
  limit : v.storage.limit ≤ maxAllocationBps
  within : ∀ series, (v.fund vault series).Within v.storage.limit 10000
  solvent : ∀ series, (v.fund vault series).Solvent

theorem Storage.limitAmount_eq {s : Storage} (h : s.limit ≤ maxAllocationBps) :
    s.limitAmount = s.limit := by
  have hbound : maxAllocationBps = 8000 := rfl
  unfold Storage.limitAmount
  rw [BitVec.toInt_ofNat', Int.bmod_eq_of_le (by omega) (by omega)]

section Runs

variable {vault : Address} {v v' : Vault A}

/-- When the total of the principal vanishes, so does that of every series. -/
theorem Accounted.principal_eq_zero (hv : Accounted vault v)
    (hdeployed : v.storage.deployedPrincipal.toInt + v.storage.otherSeriesPrincipal.toInt = 0)
    (series : ℕ) : (v.fund vault series).principal = 0 := by
  have hnonneg (s : ℕ) : 0 ≤ (v.storage.seriesPrincipal s).toInt := by
    by_cases hs : s = 0
    · rw [hs, hv.aggregated.principal_zero]
      exact le_rfl
    · have hprincipal := (hv.sound s).principal
      rwa [show (v.fund vault s).principal = (v.storage.seriesPrincipal s).toInt from
        congrArg BitVec.toInt (if_neg hs)] at hprincipal
  have hlegacy : 0 ≤ v.storage.deployedPrincipal.toInt := (hv.sound 0).principal
  have hother := hv.aggregated.principal.nonneg hnonneg
  by_cases hs : series = 0
  · subst hs
    show v.storage.deployedPrincipal.toInt = 0
    omega
  · have hzero : v.storage.otherSeriesPrincipal.toInt = 0 := by omega
    rw [show (v.fund vault series).principal = (v.storage.seriesPrincipal series).toInt from
      congrArg BitVec.toInt (if_neg hs)]
    exact (hzero ▸ hv.aggregated.principal).eq_zero hnonneg series

/-- **The step lemma.** -/
theorem covered_step {a : Action A} (hv : Accounted vault v) (hc : Covered vault v)
    (h : step vault v a = .ok v') : Covered vault v' := by
  obtain ⟨-, hadministers | ⟨series, m, hperforms, hlimit, -⟩⟩ := step_performs hv h
  · have hfund := hadministers.fund vault
    rcases hadministers.limit with hlimit | ⟨hlimit, hdeployed⟩
    · have hlimit : v'.storage.limit = v.storage.limit := congrArg (Option.getD · 0) hlimit
      exact ⟨hlimit ▸ hc.limit, fun s => by rw [hfund, hlimit]; exact hc.within s,
        fun s => by rw [hfund]; exact hc.solvent s⟩
    · -- nothing is lent out while the limit changes
      refine ⟨hlimit, fun s => ?_, fun s => by rw [hfund]; exact hc.solvent s⟩
      have hprincipal := hv.principal_eq_zero hdeployed s
      have hliquid := (hv.sound s).liquid
      rw [hfund]
      unfold Fund.Within Fund.assets
      rw [hprincipal, zero_mul, add_zero]
      exact mul_nonneg (Nat.cast_nonneg _) hliquid
  · have hlimit : v'.storage.limit = v.storage.limit := congrArg (Option.getD · 0) hlimit
    have hbound : maxAllocationBps = 8000 := rfl
    have hle := hc.limit
    have hterms := hperforms.terms
    rw [Storage.limitAmount_eq hle] at hterms
    refine ⟨hlimit ▸ hle, fun s => ?_, fun s => ?_⟩
    · rw [hperforms.fund, hlimit]
      by_cases hs : s = series
      · subst hs
        rw [Function.update_self]
        exact (hc.within s).move (hv.sound s) (by omega) (by omega) hperforms.allows hterms
      · rw [Function.update_of_ne hs]
        exact hc.within s
    · rw [hperforms.fund]
      by_cases hs : s = series
      · subst hs
        rw [Function.update_self]
        exact (hc.solvent s).move (hv.sound s) (by omega) (by omega) hperforms.allows hterms
      · rw [Function.update_of_ne hs]
        exact hc.solvent s

theorem covered_construct {env : VaultEnv} {asset operator maker : Address} {limit : ℕ}
    {t : A.State} (hmaker : maker ≠ env.current)
    (h : Returns (construct asset operator maker limit) env ⟨Storage.blank, t⟩ () v) :
    Covered env.current v := by
  have hv := accounted_construct hmaker h
  obtain ⟨hle, -, hfund⟩ := construct_returns h
  refine ⟨hle, fun s => ?_, fun s hsupply => ?_⟩
  · have hliquid := (hv.sound s).liquid
    unfold Fund.Within Fund.assets
    rw [show (v.fund env.current s).principal = 0 by rw [hfund], zero_mul, add_zero]
    exact mul_nonneg (Nat.cast_nonneg _) hliquid
  · rw [hfund] at hsupply
    exact absurd rfl hsupply

/-- **The run lemma.** -/
theorem covered_run (as : List (Action A)) (hv : Accounted vault v) (hc : Covered vault v) :
    Accounted vault (final (step vault) v as) ∧ Covered vault (final (step vault) v as) :=
  @final_of_inv _ _ _ _ (fun _ => True) (fun v => Accounted vault v ∧ Covered vault v)
    (fun _ _ _ _ h hstep => ⟨accounted_step h.1 hstep, covered_step h.1 h.2 hstep⟩)
    _ _ ⟨hv, hc⟩ fun _ _ => trivial

end Runs

/-! ## The limit -/

/-- The limits of the series add up to that of the vault. -/
theorem Covered.total {vault : Address} {v : Vault A} (hv : Accounted vault v)
    (hc : Covered vault v) :
    (v.storage.deployedPrincipal.toInt + v.storage.otherSeriesPrincipal.toInt) * 10000 ≤
      v.storage.limit * ((A.balance v.tokens vault).toInt +
        (v.storage.deployedPrincipal.toInt + v.storage.otherSeriesPrincipal.toInt)) := by
  have hliquid := sum_known hv.aggregated.liquid hv.aggregated.liquid_zero
    fun s hs => (hv.unknown hs).1
  have hprincipal := sum_known hv.aggregated.principal hv.aggregated.principal_zero
    fun s hs => (hv.unknown hs).2.1
  have hlegacy : v.storage.deployedPrincipal.toInt * 10000 ≤ v.storage.limit *
      ((A.balance v.tokens vault).toInt - v.storage.otherSeriesLiquid.toInt +
        v.storage.deployedPrincipal.toInt) := hc.within 0
  have hothers : (∑ s ∈ Finset.Icc 1 v.storage.current, (v.storage.seriesPrincipal s).toInt) *
      10000 ≤ v.storage.limit *
        ∑ s ∈ Finset.Icc 1 v.storage.current,
          ((v.storage.seriesLiquid s).toInt + (v.storage.seriesPrincipal s).toInt) := by
    rw [Finset.sum_mul, Finset.mul_sum]
    refine Finset.sum_le_sum fun s hs => ?_
    have hpos : s ≠ 0 := by
      have := (Finset.mem_Icc.mp hs).1
      omega
    have hwithin := hc.within s
    unfold Fund.Within Fund.assets Vault.fund Vault.liquidOf Storage.principalOf at hwithin
    rwa [if_neg hpos, if_neg hpos] at hwithin
  rw [Finset.sum_add_distrib, hliquid, hprincipal] at hothers
  linarith

/-- **The allocation cap.** In every reachable vault, the principal of every series is at most the
part of its assets that the limit allows, and so is the principal of the vault. -/
theorem allocation_cap {vault asset operator maker : Address} {limit : ℕ}
    {signers : List Address} {t : A.State} {v₀ : Vault A} (hmaker : maker ≠ vault)
    (hdeploy : Returns (construct asset operator maker limit) ⟨signers, vault⟩ ⟨Storage.blank, t⟩ ()
      v₀) (as : List (Action A)) :
    let v := final (step vault) v₀ as
    (∀ series, (v.storage.principalOf series).toInt * 10000 ≤
      v.storage.limit * (v.liquidOf vault series + (v.storage.principalOf series).toInt)) ∧
    (v.storage.deployedPrincipal.toInt + v.storage.otherSeriesPrincipal.toInt) * 10000 ≤
      v.storage.limit * ((A.balance v.tokens vault).toInt +
        (v.storage.deployedPrincipal.toInt + v.storage.otherSeriesPrincipal.toInt)) := by
  intro v
  obtain ⟨hv, hc⟩ := covered_run as (accounted_construct hmaker hdeploy)
    (covered_construct hmaker hdeploy)
  exact ⟨hc.within, hc.total hv⟩

/-- A loss of 10 lowers the assets of series 1 while 30 are still lent out. -/
theorem sampleVault_cap :
    let v := final (step sampleVault) deployedVault sampleVaultRun
    ((v.storage.principalOf 1).toInt, v.storage.limit) = (30, 5000) ∧
      (v.storage.principalOf 1).toInt * 10000 ≤
        v.storage.limit * (v.liquidOf sampleVault 1 + (v.storage.principalOf 1).toInt) :=
  ⟨by decide +kernel, (@allocation_cap sampleAsset sampleVault (.contract 2) sampleOperator
    sampleOperator 5000 [sampleOperator] sampleTokens deployedVault (by decide) rfl
    sampleVaultRun).1 1⟩

/-! ## Solvency -/

/-- Why `mintedShares` fails. -/
theorem mintedShares_fails {env : VaultEnv} {v : Vault A} {amount assets supply : I128} {e : String}
    (h : Fails (mintedShares amount assets supply) env v e) :
    (supply = 0 ∧ assets ≠ 0 ∧ e = "unowned assets") ∨
      (supply ≠ 0 ∧ assets.toInt ≤ 0 ∧ e = "vault insolvent") ∨
      e ∈ ["invalid arithmetic", "amount overflow", "attempt to divide by zero"] := by
  unfold mintedShares at h
  by_cases hsupply : supply = 0
  · rw [if_pos hsupply] at h
    simp only [fails_bind, fails_failIf, fails_pure, and_false, exists_false, or_false] at h
    exact Or.inl ⟨hsupply, h.1, h.2.symm⟩
  · rw [if_neg hsupply] at h
    unfold mulDivFloor at h
    simp only [fails_bind, fails_failIf, fails_unwrapOr, returns_failIf, returns_unwrapOr,
      exists_and_left, exists_eq_left, and_assoc] at h
    simp only [List.mem_cons, List.not_mem_nil, or_false]
    rcases h with ⟨hassets, rfl⟩ | ⟨-, _, ⟨-, rfl⟩ | ⟨-, _, ⟨-, rfl⟩ | ⟨_, -, -, rfl⟩⟩⟩
    · exact Or.inr (Or.inl ⟨hsupply, hassets, rfl⟩)
    · exact Or.inr (Or.inr (Or.inl rfl))
    · exact Or.inr (Or.inr (Or.inr (Or.inl rfl)))
    · exact Or.inr (Or.inr (Or.inr (Or.inr rfl)))

/-- **A series with holders never runs dry.** In every reachable vault, every series with shares has
liquid assets. So a deposit never finds the vault insolvent, and it finds unowned assets only in
series 0: with the assets and the supply that it reads, `mintedShares` fails for neither reason. -/
theorem series_solvent {vault asset operator maker : Address} {limit : ℕ}
    {signers : List Address} {t : A.State} {v₀ : Vault A} (hmaker : maker ≠ vault)
    (hdeploy : Returns (construct asset operator maker limit) ⟨signers, vault⟩ ⟨Storage.blank, t⟩ ()
      v₀) (as : List (Action A)) :
    let v := final (step vault) v₀ as
    (∀ series, v.storage.supplyOf series ≠ 0 → 0 < v.liquidOf vault series) ∧
    ∀ callers series (amount assets supply : I128),
      let env : VaultEnv := ⟨callers, vault⟩
      let fresh := decide (series > v.storage.current)
      Returns (if fresh then pure 0 else seriesAssets series) env v assets v →
      Returns (if fresh then pure 0 else seriesTotalShares series) env v supply v →
        mintedShares amount assets supply env v ≠ .error "vault insolvent" ∧
          (series ≠ 0 → mintedShares amount assets supply env v ≠ .error "unowned assets") := by
  intro v
  obtain ⟨hv, hc⟩ := covered_run as (accounted_construct hmaker hdeploy)
    (covered_construct hmaker hdeploy)
  have hsolvent (series : ℕ) (h : v.storage.supplyOf series ≠ 0) : 0 < v.liquidOf vault series :=
    hc.solvent series fun hzero => h (BitVec.toInt_inj.mp (hzero.trans rfl))
  refine ⟨hsolvent, ?_⟩
  intro callers series amount assets supply env fresh hassets hsupply
  by_cases hfresh : fresh = true
  · rw [if_pos hfresh] at hassets hsupply
    obtain ⟨rfl, -⟩ := returns_pure.mp hassets
    obtain ⟨rfl, -⟩ := returns_pure.mp hsupply
    have hfails {e : String} (h : mintedShares amount 0 0 env v = .error e) :
        e ∈ ["invalid arithmetic", "amount overflow", "attempt to divide by zero"] := by
      rcases mintedShares_fails h with ⟨-, h, -⟩ | ⟨h, -⟩ | h
      · exact absurd rfl h
      · exact absurd rfl h
      · exact h
    exact ⟨fun h => absurd (hfails h) (by decide), fun _ h => absurd (hfails h) (by decide)⟩
  · rw [if_neg hfresh] at hassets hsupply
    obtain ⟨-, -, hsum, -⟩ := returns_seriesAssets.mp hassets
    obtain ⟨-, -, rfl, -⟩ := returns_seriesTotalShares.mp hsupply
    have hprincipal : 0 ≤ (v.storage.principalOf series).toInt := (hv.sound series).principal
    constructor
    · intro h
      rcases mintedShares_fails h with ⟨-, -, h⟩ | ⟨hne, hle, -⟩ | h
      · exact absurd h (by decide)
      · have hpos := hsolvent series hne
        have hsum : assets.toInt = v.liquidOf vault series +
          (v.storage.principalOf series).toInt := hsum
        omega
      · exact absurd h (by decide)
    · intro hseries h
      rcases mintedShares_fails h with ⟨hzero, hne, -⟩ | ⟨-, -, h⟩ | h
      · -- without shares a series above 0 has nothing
        have hnone : (v.fund vault series).supply = 0 := congrArg BitVec.toInt hzero
        have hliquid : v.liquidOf vault series = 0 := hv.closed series hseries hnone
        have hlent : (v.storage.principalOf series).toInt = 0 := (hv.sound series).lent hnone
        refine hne (BitVec.toInt_inj.mp (hsum.trans ?_))
        show v.liquidOf vault series + (v.storage.principalOf series).toInt = 0
        rw [hliquid, hlent, add_zero]
      · exact absurd h (by decide)
      · exact absurd h (by decide)

theorem sampleVault_solvent :
    let v := final (step sampleVault) deployedVault sampleVaultRun
    v.storage.supplyOf 1 = 100 ∧ 0 < v.liquidOf sampleVault 1 :=
  ⟨by decide +kernel, (@series_solvent sampleAsset sampleVault (.contract 2) sampleOperator
    sampleOperator 5000 [sampleOperator] sampleTokens deployedVault (by decide) rfl
    sampleVaultRun).1 1 (by decide +kernel)⟩

end Pnlx.LiquidityVault
