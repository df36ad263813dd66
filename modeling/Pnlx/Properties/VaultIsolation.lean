import Pnlx.Properties.VaultAccounting

/-!
# The series of the vault are isolated

A call that acts on one series leaves the funds of all others as they are. For series 0 this is no
frame fact: its liquid assets are derived from the token balance and the total of the others, which
every transfer and every write of another series changes.
-/

namespace Pnlx.LiquidityVault

open Program Runs

variable {A : Asset}

/-- A call makes its move on its series. -/
theorem performs_of_series {vault : Address} {v v' : Vault A} {callers : List Address} {call : Call}
    {series : ℕ} (hv : Accounted vault v) (hseries : call.series = some series)
    (h : step vault v (.invoke callers call) = .ok v') :
    ∃ m, Performs vault series m v v' ∧ call.Makes m := by
  have hcall : ¬ call.Administrative := fun hcall => by
    cases hcall.series.symm.trans hseries
  obtain ⟨s, m, hperforms, hmakes, hs⟩ :=
    @performs_of_run A ⟨callers, vault⟩ call v v' hv hcall (step_invoke_eq_ok.mp h)
  rcases hs with hs | ⟨hs, -⟩
  · obtain rfl := Option.some.inj (hs.symm.trans hseries)
    exact ⟨m, hperforms, hmakes⟩
  · cases hs.symm.trans hseries

/-- **Series isolation.** In every reachable vault, a call that acts on one series leaves the liquid
assets, the principal, the supply, the pending total and the shares of every other series alone, and
with them what `series_liquid` and `series_assets` return for it. -/
theorem series_isolation {vault asset operator maker : Address} {limit : ℕ}
    {signers : List Address} {t : A.State} {v₀ : Vault A} (hmaker : maker ≠ vault)
    (hdeploy : Returns (construct asset operator maker limit) ⟨signers, vault⟩ ⟨Storage.blank, t⟩ ()
      v₀) (as : List (Action A)) {callers : List Address} {call : Call} {series other : ℕ}
    (hseries : call.series = some series) (hother : other ≠ series) {v' : Vault A}
    (h : step vault (final (step vault) v₀ as) (.invoke callers call) = .ok v') :
    let v := final (step vault) v₀ as
    v'.liquidOf vault other = v.liquidOf vault other ∧
    v'.storage.principalOf other = v.storage.principalOf other ∧
    v'.storage.supplyOf other = v.storage.supplyOf other ∧
    v'.storage.seriesPendingTotal other = v.storage.seriesPendingTotal other ∧
    (∀ owner, v'.storage.sharesOf other owner = v.storage.sharesOf other owner ∧
      v'.storage.pendingOf other owner = v.storage.pendingOf other owner) ∧
    ∀ readers amount,
      (Returns (seriesLiquid other) ⟨readers, vault⟩ v amount v →
        Returns (seriesLiquid other) ⟨readers, vault⟩ v' amount v') ∧
      (Returns (seriesAssets other) ⟨readers, vault⟩ v amount v →
        Returns (seriesAssets other) ⟨readers, vault⟩ v' amount v') := by
  intro v
  have hv : Accounted vault v := accounted_run as (accounted_construct hmaker hdeploy)
  have hv' : Accounted vault v' := accounted_step hv h
  obtain ⟨m, hperforms, -⟩ := performs_of_series hv hseries h
  have hfund : v'.fund vault other = v.fund vault other := by
    rw [hperforms.fund, Function.update_of_ne hother]
  have hliquid : v'.liquidOf vault other = v.liquidOf vault other := congrArg Fund.liquid hfund
  have hprincipal : v'.storage.principalOf other = v.storage.principalOf other :=
    BitVec.toInt_inj.mp (congrArg Fund.principal hfund)
  refine ⟨hliquid, hprincipal, BitVec.toInt_inj.mp (congrArg Fund.supply hfund),
    BitVec.toInt_inj.mp (congrArg Fund.pendingTotal hfund), fun owner => ⟨?_, ?_⟩,
    fun readers amount => ⟨fun hread => ?_, fun hread => ?_⟩⟩
  · exact BitVec.toInt_inj.mp (congrFun (congrArg Fund.shares hfund) owner)
  · exact BitVec.toInt_inj.mp (congrFun (congrArg Fund.pending hfund) owner)
  · obtain ⟨-, hknown, hamount, hnonneg, -⟩ := returns_seriesLiquid.mp hread
    exact returns_seriesLiquid.mpr
      ⟨hv'.asset, hknown.trans hperforms.grows, hamount.trans hliquid.symm, hnonneg, rfl⟩
  · obtain ⟨-, hknown, hamount, hnonneg, hword, -⟩ := returns_seriesAssets.mp hread
    refine returns_seriesAssets.mpr ⟨hv'.asset, hknown.trans hperforms.grows, ?_, ?_, ?_, rfl⟩
    · show amount.toInt = v'.liquidOf vault other + (v'.storage.principalOf other).toInt
      rw [hliquid, hprincipal]
      exact hamount
    · show other = 0 → 0 ≤ v'.liquidOf vault other
      rw [hliquid]
      exact hnonneg
    · show ∃ l : I128, l.toInt = v'.liquidOf vault other
      rw [hliquid]
      exact hword

/-- A settlement with a gain in series 1, seen from series 0. -/
theorem sampleVault_isolation :
    let v := final (step sampleVault) deployedVault sampleVaultRun
    (step sampleVault v (.invoke [sampleOperator] (.settle 1 30 45))).isOk = true ∧
      ∀ v', step sampleVault v (.invoke [sampleOperator] (.settle 1 30 45)) = .ok v' →
        v'.liquidOf sampleVault 0 = v.liquidOf sampleVault 0 := by
  refine ⟨by decide +kernel, fun v' h => ?_⟩
  exact (@series_isolation sampleAsset sampleVault (.contract 2) sampleOperator sampleOperator
    5000 [sampleOperator] sampleTokens deployedVault (by decide) rfl sampleVaultRun
    [sampleOperator] (.settle 1 30 45) 1 0 rfl (by decide) v' h).1

end Pnlx.LiquidityVault
