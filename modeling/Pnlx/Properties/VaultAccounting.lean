import Mathlib.Order.Interval.Finset.Nat
import Pnlx.Lib.Runs
import Pnlx.Properties.VaultMoves
import Pnlx.SampleAsset

/-!
# The books of the liquidity vault

Every call of the vault is a move of the fund of one series (`Moves`), so the fund of every series
stays sound, and the funds of the series above 0 stay closed.

1. `accounted_step`, `accounted_run`: the invariant.
2. `vault_accounting`: what it says about every reachable vault, and a run of a vault.
-/

namespace Pnlx.LiquidityVault

open Program Runs

variable {A : Asset}

/-! ## The invariant -/

/-- The fund of one known series makes an allowed move, and the others stay. Only the liquid assets
of series 0 change from outside. -/
def Moves (vault : Address) (v v' : Vault A) : Prop :=
  ∃ series m, v.storage.current ≤ v'.storage.current ∧ series ≤ v'.storage.current ∧
    (v.fund vault series).Allows m ∧ (series ≠ 0 → ∀ liquid, m ≠ .float liquid) ∧
    v'.fund vault = Function.update (v.fund vault) series ((v.fund vault series).apply m)

theorem Performs.moves {vault : Address} {series : ℕ} {m : Fund.Move Address} {v v' : Vault A}
    (h : Performs vault series m v v') : Moves vault v v' :=
  ⟨series, m, h.grows, h.known, h.allows, h.internal, h.fund⟩

section Runs

variable {vault : Address} {v v' : Vault A}

theorem Accounted.move (hv : Accounted vault v) (hkept : Kept v v') (hm : Moves vault v v') :
    Accounted vault v' := by
  obtain ⟨series, m, hgrow, hknown, hallows, hfloat, hfund⟩ := hm
  refine ⟨by rw [hkept.asset]; exact hv.asset, by rw [hkept.maker]; exact hv.maker,
    hkept.aggregated hv.aggregated, fun s => ?_, fun s hs => ?_, fun s hs => ?_⟩
  · rw [hfund]
    by_cases h : s = series
    · subst h
      rw [Function.update_self]
      exact (hv.sound s).move hallows
    · rw [Function.update_of_ne h]
      exact hv.sound s
  · rw [hfund]
    by_cases h : s = series
    · subst h
      rw [Function.update_self]
      exact (hv.sound s).closed_move (hv.closed s hs) hallows (hfloat hs)
    · rw [Function.update_of_ne h]
      exact hv.closed s hs
  · rw [hfund, Function.update_of_ne (by omega)]
    exact hv.fresh s (by omega)

/-- **The step lemma.** Every accepted action keeps the books in order. -/
theorem accounted_step {a : Action A} (hv : Accounted vault v) (h : step vault v a = .ok v') :
    Accounted vault v' := by
  obtain ⟨hkept, hadministers | ⟨series, m, hperforms, -⟩⟩ := step_performs hv h
  · refine ⟨by rw [hkept.asset]; exact hv.asset, by rw [hkept.maker]; exact hv.maker,
      hkept.aggregated hv.aggregated, fun s => ?_, fun s hs => ?_, fun s hs => ?_⟩
    · rw [hadministers.fund]
      exact hv.sound s
    · rw [hadministers.fund]
      exact hv.closed s hs
    · rw [hadministers.fund]
      exact hv.fresh s (hadministers.series ▸ hs)
  · exact hv.move hkept hperforms.moves

/-- A vault that has just been deployed has nothing but what was sent to it before. -/
theorem construct_returns {env : VaultEnv} {asset operator maker : Address} {limit : ℕ}
    {t : A.State} (h : Returns (construct asset operator maker limit) env ⟨Storage.blank, t⟩ () v) :
    v.storage.limit ≤ maxAllocationBps ∧ v.records = ⟨fun _ => 0, fun _ => 0, fun _ => []⟩ ∧
      ∀ s, v.fund env.current s =
        ⟨if s = 0 then (A.balance t env.current).toInt else 0, 0, 0, 0, fun _ => 0, fun _ => 0⟩ := by
  unfold construct at h
  simp only [returns_bind, returns_requireAuth, returns_failIf, returns_set, exists_eq_left,
    exists_and_left, and_assoc, exists_const, not_or, not_lt, gt_iff_lt] at h
  obtain ⟨-, -, -, hle, rfl⟩ := h
  refine ⟨hle, rfl, fun s => ?_⟩
  unfold Vault.fund Vault.liquidOf Storage.principalOf Storage.supplyOf Storage.sharesOf
    Storage.pendingOf
  by_cases hs : s = 0
  · simp only [if_pos hs]
    rw [show (Storage.blank.otherSeriesLiquid).toInt = 0 from rfl, sub_zero]
    rfl
  · simp only [if_neg hs]
    rfl

theorem accounted_construct {env : VaultEnv} {asset operator maker : Address} {limit : ℕ}
    {t : A.State} (hmaker : maker ≠ env.current)
    (h : Returns (construct asset operator maker limit) env ⟨Storage.blank, t⟩ () v) :
    Accounted env.current v := by
  obtain ⟨-, -, hfund⟩ := construct_returns h
  unfold construct at h
  simp only [returns_bind, returns_requireAuth, returns_failIf, returns_set, exists_eq_left,
    exists_and_left, and_assoc, exists_const] at h
  obtain ⟨-, -, -, rfl⟩ := h
  have hempty : HasTotal (fun _ : ℕ => (0 : I128).toInt) (0 : I128).toInt := HasTotal.zero
  have hnone : HasTotal (fun _ : Address => (0 : ℤ)) 0 := HasTotal.zero
  refine ⟨rfl, fun he => hmaker (Option.some.inj he),
    ⟨hempty, hempty, hempty, rfl, rfl, rfl⟩, fun s => ?_, fun s hs => ?_, fun s _ => ?_⟩
  · rw [hfund]
    refine ⟨?_, le_rfl, hnone, hnone, fun _ => le_rfl, fun _ => le_rfl, fun _ => rfl⟩
    show (0 : ℤ) ≤ if s = 0 then (A.balance t env.current).toInt else 0
    split_ifs
    · exact A.balance_nonneg _ _
    · exact le_rfl
  · rw [hfund]
    exact fun _ => if_neg hs
  · rw [hfund]

/-- **The run lemma.** -/
theorem accounted_run (as : List (Action A)) (hv : Accounted vault v) :
    Accounted vault (final (step vault) v as) :=
  final_of_inv (fun _ _ _ (_ : True) h hstep => accounted_step h hstep) hv fun _ _ => trivial

/-- A total of a key that vanishes outside the known series is the sum over these. -/
theorem sum_known {f : ℕ → I128} {total : I128} {last : ℕ}
    (h : HasTotal (fun s => (f s).toInt) total.toInt) (hzero : f 0 = 0)
    (hfresh : ∀ s, last < s → (f s).toInt = 0) :
    ∑ s ∈ Finset.Icc 1 last, (f s).toInt = total.toInt := by
  refine h.sum_eq fun s hs => ?_
  rw [Finset.mem_Icc, not_and_or, not_le, not_le] at hs
  rcases hs with hs | hs
  · obtain rfl : s = 0 := by omega
    rw [hzero]
    rfl
  · exact hfresh s hs

namespace Accounted

/-- The keys of a series above the current one are zero. -/
theorem unknown (h : Accounted vault v) {s : ℕ} (hs : v.storage.current < s) :
    (v.storage.seriesLiquid s).toInt = 0 ∧ (v.storage.seriesPrincipal s).toInt = 0 ∧
      (v.storage.seriesSupply s).toInt = 0 := by
  have hpos : s ≠ 0 := by omega
  have hsupply := h.fresh s hs
  have hliquid : v.liquidOf vault s = 0 := h.closed s hpos hsupply
  have hprincipal : (v.storage.principalOf s).toInt = 0 := (h.sound s).lent hsupply
  have hsupply : (v.storage.supplyOf s).toInt = 0 := hsupply
  unfold Vault.liquidOf at hliquid
  unfold Storage.principalOf at hprincipal
  unfold Storage.supplyOf at hsupply
  rw [if_neg hpos] at hliquid hprincipal hsupply
  exact ⟨hliquid, hprincipal, hsupply⟩

/-- Every series above 0 has liquid assets that are not negative, and so has their total. -/
theorem otherSeriesLiquid_nonneg (h : Accounted vault v) :
    0 ≤ v.storage.otherSeriesLiquid.toInt := by
  refine h.aggregated.liquid.nonneg fun s => ?_
  by_cases hs : s = 0
  · rw [hs, h.aggregated.liquid_zero]
    exact le_rfl
  · have hliquid := (h.sound s).liquid
    rwa [show (v.fund vault s).liquid = (v.storage.seriesLiquid s).toInt from if_neg hs] at hliquid

/-- The liquid assets of series 0 can be read. -/
theorem seriesLiquid_zero (h : Accounted vault v) (signers : List Address) :
    ∃ amount : I128, Returns (seriesLiquid 0) ⟨signers, vault⟩ v amount v ∧ 0 ≤ amount.toInt := by
  have hliquid := (h.sound 0).liquid
  have hother := h.otherSeriesLiquid_nonneg
  have hbound := BitVec.toInt_lt (x := A.balance v.tokens vault)
  have hvalue : v.liquidOf vault 0 =
      (A.balance v.tokens vault).toInt - v.storage.otherSeriesLiquid.toInt := if_pos rfl
  have hnonneg : 0 ≤ v.liquidOf vault 0 := hliquid
  have hamount : I128.ofInt? (v.liquidOf vault 0) = some (BitVec.ofInt 128 (v.liquidOf vault 0)) :=
    if_pos ⟨by omega, by omega⟩
  rw [I128.ofInt?_eq_some] at hamount
  have hread : 0 ≤ (BitVec.ofInt 128 (v.liquidOf vault 0)).toInt := hnonneg.trans hamount.ge
  refine ⟨BitVec.ofInt 128 (v.liquidOf vault 0), ?_, hread⟩
  exact returns_seriesLiquid.mpr ⟨h.asset, Nat.zero_le _, hamount, fun _ => hread, rfl⟩

end Accounted

/-- **The books of every reachable vault.** The series above 0 add up to the totals of the other
series, and the tokens of the vault cover their liquid assets, so that those of series 0 can be read
and are not negative. In every series the shares of the owners add up to the supply, and their
pending shares to the pending total; nobody has more pending shares than shares; and a series
without shares has lent nothing and, above 0, has nothing liquid. -/
theorem vault_accounting {vault asset operator maker : Address} {limit : ℕ}
    {signers : List Address} {t : A.State} {v₀ : Vault A} (hmaker : maker ≠ vault)
    (hdeploy : Returns (construct asset operator maker limit) ⟨signers, vault⟩ ⟨Storage.blank, t⟩ ()
      v₀) (as : List (Action A)) :
    let v := final (step vault) v₀ as
    (∑ s ∈ Finset.Icc 1 v.storage.current, (v.storage.seriesLiquid s).toInt =
        v.storage.otherSeriesLiquid.toInt ∧
      ∑ s ∈ Finset.Icc 1 v.storage.current, (v.storage.seriesPrincipal s).toInt =
        v.storage.otherSeriesPrincipal.toInt ∧
      ∑ s ∈ Finset.Icc 1 v.storage.current, (v.storage.seriesSupply s).toInt =
        v.storage.otherSeriesShares.toInt) ∧
    v.storage.otherSeriesLiquid.toInt ≤ (A.balance v.tokens vault).toInt ∧
    (∀ readers, ∃ amount : I128,
      Returns (seriesLiquid 0) ⟨readers, vault⟩ v amount v ∧ 0 ≤ amount.toInt) ∧
    ∀ series,
      HasTotal (fun owner => (v.storage.sharesOf series owner).toInt)
        (v.storage.supplyOf series).toInt ∧
      HasTotal (fun owner => (v.storage.pendingOf series owner).toInt)
        (v.storage.seriesPendingTotal series).toInt ∧
      (∀ owner, 0 ≤ (v.storage.pendingOf series owner).toInt ∧
        (v.storage.pendingOf series owner).toInt ≤ (v.storage.sharesOf series owner).toInt) ∧
      (v.storage.supplyOf series = 0 → v.storage.principalOf series = 0 ∧
        (series ≠ 0 → v.storage.seriesLiquid series = 0)) := by
  intro v
  have hv : Accounted vault v := accounted_run as (accounted_construct hmaker hdeploy)
  have hcover : 0 ≤ (A.balance v.tokens vault).toInt - v.storage.otherSeriesLiquid.toInt :=
    (hv.sound 0).liquid
  refine ⟨⟨?_, ?_, ?_⟩, by omega, hv.seriesLiquid_zero, fun series => ?_⟩
  · exact sum_known hv.aggregated.liquid hv.aggregated.liquid_zero fun s hs => (hv.unknown hs).1
  · exact sum_known hv.aggregated.principal hv.aggregated.principal_zero
      fun s hs => (hv.unknown hs).2.1
  · exact sum_known hv.aggregated.supply hv.aggregated.supply_zero fun s hs => (hv.unknown hs).2.2
  have hsound := hv.sound series
  refine ⟨hsound.shares, hsound.pending,
    fun owner => ⟨hsound.pending_nonneg owner, hsound.pending_le owner⟩, fun hsupply => ?_⟩
  have hnone : (v.fund vault series).supply = 0 := congrArg BitVec.toInt hsupply
  refine ⟨BitVec.toInt_inj.mp (hsound.lent hnone), fun hseries => BitVec.toInt_inj.mp ?_⟩
  have hliquid := hv.closed series hseries hnone
  rwa [show (v.fund vault series).liquid = (v.storage.seriesLiquid series).toInt from
    if_neg hseries] at hliquid

end Runs

/-! ## A vault in use -/

def sampleOperator : Address := .account 1

def sampleOwner : Address := .account 2

/-- The operator is the maker. -/
def deployedVault : Vault sampleAsset where
  storage :=
    { Storage.blank with
      asset := some (.contract 2)
      operator := some sampleOperator
      maker := some sampleOperator
      paused := some true
      allocationLimitBps := some 5000 }
  tokens := sampleTokens

/-- While assets of series 0 are lent out, the next deposit opens series 1. It is lent out too,
loses, and has a withdrawal pending. -/
def sampleVaultRun : List (Action sampleAsset) :=
  [.invoke [sampleOperator] (.setPaused false),
    .invoke [sampleOwner] (.deposit sampleOwner 0 200 0),
    .invoke [sampleOperator] (.allocate 0 80),
    .invoke [sampleOwner] (.deposit sampleOwner 1 100 0),
    .invoke [sampleOperator] (.allocate 1 40),
    .invoke [sampleOperator] (.settle 0 80 90),
    .invoke [sampleOperator] (.recordLoss 1 10),
    .invoke [sampleOwner] (.requestWithdraw sampleOwner 1 60),
    .invoke [sampleOwner] (.withdraw sampleOwner 0 50 0)]

theorem sampleVault_accounting :
    let v := final (step sampleVault) deployedVault sampleVaultRun
    (v.storage.current, v.storage.otherSeriesLiquid, v.storage.otherSeriesPrincipal,
      v.storage.pendingOf 1 sampleOwner) = (1, 60, 30, 60) ∧
    v.storage.otherSeriesLiquid.toInt ≤ (sampleAsset.balance v.tokens sampleVault).toInt ∧
    HasTotal (fun owner => (v.storage.sharesOf 1 owner).toInt) (v.storage.supplyOf 1).toInt := by
  have h := @vault_accounting sampleAsset sampleVault (.contract 2) sampleOperator sampleOperator
    5000 [sampleOperator] sampleTokens deployedVault (by decide) rfl sampleVaultRun
  exact ⟨by decide +kernel, h.2.1, (h.2.2.2 1).1⟩

end Pnlx.LiquidityVault
