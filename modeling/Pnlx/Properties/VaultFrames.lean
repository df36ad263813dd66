import Pnlx.Properties.VaultEffects

/-!
# What the calls of the vault keep

The totals that the vault stores for the series above 0 are kept by each write of its own
(`Aggregated`), and no call touches the configuration of the asset and the maker. A call respects
whatever its writes respect (`RespectsWrites`); only `deposit` also writes the current series.
-/

namespace Pnlx.LiquidityVault

open Program

variable {A : Asset}

/-! ## The stored totals -/

/-- The totals of the series above 0 are the sums of what is stored for them. -/
structure Storage.Aggregated (s : Storage) : Prop where
  liquid : HasTotal (fun series => (s.seriesLiquid series).toInt) s.otherSeriesLiquid.toInt
  principal : HasTotal (fun series => (s.seriesPrincipal series).toInt) s.otherSeriesPrincipal.toInt
  supply : HasTotal (fun series => (s.seriesSupply series).toInt) s.otherSeriesShares.toInt
  liquid_zero : s.seriesLiquid 0 = 0
  principal_zero : s.seriesPrincipal 0 = 0
  supply_zero : s.seriesSupply 0 = 0

/-- The total after a write of the amount of one series. -/
theorem hasTotal_write {f : ℕ → I128} {total next value : I128} {series : ℕ}
    (h : HasTotal (fun s => (f s).toInt) total.toInt)
    (hnext : next.toInt = total.toInt + (value.toInt - (f series).toInt)) :
    HasTotal (fun s => (Function.update f series value s).toInt) next.toInt := by
  have hfun : (fun s => (Function.update f series value s).toInt) =
      Function.update (fun s => (f s).toInt) series value.toInt := by
    funext s
    by_cases hs : s = series
    · subst hs
      rw [Function.update_self, Function.update_self]
    · rw [Function.update_of_ne hs, Function.update_of_ne hs]
  rw [hfun, hnext]
  exact h.update series value.toInt

/-- The configuration stays, and so do correct totals. -/
structure Kept (v v' : Vault A) : Prop where
  asset : v'.storage.asset = v.storage.asset
  maker : v'.storage.maker = v.storage.maker
  aggregated : v.storage.Aggregated → v'.storage.Aggregated

instance : Std.Refl (Kept (A := A)) := ⟨fun _ => ⟨rfl, rfl, id⟩⟩

instance : IsTrans (Vault A) Kept :=
  ⟨fun _ _ _ h h' => ⟨h'.asset.trans h.asset, h'.maker.trans h.maker, h'.aggregated ∘ h.aggregated⟩⟩

/-- The known series stay. -/
def SameSeries (v v' : Vault A) : Prop := v'.storage.current = v.storage.current

instance : Std.Refl (SameSeries (A := A)) := ⟨fun _ => rfl⟩

instance : IsTrans (Vault A) SameSeries := ⟨fun _ _ _ h h' => h'.trans h⟩

/-- The allocation limit stays. -/
def SameLimit (v v' : Vault A) : Prop :=
  v'.storage.allocationLimitBps = v.storage.allocationLimitBps

instance : Std.Refl (SameLimit (A := A)) := ⟨fun _ => rfl⟩

instance : IsTrans (Vault A) SameLimit := ⟨fun _ _ _ h h' => h'.trans h⟩

/-- Only the books change. -/
def SameSettings (v v' : Vault A) : Prop :=
  v'.storage = { v.storage with
    deployedPrincipal := v'.storage.deployedPrincipal
    totalShares := v'.storage.totalShares
    shares := v'.storage.shares
    pendingShares := v'.storage.pendingShares
    otherSeriesLiquid := v'.storage.otherSeriesLiquid
    otherSeriesPrincipal := v'.storage.otherSeriesPrincipal
    otherSeriesShares := v'.storage.otherSeriesShares
    seriesLiquid := v'.storage.seriesLiquid
    seriesPrincipal := v'.storage.seriesPrincipal
    seriesSupply := v'.storage.seriesSupply
    seriesShares := v'.storage.seriesShares
    seriesPendingShares := v'.storage.seriesPendingShares
    seriesPendingTotal := v'.storage.seriesPendingTotal }

section Respects

variable {R : Vault A → Vault A → Prop} [Std.Refl R] [IsTrans _ R] {α : Type} {series : ℕ}
  {owner : Address} {value : I128}

instance {key : Storage → α} : Respects R (get key : VaultCall A α) :=
  Respects.of_eq fun h => (returns_get.mp h).2

instance {key : Storage → Option α} {message : String} :
    Respects R (required key message : VaultCall A α) := by
  unfold required
  infer_instance

instance {address : Address} : Respects R (requireAuth address : VaultCall A Unit) := by
  unfold requireAuth
  infer_instance

instance : Respects R (currentContract : VaultCall A Address) :=
  Respects.of_eq fun h => (returns_currentContract.mp h).2

instance : Respects R (callBalance : VaultCall A I128) :=
  Respects.of_eq fun {env _ _ _} h => (returns_pure (r := env) |>.mp h).2

instance {left right : I128} : Respects R (checkedAdd left right : VaultCall A I128) :=
  Respects.unwrapOr

instance {left right : I128} : Respects R (checkedSub left right : VaultCall A I128) :=
  Respects.unwrapOr

instance {left right : I128} : Respects R (sub left right : VaultCall A I128) := Respects.unwrapOr

instance {left right denominator : I128} :
    Respects R (mulDivFloor left right denominator : VaultCall A I128) := by
  unfold mulDivFloor
  infer_instance

instance : Respects R (asset : VaultCall A Address) := by unfold asset; infer_instance

instance : Respects R (operator : VaultCall A Address) := by unfold operator; infer_instance

instance : Respects R (maker : VaultCall A Address) := by unfold maker; infer_instance

instance : Respects R (upgradeAuthority : VaultCall A Address) := by
  unfold upgradeAuthority
  infer_instance

instance : Respects R (paused : VaultCall A Bool) := by unfold paused; infer_instance

instance : Respects R (allocationLimitBps : VaultCall A ℕ) := by
  unfold allocationLimitBps
  infer_instance

instance : Respects R (liquidAssets : VaultCall A I128) := by unfold liquidAssets; infer_instance

instance : Respects R (deployedPrincipal : VaultCall A I128) := by
  unfold deployedPrincipal
  infer_instance

instance : Respects R (totalShares : VaultCall A I128) := by unfold totalShares; infer_instance

instance : Respects R (deposited owner : VaultCall A I128) := by unfold deposited; infer_instance

instance : Respects R (withdrawn owner : VaultCall A I128) := by unfold withdrawn; infer_instance

instance : Respects R (totalAssets : VaultCall A I128) := by unfold totalAssets; infer_instance

instance : Respects R (currentSeries : VaultCall A ℕ) := by unfold currentSeries; infer_instance

instance : Respects R (checkSeries series : VaultCall A Unit) := by
  unfold checkSeries
  infer_instance

instance : Respects R (seriesLiquid series : VaultCall A I128) := by
  unfold seriesLiquid
  infer_instance

instance : Respects R (seriesPrincipal series : VaultCall A I128) := by
  unfold seriesPrincipal
  infer_instance

instance : Respects R (seriesPendingTotal series : VaultCall A I128) := by
  unfold seriesPendingTotal
  infer_instance

instance : Respects R (seriesAssets series : VaultCall A I128) := by
  unfold seriesAssets
  infer_instance

instance : Respects R (seriesTotalShares series : VaultCall A I128) := by
  unfold seriesTotalShares
  infer_instance

instance : Respects R (seriesShares series owner : VaultCall A I128) := by
  unfold seriesShares
  infer_instance

instance : Respects R (seriesPendingShares series owner : VaultCall A I128) := by
  unfold seriesPendingShares
  infer_instance

instance : Respects R (depositSeries : VaultCall A ℕ) := by unfold depositSeries; infer_instance

instance {amount assets supply : I128} :
    Respects R (mintedShares amount assets supply : VaultCall A I128) := by
  unfold mintedShares
  infer_instance

end Respects

/-! ### The calls respect what their writes respect -/

/-- The writes of the books respect the relation. -/
class RespectsBooks (R : Vault A → Vault A → Prop) : Prop where
  transfer : ∀ sender recipient value, Respects R (transfer sender recipient value)
  liquid : ∀ series value, Respects R (setSeriesLiquid series value)
  principal : ∀ series value, Respects R (setSeriesPrincipal series value)
  supply : ∀ series value, Respects R (setSeriesSupply series value)
  shares : ∀ series owner value, Respects R (setShares series owner value)
  pending : ∀ series owner value, Respects R (setPending series owner value)
  pendingTotal : ∀ series value, Respects R (setPendingTotal series value)

/-- So do the writes of what is recorded of the owners. -/
class RespectsRecords (R : Vault A → Vault A → Prop) : Prop extends RespectsBooks R where
  record : ∀ f : Storage → Storage, (∀ s, f s = { s with
    deposited := (f s).deposited
    withdrawn := (f s).withdrawn
    ownerSeries := (f s).ownerSeries }) → Respects R (set f)

/-- Every write of the calls respects the relation, but for that of the current series. -/
class RespectsWrites (R : Vault A → Vault A → Prop) : Prop where
  transfer : ∀ sender recipient value, Respects R (transfer sender recipient value)
  liquid : ∀ series value, Respects R (setSeriesLiquid series value)
  principal : ∀ series value, Respects R (setSeriesPrincipal series value)
  supply : ∀ series value, Respects R (setSeriesSupply series value)
  shares : ∀ series owner value, Respects R (setShares series owner value)
  pending : ∀ series owner value, Respects R (setPending series owner value)
  pendingTotal : ∀ series value, Respects R (setPendingTotal series value)
  /-- The keys that are no part of the books. -/
  other : ∀ f : Storage → Storage, (∀ s, f s = { s with
    upgradeAuthority := (f s).upgradeAuthority
    paused := (f s).paused
    allocationLimitBps := (f s).allocationLimitBps
    deposited := (f s).deposited
    withdrawn := (f s).withdrawn
    ownerSeries := (f s).ownerSeries }) → Respects R (set f)

instance {R : Vault A → Vault A → Prop} [hR : RespectsWrites R] : RespectsRecords R where
  transfer := hR.transfer
  liquid := hR.liquid
  principal := hR.principal
  supply := hR.supply
  shares := hR.shares
  pending := hR.pending
  pendingTotal := hR.pendingTotal
  record f hf := hR.other f fun s => by rw [hf s]

section Calls

variable {R : Vault A → Vault A → Prop} [Std.Refl R] [IsTrans _ R] {series : ℕ}
  {owner sender recipient : Address} {value : I128}

section Books

variable [hR : RespectsBooks R]

instance : Respects R (transfer sender recipient value) := hR.transfer sender recipient value

instance : Respects R (setSeriesLiquid series value) := hR.liquid series value

instance : Respects R (setSeriesPrincipal series value) := hR.principal series value

instance : Respects R (setSeriesSupply series value) := hR.supply series value

instance : Respects R (setShares series owner value) := hR.shares series owner value

instance : Respects R (setPending series owner value) := hR.pending series owner value

instance : Respects R (setPendingTotal series value) := hR.pendingTotal series value

instance {amount : I128} : Respects R (allocate series amount) := by
  unfold allocate
  repeat refine Respects.andThen inferInstance fun _ => ?_
  infer_instance

instance {principal returned : I128} : Respects R (settle series principal returned) := by
  unfold settle
  repeat refine Respects.andThen inferInstance fun _ => ?_
  infer_instance

instance {principal : I128} : Respects R (recordLoss series principal) := by
  unfold recordLoss
  infer_instance

instance : Respects R (recoverUnowned recipient) := by
  unfold recoverUnowned
  repeat refine Respects.andThen inferInstance fun _ => ?_
  infer_instance

instance {shares : I128} : Respects R (requestWithdraw owner series shares) := by
  unfold requestWithdraw
  repeat refine Respects.andThen inferInstance fun _ => ?_
  infer_instance

instance {shares : I128} : Respects R (cancelWithdrawRequest owner series shares) := by
  unfold cancelWithdrawRequest
  repeat refine Respects.andThen inferInstance fun _ => ?_
  infer_instance

end Books

section Records

variable [hR : RespectsRecords R]

instance : Respects R (pruneOwnerSeries owner series) := by
  have hset : Respects R (set fun s => { s with
      ownerSeries := Function.update s.ownerSeries owner
        ((s.ownerSeries owner).filter (· ≠ series)) }) := hR.record _ fun _ => rfl
  unfold pruneOwnerSeries
  infer_instance

instance {shares minAssets : I128} : Respects R (redeem owner series shares minAssets) := by
  have hset (withdrawals : I128) : Respects R (set fun s => { s with
      withdrawn := Function.update s.withdrawn owner withdrawals }) := hR.record _ fun _ => rfl
  unfold redeem
  repeat refine Respects.andThen inferInstance fun _ => ?_
  infer_instance

instance {shares minAssets : I128} : Respects R (withdraw owner series shares minAssets) := by
  unfold withdraw
  repeat refine Respects.andThen inferInstance fun _ => ?_
  infer_instance

instance {minAssets : I128} : Respects R (claimWithdrawal owner series minAssets) := by
  unfold claimWithdrawal
  repeat refine Respects.andThen inferInstance fun _ => ?_
  infer_instance

theorem respects_deposit {amount minShares : I128}
    (hcurrent : Respects R (set fun s => { s with currentSeries := some series })) :
    Respects R (deposit owner series amount minShares) := by
  have hdeposited (deposits : I128) : Respects R (set fun s => { s with
      deposited := Function.update s.deposited owner deposits }) := hR.record _ fun _ => rfl
  have hseries : Respects R (set fun s => { s with
      ownerSeries := Function.update s.ownerSeries owner
        (if series ∈ s.ownerSeries owner then s.ownerSeries owner
          else s.ownerSeries owner ++ [series]) }) := hR.record _ fun _ => rfl
  unfold deposit
  repeat refine Respects.andThen inferInstance fun _ => ?_
  infer_instance

end Records

/-- The calls other than `deposit`. -/
theorem respects_run [hR : RespectsWrites R] {call : Call}
    (hdeposit : ∀ owner series amount minShares, call ≠ .deposit owner series amount minShares) :
    Respects R call.run := by
  cases call with
  | setUpgradeAuthority authority =>
    show Respects R (setUpgradeAuthority authority)
    unfold setUpgradeAuthority
    repeat refine Respects.andThen inferInstance fun _ => ?_
    exact hR.other _ fun _ => rfl
  | rotateUpgradeAuthority authority =>
    show Respects R (rotateUpgradeAuthority authority)
    unfold rotateUpgradeAuthority
    repeat refine Respects.andThen inferInstance fun _ => ?_
    exact hR.other _ fun _ => rfl
  | setPaused paused =>
    show Respects R (setPaused paused)
    unfold setPaused
    repeat refine Respects.andThen inferInstance fun _ => ?_
    exact hR.other _ fun _ => rfl
  | setAllocationLimit limit =>
    show Respects R (setAllocationLimit limit)
    unfold setAllocationLimit
    repeat refine Respects.andThen inferInstance fun _ => ?_
    exact hR.other _ fun _ => rfl
  | allocate series amount => exact inferInstanceAs (Respects R (allocate series amount))
  | settle series principal returned =>
    exact inferInstanceAs (Respects R (settle series principal returned))
  | recordLoss series principal => exact inferInstanceAs (Respects R (recordLoss series principal))
  | recoverUnowned recipient => exact Respects.bind
  | deposit owner series amount minShares => exact absurd rfl (hdeposit _ _ _ _)
  | withdraw owner series shares minAssets => exact Respects.bind
  | requestWithdraw owner series shares =>
    exact inferInstanceAs (Respects R (requestWithdraw owner series shares))
  | cancelWithdrawRequest owner series shares =>
    exact inferInstanceAs (Respects R (cancelWithdrawRequest owner series shares))
  | claimWithdrawal owner series minAssets => exact Respects.bind

end Calls

/-- A write that touches neither the configuration nor the totals. -/
theorem kept_set {f : Storage → Storage} (hf : ∀ s, f s = { s with
      upgradeAuthority := (f s).upgradeAuthority
      paused := (f s).paused
      allocationLimitBps := (f s).allocationLimitBps
      deployedPrincipal := (f s).deployedPrincipal
      totalShares := (f s).totalShares
      shares := (f s).shares
      pendingShares := (f s).pendingShares
      deposited := (f s).deposited
      withdrawn := (f s).withdrawn
      currentSeries := (f s).currentSeries
      seriesShares := (f s).seriesShares
      seriesPendingShares := (f s).seriesPendingShares
      ownerSeries := (f s).ownerSeries
      seriesPendingTotal := (f s).seriesPendingTotal }) :
    Respects Kept (set f : VaultCall A Unit) where
  rel {_ v _ _} h := by
    rw [returns_set.mp h, hf]
    exact ⟨rfl, rfl, fun h => ⟨h.liquid, h.principal, h.supply, h.liquid_zero, h.principal_zero,
      h.supply_zero⟩⟩

instance : RespectsWrites (Kept (A := A)) where
  transfer _ _ _ := ⟨fun h => by
    have hstorage := (transfer_returns h).1
    exact ⟨by rw [hstorage], by rw [hstorage], fun h => hstorage ▸ h⟩⟩
  liquid _ _ := ⟨fun h => by
    obtain ⟨hseries, -, next, hnext, rfl⟩ := setSeriesLiquid_returns h
    exact ⟨rfl, rfl, fun h => ⟨hasTotal_write h.liquid hnext, h.principal, h.supply,
      (Function.update_of_ne (Ne.symm hseries) _ _).trans h.liquid_zero, h.principal_zero,
      h.supply_zero⟩⟩⟩
  principal _ _ := ⟨fun h => by
    obtain ⟨-, ⟨-, rfl⟩ | ⟨hseries, next, hnext, rfl⟩⟩ := setSeriesPrincipal_returns h
    · exact ⟨rfl, rfl, fun h => ⟨h.liquid, h.principal, h.supply, h.liquid_zero, h.principal_zero,
        h.supply_zero⟩⟩
    · exact ⟨rfl, rfl, fun h => ⟨h.liquid, hasTotal_write h.principal hnext, h.supply,
        h.liquid_zero, (Function.update_of_ne (Ne.symm hseries) _ _).trans h.principal_zero,
        h.supply_zero⟩⟩⟩
  supply _ _ := ⟨fun h => by
    obtain ⟨-, ⟨-, rfl⟩ | ⟨hseries, next, hnext, rfl⟩⟩ := setSeriesSupply_returns h
    · exact ⟨rfl, rfl, fun h => ⟨h.liquid, h.principal, h.supply, h.liquid_zero, h.principal_zero,
        h.supply_zero⟩⟩
    · exact ⟨rfl, rfl, fun h => ⟨h.liquid, h.principal, hasTotal_write h.supply hnext,
        h.liquid_zero, h.principal_zero,
        (Function.update_of_ne (Ne.symm hseries) _ _).trans h.supply_zero⟩⟩⟩
  shares series _ _ := kept_set fun _ => by
    by_cases hs : series = 0
    · simp only [hs, if_pos]
    · simp only [hs, if_false]
  pending series _ _ := kept_set fun _ => by
    by_cases hs : series = 0
    · simp only [hs, if_pos]
    · simp only [hs, if_false]
  pendingTotal _ _ := kept_set fun _ => rfl
  other f hf := kept_set fun s => by rw [hf s]

/-- A relation that does not see the books is respected by their writes. -/
theorem RespectsBooks.of_settings {R : Vault A → Vault A → Prop}
    (hR : ∀ v v', SameSettings v v' → R v v') : RespectsBooks R where
  transfer _ _ _ := ⟨fun h => hR _ _ (by unfold SameSettings; rw [(transfer_returns h).1])⟩
  liquid _ _ := ⟨fun h => hR _ _ (by obtain ⟨-, -, next, -, rfl⟩ := setSeriesLiquid_returns h; rfl)⟩
  principal _ _ := ⟨fun h => hR _ _ (by
    obtain ⟨-, ⟨-, rfl⟩ | ⟨-, next, -, rfl⟩⟩ := setSeriesPrincipal_returns h
    · rfl
    · rfl)⟩
  supply _ _ := ⟨fun h => hR _ _ (by
    obtain ⟨-, ⟨-, rfl⟩ | ⟨-, next, -, rfl⟩⟩ := setSeriesSupply_returns h
    · rfl
    · rfl)⟩
  shares series _ _ := ⟨fun h => hR _ _ (by
    rw [returns_set.mp h]
    by_cases hs : series = 0
    · simp only [hs, if_pos]
      rfl
    · simp only [hs, if_false]
      rfl)⟩
  pending series _ _ := ⟨fun h => hR _ _ (by
    rw [returns_set.mp h]
    by_cases hs : series = 0
    · simp only [hs, if_pos]
      rfl
    · simp only [hs, if_false]
      rfl)⟩
  pendingTotal _ _ := ⟨fun h => hR _ _ (by rw [returns_set.mp h]; rfl)⟩

instance : RespectsWrites (SameSeries (A := A)) :=
  have hbooks : RespectsBooks (SameSeries (A := A)) := RespectsBooks.of_settings fun v v' h => by
    show v'.storage.currentSeries.getD 0 = v.storage.currentSeries.getD 0
    rw [h]
  { transfer := hbooks.transfer
    liquid := hbooks.liquid
    principal := hbooks.principal
    supply := hbooks.supply
    shares := hbooks.shares
    pending := hbooks.pending
    pendingTotal := hbooks.pendingTotal
    other := fun f hf => ⟨fun h => by rw [returns_set.mp h, hf]; rfl⟩ }

instance : RespectsRecords (SameLimit (A := A)) where
  toRespectsBooks := RespectsBooks.of_settings fun v v' h => by
    show v'.storage.allocationLimitBps = v.storage.allocationLimitBps
    rw [h]
  record f hf := ⟨fun h => by rw [returns_set.mp h, hf]; rfl⟩

/-- Every call keeps the configuration and correct totals. -/
instance kept_run {call : Call} : Respects Kept (call.run : VaultCall A Unit) := by
  by_cases hcall : ∃ owner series amount minShares, call = .deposit owner series amount minShares
  · obtain ⟨owner, series, amount, minShares, rfl⟩ := hcall
    have hdeposit : Respects Kept (deposit owner series amount minShares : VaultCall A I128) :=
      respects_deposit (kept_set fun _ => rfl)
    exact Respects.bind
  · exact respects_run fun o s a m h => hcall ⟨o, s, a, m, h⟩

end Pnlx.LiquidityVault
