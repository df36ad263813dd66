import Pnlx.Properties.VaultFrames

/-!
# The moves of the vault

Every call of the vault but those of its administration is a move of the fund of one series, on the
terms of the fund (`Performs`). There is one lemma for each call, with its series and its move.
-/

namespace Pnlx.LiquidityVault

open Program

variable {A : Asset}

/-! ## The invariant -/

/-- The books of the vault are in order. -/
structure Accounted (vault : Address) (v : Vault A) : Prop where
  asset : v.storage.asset.isSome
  maker : v.storage.maker ≠ some vault
  aggregated : v.storage.Aggregated
  sound : ∀ series, (v.fund vault series).Sound
  closed : ∀ series, series ≠ 0 → (v.fund vault series).Closed
  fresh : ∀ series, v.storage.current < series → (v.fund vault series).supply = 0

namespace Accounted

variable {vault : Address} {v : Vault A}

theorem seriesSupply_nonneg (h : Accounted vault v) (series : ℕ) :
    0 ≤ (v.storage.seriesSupply series).toInt := by
  by_cases hzero : series = 0
  · rw [hzero, h.aggregated.supply_zero]
    exact le_rfl
  · have hsupply := (h.sound series).supply_nonneg
    rwa [show (v.fund vault series).supply = (v.storage.seriesSupply series).toInt from
      congrArg BitVec.toInt (if_neg hzero)] at hsupply

/-- When nobody has shares, no series above 0 has anything liquid. -/
theorem otherSeriesLiquid_eq_zero (h : Accounted vault v)
    (hshares : v.storage.totalShares.toInt + v.storage.otherSeriesShares.toInt = 0) :
    v.storage.otherSeriesLiquid.toInt = 0 := by
  have hlegacy : 0 ≤ v.storage.totalShares.toInt := (h.sound 0).supply_nonneg
  have hother := h.aggregated.supply.nonneg h.seriesSupply_nonneg
  have htotal : v.storage.otherSeriesShares.toInt = 0 := by omega
  have hnone := (htotal ▸ h.aggregated.supply).eq_zero h.seriesSupply_nonneg
  rw [← h.aggregated.liquid.sum]
  refine finsum_eq_zero_of_forall_eq_zero fun series => ?_
  by_cases hzero : series = 0
  · rw [hzero, h.aggregated.liquid_zero]
    rfl
  · have hclosed := h.closed series hzero
    unfold Fund.Closed at hclosed
    simp only [Vault.fund, Storage.supplyOf, Vault.liquidOf, if_neg hzero] at hclosed
    exact hclosed (hnone series)

end Accounted

/-! ## Performing a move -/

/-- What is recorded after a move of a series that leaves it the fund `f`. An owner is pruned from
a series above 0 that has none of its shares left. -/
def Records.after (r : Records) (series : ℕ) (f : Fund Address) : Fund.Move Address → Records
  | .mint owner amount _ =>
    { r with
      deposited := Function.update r.deposited owner (r.deposited owner + amount)
      series := if series = 0 then r.series else
        Function.update r.series owner
          (if series ∈ r.series owner then r.series owner else r.series owner ++ [series]) }
  | .burn owner _ amount _ =>
    { r with
      withdrawn := Function.update r.withdrawn owner (r.withdrawn owner + amount)
      series := if series = 0 ∨ f.shares owner ≠ 0 ∨ f.pending owner ≠ 0 then r.series else
        Function.update r.series owner ((r.series owner).filter (· ≠ series)) }
  | _ => r

/-- The fund of a known series makes an allowed move on its terms, and the others stay. Only the
liquid assets of series 0 change from outside. -/
structure Performs (vault : Address) (series : ℕ) (m : Fund.Move Address) (v v' : Vault A) :
    Prop where
  grows : v.storage.current ≤ v'.storage.current
  known : series ≤ v'.storage.current
  allows : (v.fund vault series).Allows m
  terms : (v.fund vault series).Terms v.storage.limitAmount 10000 m
  internal : series ≠ 0 → ∀ liquid, m ≠ .float liquid
  fund : v'.fund vault = Function.update (v.fund vault) series ((v.fund vault series).apply m)
  records : v'.records = v.records.after series ((v.fund vault series).apply m) m

/-- What is recorded of the owners stays. -/
def SameRecords (v v' : Vault A) : Prop := v'.records = v.records

instance : Std.Refl (SameRecords (A := A)) := ⟨fun _ => rfl⟩

instance : IsTrans (Vault A) SameRecords := ⟨fun _ _ _ h h' => h'.trans h⟩

instance : RespectsBooks (SameRecords (A := A)) := RespectsBooks.of_settings fun v v' h => by
  unfold SameRecords Vault.records
  rw [h]

theorem eq_update {F F' : ℕ → Fund Address} {series : ℕ} {f : Fund Address} (hself : F' series = f)
    (hother : ∀ s, s ≠ series → F' s = F s) : F' = Function.update F series f := by
  funext s
  by_cases hs : s = series
  · subst hs
    rw [hself, Function.update_self]
  · rw [hother s hs, Function.update_of_ne hs]

section Calls

variable {env : VaultEnv} {v v' : Vault A} {u : Unit} {series : ℕ} {owner : Address}

theorem settle_performs {principal returned : I128} (hmaker : v.storage.maker ≠ some env.current)
    (h : Returns (settle series principal returned) env v u v') :
    Performs env.current series (.repay principal.toInt returned.toInt) v v' := by
  have hsame : SameSeries v v' := Respects.rel h
  have hrecords : SameRecords v v' := Respects.rel h
  unfold settle at h
  simp only [returns_bind, returns_operator, returns_requireAuth, returns_seriesPrincipal,
    returns_failIf, returns_maker, returns_currentContract, returns_sub, returns_doIf,
    returns_checkedAdd, returns_seriesLiquid, exists_eq_left, exists_and_left, and_assoc,
    exists_const, not_or, not_le, not_lt, gt_iff_lt] at h
  obtain ⟨_, -, -, -, -, hknown, hpos, hle, hreturned, maker, hm, _, v₁, htransfer, value, hvalue,
    _, v₂, hset, hliquid⟩ := h
  have hne : env.current ≠ maker := fun he => hmaker (by rw [he, hm])
  have hT := fund_transfer env.current htransfer
  have hP := fund_setSeriesPrincipal env.current hset
  simp only [if_neg hne, if_pos, ite_self, sub_zero] at hT
  refine ⟨hsame.ge, hsame ▸ hknown, ⟨hpos, hle, hreturned.le⟩, trivial,
    fun _ _ h => (by cases h), ?_, hrecords⟩
  rcases hliquid with ⟨hzero, -, -, l, hl, -, sum, hsum, hwrite⟩ | ⟨hzero, rfl⟩
  · have hL := fund_setSeriesLiquid env.current hwrite
    have hseries : series ≠ 0 := by omega
    have hshare : sum.toInt - v₂.liquidOf env.current series = returned.toInt := by omega
    rw [hshare] at hL
    refine eq_update ?_ fun s hs => ?_
    · rw [hL, hP, hT]
      simp only [if_pos, if_neg hseries, Fund.apply, hvalue, add_zero, sub_zero]
      rfl
    · -- series 0 gets the transfer and gives it to the series
      rw [hL, hP, hT]
      simp only [if_neg hs, add_zero, add_sub_cancel_right]
  · obtain rfl : series = 0 := by omega
    refine eq_update ?_ fun s hs => ?_
    · rw [hP, hT]
      simp only [if_pos, Fund.apply, hvalue]
      rfl
    · rw [hP, hT]
      simp only [if_neg hs, add_zero]

theorem recordLoss_performs {principal : I128}
    (h : Returns (recordLoss series principal) env v u v') :
    Performs env.current series (.repay principal.toInt 0) v v' := by
  have hsame : SameSeries v v' := Respects.rel h
  have hrecords : SameRecords v v' := Respects.rel h
  unfold recordLoss at h
  simp only [returns_bind, returns_operator, returns_requireAuth, returns_seriesPrincipal,
    returns_failIf, returns_sub, exists_eq_left, exists_and_left, and_assoc, exists_const, not_or,
    not_le, not_lt, gt_iff_lt] at h
  obtain ⟨_, -, -, -, -, hknown, hpos, hle, value, hvalue, hset⟩ := h
  have hP := fund_setSeriesPrincipal env.current hset
  refine ⟨hsame.ge, hsame ▸ hknown, ⟨hpos, hle, le_rfl⟩, trivial, fun _ _ h => (by cases h),
    eq_update ?_ fun s hs => ?_, hrecords⟩
  · rw [hP]
    simp only [if_pos, Fund.apply, hvalue, add_zero]
    rfl
  · rw [hP]
    simp only [if_neg hs]

/-- The cap of a loan, rounded down, bounds what is lent as the exact one does. -/
theorem cap_returns {limit assets cap : I128} {w : Vault A} {next : ℤ}
    (h : Returns (mulDivFloor assets limit 10000 : VaultCall A I128) env v cap w)
    (hle : next ≤ cap.toInt) : next * 10000 ≤ limit.toInt * assets.toInt := by
  obtain ⟨⟨-, -, -, hcap⟩, -⟩ := mulDivFloor_returns h
  rw [show (10000 : I128).toInt = 10000 from rfl] at hcap
  calc next * 10000 ≤ cap.toInt * 10000 := mul_le_mul_of_nonneg_right hle (by norm_num)
    _ ≤ assets.toInt * limit.toInt := by
      rw [hcap]
      exact Int.ediv_mul_le _ (by norm_num)
    _ = limit.toInt * assets.toInt := mul_comm _ _

theorem allocate_performs {amount : I128} (hmaker : v.storage.maker ≠ some env.current)
    (h : Returns (allocate series amount) env v u v') :
    Performs env.current series (.lend amount.toInt) v v' := by
  have hsame : SameSeries v v' := Respects.rel h
  have hrecords : SameRecords v v' := Respects.rel h
  unfold allocate at h
  simp only [returns_bind, returns_operator, returns_requireAuth, returns_currentSeries,
    returns_seriesTotalShares, returns_seriesPendingTotal, returns_seriesPrincipal,
    returns_allocationLimitBps, returns_seriesAssets,
    returns_failIf, returns_maker, returns_currentContract, returns_checkedAdd,
    returns_checkedSub, returns_doIf, returns_seriesLiquid, exists_eq_left, exists_and_left,
    and_assoc, exists_const, not_or, not_le, not_lt, gt_iff_lt] at h
  obtain ⟨_, -, -, -, -, -, hpos, -, hknown, hsupply, -, -, -, -, -, next, hnext, -, _, _, hassets,
    _, _, hcap, -, -, assets, hsum, -, -, seriesCap, _, hseriesCap, _, _, hdeployed, _, -, -, hbelow,
    -, -, _, hl, -, hle, maker, hm, _, v₁, htransfer, _, v₂, hset, hliquid⟩ := h
  obtain rfl := ReadOnly.eq hassets
  obtain rfl := ReadOnly.eq hcap
  obtain rfl := ReadOnly.eq hseriesCap
  obtain rfl := ReadOnly.eq hdeployed
  have hne : env.current ≠ maker := fun he => hmaker (by rw [he, hm])
  have hT := fund_transfer env.current htransfer
  have hP := fund_setSeriesPrincipal env.current hset
  simp only [if_neg hne, if_pos, ite_self, add_zero] at hT
  refine ⟨hsame.ge, hsame ▸ hknown, ⟨hpos.le, hle.trans hl.le, fun hzero => ?_⟩, ?_,
    fun _ _ h => (by cases h), ?_, hrecords⟩
  · exact hsupply (BitVec.toInt_inj.mp (hzero.trans rfl))
  · have hcapped := cap_returns hseriesCap hbelow
    rw [hnext, hsum] at hcapped
    exact hcapped
  rcases hliquid with ⟨hzero, -, -, l, hl', -, rest, hrest, -, hwrite⟩ | ⟨hzero, rfl⟩
  · have hL := fund_setSeriesLiquid env.current hwrite
    have hseries : series ≠ 0 := by omega
    have hshare : rest.toInt - v₂.liquidOf env.current series = -amount.toInt := by omega
    rw [hshare] at hL
    refine eq_update ?_ fun s hs => ?_
    · rw [hL, hP, hT]
      simp only [if_pos, if_neg hseries, Fund.apply, hnext, sub_zero, ← sub_eq_add_neg]
      rfl
    · -- series 0 pays the transfer and takes it from the series
      rw [hL, hP, hT]
      simp only [if_neg hs, add_zero]
      by_cases hs0 : s = 0
      · simp only [if_pos hs0, sub_neg_eq_add, sub_add_cancel]
      · simp only [if_neg hs0, sub_zero]
  · obtain rfl : series = 0 := by omega
    refine eq_update ?_ fun s hs => ?_
    · rw [hP, hT]
      simp only [if_pos, Fund.apply, hnext]
      rfl
    · rw [hP, hT]
      simp only [if_neg hs, sub_zero]

/-- Nobody has shares when the assets without an owner are recovered. -/
theorem recoverUnowned_performs {recipient : Address} {amount : I128}
    (hv : Accounted env.current v) (h : Returns (recoverUnowned recipient) env v amount v') :
    (v.fund env.current 0).supply = 0 ∧
      Performs env.current 0 (.float (v'.liquidOf env.current 0)) v v' := by
  have hsame : SameSeries v v' := Respects.rel h
  have hrecords : SameRecords v v' := Respects.rel h
  unfold recoverUnowned at h
  simp only [returns_bind, returns_operator, returns_requireAuth, returns_totalShares,
    returns_failIf, returns_liquidAssets, returns_currentContract, returns_doIf, returns_pure,
    exists_eq_left, exists_and_left, and_assoc, exists_const, not_not, ne_eq] at h
  obtain ⟨_, -, -, -, -, shares, hshares, hzero, _, _, hdeployed, -, -, _, v₁, htransfer, -,
    rfl⟩ := h
  obtain rfl := (ReadOnly.eq hdeployed).symm
  have hnone : v.storage.totalShares.toInt + v.storage.otherSeriesShares.toInt = 0 := by
    rw [← hshares, hzero]
    rfl
  have hsupply : (v.fund env.current 0).supply = 0 := by
    have hlegacy := (hv.sound 0).supply_nonneg
    have hother := hv.aggregated.supply.nonneg hv.seriesSupply_nonneg
    have htotal : (v.fund env.current 0).supply = v.storage.totalShares.toInt := rfl
    omega
  have hliquid := hv.otherSeriesLiquid_eq_zero hnone
  have hstorage : v'.storage = v.storage := by
    rcases htransfer with ⟨-, htransfer⟩ | ⟨-, rfl⟩
    · exact (transfer_returns htransfer).1
    · rfl
  have hfund : v'.liquidOf env.current 0 = (A.balance v'.tokens env.current).toInt := by
    unfold Vault.liquidOf
    rw [if_pos rfl, hstorage, hliquid, sub_zero]
  refine ⟨hsupply, hsame.ge, Nat.zero_le _, ?_, fun h => absurd hsupply h, fun h => absurd rfl h,
    eq_update ?_ fun s hs => ?_, hrecords⟩
  · show 0 ≤ v'.liquidOf env.current 0
    rw [hfund]
    exact A.balance_nonneg _ _
  · unfold Vault.fund
    rw [hstorage]
    rfl
  · unfold Vault.fund Vault.liquidOf
    rw [hstorage, if_neg hs, if_neg hs]

/-- What a redemption checks, and what it does to the fund and the records. -/
structure Redeemed (vault owner : Address) (series : ℕ) (shares amount : ℤ) (v v' : Vault A) :
    Prop where
  known : series ≤ v.storage.current
  principal : (v.fund vault series).principal = 0
  shares_pos : 0 < shares
  shares_le : shares ≤ (v.fund vault series).shares owner
  amount_nonneg : 0 ≤ amount
  amount_le : amount ≤ (v.fund vault series).liquid
  amount_all : shares = (v.fund vault series).supply → amount = (v.fund vault series).liquid
  amount_part : shares ≠ (v.fund vault series).supply →
    amount = shares * (v.fund vault series).liquid / (v.fund vault series).supply
  fund : v'.fund vault = Function.update (v.fund vault) series
    ((v.fund vault series).apply (.burn owner shares amount 0))
  records : v'.records = { v.records with
    withdrawn := Function.update v.records.withdrawn owner (v.records.withdrawn owner + amount) }

/-- A redemption pays out its part of the assets, rounded down, and the last one everything. -/
theorem redeemedAmount_returns {shares assets supply amount : I128}
    (h : Returns (if shares = supply then pure assets else mulDivFloor shares assets supply)
      env v amount v') (hpos : 0 < shares.toInt) (hle : shares.toInt ≤ supply.toInt)
    (hassets : 0 ≤ assets.toInt) :
    (0 ≤ amount.toInt ∧ amount.toInt ≤ assets.toInt ∧ (shares = supply → amount = assets) ∧
      (shares ≠ supply → amount.toInt = shares.toInt * assets.toInt / supply.toInt)) ∧
      v' = v := by
  by_cases hall : shares = supply
  · rw [if_pos hall] at h
    obtain ⟨rfl, rfl⟩ := returns_pure.mp h
    exact ⟨⟨hassets, le_rfl, fun _ => rfl, fun h => absurd hall h⟩, rfl⟩
  · rw [if_neg hall] at h
    obtain ⟨⟨-, -, hsupply, hquotient⟩, rfl⟩ := mulDivFloor_returns h
    refine ⟨⟨?_, ?_, fun h => absurd h hall, fun _ => hquotient⟩, rfl⟩
    · rw [hquotient]
      exact Int.ediv_nonneg (mul_nonneg hpos.le hassets) hsupply.le
    · rw [hquotient]
      refine Int.ediv_le_of_le_mul hsupply ?_
      rw [mul_comm]
      exact mul_le_mul_of_nonneg_left hle hassets

theorem redeem_returns {shares minAssets amount : I128} (howner : owner ≠ env.current)
    (hv : Accounted env.current v)
    (h : Returns (redeem owner series shares minAssets) env v amount v') :
    Redeemed env.current owner series shares.toInt amount.toInt v v' := by
  unfold redeem at h
  simp only [returns_bind, returns_seriesPrincipal, returns_failIf, returns_seriesShares,
    returns_seriesTotalShares, returns_seriesLiquid, returns_sub, returns_checkedSub,
    returns_checkedAdd, returns_withdrawn, returns_currentContract, returns_doIf, returns_pure,
    exists_eq_left, exists_and_left, and_assoc, exists_const, not_or, not_not, not_lt, not_le,
    ne_eq, gt_iff_lt] at h
  obtain ⟨-, hknown, hprincipal, hpos, hmin, -, -, hle, -, -, -, -, assets, hassets, -, _, v₀,
    hamount, -, hminimum, left, hleft, _, v₁, hshares, rest, hrest, _, v₂, hsupply, _, v₃, hliquid,
    -, withdrawals, hwithdrawals, _, v₄, hset, _, v₅, htransfer, rfl, rfl⟩ := h
  have hliquidOf : 0 ≤ assets.toInt := by
    rw [hassets]
    exact (hv.sound series).liquid
  obtain ⟨⟨hamount₀, hamountLe, hall, hpart⟩, rfl⟩ :=
    redeemedAmount_returns hamount hpos (hle.trans ((hv.sound series).shares_le owner)) hliquidOf
  have hS := fund_setShares env.current hshares
  have hU := fund_setSeriesSupply env.current hsupply
  have hW (s : ℕ) := fund_set env.current hset s fun _ => rfl
  have hT := fund_transfer env.current htransfer
  simp only [if_pos, if_neg (Ne.symm howner), ite_self, add_zero] at hT
  have hburn : (v₀.fund env.current series).apply (.burn owner shares.toInt amount.toInt 0) =
      { v₀.fund env.current series with
        liquid := (v₀.fund env.current series).liquid - amount.toInt
        supply := rest.toInt
        shares := Function.update (v₀.fund env.current series).shares owner left.toInt } := by
    refine Fund.ext rfl rfl hrest.symm (sub_zero _) ?_ ?_
    · show Function.update _ owner _ = Function.update _ owner _
      rw [hleft]
      rfl
    · show Function.update _ owner (_ - 0) = _
      rw [sub_zero, Function.update_eq_self]
  have hrecords : v'.records = { v₀.records with
      withdrawn := Function.update v₀.records.withdrawn owner
        (v₀.records.withdrawn owner + amount.toInt) } := by
    have hbooks : v₃.records = v₀.records := by
      have hdoIf : SameRecords v₂ v₃ := by
        rcases hliquid with ⟨-, value, -, -, hwrite⟩ | ⟨-, rfl⟩
        · exact Respects.rel hwrite
        · exact refl_of SameRecords _
      exact trans_of SameRecords (Respects.rel hshares) (trans_of SameRecords (Respects.rel hsupply)
        hdoIf)
    have hpaid : v'.records = v₄.records := (Respects.rel htransfer : SameRecords v₄ v')
    have hold : (v₃.storage.withdrawn owner).toInt = v₀.records.withdrawn owner :=
      congrFun (congrArg Records.withdrawn hbooks) owner
    rw [hpaid, returns_set.mp hset, ← hbooks]
    refine Records.ext rfl ?_ rfl
    show (fun o => (Function.update v₃.storage.withdrawn owner withdrawals o).toInt) = _
    rw [toInt_update, hwithdrawals]
    rfl
  refine ⟨hknown, ?_, hpos, hle, hamount₀, hamountLe.trans hassets.le, fun h => ?_, fun h => ?_, ?_,
    hrecords⟩
  · show (v₀.storage.principalOf series).toInt = 0
    rw [hprincipal]
    rfl
  · rw [hall (BitVec.toInt_inj.mp h)]
    exact hassets
  · rw [hpart fun he => h (congrArg BitVec.toInt he), hassets]
    rfl
  rw [hburn]
  rcases hliquid with ⟨hzero, value, hvalue, -, hwrite⟩ | ⟨hzero, rfl⟩
  · have hL := fund_setSeriesLiquid env.current hwrite
    have hseries : series ≠ 0 := by omega
    have hshare : value.toInt - v₂.liquidOf env.current series = -amount.toInt := by
      have hsame : v₂.liquidOf env.current series = v₀.liquidOf env.current series := by
        show (v₂.fund env.current series).liquid = (v₀.fund env.current series).liquid
        rw [hU, hS]
      omega
    rw [hshare] at hL
    refine eq_update ?_ fun s hs => ?_
    · rw [hT, hW, hL, hU, hS]
      simp only [if_pos, if_neg hseries, sub_zero, ← sub_eq_add_neg]
    · -- series 0 takes the assets from the series and pays the transfer
      rw [hT, hW, hL, hU, hS]
      simp only [if_neg hs, add_zero]
      by_cases hs0 : s = 0
      · simp only [if_pos hs0, sub_neg_eq_add, add_sub_cancel_right]
      · simp only [if_neg hs0, sub_zero]
  · obtain rfl : series = 0 := by omega
    refine eq_update ?_ fun s hs => ?_
    · rw [hT, hW, hU, hS]
      simp only [if_pos]
    · rw [hT, hW, hU, hS]
      simp only [if_neg hs, sub_zero]

theorem fund_pruneOwnerSeries (vault : Address)
    (h : Returns (pruneOwnerSeries owner series) env v u v') (s : ℕ) :
    v'.fund vault s = v.fund vault s := by
  unfold pruneOwnerSeries at h
  simp only [returns_bind, returns_get] at h
  obtain ⟨_, _, ⟨rfl, rfl⟩, _, _, ⟨rfl, rfl⟩, h⟩ := h
  rcases returns_doIf.mp h with ⟨-, hset⟩ | ⟨-, rfl⟩
  · exact fund_set vault hset s fun _ => rfl
  · rfl

/-- The series of an owner after a redemption. -/
theorem records_pruneOwnerSeries {f : Fund Address} {count amount released : ℤ} {w : Vault A}
    (h : Returns (pruneOwnerSeries owner series) env w u v')
    (hfund : w.fund env.current series = f)
    (hrecords : w.records = { v.records with
      withdrawn := Function.update v.records.withdrawn owner (v.records.withdrawn owner + amount) }) :
    v'.records = v.records.after series f (.burn owner count amount released) := by
  subst hfund
  have hzero (x : I128) : x ≠ 0 ↔ x.toInt ≠ 0 := by
    rw [ne_eq, ne_eq, ← BitVec.toInt_inj]
    rfl
  unfold pruneOwnerSeries at h
  simp only [returns_bind, returns_get, returns_doIf, exists_eq_left, exists_and_left, and_assoc]
    at h
  simp only [hzero] at h
  have hseries : w.storage.ownerSeries = v.records.series := congrArg Records.series hrecords
  rcases h with ⟨hprune, hset⟩ | ⟨hprune, rfl⟩
  · rw [returns_set.mp hset]
    refine Records.ext (congrArg Records.deposited hrecords :) (congrArg Records.withdrawn hrecords :)
      ?_
    show Function.update w.storage.ownerSeries owner _ = if _ then _ else _
    rw [hseries]
    exact (if_neg hprune).symm
  · rw [hrecords]
    refine Records.ext rfl rfl ?_
    exact (if_pos (not_not.mp hprune)).symm

theorem withdraw_performs {shares minAssets amount : I128} (hv : Accounted env.current v)
    (h : Returns (withdraw owner series shares minAssets) env v amount v') :
    Performs env.current series (.burn owner shares.toInt amount.toInt 0) v v' := by
  have hsame : SameSeries v v' := Respects.rel h
  unfold withdraw at h
  simp only [returns_bind, returns_requireAuth, returns_seriesShares, returns_seriesPendingShares,
    returns_sub, returns_failIf, returns_pure, exists_eq_left, exists_and_left, and_assoc,
    exists_const, not_lt, gt_iff_lt] at h
  obtain ⟨-, howner, -, -, -, -, available, havailable, hle, _, v₁, hredeem, _, _, hprune, rfl,
    rfl⟩ := h
  have hredeemed := redeem_returns howner hv hredeem
  have hpending := (hv.sound series).pending_nonneg owner
  have hrest : available.toInt = (v.fund env.current series).shares owner -
      (v.fund env.current series).pending owner := havailable
  refine ⟨hsame.ge, hsame ▸ hredeemed.known,
    ⟨hredeemed.principal, hredeemed.shares_pos, hredeemed.amount_nonneg, hredeemed.amount_le,
      hredeemed.amount_all, by omega, by omega⟩, hredeemed.amount_part,
    fun _ _ h => (by cases h), ?_, ?_⟩
  · rw [← hredeemed.fund]
    funext s
    exact fund_pruneOwnerSeries env.current hprune s
  · refine records_pruneOwnerSeries hprune ?_ hredeemed.records
    rw [hredeemed.fund, Function.update_self]

theorem seriesPendingTotal_setPending {value : I128}
    (h : Returns (setPending series owner value) env v u v') :
    v'.storage.seriesPendingTotal = v.storage.seriesPendingTotal := by
  rw [returns_set.mp h]
  by_cases hseries : series = 0
  · simp only [if_pos hseries]
  · simp only [if_neg hseries]

/-- Two writes make more or fewer shares of an owner pending. -/
theorem pend_performs {pending total : I128} {w : Vault A} {u' : Unit} {n : ℤ}
    (hknown : series ≤ v.storage.current)
    (hpending : pending.toInt = (v.storage.pendingOf series owner).toInt + n)
    (htotal : total.toInt = (v.storage.seriesPendingTotal series).toInt + n)
    (hallows : (v.fund env.current series).Allows (.pend owner n))
    (hset : Returns (setPending series owner pending) env v u w)
    (hset' : Returns (setPendingTotal series total) env w u' v') :
    Performs env.current series (.pend owner n) v v' := by
  have hP := fund_setPending env.current hset
  have hT := fund_setPendingTotal env.current hset'
  have hsame : SameSeries v v' := trans_of SameSeries (Respects.rel hset) (Respects.rel hset')
  refine ⟨hsame.ge, hsame ▸ hknown, hallows, trivial, fun _ _ h => (by cases h),
    eq_update ?_ fun s hs => ?_, ?_⟩
  · rw [hT, hP]
    simp only [if_pos, Fund.apply, hpending, htotal]
    rfl
  · rw [hT, hP]
    simp only [if_neg hs]
  · exact (trans_of SameRecords (Respects.rel hset) (Respects.rel hset') : SameRecords v v')

theorem requestWithdraw_performs {shares : I128} (hv : Accounted env.current v)
    (h : Returns (requestWithdraw owner series shares) env v u v') :
    Performs env.current series (.pend owner shares.toInt) v v' := by
  unfold requestWithdraw at h
  simp only [returns_bind, returns_requireAuth, returns_seriesShares, returns_seriesPendingShares,
    returns_seriesPendingTotal, returns_sub, returns_checkedAdd, returns_failIf, exists_eq_left,
    exists_and_left, and_assoc, exists_const, not_or, not_lt, not_le, gt_iff_lt] at h
  obtain ⟨-, -, -, -, -, -, available, havailable, hpos, hle, -, hknown, pending, hpending, _, w,
    hset, -, -, total, htotal, hset'⟩ := h
  rw [seriesPendingTotal_setPending hset] at htotal
  have hold := (hv.sound series).pending_nonneg owner
  refine pend_performs hknown hpending htotal ⟨?_, ?_⟩ hset hset'
  · omega
  · show (v.storage.pendingOf series owner).toInt + shares.toInt ≤
      (v.storage.sharesOf series owner).toInt
    omega

theorem cancelWithdrawRequest_performs {shares : I128} (hv : Accounted env.current v)
    (h : Returns (cancelWithdrawRequest owner series shares) env v u v') :
    Performs env.current series (.pend owner (-shares.toInt)) v v' := by
  unfold cancelWithdrawRequest at h
  simp only [returns_bind, returns_requireAuth, returns_seriesPendingShares,
    returns_seriesPendingTotal, returns_sub, returns_checkedSub, returns_failIf, exists_eq_left,
    exists_and_left, and_assoc, exists_const, not_or, not_lt, not_le, gt_iff_lt] at h
  obtain ⟨-, -, -, hknown, hpos, hle, pending, hpending, _, w, hset, -, -, total, htotal, -,
    hset'⟩ := h
  rw [seriesPendingTotal_setPending hset] at htotal
  have hbound := (hv.sound series).pending_le owner
  refine pend_performs hknown hpending htotal ⟨?_, ?_⟩ hset hset'
  · show 0 ≤ (v.storage.pendingOf series owner).toInt + -shares.toInt
    omega
  · show (v.storage.pendingOf series owner).toInt + -shares.toInt ≤
      (v.fund env.current series).shares owner
    have : (v.storage.pendingOf series owner).toInt ≤ (v.fund env.current series).shares owner :=
      hbound
    omega

theorem claimWithdrawal_performs {minAssets amount : I128} (hv : Accounted env.current v)
    (h : Returns (claimWithdrawal owner series minAssets) env v amount v') :
    Performs env.current series (.burn owner (v.storage.pendingOf series owner).toInt amount.toInt
      (v.storage.pendingOf series owner).toInt) v v' := by
  have hsame : SameSeries v v' := Respects.rel h
  unfold claimWithdrawal at h
  simp only [returns_bind, returns_requireAuth, returns_seriesPendingShares,
    returns_seriesPendingTotal, returns_checkedSub, returns_pure, exists_eq_left, exists_and_left,
    and_assoc, exists_const] at h
  obtain ⟨-, howner, -, -, _, v₁, hredeem, _, v₂, hset, -, -, total, htotal, -, _, v₃, hset', _, _,
    hprune, rfl, rfl⟩ := h
  have hredeemed := redeem_returns howner hv hredeem
  have hP := fund_setPending env.current hset
  have hT := fund_setPendingTotal env.current hset'
  have hR (s : ℕ) := fund_pruneOwnerSeries env.current hprune s
  have hself : v₁.fund env.current series = _ :=
    (congrFun hredeemed.fund series).trans (Function.update_self series _ _)
  have hshares : (v.storage.pendingOf series owner).toInt =
      (v.fund env.current series).pending owner := rfl
  have hle := hredeemed.shares_le
  have htotal' : total.toInt = (v₁.fund env.current series).pendingTotal -
      (v.storage.pendingOf series owner).toInt := by
    rw [htotal, seriesPendingTotal_setPending hset]
    rfl
  have hfund : v₃.fund env.current series = (v.fund env.current series).apply
      (.burn owner (v.storage.pendingOf series owner).toInt amount.toInt
        (v.storage.pendingOf series owner).toInt) := by
    rw [hT, hP]
    simp only [if_pos, htotal', hself, Fund.apply, hshares, sub_zero, sub_self,
      Function.update_idem]
    rfl
  have hrecords : SameRecords v₁ v₃ := trans_of SameRecords (Respects.rel hset) (Respects.rel hset')
  refine ⟨hsame.ge, hsame ▸ hredeemed.known, ⟨hredeemed.principal,
    hredeemed.shares_pos, hredeemed.amount_nonneg, hredeemed.amount_le, hredeemed.amount_all,
    by omega, by omega⟩, hredeemed.amount_part, fun _ _ h => (by cases h),
    eq_update ?_ fun s hs => ?_, ?_⟩
  · rw [hR, hfund]
  · rw [hR, hT, hP]
    simp only [if_neg hs]
    rw [hredeemed.fund, Function.update_of_ne hs]
  · exact records_pruneOwnerSeries hprune hfund (hrecords.trans hredeemed.records)

/-- The shares of a deposit: all of them cost the amount, or their part of the assets. -/
theorem mintedShares_returns {amount assets supply minted : I128}
    (h : Returns (mintedShares amount assets supply) env v minted v') :
    (supply = 0 → assets = 0 ∧ minted = amount) ∧
      (supply ≠ 0 → 0 < assets.toInt ∧ 0 ≤ amount.toInt ∧ 0 ≤ supply.toInt ∧
        minted.toInt = amount.toInt * supply.toInt / assets.toInt) ∧ v' = v := by
  unfold mintedShares at h
  simp only [returns_ite, returns_bind, returns_failIf, returns_pure, exists_eq_left,
    exists_and_left, and_assoc, exists_const, not_le, ne_eq, not_not] at h
  rcases h with ⟨hsupply, hassets, rfl, rfl⟩ | ⟨hsupply, hassets, h⟩
  · exact ⟨fun _ => ⟨hassets, rfl⟩, fun h => absurd hsupply h, rfl⟩
  · obtain ⟨⟨hleft, hright, -, hquotient⟩, rfl⟩ := mulDivFloor_returns h
    exact ⟨fun h => absurd h hsupply, fun _ => ⟨hassets, hleft, hright, hquotient⟩, rfl⟩

/-- The terms of a deposit, from what it reads. -/
theorem mint_terms {amount assets supply minted : I128} {f : Fund Address} (owner : Address)
    (limit : ℤ) (h : Returns (mintedShares amount assets supply) env v minted v')
    (hpos : 0 < amount.toInt) (hne : minted ≠ 0) (hprincipal : f.principal = 0)
    (hassets : assets.toInt = f.liquid) (hsupply : supply.toInt = f.supply) :
    f.Allows (.mint owner amount.toInt minted.toInt) ∧
      f.Terms limit 10000 (.mint owner amount.toInt minted.toInt) := by
  obtain ⟨hnone, hsome, -⟩ := mintedShares_returns h
  have hzero : supply = 0 ↔ f.supply = 0 := by
    rw [← hsupply, ← BitVec.toInt_inj]
    rfl
  refine ⟨⟨hpos.le, ?_⟩, hprincipal, hpos, fun hs => ?_, fun hs => ?_⟩
  · have hmintedNe : minted.toInt ≠ 0 := fun h => hne (BitVec.toInt_inj.mp (h.trans rfl))
    by_cases hs : supply = 0
    · rw [(hnone hs).2]
      exact hpos
    · obtain ⟨hassets, hamount, hsupply, hminted⟩ := hsome hs
      have hquotient := Int.ediv_nonneg (mul_nonneg hamount hsupply) hassets.le
      omega
  · obtain ⟨hassets₀, hminted⟩ := hnone (hzero.mpr hs)
    rw [← hassets, hassets₀, hminted]
    exact ⟨rfl, rfl⟩
  · obtain ⟨hassets₀, -, -, hminted⟩ := hsome fun h => hs (hzero.mp h)
    rw [← hassets, ← hsupply]
    exact ⟨hassets₀, hminted⟩

/-- A deposit goes to a series that has lent nothing. -/
theorem Accounted.principal_depositSeries (hv : Accounted env.current v)
    (h : (v.storage.principalOf v.storage.current = 0 ∧ series = v.storage.current) ∨
      (v.storage.principalOf v.storage.current ≠ 0 ∧ v.storage.current + 1 < 2 ^ 32 ∧
        series = v.storage.current + 1)) : (v.fund env.current series).principal = 0 := by
  rcases h with ⟨hzero, rfl⟩ | ⟨-, -, rfl⟩
  · show (v.storage.principalOf _).toInt = 0
    rw [hzero]
    rfl
  · exact (hv.sound _).lent (hv.fresh _ (Nat.lt_succ_self _))

/-- The records after a deposit in a series above 0. -/
theorem records_ownerSeries {amount minted : ℤ} {w : Vault A} {f : Fund Address}
    (h : Returns (set fun s => { s with
      ownerSeries := Function.update s.ownerSeries owner
        (if series ∈ s.ownerSeries owner then s.ownerSeries owner
          else s.ownerSeries owner ++ [series]) }) env w u v')
    (hseries : series ≠ 0)
    (hrecords : w.records = { v.records with
      deposited := Function.update v.records.deposited owner (v.records.deposited owner + amount) }) :
    v'.records = v.records.after series f (.mint owner amount minted) := by
  have hlist : w.storage.ownerSeries = v.records.series := congrArg Records.series hrecords
  rw [returns_set.mp h]
  refine Records.ext (congrArg Records.deposited hrecords :) (congrArg Records.withdrawn hrecords :)
    ?_
  show Function.update w.storage.ownerSeries owner _ = if _ then _ else _
  rw [if_neg hseries, hlist]

theorem deposit_performs {amount minShares minted : I128} (hv : Accounted env.current v)
    (h : Returns (deposit owner series amount minShares) env v minted v') :
    Performs env.current series (.mint owner amount.toInt minted.toInt) v v' := by
  unfold deposit at h
  simp only [returns_bind, returns_requireAuth, returns_currentSeries, returns_depositSeries,
    returns_failIf, returns_ite, returns_deposited, returns_seriesAssets,
    returns_seriesTotalShares, returns_currentContract, returns_seriesShares, returns_checkedAdd,
    returns_seriesLiquid, returns_doIf, returns_pure, exists_eq_left, exists_and_left,
    and_assoc, exists_const, not_or, not_lt, not_le, gt_iff_lt, ne_eq, not_not] at h
  obtain ⟨-, howner, _, _, hpaused, -, -, _, hdeposit, rfl, hpos, hmin, -, assets, va, hassets,
    supply, vs, hsupply, _, _, hminted, hne, hle, _, v₁, htransfer, _, v₂, hcurrent, -, hknown, -,
    ownerShares, hshares, _, v₃, hset, deposits, hdeposits, _, v₄, hset', total, htotal, _, v₅,
    hset'', _, v₆, hliquid, rfl, rfl⟩ := h
  obtain rfl := (ReadOnly.eq hpaused).symm
  have hprincipal := hv.principal_depositSeries hdeposit
  -- a fresh series has nothing
  obtain ⟨hworth, rfl⟩ : assets.toInt = (v.fund env.current series).liquid ∧ v = va := by
    rcases hassets with ⟨hfresh, rfl, h⟩ | ⟨-, -, -, hsum, -, -, h⟩
    · have hlater := of_decide_eq_true hfresh
      exact ⟨(hv.closed series (by omega) (hv.fresh series hlater)).symm, h.symm⟩
    · refine ⟨?_, h.symm⟩
      rw [hsum, show (v.storage.principalOf series).toInt = 0 from hprincipal, add_zero]
      rfl
  obtain ⟨hold, rfl⟩ : supply.toInt = (v.fund env.current series).supply ∧ v = vs := by
    rcases hsupply with ⟨hfresh, rfl, h⟩ | ⟨-, -, -, rfl, h⟩
    · exact ⟨(hv.fresh series (of_decide_eq_true hfresh)).symm, h.symm⟩
    · exact ⟨rfl, h.symm⟩
  obtain rfl := (mintedShares_returns hminted).2.2.symm
  obtain ⟨hallows, hterms⟩ := mint_terms owner v.storage.limitAmount hminted hpos
    hne hprincipal hworth hold
  have hT := fund_transfer env.current htransfer
  simp only [if_neg (Ne.symm howner), if_pos, ite_self, sub_zero] at hT
  have hC (s : ℕ) : v₂.fund env.current s = v₁.fund env.current s := by
    rcases hcurrent with ⟨-, hset⟩ | ⟨-, rfl⟩
    · exact fund_set env.current hset s fun _ => rfl
    · rfl
  have hgrow : v.storage.current ≤ v₂.storage.current := by
    have hstorage := (transfer_returns htransfer).1
    rcases hcurrent with ⟨hfresh, hset⟩ | ⟨-, rfl⟩
    · rw [returns_set.mp hset]
      exact (of_decide_eq_true hfresh).le
    · rw [hstorage]
  have hS := fund_setShares env.current hset
  have hD (s : ℕ) := fund_set env.current hset' s fun _ => rfl
  have hU := fund_setSeriesSupply env.current hset''
  have hseries₅ : SameSeries v₂ v₅ :=
    trans_of SameSeries (Respects.rel hset) (trans_of SameSeries
      ((RespectsWrites.other _ fun _ => rfl : Respects SameSeries _).rel hset')
      (Respects.rel hset''))
  have hrecords : v₅.records = { v.records with
      deposited := Function.update v.records.deposited owner
        (v.records.deposited owner + amount.toInt) } := by
    have hcurrent : SameRecords v₁ v₂ := by
      rcases hcurrent with ⟨-, hset⟩ | ⟨-, rfl⟩
      · rw [returns_set.mp hset]
        exact (rfl : Vault.records _ = Vault.records _)
      · exact refl_of SameRecords _
    have hbefore : v₃.records = v.records := trans_of SameRecords (Respects.rel htransfer)
      (trans_of SameRecords hcurrent (Respects.rel hset))
    have hsame : v₂.records = v₃.records := (Respects.rel hset : SameRecords v₂ v₃).symm
    have hafter : v₅.records = v₄.records := (Respects.rel hset'' : SameRecords v₄ v₅)
    rw [hafter, returns_set.mp hset', ← hbefore]
    refine Records.ext ?_ rfl rfl
    show (fun o => (Function.update v₃.storage.deposited owner deposits o).toInt) = _
    rw [toInt_update, hdeposits, show (v₂.storage.deposited owner).toInt =
      v₃.records.deposited owner from congrFun (congrArg Records.deposited hsame) owner]
    rfl
  have hshares' : ownerShares.toInt = (v.fund env.current series).shares owner + minted.toInt := by
    have hsame : (v₂.fund env.current series).shares = (v.fund env.current series).shares := by
      rw [hC, hT]
    rw [hshares, ← hsame]
    rfl
  rcases hliquid with ⟨hzero, -, -, l, hl, -, value, hvalue, _, v₆, hwrite, hset₆⟩ | ⟨hzero, rfl⟩
  · have hL := fund_setSeriesLiquid env.current hwrite
    have hO (s : ℕ) := fund_set env.current hset₆ s fun _ => rfl
    have hseries : series ≠ 0 := by omega
    have hshare : value.toInt - v₅.liquidOf env.current series = amount.toInt := by omega
    rw [hshare] at hL
    have hsame : SameSeries v₂ v' := trans_of SameSeries hseries₅
      (trans_of SameSeries (Respects.rel hwrite)
        ((RespectsWrites.other _ fun _ => rfl : Respects SameSeries _).rel hset₆))
    have hwritten : SameRecords v₅ v₆ := Respects.rel hwrite
    refine ⟨hgrow.trans hsame.ge, hsame ▸ hknown, hallows, hterms, fun _ _ h => (by cases h),
      eq_update ?_ fun s hs => ?_, records_ownerSeries hset₆ hseries (hwritten.trans hrecords)⟩
    · rw [hO, hL, hU, hD, hS, hC, hT]
      simp only [if_pos, if_neg hseries, Fund.apply, hshares', htotal, hold, add_zero, sub_zero]
    · -- series 0 gets the transfer and gives it to the series
      rw [hO, hL, hU, hD, hS, hC, hT]
      simp only [if_neg hs, add_zero, add_sub_cancel_right]
  · obtain rfl : series = 0 := by omega
    refine ⟨hgrow.trans hseries₅.ge, hseries₅ ▸ hknown, hallows, hterms, fun _ _ h => (by cases h),
      eq_update ?_ fun s hs => ?_, ?_⟩
    · rw [hU, hD, hS, hC, hT]
      simp only [if_pos, Fund.apply, hshares', htotal, hold]
    · rw [hU, hD, hS, hC, hT]
      simp only [if_neg hs, add_zero]
    · rw [hrecords]
      rfl

end Calls

/-! ## The calls -/

/-- A call that is part of the administration. -/
def Call.Administrative : Call → Prop
  | .setUpgradeAuthority _ | .rotateUpgradeAuthority _ | .setPaused _ | .setAllocationLimit _ => True
  | _ => False

/-- Only the upgrade authority is set, or the vault paused or resumed. -/
def Configured (v v' : Vault A) : Prop :=
  ∃ authority paused, v' = { v with
    storage := { v.storage with upgradeAuthority := authority, paused := paused } }

instance : Std.Refl (Configured (A := A)) := ⟨fun _ => ⟨_, _, rfl⟩⟩

instance : IsTrans (Vault A) Configured := ⟨by
  rintro v _ _ ⟨_, _, rfl⟩ ⟨authority, paused, rfl⟩
  exact ⟨authority, paused, rfl⟩⟩

theorem setAllocationLimit_returns {env : VaultEnv} {v v' : Vault A} {u : Unit} {limit : ℕ}
    (h : Returns (setAllocationLimit limit) env v u v') :
    (limit ≠ 0 ∧ limit ≤ maxAllocationBps) ∧
      v.storage.deployedPrincipal.toInt + v.storage.otherSeriesPrincipal.toInt = 0 ∧
      v' = { v with storage := { v.storage with allocationLimitBps := some limit } } := by
  unfold setAllocationLimit at h
  simp only [returns_bind, returns_operator, returns_requireAuth, returns_deployedPrincipal,
    returns_failIf, returns_set, exists_eq_left, exists_and_left, and_assoc, exists_const, not_or,
    not_not, not_lt, gt_iff_lt, ne_eq] at h
  obtain ⟨_, -, -, -, _, _, hpaused, -, -, deployed, hdeployed, hzero, hne, hle, rfl⟩ := h
  obtain rfl := ReadOnly.eq hpaused
  refine ⟨⟨hne, hle⟩, ?_, rfl⟩
  rw [← hdeployed, hzero]
  rfl

/-- What a call of the administration does: it leaves the books and the records alone, and changes
the limit only while nothing is lent out. -/
structure Administers (v v' : Vault A) : Prop where
  fund : ∀ vault, v'.fund vault = v.fund vault
  records : SameRecords v v'
  series : SameSeries v v'
  limit : SameLimit v v' ∨ v'.storage.limit ≤ maxAllocationBps ∧
    v.storage.deployedPrincipal.toInt + v.storage.otherSeriesPrincipal.toInt = 0

theorem administers_of_run {env : VaultEnv} {call : Call} {v v' : Vault A}
    (hcall : call.Administrative) (h : Returns call.run env v () v') : Administers v v' := by
  have hset {f : Storage → Storage}
      (hf : ∀ s, f s = { s with
        upgradeAuthority := (f s).upgradeAuthority
        paused := (f s).paused }) : Respects Configured (set f : VaultCall A Unit) :=
    ⟨fun {_ v _ _} h => by
      rw [returns_set.mp h]
      exact ⟨_, _, congrArg (Vault.mk · v.tokens) (hf _)⟩⟩
  have hconfigured (h : Configured v v') : Administers v v' := by
    obtain ⟨authority, paused, rfl⟩ := h
    exact ⟨fun _ => rfl, rfl, rfl, Or.inl rfl⟩
  cases call with
  | setUpgradeAuthority authority =>
    have hrespects : Respects Configured (setUpgradeAuthority authority : VaultCall A Unit) := by
      unfold setUpgradeAuthority
      repeat refine Respects.andThen inferInstance fun _ => ?_
      exact hset fun _ => rfl
    exact hconfigured (hrespects.rel h)
  | rotateUpgradeAuthority authority =>
    have hrespects : Respects Configured (rotateUpgradeAuthority authority : VaultCall A Unit) := by
      unfold rotateUpgradeAuthority
      repeat refine Respects.andThen inferInstance fun _ => ?_
      exact hset fun _ => rfl
    exact hconfigured (hrespects.rel h)
  | setPaused value =>
    have hrespects : Respects Configured (setPaused value : VaultCall A Unit) := by
      unfold setPaused
      repeat refine Respects.andThen inferInstance fun _ => ?_
      exact hset fun _ => rfl
    exact hconfigured (hrespects.rel h)
  | setAllocationLimit limit =>
    have h : Returns (setAllocationLimit limit) env v () v' := h
    obtain ⟨⟨-, hle⟩, hdeployed, rfl⟩ := setAllocationLimit_returns h
    exact ⟨fun _ => rfl, rfl, rfl, Or.inr ⟨hle, hdeployed⟩⟩
  | _ => exact hcall.elim

/-- The calls that make moves leave the limit alone. -/
theorem sameLimit_run {call : Call} (hcall : ¬ call.Administrative) :
    Respects SameLimit (call.run : VaultCall A Unit) := by
  cases call with
  | setUpgradeAuthority _ => exact absurd trivial hcall
  | rotateUpgradeAuthority _ => exact absurd trivial hcall
  | setPaused _ => exact absurd trivial hcall
  | setAllocationLimit _ => exact absurd trivial hcall
  | allocate series amount =>
    exact inferInstanceAs (Respects SameLimit (allocate series amount : VaultCall A Unit))
  | settle series principal returned =>
    exact inferInstanceAs (Respects SameLimit (settle series principal returned : VaultCall A Unit))
  | recordLoss series principal =>
    exact inferInstanceAs (Respects SameLimit (recordLoss series principal : VaultCall A Unit))
  | recoverUnowned recipient => exact Respects.bind
  | deposit owner series amount minShares =>
    have hdeposit : Respects SameLimit (deposit owner series amount minShares : VaultCall A I128) :=
      respects_deposit ⟨fun h => by rw [returns_set.mp h]; rfl⟩
    exact Respects.bind
  | withdraw owner series shares minAssets => exact Respects.bind
  | requestWithdraw owner series shares =>
    exact inferInstanceAs (Respects SameLimit (requestWithdraw owner series shares : VaultCall A Unit))
  | cancelWithdrawRequest owner series shares =>
    exact inferInstanceAs
      (Respects SameLimit (cancelWithdrawRequest owner series shares : VaultCall A Unit))
  | claimWithdrawal owner series minAssets => exact Respects.bind

/-- The series that a call acts on. -/
def Call.series : Call → Option ℕ
  | .allocate series _ | .settle series _ _ | .recordLoss series _ | .deposit _ series _ _
  | .withdraw _ series _ _ | .requestWithdraw _ series _ | .cancelWithdrawRequest _ series _
  | .claimWithdrawal _ series _ => some series
  | _ => none

theorem Call.Administrative.series {call : Call} (h : call.Administrative) : call.series = none := by
  cases call with
  | setUpgradeAuthority _ | rotateUpgradeAuthority _ | setPaused _ | setAllocationLimit _ => rfl
  | _ => exact h.elim

/-- The move that a call makes, for some amounts. -/
def Call.Makes : Call → Fund.Move Address → Prop
  | .allocate _ amount, m => m = .lend amount.toInt
  | .settle _ principal returned, m => m = .repay principal.toInt returned.toInt
  | .recordLoss _ principal, m => m = .repay principal.toInt 0
  | .recoverUnowned _, m => ∃ liquid, m = .float liquid
  | .deposit owner _ amount _, m => ∃ minted, m = .mint owner amount.toInt minted
  | .withdraw owner _ shares _, m => ∃ amount, m = .burn owner shares.toInt amount 0
  | .requestWithdraw owner _ shares, m => m = .pend owner shares.toInt
  | .cancelWithdrawRequest owner _ shares, m => m = .pend owner (-shares.toInt)
  | .claimWithdrawal owner _ _, m => ∃ shares amount, m = .burn owner shares amount shares
  | _, _ => False

/-- **Every call that is no part of the administration performs its move**, on the fund of its
series. Assets without an owner are those of series 0, when nobody has shares of it. -/
theorem performs_of_run {env : VaultEnv} {call : Call} {v v' : Vault A}
    (hv : Accounted env.current v) (hcall : ¬ call.Administrative)
    (h : Returns call.run env v () v') :
    ∃ series m, Performs env.current series m v v' ∧ call.Makes m ∧
      (call.series = some series ∨
        (call.series = none ∧ series = 0 ∧ (v.fund env.current series).supply = 0)) := by
  cases call with
  | setUpgradeAuthority _ => exact absurd trivial hcall
  | rotateUpgradeAuthority _ => exact absurd trivial hcall
  | setPaused _ => exact absurd trivial hcall
  | setAllocationLimit _ => exact absurd trivial hcall
  | allocate series amount =>
    have h : Returns (allocate series amount) env v () v' := h
    exact ⟨series, _, allocate_performs hv.maker h, rfl, Or.inl rfl⟩
  | settle series principal returned =>
    have h : Returns (settle series principal returned) env v () v' := h
    exact ⟨series, _, settle_performs hv.maker h, rfl, Or.inl rfl⟩
  | recordLoss series principal =>
    have h : Returns (recordLoss series principal) env v () v' := h
    exact ⟨series, _, recordLoss_performs h, rfl, Or.inl rfl⟩
  | recoverUnowned recipient =>
    obtain ⟨amount, _, h, hpure⟩ := returns_bind.mp h
    rw [(returns_pure.mp hpure).2]
    obtain ⟨hsupply, hperforms⟩ := recoverUnowned_performs hv h
    exact ⟨0, _, hperforms, ⟨_, rfl⟩, Or.inr ⟨rfl, rfl, hsupply⟩⟩
  | deposit owner series amount minShares =>
    obtain ⟨minted, _, h, hpure⟩ := returns_bind.mp h
    rw [(returns_pure.mp hpure).2]
    exact ⟨series, _, deposit_performs hv h, ⟨minted.toInt, rfl⟩, Or.inl rfl⟩
  | withdraw owner series shares minAssets =>
    obtain ⟨amount, _, h, hpure⟩ := returns_bind.mp h
    rw [(returns_pure.mp hpure).2]
    exact ⟨series, _, withdraw_performs hv h, ⟨amount.toInt, rfl⟩, Or.inl rfl⟩
  | requestWithdraw owner series shares =>
    have h : Returns (requestWithdraw owner series shares) env v () v' := h
    exact ⟨series, _, requestWithdraw_performs hv h, rfl, Or.inl rfl⟩
  | cancelWithdrawRequest owner series shares =>
    have h : Returns (cancelWithdrawRequest owner series shares) env v () v' := h
    exact ⟨series, _, cancelWithdrawRequest_performs hv h, rfl, Or.inl rfl⟩
  | claimWithdrawal owner series minAssets =>
    obtain ⟨amount, _, h, hpure⟩ := returns_bind.mp h
    rw [(returns_pure.mp hpure).2]
    exact ⟨series, _, claimWithdrawal_performs hv h, ⟨_, amount.toInt, rfl⟩, Or.inl rfl⟩

/-- An action that brings the vault neither gains nor losses. -/
def Action.Flat (vault : Address) (v : Vault A) : Action A → Prop
  | .invoke _ (.settle _ principal returned) => returned = principal
  | .invoke _ (.recordLoss _ _) => False
  | .invoke _ _ => True
  | .tokens t => A.balance t vault = A.balance v.tokens vault

/-- What reaches the vault from outside is part of series 0. -/
theorem tokens_performs {vault : Address} {v v' : Vault A} {t : A.State}
    (hv : Accounted vault v) (h : step vault v (.tokens t) = .ok v') :
    v' = { v with tokens := t } ∧ Performs vault 0 (.float (v'.liquidOf vault 0)) v v' := by
  have hstep : (if (A.balance v.tokens vault).toInt ≤ (A.balance t vault).toInt then
    Except.ok { v with tokens := t } else .error "not authorized") = .ok v' := h
  split_ifs at hstep with hle
  obtain rfl := Except.ok.inj hstep
  have hnonneg : 0 ≤ v.liquidOf vault 0 := (hv.sound 0).liquid
  have hmore : v.liquidOf vault 0 ≤ Vault.liquidOf vault { v with tokens := t } 0 := by
    unfold Vault.liquidOf
    rw [if_pos rfl, if_pos rfl]
    show (A.balance v.tokens vault).toInt - v.storage.otherSeriesLiquid.toInt ≤
      (A.balance t vault).toInt - v.storage.otherSeriesLiquid.toInt
    omega
  refine ⟨rfl, le_rfl, Nat.zero_le _, hnonneg.trans hmore, fun _ => hmore,
    fun h => absurd rfl h, eq_update rfl fun s hs => ?_, rfl⟩
  unfold Vault.fund Vault.liquidOf
  rw [if_neg hs, if_neg hs]

/-- **What an accepted action does**: a call of the administration, or a move of one series. -/
theorem step_performs {vault : Address} {v v' : Vault A} {a : Action A} (hv : Accounted vault v)
    (h : step vault v a = .ok v') : Kept v v' ∧ (Administers v v' ∨
      ∃ series m, Performs vault series m v v' ∧ SameLimit v v' ∧
        (a.Flat vault v → (v.fund vault series).Flat m)) := by
  cases a with
  | invoke signers call =>
    have hrun := step_invoke_eq_ok.mp h
    refine ⟨Respects.rel hrun, ?_⟩
    by_cases hcall : call.Administrative
    · exact Or.inl (administers_of_run hcall hrun)
    · have hlimit : SameLimit v v' := (sameLimit_run hcall).rel hrun
      obtain ⟨series, m, hperforms, hmakes, hseries⟩ :=
        @performs_of_run A ⟨signers, vault⟩ call v v' hv hcall hrun
      refine Or.inr ⟨series, m, hperforms, hlimit, fun hflat => ?_⟩
      cases call with
      | setUpgradeAuthority _ => exact hmakes.elim
      | rotateUpgradeAuthority _ => exact hmakes.elim
      | setPaused _ => exact hmakes.elim
      | setAllocationLimit _ => exact hmakes.elim
      | allocate _ _ => obtain rfl := hmakes; trivial
      | settle _ principal returned =>
        obtain rfl := hmakes
        exact congrArg BitVec.toInt hflat
      | recordLoss _ _ => exact hflat.elim
      | recoverUnowned _ =>
        obtain ⟨liquid, rfl⟩ := hmakes
        rcases hseries with hseries | ⟨-, rfl, hsupply⟩
        · cases hseries
        · exact fun h => absurd hsupply h
      | deposit _ _ _ _ => obtain ⟨_, rfl⟩ := hmakes; trivial
      | withdraw _ _ _ _ => obtain ⟨_, rfl⟩ := hmakes; trivial
      | requestWithdraw _ _ _ => obtain rfl := hmakes; trivial
      | cancelWithdrawRequest _ _ _ => obtain rfl := hmakes; trivial
      | claimWithdrawal _ _ _ => obtain ⟨_, _, rfl⟩ := hmakes; trivial
  | tokens t =>
    obtain ⟨rfl, hperforms⟩ := tokens_performs hv h
    refine ⟨⟨rfl, rfl, id⟩, Or.inr ⟨0, _, hperforms, rfl, fun hflat _ => ?_⟩⟩
    have hbalance : A.balance t vault = A.balance v.tokens vault := hflat
    show (A.balance t vault).toInt - v.storage.otherSeriesLiquid.toInt =
      (A.balance v.tokens vault).toInt - v.storage.otherSeriesLiquid.toInt
    rw [hbalance]

end Pnlx.LiquidityVault
