import Pnlx.Properties.VaultAccounting

/-!
# The series of an owner

The vault keeps a list of the series above 0 in which an owner has shares: a deposit adds its series
and a redemption prunes it when nothing is left. The list is complete in every reachable vault
(`Indexed`), so that the views which walk through it return totals over all series.
-/

namespace Pnlx.LiquidityVault

open Program Runs

variable {A : Asset}

/-! ## The invariant -/

/-- The list of an owner has the series above 0 in which the owner has shares, each once. -/
structure Indexed (vault : Address) (v : Vault A) : Prop where
  nodup : ∀ owner, (v.records.series owner).Nodup
  mem : ∀ owner series, series ∈ v.records.series owner ↔
    series ≠ 0 ∧ (v.fund vault series).shares owner ≠ 0

section Runs

variable {vault : Address} {v v' : Vault A} {series : ℕ}

theorem nodup_after {r : Records} {f : Fund Address} {m : Fund.Move Address}
    (hr : ∀ owner, (r.series owner).Nodup) (owner : Address) :
    ((r.after series f m).series owner).Nodup := by
  cases m with
  | mint o amount minted =>
    show ((if series = 0 then r.series else Function.update r.series o _) owner).Nodup
    split_ifs with hseries hmem
    · exact hr owner
    · rw [Function.update_eq_self]
      exact hr owner
    · by_cases ho : owner = o
      · subst ho
        rw [Function.update_self]
        exact (hr owner).append (List.nodup_singleton series)
          (List.disjoint_singleton.mpr hmem)
      · rw [Function.update_of_ne ho]
        exact hr owner
  | burn o count amount released =>
    show ((if series = 0 ∨ _ then r.series else Function.update r.series o _) owner).Nodup
    split_ifs with hkeep
    · exact hr owner
    · by_cases ho : owner = o
      · subst ho
        rw [Function.update_self]
        exact (hr owner).filter _
      · rw [Function.update_of_ne ho]
        exact hr owner
  | pend o count | lend amount | repay principal returned | float liquid => exact hr owner

theorem mem_after_mint {r : Records} {f : Fund Address} {o owner : Address} {amount minted : ℤ}
    {s : ℕ} : s ∈ (r.after series f (.mint o amount minted)).series owner ↔
      s ∈ r.series owner ∨ (s = series ∧ owner = o ∧ series ≠ 0) := by
  show s ∈ (if series = 0 then r.series else Function.update r.series o _) owner ↔ _
  by_cases hseries : series = 0
  · rw [if_pos hseries]
    exact ⟨Or.inl, fun h => h.resolve_right fun h => h.2.2 hseries⟩
  rw [if_neg hseries]
  by_cases ho : owner = o
  · subst ho
    rw [Function.update_self]
    by_cases hmem : series ∈ r.series owner
    · rw [if_pos hmem]
      refine ⟨Or.inl, ?_⟩
      rintro (h | ⟨rfl, -⟩)
      · exact h
      · exact hmem
    · rw [if_neg hmem, List.mem_append, List.mem_singleton]
      exact or_congr_right ⟨fun h => ⟨h, rfl, hseries⟩, fun h => h.1⟩
  · rw [Function.update_of_ne ho]
    exact ⟨Or.inl, fun h => h.resolve_right fun h => ho h.2.1⟩

theorem mem_after_burn {r : Records} {f : Fund Address} {o owner : Address}
    {count amount released : ℤ} {s : ℕ} :
    s ∈ (r.after series f (.burn o count amount released)).series owner ↔
      s ∈ r.series owner ∧
        ¬ (s = series ∧ owner = o ∧ ¬ (series = 0 ∨ f.shares o ≠ 0 ∨ f.pending o ≠ 0)) := by
  show s ∈ (if series = 0 ∨ f.shares o ≠ 0 ∨ f.pending o ≠ 0 then r.series
    else Function.update r.series o _) owner ↔ _
  by_cases hkeep : series = 0 ∨ f.shares o ≠ 0 ∨ f.pending o ≠ 0
  · rw [if_pos hkeep]
    exact (and_iff_left fun h => h.2.2 hkeep).symm
  rw [if_neg hkeep]
  by_cases ho : owner = o
  · subst ho
    rw [Function.update_self, List.mem_filter, decide_eq_true_iff]
    exact and_congr_right fun _ => ⟨fun h hs => h hs.1, fun h hs => h ⟨hs, rfl, hkeep⟩⟩
  · rw [Function.update_of_ne ho]
    exact (and_iff_left fun h => ho h.2.1).symm

/-- A move changes the series of the owners as it changes their shares. -/
theorem mem_after {r : Records} {f : Fund Address} {m : Fund.Move Address} (hs : f.Sound)
    (hm : f.Allows m) {owner : Address} {s : ℕ} {held : ℤ}
    (hself : s = series → held = f.shares owner)
    (hr : s ∈ r.series owner ↔ s ≠ 0 ∧ held ≠ 0) :
    s ∈ (r.after series (f.apply m) m).series owner ↔
      s ≠ 0 ∧ (if s = series then (f.apply m).shares owner else held) ≠ 0 := by
  have hsound := hs.move hm
  cases m with
  | mint o amount minted =>
    rw [mem_after_mint, hr]
    by_cases hcase : s = series ∧ owner = o
    · obtain ⟨rfl, rfl⟩ := hcase
      have hpos : (f.apply (.mint owner amount minted)).shares owner ≠ 0 := by
        show Function.update f.shares owner (f.shares owner + minted) owner ≠ 0
        have hold := hs.shares_nonneg owner
        have hminted := hm.2
        rw [Function.update_self]
        omega
      rw [if_pos rfl]
      refine ⟨?_, fun h => Or.inr ⟨rfl, rfl, h.1⟩⟩
      rintro (h | h)
      · exact ⟨h.1, hpos⟩
      · exact ⟨h.2.2, hpos⟩
    · have hsame : (if s = series then (f.apply (.mint o amount minted)).shares owner else held) =
          held := by
        split_ifs with h
        · have ho : owner ≠ o := fun ho => hcase ⟨h, ho⟩
          exact (Function.update_of_ne ho _ _).trans (hself h).symm
        · rfl
      rw [hsame]
      exact ⟨fun h => h.resolve_right fun h => hcase ⟨h.1, h.2.1⟩, Or.inl⟩
  | burn o count amount released =>
    rw [mem_after_burn, hr]
    by_cases hcase : s = series ∧ owner = o
    · obtain ⟨rfl, rfl⟩ := hcase
      rw [if_pos rfl]
      -- shares that are pending are shares
      have hpending := hsound.pending_nonneg owner
      have hle := hsound.pending_le owner
      have hheld := hself rfl
      constructor
      · rintro ⟨⟨hs0, -⟩, hkeep⟩
        refine ⟨hs0, fun hzero => hkeep ⟨rfl, rfl, ?_⟩⟩
        rintro (h | h | h)
        · exact hs0 h
        · exact h hzero
        · omega
      · rintro ⟨hs0, hleft⟩
        refine ⟨⟨hs0, ?_⟩, fun h => h.2.2 (Or.inr (Or.inl hleft))⟩
        have hcount := hm.2.1
        have hafter : (f.apply (.burn owner count amount released)).shares owner =
          f.shares owner - count := Function.update_self ..
        omega
    · have hsame : (if s = series then (f.apply (.burn o count amount released)).shares owner
          else held) = held := by
        split_ifs with h
        · have ho : owner ≠ o := fun ho => hcase ⟨h, ho⟩
          exact (Function.update_of_ne ho _ _).trans (hself h).symm
        · rfl
      rw [hsame]
      exact and_iff_left fun h => hcase ⟨h.1, h.2.1⟩
  | pend o count | lend amount | repay principal returned | float liquid =>
    have hsame : (if s = series then f.shares owner else held) = held := by
      split_ifs with h
      · exact (hself h).symm
      · rfl
    show s ∈ r.series owner ↔ s ≠ 0 ∧ (if s = series then f.shares owner else held) ≠ 0
    rw [hsame]
    exact hr

/-- **The step lemma.** -/
theorem indexed_step {a : Action A} (hv : Accounted vault v) (hi : Indexed vault v)
    (h : step vault v a = .ok v') : Indexed vault v' := by
  obtain ⟨-, hadministers | ⟨series, m, hperforms, -⟩⟩ := step_performs hv h
  · refine ⟨fun owner => ?_, fun owner s => ?_⟩
    · rw [hadministers.records]
      exact hi.nodup owner
    · rw [hadministers.records, hadministers.fund]
      exact hi.mem owner s
  · refine ⟨fun owner => ?_, fun owner s => ?_⟩
    · rw [hperforms.records]
      exact nodup_after hi.nodup owner
    · rw [hperforms.records, mem_after (hv.sound series) hperforms.allows
        (fun h => by rw [h]) (hi.mem owner s), hperforms.fund]
      by_cases hs : s = series
      · subst hs
        rw [if_pos rfl, Function.update_self]
      · rw [if_neg hs, Function.update_of_ne hs]

theorem indexed_construct {env : VaultEnv} {asset operator maker : Address} {limit : ℕ}
    {t : A.State}
    (h : Returns (construct asset operator maker limit) env ⟨Storage.blank, t⟩ () v) :
    Indexed env.current v := by
  obtain ⟨-, hrecords, hfund⟩ := construct_returns h
  refine ⟨fun owner => ?_, fun owner s => ?_⟩
  · rw [hrecords]
    exact List.nodup_nil
  · rw [hrecords, hfund]
    exact ⟨fun h => absurd h List.not_mem_nil, fun h => absurd rfl h.2⟩

/-- **The run lemma.** -/
theorem indexed_run (as : List (Action A)) (hv : Accounted vault v) (hi : Indexed vault v) :
    Accounted vault (final (step vault) v as) ∧ Indexed vault (final (step vault) v as) :=
  @final_of_inv _ _ _ _ (fun _ => True) (fun v => Accounted vault v ∧ Indexed vault v)
    (fun _ _ _ _ h hstep => ⟨accounted_step h.1 hstep, indexed_step h.1 h.2 hstep⟩)
    _ _ ⟨hv, hi⟩ fun _ _ => trivial

end Runs

/-! ## The views -/

section Views

variable {env : VaultEnv} {v v' : Vault A} {a : I128} {owner : Address}

/-- The series that `owner_series` returns. -/
def Storage.heldSeries (s : Storage) (owner : Address) : List ℕ :=
  let held := (s.ownerSeries owner).filter fun series =>
    (s.seriesShares series owner).toInt > 0 ∨ (s.seriesPendingShares series owner).toInt > 0
  if (s.shares owner).toInt > 0 ∨ (s.pendingShares owner).toInt > 0 then 0 :: held else held

theorem returns_ownerSeries {l : List ℕ} :
    Returns (ownerSeries owner : VaultCall A (List ℕ)) env v l v' ↔
      v.storage.asset.isSome ∧ l = v.storage.heldSeries owner ∧ v' = v := by
  unfold ownerSeries
  simp only [returns_bind, returns_asset, returns_get, returns_pure, Option.isSome_iff_exists,
    exists_and_left, exists_and_right, and_assoc, exists_eq_left, decide_eq_true_eq]
  rfl

/-- A loop whose body adds to the total returns the sum. -/
theorem accumulate_returns {body : ℕ → I128 → VaultCall A I128} {g : ℕ → ℤ} {P : ℕ → Prop}
    {l : List ℕ} {total : I128}
    (hbody : ∀ s ∈ l, ∀ total out v', Returns (body s total) env v out v' →
      P s ∧ out.toInt = total.toInt + g s ∧ v' = v)
    (h : Returns (accumulate body l total) env v a v') :
    (∀ s ∈ l, P s) ∧ a.toInt = total.toInt + (l.map g).sum ∧ v' = v := by
  induction l generalizing total with
  | nil =>
    obtain ⟨rfl, rfl⟩ := returns_pure.mp h
    exact ⟨fun s hs => absurd hs List.not_mem_nil, (add_zero _).symm, rfl⟩
  | cons s rest ih =>
    unfold accumulate at h
    obtain ⟨next, w, hnext, hloop⟩ := returns_bind.mp h
    obtain ⟨hs, hnext, rfl⟩ := hbody s List.mem_cons_self _ _ _ hnext
    obtain ⟨hrest, ha, rfl⟩ := ih (fun s hs => hbody s (List.mem_cons_of_mem _ hs)) hloop
    refine ⟨List.forall_mem_cons.mpr ⟨hs, hrest⟩, ?_, rfl⟩
    rw [List.map_cons, List.sum_cons]
    omega

/-- It returns when the sum is an amount, if it adds nothing negative. -/
theorem returns_accumulate {body : ℕ → I128 → VaultCall A I128} {g : ℕ → ℤ} {l : List ℕ}
    {total : I128}
    (hbody : ∀ s ∈ l, 0 ≤ g s ∧ ∀ total out v', Returns (body s total) env v out v' ↔
      out.toInt = total.toInt + g s ∧ v' = v) (htotal : 0 ≤ total.toInt) :
    Returns (accumulate body l total) env v a v ↔ a.toInt = total.toInt + (l.map g).sum := by
  constructor
  · intro h
    exact (accumulate_returns (P := fun _ => True)
      (fun s hs total out v' h => ⟨trivial, ((hbody s hs).2 _ _ _).mp h⟩) h).2.1
  intro ha
  induction l generalizing total with
  | nil => exact returns_pure.mpr ⟨BitVec.toInt_inj.mp (ha.trans (add_zero _)), rfl⟩
  | cons s rest ih =>
    have hrest : ∀ s ∈ rest, 0 ≤ g s ∧ ∀ total out v', Returns (body s total) env v out v' ↔
        out.toInt = total.toInt + g s ∧ v' = v := fun s hs => hbody s (List.mem_cons_of_mem _ hs)
    obtain ⟨hnonneg, hs⟩ := hbody s List.mem_cons_self
    rw [List.map_cons, List.sum_cons] at ha
    -- the totals on the way are at most the last one
    have hsum : 0 ≤ (rest.map g).sum := List.sum_nonneg fun x hx => by
      obtain ⟨s, hs, rfl⟩ := List.mem_map.mp hx
      exact (hrest s hs).1
    have hbound := BitVec.toInt_lt (x := a)
    have hnext : I128.ofInt? (total.toInt + g s) = some (BitVec.ofInt 128 (total.toInt + g s)) :=
      if_pos ⟨by omega, by omega⟩
    rw [I128.ofInt?_eq_some] at hnext
    unfold accumulate
    exact returns_bind.mpr
      ⟨_, _, (hs _ _ _).mpr ⟨hnext, rfl⟩, ih hrest (by omega) (by omega)⟩

variable {vault : Address}

/-- Pending shares are shares. -/
theorem Accounted.holds_iff (hv : Accounted vault v) {series : ℕ} :
    (0 < (v.storage.sharesOf series owner).toInt ∨ 0 < (v.storage.pendingOf series owner).toInt) ↔
      (v.fund vault series).shares owner ≠ 0 := by
  have hpending : 0 ≤ (v.storage.pendingOf series owner).toInt :=
    (hv.sound series).pending_nonneg owner
  have hle : (v.storage.pendingOf series owner).toInt ≤ (v.storage.sharesOf series owner).toInt :=
    (hv.sound series).pending_le owner
  show _ ↔ (v.storage.sharesOf series owner).toInt ≠ 0
  omega

/-- The series of an owner are those with shares. -/
theorem Indexed.mem_heldSeries (hv : Accounted vault v) (hi : Indexed vault v) {series : ℕ} :
    series ∈ v.storage.heldSeries owner ↔ (v.fund vault series).shares owner ≠ 0 := by
  have hfilter : series ∈ (v.storage.ownerSeries owner).filter (fun series =>
      (v.storage.seriesShares series owner).toInt > 0 ∨
        (v.storage.seriesPendingShares series owner).toInt > 0) ↔
      series ≠ 0 ∧ (v.fund vault series).shares owner ≠ 0 := by
    rw [List.mem_filter, decide_eq_true_iff]
    have hmem : series ∈ v.storage.ownerSeries owner ↔ _ := hi.mem owner series
    rw [hmem]
    refine and_iff_left_of_imp fun ⟨hs, hheld⟩ => ?_
    have hholds := hv.holds_iff.mpr hheld
    unfold Storage.sharesOf Storage.pendingOf at hholds
    rwa [if_neg hs, if_neg hs] at hholds
  by_cases hs : series = 0
  · subst hs
    rw [← hv.holds_iff]
    show 0 ∈ (if _ then _ else _) ↔ _
    split_ifs with hlegacy
    · exact ⟨fun _ => hlegacy, fun _ => List.mem_cons_self⟩
    · exact ⟨fun h => absurd rfl (hfilter.mp h).1, fun h => absurd h hlegacy⟩
  · have hrest : series ∈ v.storage.heldSeries owner ↔
        series ≠ 0 ∧ (v.fund vault series).shares owner ≠ 0 := by
      rw [← hfilter]
      show series ∈ (if _ then _ else _) ↔ _
      split_ifs
      · rw [List.mem_cons]
        exact or_iff_right hs
      · exact Iff.rfl
    rw [hrest]
    exact and_iff_right hs

theorem Indexed.nodup_heldSeries (hi : Indexed vault v) : (v.storage.heldSeries owner).Nodup := by
  have hfilter (p : ℕ → Bool) : ((v.storage.ownerSeries owner).filter p).Nodup :=
    (hi.nodup owner).filter p
  have hzero (p : ℕ → Bool) : 0 ∉ (v.storage.ownerSeries owner).filter p := fun h =>
    ((hi.mem owner 0).mp (List.mem_of_mem_filter h)).1 rfl
  unfold Storage.heldSeries
  split_ifs
  · exact List.nodup_cons.mpr ⟨hzero _, hfilter _⟩
  · exact hfilter _

/-- A view that adds up a reading of every series of an owner returns the total over all series. -/
theorem Indexed.returns_total (hv : Accounted vault v) (hi : Indexed vault v)
    {read : ℕ → VaultCall A I128} {key : ℕ → I128} {readers : List Address}
    (hread : ∀ s x w, Returns (read s) ⟨readers, vault⟩ v x w ↔
      v.storage.asset.isSome ∧ s ≤ v.storage.current ∧ x = key s ∧ w = v)
    (hkey : ∀ s, 0 ≤ (key s).toInt ∧ (key s).toInt ≤ (v.fund vault s).shares owner) :
    Returns (do accumulate (fun s total => do checkedAdd total (← read s)) (← ownerSeries owner) 0)
      ⟨readers, vault⟩ v a v ↔ HasTotal (fun s => (key s).toInt) a.toInt := by
  have hknown {s : ℕ} (hs : s ∈ v.storage.heldSeries owner) : s ≤ v.storage.current := by
    by_contra hfresh
    have hle := (hv.sound s).shares_le owner
    have hnonneg := (hv.sound s).shares_nonneg owner
    rw [hv.fresh s (by omega)] at hle
    exact (hi.mem_heldSeries hv).mp hs (by omega)
  have hbody : ∀ s ∈ v.storage.heldSeries owner, 0 ≤ (key s).toInt ∧ ∀ total out v',
      Returns (do checkedAdd total (← read s)) ⟨readers, vault⟩ v out v' ↔
        out.toInt = total.toInt + (key s).toInt ∧ v' = v := by
    refine fun s hs => ⟨(hkey s).1, fun total out v' => ?_⟩
    simp only [returns_bind, hread, returns_checkedAdd, exists_and_left, and_assoc, exists_eq_left,
      hv.asset, hknown hs, true_and]
  have hzero (s : ℕ) (hs : s ∉ v.storage.heldSeries owner) : (key s).toInt = 0 := by
    have hnone := not_not.mp (mt (hi.mem_heldSeries hv).mpr hs)
    have hbounds := hkey s
    omega
  have hsum := returns_accumulate (a := a) hbody (le_refl (0 : I128).toInt)
  rw [show (0 : I128).toInt = 0 from rfl, zero_add] at hsum
  rw [HasTotal.iff_list hi.nodup_heldSeries hzero, eq_comm, ← hsum]
  simp only [returns_bind, returns_ownerSeries, exists_and_left, and_assoc, exists_eq_left,
    hv.asset, true_and]

/-- The equity of an owner is known when nothing is lent out of the series with shares. -/
theorem Indexed.equity_returns (hv : Accounted vault v) (hi : Indexed vault v)
    {readers : List Address} (h : Returns (equity owner) ⟨readers, vault⟩ v a v) :
    (∀ s, (v.fund vault s).shares owner ≠ 0 → (v.fund vault s).principal = 0) ∧
      HasTotal (fun s => (v.fund vault s).shares owner * (v.fund vault s).assets /
        (v.fund vault s).supply) a.toInt := by
  have hbody : ∀ s ∈ v.storage.heldSeries owner, ∀ total out v',
      Returns (seriesEquity owner s total) ⟨readers, vault⟩ v out v' →
        (v.fund vault s).principal = 0 ∧ out.toInt = total.toInt +
          (v.fund vault s).shares owner * (v.fund vault s).assets / (v.fund vault s).supply ∧
          v' = v := by
    intro s _ total out v' h
    unfold seriesEquity at h
    simp only [returns_bind, returns_seriesPrincipal, returns_failIf, returns_seriesShares,
      returns_seriesTotalShares, returns_seriesAssets, returns_ite, returns_checkedAdd, returns_pure,
      exists_and_left, and_assoc, exists_eq_left, exists_const, not_not, ne_eq, gt_iff_lt,
      not_lt] at h
    obtain ⟨-, -, hprincipal, -, -, -, -, h⟩ := h
    refine ⟨congrArg BitVec.toInt hprincipal, ?_⟩
    rcases h with ⟨hpos, -, -, assets, hassets, -, -, part, w, hpart, hout, rfl⟩ | ⟨hle, rfl, rfl⟩
    · obtain ⟨⟨-, -, -, hquotient⟩, rfl⟩ := mulDivFloor_returns hpart
      refine ⟨?_, rfl⟩
      rw [hout, hquotient, hassets]
      rfl
    · have hnone : (v'.fund vault s).supply = 0 := le_antisymm hle (hv.sound s).supply_nonneg
      rw [hnone, Int.ediv_zero, add_zero]
      exact ⟨rfl, rfl⟩
  have hzero (s : ℕ) (hs : s ∉ v.storage.heldSeries owner) : (v.fund vault s).shares owner *
      (v.fund vault s).assets / (v.fund vault s).supply = 0 := by
    rw [not_not.mp (mt (hi.mem_heldSeries hv).mpr hs), zero_mul, Int.zero_ediv]
  unfold equity at h
  obtain ⟨l, w, hl, h⟩ := returns_bind.mp h
  obtain ⟨-, rfl, rfl⟩ := returns_ownerSeries.mp hl
  obtain ⟨hprincipal, ha, -⟩ := accumulate_returns hbody h
  refine ⟨fun s hs => hprincipal s ((hi.mem_heldSeries hv).mpr hs), ?_⟩
  rw [HasTotal.iff_list hi.nodup_heldSeries hzero, ha, show (0 : I128).toInt = 0 from rfl, zero_add]

end Views

/-- **The index of the owners is complete.** In every reachable vault, `owner_series` returns, each
once, exactly the series in which the owner has shares or pending shares. `shares` and
`pending_shares` return the totals over all series (when these are amounts), and the equity that
`equity` returns is the total of what the shares are worth. -/
theorem owner_index {vault asset operator maker : Address} {limit : ℕ}
    {signers : List Address} {t : A.State} {v₀ : Vault A} (hmaker : maker ≠ vault)
    (hdeploy : Returns (construct asset operator maker limit) ⟨signers, vault⟩ ⟨Storage.blank, t⟩ ()
      v₀) (as : List (Action A)) (owner : Address) (readers : List Address) :
    let v := final (step vault) v₀ as
    let env : VaultEnv := ⟨readers, vault⟩
    (∃ l, Returns (ownerSeries owner) env v l v ∧ l.Nodup ∧ ∀ series, series ∈ l ↔
      0 < (v.storage.sharesOf series owner).toInt ∨ 0 < (v.storage.pendingOf series owner).toInt) ∧
    (∀ total, Returns (shares owner) env v total v ↔
      HasTotal (fun series => (v.storage.sharesOf series owner).toInt) total.toInt) ∧
    (∀ total, Returns (pendingShares owner) env v total v ↔
      HasTotal (fun series => (v.storage.pendingOf series owner).toInt) total.toInt) ∧
    ∀ total, Returns (equity owner) env v total v →
      (∀ series, v.storage.sharesOf series owner ≠ 0 → v.storage.principalOf series = 0) ∧
      HasTotal (fun series => (v.storage.sharesOf series owner).toInt *
        (v.liquidOf vault series + (v.storage.principalOf series).toInt) /
          (v.storage.supplyOf series).toInt) total.toInt := by
  intro v env
  obtain ⟨hv, hi⟩ := indexed_run as (accounted_construct hmaker hdeploy) (indexed_construct hdeploy)
  refine ⟨⟨v.storage.heldSeries owner, returns_ownerSeries.mpr ⟨hv.asset, rfl, rfl⟩,
    hi.nodup_heldSeries, fun series => (hi.mem_heldSeries hv).trans hv.holds_iff.symm⟩,
    fun total => ?_, fun total => ?_, fun total h => ?_⟩
  · exact hi.returns_total hv (fun s x w => returns_seriesShares)
      fun s => ⟨(hv.sound s).shares_nonneg owner, le_rfl⟩
  · exact hi.returns_total hv (fun s x w => returns_seriesPendingShares)
      fun s => ⟨(hv.sound s).pending_nonneg owner, (hv.sound s).pending_le owner⟩
  · obtain ⟨hprincipal, htotal⟩ := hi.equity_returns hv h
    refine ⟨fun s hs => BitVec.toInt_inj.mp (hprincipal s fun hzero => hs ?_), htotal⟩
    exact BitVec.toInt_inj.mp (hzero.trans rfl)

/-- The owner redeems all shares of series 1, and has redeemed a part of those of series 0. -/
def sampleOwnerRun : List (Action sampleAsset) :=
  sampleVaultRun ++ [.invoke [sampleOperator] (.settle 1 30 30),
    .invoke [sampleOwner] (.cancelWithdrawRequest sampleOwner 1 60),
    .invoke [sampleOwner] (.withdraw sampleOwner 1 100 0)]

theorem sampleVault_owner :
    let v := final (step sampleVault) deployedVault sampleOwnerRun
    v.storage.ownerSeries sampleOwner = [] ∧
      ∃ l, Returns (ownerSeries sampleOwner) ⟨[], sampleVault⟩ v l v ∧ l.Nodup ∧
        ∀ series, series ∈ l ↔ 0 < (v.storage.sharesOf series sampleOwner).toInt ∨
          0 < (v.storage.pendingOf series sampleOwner).toInt := by
  have h := @owner_index sampleAsset sampleVault (.contract 2) sampleOperator sampleOperator 5000
    [sampleOperator] sampleTokens deployedVault (by decide) rfl sampleOwnerRun sampleOwner []
  exact ⟨by decide +kernel, h.1⟩

end Pnlx.LiquidityVault
