import Pnlx.Properties.IntentLifecycle

/-!
# Residual margins

A settlement that matches a part of an intent leaves the margin of the rest under the residual
intent. The margin is used when the residual is matched, or paid out after it was cancelled.

1. `ItemSettled`: what a settlement does for one of its intents (`consumeFilledIntent_settles`).
2. `Escrow b s t events`: what the matches and claims so far say about the margins `s` of the
   settlement contract `b` and its registry `t`; every step keeps it (`escrow_step`).
3. `residualMargins_once`: what a run of the system leaves of the residual margins.
-/

namespace Pnlx.BatchSettlement

open Program Runs

variable {H : Host} {env : Env} {c c' : Chain H}

/-! ## One intent of a settlement -/

/-- A settlement has ended an intent with its residual. -/
structure ItemSettled (env : Env) (registry : Address) (item : ResidualItem) (c c' : Chain H) :
    Prop where
  settler : (c.storage .intentRegistry registry).settler = some env.current
  active : IntentRegistry.IsActive (c.storage .intentRegistry registry) item.intent
  ended : (c'.storage .intentRegistry registry).cancelled item.intent
  decreases : ∀ m, (c.storage .batchSettlement env.current).residualMargin item.intent = some m →
    item.margin.toInt < m.toInt
  residual : item.residual ≠ 0 → item.residual ≠ item.intent ∧ 0 < item.margin.toInt ∧
    (c.storage .intentRegistry registry).intent item.residual = none ∧
    ((c'.storage .intentRegistry registry).intent item.residual).isSome
  margins : c'.storage .batchSettlement env.current =
    { c.storage .batchSettlement env.current with
      residualMargin := if item.residual = 0 then
          Function.update (c.storage .batchSettlement env.current).residualMargin item.intent none
        else Function.update (Function.update
          (c.storage .batchSettlement env.current).residualMargin item.intent none)
          item.residual (some item.margin) }
  others : ∀ a ≠ env.current, c'.storage .batchSettlement a = c.storage .batchSettlement a

theorem clearResidualMargin_returns {item : ResidualItem} {u : Unit}
    (h : Returns (clearResidualMargin item) env c u c') :
    (∀ m, (c.storage .batchSettlement env.current).residualMargin item.intent = some m →
        item.margin.toInt < m.toInt) ∧
      c'.storage .batchSettlement env.current =
        { c.storage .batchSettlement env.current with
          residualMargin := Function.update
            (c.storage .batchSettlement env.current).residualMargin item.intent none } ∧
      ∀ a ≠ env.current, c'.storage .batchSettlement a = c.storage .batchSettlement a := by
  unfold clearResidualMargin at h
  simp only [returns_bind, returns_load, exists_eq_left, exists_and_left, and_assoc] at h
  cases hm : (c.storage .batchSettlement env.current).residualMargin item.intent with
  | none =>
    rw [hm] at h
    obtain ⟨-, rfl⟩ := returns_pure.mp h
    refine ⟨fun m hm' => (by cases hm'), ?_, fun _ _ => rfl⟩
    rw [← hm, Function.update_eq_self]
  | some m =>
    rw [hm] at h
    simp only [returns_bind, returns_failIf, returns_modifyStorage, exists_and_left, and_assoc,
      exists_eq_left, exists_const, not_le] at h
    obtain ⟨hlt, rfl⟩ := h
    refine ⟨fun m' hm' => Option.some.inj hm' ▸ hlt, Chain.storage_modify_self, fun a ha => ?_⟩
    exact Chain.storage_modify_of_address ha

theorem markCancelled_returns {intent : BytesN32} {u : Unit}
    (h : Returns (IntentRegistry.markCancelled intent) env c u c') :
    IntentRegistry.IsActive (c.storage .intentRegistry env.current) intent ∧
      c' = c.modify .intentRegistry env.current fun s =>
        { s with cancelled := Function.update s.cancelled intent true } := by
  unfold IntentRegistry.markCancelled at h
  simp only [returns_bind, returns_load, returns_failIf, returns_modifyStorage,
    exists_eq_left, exists_and_left, and_assoc, exists_const] at h
  obtain ⟨hknown, hactive, hset⟩ := h
  rw [Bool.not_eq_true, Option.isNone_eq_false_iff] at hknown
  exact ⟨⟨hknown, hactive⟩, hset⟩

theorem requireSettler_returns {settler : Address} {u : Unit}
    (h : Returns (IntentRegistry.requireSettler settler) env c u c') :
    (c.storage .intentRegistry env.current).settler = some settler ∧ c' = c := by
  unfold IntentRegistry.requireSettler at h
  simp only [returns_bind, returns_requireAuth, returns_stored, returns_failIf, exists_eq_left,
    exists_and_left, and_assoc, exists_const, ne_eq, not_not] at h
  obtain ⟨-, configured, hsettler, rfl, rfl⟩ := h
  exact ⟨hsettler, rfl⟩

theorem rollover_settles {settler : Address} {source residual payload : BytesN32} {u : Unit}
    (h : Returns (IntentRegistry.rollover settler source residual payload) env c u c') :
    (c.storage .intentRegistry env.current).settler = some settler ∧ source ≠ residual ∧
      IntentRegistry.IsActive (c.storage .intentRegistry env.current) source ∧
      (c.storage .intentRegistry env.current).intent residual = none ∧
      (c'.storage .intentRegistry env.current).cancelled source ∧
      ((c'.storage .intentRegistry env.current).intent residual).isSome ∧
      c'.storage .batchSettlement = c.storage .batchSettlement := by
  unfold IntentRegistry.rollover at h
  simp only [returns_bind, returns_load, returns_failIf, returns_stored, returns_modifyStorage,
    exists_eq_left, exists_and_left, and_assoc, exists_const, not_or, not_not] at h
  obtain ⟨_, c₁, hsettler, hne, hsource, hnew, m, hm, n, hn, rfl⟩ := h
  obtain ⟨hsettler, rfl⟩ := requireSettler_returns hsettler
  rw [Option.not_isSome_iff_eq_none] at hnew
  rw [Bool.and_eq_true, Bool.not_eq_true'] at hsource
  rw [Chain.storage_modify_self]
  refine ⟨hsettler, hne, ⟨hsource.1, Bool.not_eq_true _ ▸ hsource.2⟩, hnew, ?_, ?_, ?_⟩
  · exact Function.update_self ..
  · exact Option.isSome_of_eq_some (Function.update_self ..)
  · funext a
    exact Chain.storage_modify_of_kind (by decide)

theorem consumeFilledIntent_settles {registry : Address} {item : ResidualItem} {u : Unit}
    (h : Returns (consumeFilledIntent registry item) env c u c') :
    ItemSettled env registry item c c' := by
  unfold consumeFilledIntent at h
  obtain ⟨_, c₁, hclear, h⟩ := returns_bind.mp h
  have hsame : Chain.SameAt .intentRegistry c c₁ := Respects.rel hclear
  have hregistry : c₁.storage .intentRegistry = c.storage .intentRegistry := hsame
  obtain ⟨hdecreases, hmargins, hothers⟩ := clearResidualMargin_returns hclear
  simp only [returns_bind, returns_currentContract, exists_eq_left, exists_and_left, and_assoc] at h
  by_cases hzero : item.residual = 0
  · -- the intent is consumed
    rw [if_pos hzero] at h
    simp only [returns_bind, returns_failIf, returns_call, exists_and_left, and_assoc,
      exists_eq_left, exists_const, IntentRegistry.consume] at h
    obtain ⟨-, _, c₂, hsettler, hmark⟩ := h
    obtain ⟨hsettler, rfl⟩ := requireSettler_returns hsettler
    obtain ⟨hactive, rfl⟩ := markCancelled_returns hmark
    rw [Env.current_invoke] at hsettler hactive
    rw [hregistry] at hsettler hactive
    refine ⟨hsettler, hactive, ?_, hdecreases, fun hne => absurd hzero hne, ?_, fun a ha => ?_⟩
    · rw [Env.current_invoke, Chain.storage_modify_self]
      exact Function.update_self ..
    · rw [Chain.storage_modify_of_kind (by decide), hmargins, if_pos hzero]
    · rw [Chain.storage_modify_of_kind (by decide), hothers a ha]
  · -- the intent is rolled over
    rw [if_neg hzero] at h
    simp only [returns_bind, returns_failIf, returns_call, returns_validateHash,
      returns_modifyStorage, exists_and_left, and_assoc, exists_eq_left, exists_const, not_le] at h
    obtain ⟨hpos, -, -, -, hrollover⟩ := h
    obtain ⟨hsettler, hne, hactive, hnew, hended, hsome, hbatch⟩ := rollover_settles hrollover
    have hkept (f : BatchSettlementStorage → BatchSettlementStorage) :
        (c₁.modify .batchSettlement env.current f).storage .intentRegistry registry =
          c₁.storage .intentRegistry registry := Chain.storage_modify_of_kind (by decide)
    rw [Env.current_invoke] at hsettler hactive hnew hended hsome
    rw [hkept, hregistry] at hsettler hactive hnew
    refine ⟨hsettler, hactive, hended, hdecreases, fun _ => ⟨Ne.symm hne, hpos, hnew, hsome⟩, ?_,
      fun a ha => ?_⟩
    · rw [hbatch, Chain.storage_modify_self, hmargins, if_neg hzero]
    · rw [hbatch, Chain.storage_modify_of_address ha, hothers a ha]

/-! ## Matches and claims -/

/-- What a settlement contract does with the margins of residuals. -/
inductive MarginEvent where
  | matched (item : ResidualItem)
  | claimed (intent : BytesN32)
  deriving DecidableEq

/-- The residuals that were claimed. -/
def claims (events : List MarginEvent) : List BytesN32 :=
  events.filterMap fun
    | .matched _ => none
    | .claimed intent => some intent

/-- What the matches and claims so far say about the margins of a settlement contract `b` with the
storage `s` and about its registry with the storage `t`. -/
structure Escrow (b : Address) (s : BatchSettlementStorage) (t : IntentRegistryStorage)
    (events : List MarginEvent) : Prop where
  settler : ∀ item, .matched item ∈ events → t.settler = some b
  entry : ∀ i m, s.residualMargin i = some m → .claimed i ∉ events ∧
    (∀ item, .matched item ∈ events → item.intent ≠ i) ∧
    ∃ item, .matched item ∈ events ∧ item.residual ≠ 0 ∧ item.residual = i ∧ item.margin = m
  ended : ∀ item, .matched item ∈ events → (t.intent item.intent).isSome ∧ t.cancelled item.intent
  residual : ∀ item, .matched item ∈ events → item.residual ≠ 0 →
    (t.intent item.residual).isSome ∧
      (¬ t.cancelled item.residual → s.residualMargin item.residual = some item.margin)
  claimed : ∀ i, .claimed i ∈ events → (t.intent i).isSome ∧ t.cancelled i ∧
    ∀ item, .matched item ∈ events → item.intent ≠ i
  nodup : (claims events).Nodup
  decreases : ∀ item item', .matched item ∈ events → .matched item' ∈ events →
    item.residual ≠ 0 → item'.intent = item.residual → item'.margin.toInt < item.margin.toInt

/-- The registry has kept its records and its settler. -/
structure Kept (t t' : IntentRegistryStorage) : Prop where
  intent : ∀ i, (t.intent i).isSome → (t'.intent i).isSome
  cancelled : ∀ i, t.cancelled i → t'.cancelled i
  settler : ∀ a, t.settler = some a → t'.settler = some a

namespace Escrow

variable {b : Address} {s s' : BatchSettlementStorage} {t t' : IntentRegistryStorage}
  {events : List MarginEvent}

/-- A contract without margins of residuals. -/
theorem empty (b : Address) (t : IntentRegistryStorage) (hs : ∀ i, s.residualMargin i = none) :
    Escrow b s t [] where
  settler _ h := nomatch h
  entry i _ h := nomatch (hs i).symm.trans h
  ended _ h := nomatch h
  residual _ h := nomatch h
  claimed _ h := nomatch h
  nodup := List.nodup_nil
  decreases _ _ h := nomatch h

/-- What happens elsewhere keeps the escrow. -/
theorem keep (h : Escrow b s t events) (hs : IntentRegistry.SameMargins s s') (ht : Kept t t') :
    Escrow b s' t' events where
  settler item hitem := ht.settler b (h.settler item hitem)
  entry i m hm := h.entry i m (hs.residualMargin ▸ hm)
  ended item hitem :=
    ⟨ht.intent _ (h.ended item hitem).1, ht.cancelled _ (h.ended item hitem).2⟩
  residual item hitem hne := by
    obtain ⟨hsome, hmargin⟩ := h.residual item hitem hne
    refine ⟨ht.intent _ hsome, fun hactive => ?_⟩
    rw [hs.residualMargin]
    exact hmargin fun hended => hactive (ht.cancelled _ hended)
  claimed i hi := by
    obtain ⟨hsome, hended, hmatched⟩ := h.claimed i hi
    exact ⟨ht.intent i hsome, ht.cancelled i hended, hmatched⟩
  nodup := h.nodup
  decreases := h.decreases

theorem mem_matched {e : MarginEvent} {item : ResidualItem}
    (h : MarginEvent.matched item ∈ events ++ [e]) :
    MarginEvent.matched item ∈ events ∨ e = .matched item := by
  rcases List.mem_append.mp h with h | h
  · exact Or.inl h
  · exact Or.inr (List.mem_singleton.mp h).symm

theorem mem_claimed {e : MarginEvent} {i : BytesN32}
    (h : MarginEvent.claimed i ∈ events ++ [e]) :
    MarginEvent.claimed i ∈ events ∨ e = .claimed i := by
  rcases List.mem_append.mp h with h | h
  · exact Or.inl h
  · exact Or.inr (List.mem_singleton.mp h).symm

end Escrow

/-- Two intents differ when only one of them is registered. -/
theorem ne_of_registered {t : IntentRegistryStorage} {i j : BytesN32} (hi : (t.intent i).isSome)
    (hj : t.intent j = none) : i ≠ j := by
  rintro rfl
  rw [hj] at hi
  exact absurd hi Bool.false_ne_true

section Matched

variable {registry : Address} {item : ResidualItem} {events : List MarginEvent}

/-- The margins that a matched intent leaves. -/
theorem ItemSettled.margin_cases (h : ItemSettled env registry item c c') {i : BytesN32} {m : I128}
    (hm : (c'.storage .batchSettlement env.current).residualMargin i = some m) :
    item.residual ≠ 0 ∧ i = item.residual ∧ m = item.margin ∨
      i ≠ item.intent ∧ (c.storage .batchSettlement env.current).residualMargin i = some m := by
  rw [h.margins] at hm
  by_cases hzero : item.residual = 0
  · simp only [if_pos hzero] at hm
    rcases Lineage.eq_some_of_update hm with ⟨-, hm⟩ | ⟨hne, hm⟩
    · exact nomatch hm
    · exact Or.inr ⟨hne, hm⟩
  · simp only [if_neg hzero] at hm
    rcases Lineage.eq_some_of_update hm with ⟨hi, hm⟩ | ⟨-, hm⟩
    · exact Or.inl ⟨hzero, hi, (Option.some.inj hm).symm⟩
    · rcases Lineage.eq_some_of_update hm with ⟨-, hm⟩ | ⟨hne, hm⟩
      · exact nomatch hm
      · exact Or.inr ⟨hne, hm⟩

/-- The margins that a matched intent leaves alone. -/
theorem ItemSettled.margin_of_ne (h : ItemSettled env registry item c c') {i : BytesN32}
    (hi : i ≠ item.intent) (hr : item.residual ≠ 0 → i ≠ item.residual) :
    (c'.storage .batchSettlement env.current).residualMargin i =
      (c.storage .batchSettlement env.current).residualMargin i := by
  rw [h.margins]
  by_cases hzero : item.residual = 0
  · simp only [if_pos hzero, Function.update_of_ne hi]
  · simp only [if_neg hzero, Function.update_of_ne hi, Function.update_of_ne (hr hzero)]

theorem ItemSettled.margin_residual (h : ItemSettled env registry item c c')
    (hr : item.residual ≠ 0) :
    (c'.storage .batchSettlement env.current).residualMargin item.residual = some item.margin := by
  rw [h.margins]
  simp only [if_neg hr, Function.update_self]

/-- **A match keeps the escrow.** The intent was active, so it was neither matched nor claimed, and
its residual is new. -/
theorem Escrow.matched (h : Escrow env.current (c.storage .batchSettlement env.current)
      (c.storage .intentRegistry registry) events) (hitem : ItemSettled env registry item c c')
    (ht : Kept (c.storage .intentRegistry registry) (c'.storage .intentRegistry registry)) :
    Escrow env.current (c'.storage .batchSettlement env.current)
      (c'.storage .intentRegistry registry) (events ++ [.matched item]) where
  settler _ _ := ht.settler _ hitem.settler
  entry i m hm := by
    rcases hitem.margin_cases hm with ⟨hzero, rfl, rfl⟩ | ⟨hne, hold⟩
    · obtain ⟨hself, hpos, hnew, -⟩ := hitem.residual hzero
      refine ⟨fun hclaimed => ?_, fun item' hmatched => ?_, item, ?_, hzero, rfl, rfl⟩
      · rcases Escrow.mem_claimed hclaimed with hclaimed | hclaimed
        · exact ne_of_registered (h.claimed _ hclaimed).1 hnew rfl
        · exact nomatch hclaimed
      · rcases Escrow.mem_matched hmatched with hmatched | hmatched
        · exact ne_of_registered (h.ended _ hmatched).1 hnew
        · obtain rfl := MarginEvent.matched.inj hmatched
          exact Ne.symm hself
      · exact List.mem_append_right _ (List.mem_singleton_self _)
    · obtain ⟨hclaimed, hmatched, item', hitem', hrest⟩ := h.entry i m hold
      refine ⟨fun hnow => ?_, fun item'' hnow => ?_, item', List.mem_append_left _ hitem', hrest⟩
      · rcases Escrow.mem_claimed hnow with hnow | hnow
        · exact hclaimed hnow
        · exact nomatch hnow
      · rcases Escrow.mem_matched hnow with hnow | hnow
        · exact hmatched _ hnow
        · obtain rfl := MarginEvent.matched.inj hnow
          exact Ne.symm hne
  ended item' hmatched := by
    rcases Escrow.mem_matched hmatched with hmatched | hmatched
    · exact ⟨ht.intent _ (h.ended _ hmatched).1, ht.cancelled _ (h.ended _ hmatched).2⟩
    · obtain rfl := MarginEvent.matched.inj hmatched
      exact ⟨ht.intent _ hitem.active.1, hitem.ended⟩
  residual item' hmatched hne := by
    rcases Escrow.mem_matched hmatched with hmatched | hmatched
    · obtain ⟨hsome, hmargin⟩ := h.residual _ hmatched hne
      refine ⟨ht.intent _ hsome, fun hactive => ?_⟩
      have hintent : item'.residual ≠ item.intent := by
        intro he
        rw [he] at hactive
        exact hactive hitem.ended
      have hresidual (hzero : item.residual ≠ 0) : item'.residual ≠ item.residual :=
        ne_of_registered hsome (hitem.residual hzero).2.2.1
      rw [hitem.margin_of_ne hintent hresidual]
      exact hmargin fun hended => hactive (ht.cancelled _ hended)
    · obtain rfl := MarginEvent.matched.inj hmatched
      exact ⟨(hitem.residual hne).2.2.2, fun _ => hitem.margin_residual hne⟩
  claimed i hi := by
    rcases Escrow.mem_claimed hi with hi | hi
    · obtain ⟨hsome, hended, hmatched⟩ := h.claimed i hi
      refine ⟨ht.intent i hsome, ht.cancelled i hended, fun item' hnow => ?_⟩
      rcases Escrow.mem_matched hnow with hnow | hnow
      · exact hmatched _ hnow
      · obtain rfl := MarginEvent.matched.inj hnow
        rintro rfl
        exact hitem.active.2 hended
    · exact nomatch hi
  nodup := by
    have hclaims : claims (events ++ [.matched item]) = claims events := by
      unfold claims
      rw [List.filterMap_append]
      exact List.append_nil _
    rw [hclaims]
    exact h.nodup
  decreases item₁ item₂ h₁ h₂ hne he := by
    rcases Escrow.mem_matched h₁ with h₁ | h₁ <;> rcases Escrow.mem_matched h₂ with h₂ | h₂
    · exact h.decreases _ _ h₁ h₂ hne he
    · -- the residual was active, so its margin was there
      obtain rfl := MarginEvent.matched.inj h₂
      refine hitem.decreases _ ?_
      rw [he]
      exact (h.residual _ h₁ hne).2 (he ▸ hitem.active.2)
    · obtain rfl := MarginEvent.matched.inj h₁
      exact absurd he (ne_of_registered (h.ended _ h₂).1 (hitem.residual hne).2.2.1)
    · obtain rfl := MarginEvent.matched.inj h₁
      obtain rfl := MarginEvent.matched.inj h₂
      exact absurd he.symm (hitem.residual hne).1

end Matched

/-! ## The settler of a registry -/

/-- Every registry keeps its settler. -/
def SettlerKept (c c' : Chain H) : Prop := ∀ r a,
  (c.storage .intentRegistry r).settler = some a → (c'.storage .intentRegistry r).settler = some a

instance : Std.Refl (SettlerKept (H := H)) := ⟨fun _ _ _ h => h⟩

instance : IsTrans (Chain H) SettlerKept := ⟨fun _ _ _ h h' r a hr => h' r a (h r a hr)⟩

theorem settlerKept_of_sameAt {α : Type} {x : Contract H α}
    (hx : Respects (Chain.SameAt .intentRegistry) x) : Respects SettlerKept x :=
  hx.mono fun c c' h r a hr => by
    rw [show c'.storage .intentRegistry = c.storage .intentRegistry from h]
    exact hr

theorem settlerKept_modify {f : IntentRegistryStorage → IntentRegistryStorage}
    (hf : ∀ a, (c.storage .intentRegistry env.current).settler = some a →
      (f (c.storage .intentRegistry env.current)).settler = some a) :
    SettlerKept c (c.modify .intentRegistry env.current f) := by
  intro r a hr
  by_cases hcurrent : r = env.current
  · rw [hcurrent] at hr ⊢
    rw [Chain.storage_modify_self]
    exact hf a hr
  · rwa [Chain.storage_modify_of_address hcurrent]

theorem settlerKept_modifyStorage {f : IntentRegistryStorage → IntentRegistryStorage}
    (hf : ∀ s, (f s).settler = s.settler) :
    Respects SettlerKept (modifyStorage .intentRegistry f : Contract H Unit) where
  rel h := by
    rw [returns_modifyStorage.mp h]
    exact settlerKept_modify fun a hs => (hf _).trans hs

instance settlerKept_markCancelled {intent : BytesN32} :
    Respects SettlerKept (IntentRegistry.markCancelled intent : Contract H Unit) := by
  unfold IntentRegistry.markCancelled
  repeat refine Respects.andThen inferInstance fun _ => ?_
  exact settlerKept_modifyStorage fun _ => rfl

instance settlerKept_consume {settler : Address} {intent : BytesN32} :
    Respects SettlerKept (IntentRegistry.consume settler intent : Contract H Unit) := by
  unfold IntentRegistry.consume
  infer_instance

instance settlerKept_rollover {settler : Address} {source residual payload : BytesN32} :
    Respects SettlerKept
      (IntentRegistry.rollover settler source residual payload : Contract H Unit) := by
  unfold IntentRegistry.rollover
  repeat refine Respects.andThen inferInstance fun _ => ?_
  exact settlerKept_modifyStorage fun _ => rfl

theorem settlerKept_submit {batch market intent payload : BytesN32} : Respects SettlerKept
    (IntentRegistry.submit batch market intent payload : Contract H Unit) := by
  unfold IntentRegistry.submit
  repeat refine Respects.andThen inferInstance fun _ => ?_
  exact settlerKept_modifyStorage fun _ => rfl

theorem settlerKept_setUpgradeAuthority {authority : Address} :
    Respects SettlerKept (IntentRegistry.setUpgradeAuthority authority : Contract H Unit) := by
  unfold IntentRegistry.setUpgradeAuthority
  repeat refine Respects.andThen inferInstance fun _ => ?_
  exact settlerKept_modifyStorage fun _ => rfl

theorem settlerKept_rotateUpgradeAuthority {authority : Address} :
    Respects SettlerKept (IntentRegistry.rotateUpgradeAuthority authority : Contract H Unit) := by
  unfold IntentRegistry.rotateUpgradeAuthority
  repeat refine Respects.andThen inferInstance fun _ => ?_
  exact settlerKept_modifyStorage fun _ => rfl

set_option synthInstance.maxSize 1024 in
instance settlerKept_consumeFilledIntent {registry : Address} {item : ResidualItem} :
    Respects SettlerKept (consumeFilledIntent registry item : Contract H Unit) := by
  have hclear : Respects SettlerKept (clearResidualMargin item : Contract H Unit) :=
    settlerKept_of_sameAt inferInstance
  have hset (f : BatchSettlementStorage → BatchSettlementStorage) :
      Respects SettlerKept (modifyStorage .batchSettlement f : Contract H Unit) :=
    settlerKept_of_sameAt inferInstance
  unfold consumeFilledIntent
  infer_instance

theorem kept_of {α : Type} {x : Contract H α} [Keeps x] [Respects SettlerKept x] {a : α}
    (h : Returns x env c a c') (r : Address) :
    Kept (c.storage .intentRegistry r) (c'.storage .intentRegistry r) := by
  have hgrows : c.Grows c' := Respects.rel h
  have hsettler : SettlerKept c c' := Respects.rel h
  exact ⟨(hgrows .intentRegistry r).1, (hgrows .intentRegistry r).2, hsettler r⟩

theorem settlerKept_run {call : Call} {u : Unit} (h : Returns call.run env c u c') :
    SettlerKept c c' := by
  by_cases htouches : Kind.intentRegistry ∈ call.touches
  · cases call
    case registryInit =>
      -- only a registry without a settler gets one
      dsimp only [Call.run, IntentRegistry.init] at h
      simp only [returns_bind, returns_requireAuth, returns_load, returns_failIf,
        returns_modifyStorage, exists_eq_left, exists_and_left, and_assoc, exists_const] at h
      obtain ⟨-, hnone, rfl⟩ := h
      refine settlerKept_modify fun a ha => ?_
      exact absurd (Option.isSome_of_eq_some ha) hnone
    case registrySubmit => exact settlerKept_submit.rel h
    case registryCancel =>
      obtain ⟨_, c₁, hoperator, hmark⟩ := returns_bind.mp h
      obtain rfl := ReadOnly.eq hoperator
      exact settlerKept_markCancelled.rel hmark
    case registryConsume => exact settlerKept_consume.rel h
    case registryRollover => exact settlerKept_rollover.rel h
    case registrySetUpgradeAuthority => exact settlerKept_setUpgradeAuthority.rel h
    case registryRotateUpgradeAuthority => exact settlerKept_rotateUpgradeAuthority.rel h
    case batchSettle args =>
      obtain ⟨registry, c₁, c₂, -, hbefore, -, hloop, hafter, -⟩ := IntentRegistry.settle_consumes h
      intro r a hr
      rw [hafter]
      rw [← hbefore] at hr
      exact Respects.rel (R := SettlerKept) hloop r a hr
    case batchInit => exact (settlerKept_of_sameAt sameAt_batchInit).rel h
    case batchConfigureFeeToken => exact (settlerKept_of_sameAt sameAt_configureFeeToken).rel h
    case batchClaimResidual => exact (settlerKept_of_sameAt sameAt_claimResidual).rel h
    all_goals simp [Call.touches] at htouches
  · exact (settlerKept_of_sameAt (sameAt_run htouches)).rel h

theorem kept_of_step {x : Step (Chain H) (Action H)} (h : step x.pre x.act = .ok x.post)
    (r : Address) : Kept (x.pre.storage .intentRegistry r) (x.post.storage .intentRegistry r) := by
  have hgrows := step_grows h
  obtain ⟨c, a, c'⟩ := x
  refine ⟨(hgrows .intentRegistry r).1, (hgrows .intentRegistry r).2, ?_⟩
  cases a with
  | external state =>
    have hpost : c' = { c with external := state } := (Except.ok.inj h).symm
    subst hpost
    exact fun _ ha => ha
  | invoke tx => exact settlerKept_run (step_invoke_eq_ok.mp h) r

/-! ## Claims -/

/-- A claim is for an intent that was cancelled, and takes its margin. -/
theorem claimResidual_returns {intent commitment : BytesN32} {proof : ProofMeta} {u : Unit}
    (h : Returns (claimResidual intent commitment proof) env c u c') :
    ∃ registry m, (c.storage .batchSettlement env.current).intentRegistry = some registry ∧
      (c.storage .intentRegistry registry).cancelled intent ∧
      (c.storage .batchSettlement env.current).residualMargin intent = some m ∧
      c'.storage .intentRegistry = c.storage .intentRegistry ∧
      c'.storage .batchSettlement env.current = { c.storage .batchSettlement env.current with
        residualMargin := Function.update
          (c.storage .batchSettlement env.current).residualMargin intent none
        claimedResidual := Function.update
          (c.storage .batchSettlement env.current).claimedResidual intent (some commitment) } ∧
      ∀ a ≠ env.current, c'.storage .batchSettlement a = c.storage .batchSettlement a := by
  have hregistry : Chain.SameAt .intentRegistry c c' := sameAt_claimResidual.rel h
  unfold claimResidual at h
  simp only [returns_bind, returns_stored, returns_call, returns_requireAuth, returns_validateHash,
    returns_load, returns_failIf, returns_currentContract, returns_modifyStorage,
    exists_eq_left, exists_and_left, and_assoc, exists_const, not_not] at h
  obtain ⟨_, -, _, -, -, -, registry, hconfig, hcancelled, m, hm, -, _, -, _, -, hpool⟩ := h
  have hsame : Chain.SameAt .batchSettlement _ c' := Respects.rel hpool
  have hbatch : c'.storage .batchSettlement = _ := hsame
  refine ⟨registry, m, hconfig, hcancelled, hm, hregistry, ?_, fun a ha => ?_⟩
  · rw [hbatch, Chain.storage_modify_self]
  · rw [hbatch, Chain.storage_modify_of_address ha]

/-- **A claim keeps the escrow.** The intent had a margin, so it was neither matched nor claimed. -/
theorem Escrow.claim {b : Address} {s s' : BatchSettlementStorage} {t : IntentRegistryStorage}
    {events : List MarginEvent} (h : Escrow b s t events) {i : BytesN32} {m : I128}
    (hcancelled : t.cancelled i) (hm : s.residualMargin i = some m)
    (hs : s'.residualMargin = Function.update s.residualMargin i none) :
    Escrow b s' t (events ++ [.claimed i]) where
  settler item hitem := by
    rcases Escrow.mem_matched hitem with hitem | hitem
    · exact h.settler item hitem
    · exact nomatch hitem
  entry j m' hm' := by
    rw [hs] at hm'
    rcases Lineage.eq_some_of_update hm' with ⟨-, hm'⟩ | ⟨hne, hm'⟩
    · exact nomatch hm'
    · obtain ⟨hclaimed, hmatched, item, hitem, hrest⟩ := h.entry j m' hm'
      refine ⟨fun hnow => ?_, fun item' hnow => ?_, item, List.mem_append_left _ hitem, hrest⟩
      · rcases Escrow.mem_claimed hnow with hnow | hnow
        · exact hclaimed hnow
        · exact hne (MarginEvent.claimed.inj hnow).symm
      · rcases Escrow.mem_matched hnow with hnow | hnow
        · exact hmatched item' hnow
        · exact nomatch hnow
  ended item hitem := by
    rcases Escrow.mem_matched hitem with hitem | hitem
    · exact h.ended item hitem
    · exact nomatch hitem
  residual item hitem hne := by
    rcases Escrow.mem_matched hitem with hitem | hitem
    · obtain ⟨hsome, hmargin⟩ := h.residual item hitem hne
      refine ⟨hsome, fun hactive => ?_⟩
      have hother : item.residual ≠ i := by
        rintro rfl
        exact hactive hcancelled
      rw [hs, Function.update_of_ne hother]
      exact hmargin hactive
    · exact nomatch hitem
  claimed j hj := by
    rcases Escrow.mem_claimed hj with hj | hj
    · obtain ⟨hsome, hended, hmatched⟩ := h.claimed j hj
      refine ⟨hsome, hended, fun item hnow => ?_⟩
      rcases Escrow.mem_matched hnow with hnow | hnow
      · exact hmatched item hnow
      · exact nomatch hnow
    · obtain rfl := MarginEvent.claimed.inj hj
      obtain ⟨-, hmatched, item, hitem, hne, rfl, -⟩ := h.entry i m hm
      refine ⟨(h.residual item hitem hne).1, hcancelled, fun item' hnow => ?_⟩
      rcases Escrow.mem_matched hnow with hnow | hnow
      · exact hmatched item' hnow
      · exact nomatch hnow
  nodup := by
    have hclaims : claims (events ++ [.claimed i]) = claims events ++ [i] := by
      unfold claims
      rw [List.filterMap_append]
      rfl
    rw [hclaims]
    refine List.nodup_append.mpr ⟨h.nodup, List.nodup_singleton i, fun j hj k hk => ?_⟩
    rintro rfl
    obtain rfl := List.mem_singleton.mp hk
    obtain ⟨e, he, hclaim⟩ := List.mem_filterMap.mp hj
    cases e with
    | matched item => exact nomatch hclaim
    | claimed j =>
      obtain rfl := Option.some.inj hclaim
      exact (h.entry j m hm).1 he
  decreases item item' hitem hitem' := by
    rcases Escrow.mem_matched hitem with hitem | hitem
    · rcases Escrow.mem_matched hitem' with hitem' | hitem'
      · exact h.decreases item item' hitem hitem'
      · exact nomatch hitem'
    · exact nomatch hitem

/-! ## Runs -/

/-- What the call of a contract `target` does with the margins of the settlement contract `b`. -/
def callMargins (b target : Address) : Call → List MarginEvent
  | .batchSettle args =>
    if target = b then (IntentRegistry.settledItems args).map .matched else []
  | .batchClaimResidual intent _ _ => if target = b then [.claimed intent] else []
  | _ => []

/-- What an accepted step does with the margins of the settlement contract `b`. -/
def marginEvents (b : Address) (x : Step (Chain H) (Action H)) : List MarginEvent :=
  match x.act with
  | .invoke tx => callMargins b tx.target tx.call
  | .external _ => []

/-- The margins of the settlement contract `b` on a ledger. Before the contract is initialised it
has none. -/
structure Escrowed (b : Address) (c : Chain H) (events : List MarginEvent) : Prop where
  configured : ∀ r, (c.storage .batchSettlement b).intentRegistry = some r →
    (c.storage .batchSettlement b).governance.isSome ∧
      Escrow b (c.storage .batchSettlement b) (c.storage .intentRegistry r) events
  blank : (c.storage .batchSettlement b).intentRegistry = none →
    events = [] ∧ ∀ i, (c.storage .batchSettlement b).residualMargin i = none

/-- A step that is not about the margins of the contract keeps them. -/
theorem Escrowed.keep {b : Address} {events : List MarginEvent} (h : Escrowed b c events)
    (hs : IntentRegistry.SameMargins (c.storage .batchSettlement b) (c'.storage .batchSettlement b))
    (ht : ∀ r, Kept (c.storage .intentRegistry r) (c'.storage .intentRegistry r)) :
    Escrowed b c' events where
  configured r hr := by
    rw [hs.intentRegistry] at hr
    obtain ⟨hgovernance, hescrow⟩ := h.configured r hr
    rw [hs.governance]
    exact ⟨hgovernance, hescrow.keep hs (ht r)⟩
  blank hnone := by
    rw [hs.intentRegistry] at hnone
    rw [hs.residualMargin]
    exact h.blank hnone

theorem items_escrow {registry : Address} {items : List ResidualItem} {u : Unit}
    {events : List MarginEvent}
    (hescrow : Escrow env.current (c.storage .batchSettlement env.current)
      (c.storage .intentRegistry registry) events)
    (h : Returns (forEach (consumeFilledIntent registry) items) env c u c') :
    Escrow env.current (c'.storage .batchSettlement env.current)
      (c'.storage .intentRegistry registry) (events ++ items.map .matched) := by
  induction items generalizing c events with
  | nil =>
    rw [returns_forEach_nil.mp h, List.map_nil, List.append_nil]
    exact hescrow
  | cons item items ih =>
    obtain ⟨c₁, hitem, hitems⟩ := returns_forEach_cons.mp h
    have hnext := ih (hescrow.matched (consumeFilledIntent_settles hitem) (kept_of hitem registry))
      hitems
    rwa [List.append_assoc] at hnext

/-- The intents of a settlement change no other settlement contract, and keep the configuration. -/
theorem items_others {registry : Address} {items : List ResidualItem} {u : Unit}
    (h : Returns (forEach (consumeFilledIntent registry) items) env c u c') :
    (∀ a ≠ env.current, c'.storage .batchSettlement a = c.storage .batchSettlement a) ∧
      (c'.storage .batchSettlement env.current).intentRegistry =
        (c.storage .batchSettlement env.current).intentRegistry ∧
      (c'.storage .batchSettlement env.current).governance =
        (c.storage .batchSettlement env.current).governance := by
  induction items generalizing c with
  | nil =>
    rw [returns_forEach_nil.mp h]
    exact ⟨fun _ _ => rfl, rfl, rfl⟩
  | cons item items ih =>
    obtain ⟨c₁, hitem, hitems⟩ := returns_forEach_cons.mp h
    have hsettled := consumeFilledIntent_settles hitem
    obtain ⟨hothers, hregistry, hgovernance⟩ := ih hitems
    refine ⟨fun a ha => (hothers a ha).trans (hsettled.others a ha), ?_, ?_⟩
    · rw [hregistry, hsettled.margins]
    · rw [hgovernance, hsettled.margins]

theorem settle_escrowed {b : Address} {args : SettleArgs} {u : Unit} {events : List MarginEvent}
    (hinv : Escrowed b c events) (h : Returns (settle args) env c u c')
    (ht : ∀ r, Kept (c.storage .intentRegistry r) (c'.storage .intentRegistry r)) :
    Escrowed b c' (events ++ callMargins b env.current (.batchSettle args)) := by
  obtain ⟨registry, c₁, c₂, hconfig, hregistry, hbatch, hloop, hafter, hmargins⟩ :=
    IntentRegistry.settle_consumes h
  obtain ⟨hothers, hregistry', hgovernance'⟩ := items_others hloop
  by_cases hb : env.current = b
  · subst hb
    obtain ⟨hgovernance, hescrow⟩ := hinv.configured registry hconfig
    rw [← hbatch, ← hregistry] at hescrow
    have hsettled := items_escrow hescrow hloop
    have hsame := hmargins env.current
    have hevents : callMargins env.current env.current (.batchSettle args) =
        (IntentRegistry.settledItems args).map .matched := if_pos rfl
    have hconfig' : (c'.storage .batchSettlement env.current).intentRegistry = some registry := by
      rw [hsame.intentRegistry, hregistry', hbatch, hconfig]
    rw [hevents]
    refine ⟨fun r hr => ?_, fun hnone => ?_⟩
    · obtain rfl := Option.some.inj (hconfig'.symm.trans hr)
      refine ⟨?_, ?_⟩
      · rw [hsame.governance, hgovernance', hbatch]
        exact hgovernance
      · rw [hafter]
        exact hsettled.keep hsame ⟨fun _ hi => hi, fun _ hi => hi, fun _ ha => ha⟩
    · rw [hconfig'] at hnone
      cases hnone
  · have hevents : callMargins b env.current (.batchSettle args) = [] := if_neg hb
    have hsame := hmargins b
    rw [hothers b (Ne.symm hb), hbatch] at hsame
    rw [hevents, List.append_nil]
    exact hinv.keep hsame ht

theorem claimResidual_escrowed {b : Address} {intent commitment : BytesN32} {proof : ProofMeta}
    {u : Unit} {events : List MarginEvent} (hinv : Escrowed b c events)
    (h : Returns (claimResidual intent commitment proof) env c u c')
    (ht : ∀ r, Kept (c.storage .intentRegistry r) (c'.storage .intentRegistry r)) :
    Escrowed b c'
      (events ++ callMargins b env.current (.batchClaimResidual intent commitment proof)) := by
  obtain ⟨registry, m, hconfig, hcancelled, hm, hregistry, hbatch, hothers⟩ :=
    claimResidual_returns h
  by_cases hb : env.current = b
  · subst hb
    obtain ⟨hgovernance, hescrow⟩ := hinv.configured registry hconfig
    have hevents : callMargins env.current env.current
        (.batchClaimResidual intent commitment proof) = [.claimed intent] := if_pos rfl
    rw [hevents]
    refine ⟨fun r hr => ?_, fun hnone => ?_⟩
    · rw [hbatch] at hr
      obtain rfl := Option.some.inj (hconfig.symm.trans hr)
      rw [hbatch, hregistry]
      exact ⟨hgovernance, hescrow.claim hcancelled hm rfl⟩
    · rw [hbatch] at hnone
      exact nomatch hnone.symm.trans hconfig
  · have hevents : callMargins b env.current (.batchClaimResidual intent commitment proof) = [] :=
      if_neg hb
    rw [hevents, List.append_nil]
    refine hinv.keep ?_ ht
    rw [hothers b (Ne.symm hb)]
    exact IntentRegistry.SameMargins.refl _

theorem init_escrowed {b governance ledger market state pool registry : Address}
    {circuitId : BytesN32} {u : Unit} {events : List MarginEvent} (hinv : Escrowed b c events)
    (h : Returns (init governance ledger market state pool registry circuitId) env c u c')
    (ht : ∀ r, Kept (c.storage .intentRegistry r) (c'.storage .intentRegistry r)) :
    Escrowed b c' events := by
  unfold init at h
  simp only [returns_bind, returns_validateHash, returns_load, returns_failIf, returns_modifyStorage,
    exists_eq_left, exists_and_left, and_assoc, exists_const] at h
  obtain ⟨-, hnone, rfl⟩ := h
  by_cases hb : env.current = b
  · subst hb
    rw [Option.not_isSome_iff_eq_none] at hnone
    have hblank : (c.storage .batchSettlement env.current).intentRegistry = none := by
      cases hr : (c.storage .batchSettlement env.current).intentRegistry with
      | none => rfl
      | some r =>
        have hgovernance := (hinv.configured r hr).1
        rw [hnone] at hgovernance
        exact absurd hgovernance Bool.false_ne_true
    obtain ⟨rfl, hmargins⟩ := hinv.blank hblank
    refine ⟨fun r _ => ?_, fun hnone => ?_⟩
    · rw [Chain.storage_modify_self]
      exact ⟨rfl, Escrow.empty _ _ hmargins⟩
    · rw [Chain.storage_modify_self] at hnone
      cases hnone
  · refine hinv.keep ?_ ht
    rw [Chain.storage_modify_of_address (Ne.symm hb)]
    exact IntentRegistry.SameMargins.refl _

theorem configureFeeToken_sameMargins {token : Address} {u : Unit}
    (h : Returns (configureFeeToken token) env c u c') (b : Address) :
    IntentRegistry.SameMargins (c.storage .batchSettlement b) (c'.storage .batchSettlement b) := by
  unfold configureFeeToken at h
  simp only [returns_bind, returns_stored, returns_call, returns_requireAuth, returns_load,
    exists_eq_left, exists_and_left, and_assoc, exists_const] at h
  obtain ⟨_, -, _, -, -, h⟩ := h
  cases hconfigured : (c.storage .batchSettlement env.current).feeToken with
  | some configured =>
    rw [hconfigured] at h
    obtain ⟨-, rfl⟩ := returns_failIf.mp h
    exact IntentRegistry.SameMargins.refl _
  | none =>
    rw [hconfigured] at h
    rw [returns_modifyStorage.mp h]
    by_cases hb : b = env.current
    · rw [hb, Chain.storage_modify_self]
      exact ⟨rfl, rfl, rfl, rfl⟩
    · rw [Chain.storage_modify_of_address hb]
      exact IntentRegistry.SameMargins.refl _

/-- **The step lemma.** Every accepted step keeps the escrow. -/
theorem escrow_step {b : Address} {x : Step (Chain H) (Action H)}
    (h : step x.pre x.act = .ok x.post) {events : List MarginEvent}
    (hinv : Escrowed b x.pre events) : Escrowed b x.post (events ++ marginEvents b x) := by
  have hkept := kept_of_step h
  obtain ⟨c, a, c'⟩ := x
  cases a with
  | external state =>
    have hpost : c' = { c with external := state } := (Except.ok.inj h).symm
    subst hpost
    show Escrowed b _ (events ++ [])
    rw [List.append_nil]
    exact hinv.keep (IntentRegistry.SameMargins.refl _) hkept
  | invoke tx =>
    obtain ⟨signers, timestamp, target, call⟩ := tx
    have hrun := step_invoke_eq_ok.mp h
    by_cases htouches : Kind.batchSettlement ∈ call.touches
    · cases call
      case batchSettle => exact settle_escrowed hinv hrun hkept
      case batchClaimResidual => exact claimResidual_escrowed hinv hrun hkept
      case batchInit =>
        show Escrowed b _ (events ++ [])
        rw [List.append_nil]
        exact init_escrowed hinv hrun hkept
      case batchConfigureFeeToken =>
        show Escrowed b _ (events ++ [])
        rw [List.append_nil]
        exact hinv.keep (configureFeeToken_sameMargins hrun b) hkept
      all_goals simp [Call.touches] at htouches
    · have hnone : callMargins b target call = [] := by
        cases call <;> first | rfl | exact absurd (by simp [Call.touches]) htouches
      have hsame : Chain.SameAt .batchSettlement c c' := (sameAt_run htouches).rel hrun
      have hbatch : c'.storage .batchSettlement = c.storage .batchSettlement := hsame
      show Escrowed b c' (events ++ callMargins b target call)
      rw [hnone, List.append_nil]
      refine hinv.keep ?_ hkept
      rw [hbatch]
      exact IntentRegistry.SameMargins.refl _

/-- **The run lemma.** -/
theorem run_escrowed (e : H.State) (as : List (Action H)) (b : Address) :
    Escrowed b (final step (Chain.blank e) as)
      ((accepted step (Chain.blank e) as).flatMap (marginEvents b)) := by
  have hstart : Escrowed b (Chain.blank e) [] :=
    ⟨fun r hr => (nomatch hr), fun _ => ⟨rfl, fun _ => rfl⟩⟩
  exact @final_of_log _ _ _ _ _ (marginEvents b) (fun _ => True) (Escrowed b)
    (fun x _ hx events hinv => escrow_step hx hinv) _ as _ hstart fun _ _ => trivial

/-- **Residual margins are paid or used once.** In every run of the system, for every settlement
contract: the intent of a margin is registered, is the residual of a match that left this margin,
has not been matched since and has not been claimed, and the contract is the settler of its
registry. Along a chain of residuals the margins decrease. No residual is claimed twice, and none is
both matched and claimed. A claim that fails changes nothing. -/
theorem residualMargins_once (e : H.State) (as : List (Action H)) (b : Address) :
    let c := final step (Chain.blank e) as
    let events := (accepted step (Chain.blank e) as).flatMap (marginEvents b)
    (∀ i m, (c.storage .batchSettlement b).residualMargin i = some m →
      (∃ r, (c.storage .batchSettlement b).intentRegistry = some r ∧
        (c.storage .intentRegistry r).settler = some b ∧
        ((c.storage .intentRegistry r).intent i).isSome) ∧
      (∃ item, .matched item ∈ events ∧ item.residual ≠ 0 ∧ item.residual = i ∧ item.margin = m) ∧
      (∀ item, .matched item ∈ events → item.intent ≠ i) ∧ .claimed i ∉ events) ∧
    (∀ item item', .matched item ∈ events → .matched item' ∈ events → item.residual ≠ 0 →
      item'.intent = item.residual → item'.margin.toInt < item.margin.toInt) ∧
    (claims events).Nodup ∧
    (∀ item, .matched item ∈ events → .claimed item.intent ∉ events) ∧
    ∀ tx error, step c (.invoke tx) = .error error → final step c [.invoke tx] = c := by
  intro c events
  have hinv : Escrowed b c events := run_escrowed e as b
  have hfail : ∀ tx error, step c (.invoke tx) = .error error → final step c [.invoke tx] = c := by
    intro tx error h
    rw [final_cons_error h]
    rfl
  cases hr : (c.storage .batchSettlement b).intentRegistry with
  | none =>
    obtain ⟨hevents, hmargins⟩ := hinv.blank hr
    rw [hevents]
    refine ⟨fun i m hm => ?_, fun _ _ h => (nomatch h), List.nodup_nil, fun _ h => (nomatch h), hfail⟩
    rw [hmargins i] at hm
    exact nomatch hm
  | some r =>
    obtain ⟨-, hescrow⟩ := hinv.configured r hr
    refine ⟨fun i m hm => ?_, hescrow.decreases, hescrow.nodup, fun item hitem hclaim => ?_, hfail⟩
    · obtain ⟨hclaim, hmatched, item, hitem, hne, rfl, rfl⟩ := hescrow.entry i m hm
      exact ⟨⟨r, rfl, hescrow.settler item hitem, (hescrow.residual item hitem hne).1⟩,
        ⟨item, hitem, hne, rfl, rfl⟩, hmatched, hclaim⟩
    · exact (hescrow.claimed _ hclaim).2.2 item hitem rfl

end Pnlx.BatchSettlement
