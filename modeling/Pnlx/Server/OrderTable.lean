import Pnlx.Server.StoreLocks

/-!
# The order table

Orders are kept under their commitments, as intents or as residual orders, and their statuses in
the table of lifecycles.

1. `ProtocolStore.Catalogued`: no commitment is that of two orders, and only orders have a status.
2. `OrdersWritten`: what an operation that updates orders and adds residual ones does to the table,
   whether it returns or throws.
3. `after_addSettlement`: a settlement that writes a status has found all its nullifiers unspent.
-/

namespace Pnlx.Server

open BatchMatch (Text)
open Script

variable {H : Host} {P : Fr → Fr → Fr} {s s' s₁ : ProtocolStore} {updates : List Text}
  {residuals : List ResidualOrderRecord} {k : Text} {now : ℤ}

/-- Orders are kept under their commitments, an intent and a residual order have different ones, and
only orders have a status. -/
structure ProtocolStore.Catalogued (store : ProtocolStore) : Prop where
  intents : ∀ k record, store.intents.get? k = some record → record.intentCommitment = k
  residuals : ∀ k record, store.residualOrders.get? k = some record → record.intentCommitment = k
  apart : ∀ k, (store.intents.get? k).isSome → store.residualOrders.get? k = none
  tracked : ∀ k, (store.orderStatus k).isSome → (store.order k).isSome

/-- What becomes of the orders when the statuses of `updates` are written and orders of `residuals`
are added. -/
structure OrdersWritten (updates : List Text) (residuals : List ResidualOrderRecord)
    (s s' : ProtocolStore) : Prop where
  intents : s'.intents = s.intents
  kept : ∀ k record, s.residualOrders.get? k = some record → s'.residualOrders.get? k = some record
  added : ∀ k record, s'.residualOrders.get? k = some record →
    s.residualOrders.get? k = some record ∨ record ∈ residuals ∧ record.intentCommitment = k
  status : ∀ k, s'.orderStatus k ≠ s.orderStatus k →
    k ∈ updates ∧ ((s'.order k).isSome ∨ (s.orderStatus k).isSome) ∨
      s.residualOrders.get? k = none ∧ (s'.residualOrders.get? k).isSome
  spent : ∀ n, n ∈ s.spentNullifiers → n ∈ s'.spentNullifiers
  settled : ∀ key, (s.settlements.get? key).isSome → (s'.settlements.get? key).isSome

namespace OrdersWritten

/-- An order stays what it is. -/
theorem order_of_isSome (h : OrdersWritten updates residuals s s')
    (hsome : (s.order k).isSome) : s'.order k = s.order k := by
  unfold ProtocolStore.order at *
  rw [h.intents]
  cases hintent : s.intents.get? k with
  | some record => rfl
  | none =>
    rw [hintent] at hsome
    cases hresidual : s.residualOrders.get? k with
    | none =>
      rw [hresidual] at hsome
      cases hsome
    | some record => rw [h.kept k record hresidual]

instance : Std.Refl (OrdersWritten updates residuals) :=
  ⟨fun _ => ⟨rfl, fun _ _ h => h, fun _ _ h => .inl h, fun _ h => absurd rfl h, fun _ h => h,
    fun _ h => h⟩⟩

instance : IsTrans ProtocolStore (OrdersWritten updates residuals) where
  trans s s₁ s' h h' := by
    refine ⟨h'.intents.trans h.intents, fun k record hk => h'.kept k record (h.kept k record hk),
      fun k record hk => (h'.added k record hk).elim (h.added k record) .inr, fun k hk => ?_,
      fun n hn => h'.spent n (h.spent n hn), fun key hkey => h'.settled key (h.settled key hkey)⟩
    by_cases hlast : s'.orderStatus k = s₁.orderStatus k
    · rw [hlast] at hk
      obtain ⟨hmem, hsome⟩ | ⟨hnone, hsome⟩ := h.status k hk
      · refine .inl ⟨hmem, hsome.imp (fun horder => ?_) id⟩
        rwa [h'.order_of_isSome horder]
      · obtain ⟨record, hrecord⟩ := Option.isSome_iff_exists.mp hsome
        exact .inr ⟨hnone, h'.kept k record hrecord ▸ rfl⟩
    · obtain ⟨hmem, hsome⟩ | ⟨hnone, hsome⟩ := h'.status k hlast
      · by_cases hfirst : s₁.orderStatus k = s.orderStatus k
        · exact .inl ⟨hmem, hfirst ▸ hsome⟩
        · obtain ⟨-, horder | hstatus⟩ | ⟨hnone, hadded⟩ := h.status k hfirst
          · exact .inl ⟨hmem, .inl (by rwa [h'.order_of_isSome horder])⟩
          · exact .inl ⟨hmem, .inr hstatus⟩
          · obtain ⟨record, hrecord⟩ := Option.isSome_iff_exists.mp hadded
            exact .inr ⟨hnone, h'.kept k record hrecord ▸ rfl⟩
      · refine .inr ⟨?_, hsome⟩
        by_contra hne
        obtain ⟨record, hrecord⟩ := Option.ne_none_iff_exists'.mp hne
        exact absurd ((h.kept k record hrecord).symm.trans hnone) nofun

/-- Orders stay catalogued if the residual ones are new. -/
theorem catalogued (h : OrdersWritten updates residuals s s') (hs : s.Catalogued)
    (hfresh : ∀ record ∈ residuals, s.intents.get? record.intentCommitment = none) :
    s'.Catalogued where
  intents k record hk := hs.intents k record (h.intents ▸ hk)
  residuals k record hk := (h.added k record hk).elim (hs.residuals k record) And.right
  apart k hk := by
    by_contra hne
    rw [h.intents] at hk
    obtain ⟨record, hrecord⟩ := Option.ne_none_iff_exists'.mp hne
    obtain hold | ⟨hmem, rfl⟩ := h.added k record hrecord
    · exact absurd ((hs.apart k hk).symm.trans hold) nofun
    · rw [hfresh record hmem] at hk
      cases hk
  tracked k hk := by
    by_cases hsame : s'.orderStatus k = s.orderStatus k
    · have horder := hs.tracked k (hsame ▸ hk)
      rwa [h.order_of_isSome horder]
    · obtain ⟨-, horder | hstatus⟩ | ⟨-, hadded⟩ := h.status k hsame
      · exact horder
      · have horder := hs.tracked k hstatus
        rwa [h.order_of_isSome horder]
      · unfold ProtocolStore.order
        cases s'.intents.get? k with
        | some record => rfl
        | none =>
          obtain ⟨record, hrecord⟩ := Option.isSome_iff_exists.mp hadded
          rw [hrecord]
          rfl

end OrdersWritten

/-! ## Operations -/

/-- The tables of the orders and of the settlements. -/
def ProtocolStore.orderTables (store : ProtocolStore) : OrderedMap Text IntentRecord ×
    OrderedMap Text ResidualOrderRecord × OrderedMap Text OrderLifecycleRecord ×
      OrderedMap Text SettlementRecord :=
  (store.intents, store.residualOrders, store.orderLifecycle, store.settlements)

/-- An operation that leaves the tables alone. -/
theorem ordersWritten_of_same (h : Same ProtocolStore.orderTables s s')
    (hspent : ∀ n, n ∈ s.spentNullifiers → n ∈ s'.spentNullifiers) :
    OrdersWritten updates residuals s s' := by
  obtain ⟨hintents, hrest⟩ := Prod.mk.inj h
  obtain ⟨hresiduals, hrest⟩ := Prod.mk.inj hrest
  obtain ⟨horders, hsettlements⟩ := Prod.mk.inj hrest
  refine ⟨hintents, fun k record hk => hresiduals ▸ hk, fun k record hk => .inl (hresiduals ▸ hk),
    fun k hk => absurd ?_ hk, hspent, fun key hkey => hsettlements ▸ hkey⟩
  unfold ProtocolStore.orderStatus
  rw [horders]

theorem maintains_of_sameTables {α : Type} {x : StoreScript α}
    (hx : Maintains (Same ProtocolStore.orderTables) x)
    (hspent : Maintains (Same ProtocolStore.spentNullifiers) x) :
    Maintains (OrdersWritten updates residuals) x :=
  ⟨fun s => ordersWritten_of_same (hx.rel s) fun _ hn => (hspent.rel s).symm ▸ hn⟩

theorem maintains_spend (n : Text) : Maintains (OrdersWritten updates residuals) (spend n) := by
  unfold spend
  refine .andThen inferInstance fun _ => .andThen inferInstance fun _ => .update fun s => ?_
  exact ordersWritten_of_same rfl fun n hn => OrderedSet.mem_add.mpr (.inl hn)

theorem maintains_withdrawal (record : WithdrawalRecord) :
    Maintains (OrdersWritten updates residuals) (addWithdrawal record) := by
  have hspend : Maintains (OrdersWritten updates residuals) (spend record.nullifier) :=
    maintains_spend _
  have hchange : Maintains (OrdersWritten updates residuals) (update fun store : ProtocolStore =>
      { store with marginCommitments := store.marginCommitments.add record.changeCommitment } :
        StoreScript Unit) := .update fun _ => ordersWritten_of_same rfl fun _ hn => hn
  unfold addWithdrawal
  repeat refine .andThen inferInstance fun _ => ?_
  exact .update fun _ => ordersWritten_of_same rfl fun _ hn => hn

/-- The status of an order is written. -/
theorem ordersWritten_status {record : OrderLifecycleRecord} (hk : k ∈ updates)
    (hsome : (s.order k).isSome ∨ (s.orderStatus k).isSome) :
    OrdersWritten updates residuals s
      { s with orderLifecycle := s.orderLifecycle.set k record } := by
  refine ⟨rfl, fun _ _ h => h, fun _ _ h => .inl h, fun k' hk' => .inl ?_, fun _ h => h,
    fun _ h => h⟩
  rw [orderStatus_set] at hk'
  by_cases hkey : k' = k
  · subst hkey
    exact ⟨hk, hsome⟩
  · rw [Function.update_of_ne hkey] at hk'
    exact absurd rfl hk'

/-- A residual order is added. -/
theorem ordersWritten_residual {record : ResidualOrderRecord} (hmem : record ∈ residuals)
    (hfresh : s.residualOrders.get? record.intentCommitment = none) :
    OrdersWritten updates residuals s { s with
      residualOrders := s.residualOrders.set record.intentCommitment record
      orderLifecycle := s.orderLifecycle.set record.intentCommitment
        (openLifecycle record.createdAt record.updatedAt record.order) } := by
  refine ⟨rfl, fun k old hk => ?_, fun k old hk => ?_, fun k hk => .inr ?_, fun _ h => h,
    fun _ h => h⟩
  · have hne : k ≠ record.intentCommitment := by
      rintro rfl
      exact absurd (hfresh.symm.trans hk) nofun
    exact (OrderedMap.get?_set_of_ne hne).trans hk
  · rw [OrderedMap.get?_set] at hk
    split_ifs at hk with hkey
    · obtain rfl := Option.some.inj hk
      exact .inr ⟨hmem, hkey.symm⟩
    · exact .inl hk
  · have hstatus : { s with
        residualOrders := s.residualOrders.set record.intentCommitment record
        orderLifecycle := s.orderLifecycle.set record.intentCommitment
          (openLifecycle record.createdAt record.updatedAt record.order) }.orderStatus k =
        Function.update s.orderStatus record.intentCommitment (some statusOpen) k :=
      congrFun orderStatus_set k
    rw [hstatus] at hk
    obtain rfl : k = record.intentCommitment := by
      by_contra hne
      exact hk (Function.update_of_ne hne _ _)
    exact ⟨hfresh, OrderedMap.isSome_get?_set.mpr (.inr rfl)⟩

theorem maintains_cancel (now : ℤ) (k : Text) (txHash : Option Text) :
    Maintains (OrdersWritten [k] residuals) (cancelOrder now k txHash) := by
  refine ⟨fun s => ?_⟩
  have hrefl (s : ProtocolStore) : OrdersWritten [k] residuals s s := refl_of _ s
  unfold cancelOrder
  refine rel_after_bind (hrefl s) fun store s₁ h => ?_
  obtain ⟨rfl, rfl⟩ := returns_read.mp h
  refine rel_after_bind (hrefl _) fun existing s₂ h => ?_
  obtain ⟨hexisting, rfl⟩ := returns_orThrow.mp h
  refine rel_after_bind (hrefl _) fun _ s₃ h => ?_
  obtain ⟨-, rfl⟩ := returns_throwIf.mp h
  refine rel_after_bind (hrefl _) fun _ s₄ h => ?_
  obtain ⟨-, rfl⟩ := returns_throwIf.mp h
  refine rel_after_bind (hrefl _) fun _ s₅ h => ?_
  obtain ⟨-, rfl⟩ := returns_throwIf.mp h
  refine ordersWritten_status (List.mem_singleton_self k) (.inr ?_)
  unfold ProtocolStore.orderStatus
  rw [show s₅.orderLifecycle.get? k = some existing from hexisting]
  rfl

/-- A finished order is not cancelled. -/
theorem after_cancelOrder {txHash : Option Text} (h : s.orderStatus k = some statusCancelled ∨
    s.orderStatus k = some statusFilled) : (cancelOrder now k txHash).after s = s := by
  unfold cancelOrder
  refine @after_bind _ _ _ _ s (fun s' => s' = s) _ _ rfl fun store s₁ h₁ => ?_
  obtain ⟨rfl, rfl⟩ := returns_read.mp h₁
  refine @after_bind _ _ _ _ s₁ (fun s' => s' = s₁) _ _ rfl fun existing s₂ h₂ => ?_
  obtain ⟨hexisting, rfl⟩ := returns_orThrow.mp h₂
  refine @after_bind _ _ _ _ s₂ (fun s' => s' = s₂) _ _ rfl fun _ s₃ h₃ => ?_
  obtain ⟨hfilled, rfl⟩ := returns_throwIf.mp h₃
  refine @after_bind _ _ _ _ s₃ (fun s' => s' = s₃) _ _ rfl fun _ s₄ h₄ => ?_
  obtain ⟨hcancelled, rfl⟩ := returns_throwIf.mp h₄
  have hstatus : s₄.orderStatus k = some existing.status := by
    unfold ProtocolStore.orderStatus
    rw [show s₄.orderLifecycle.get? k = some existing from hexisting]
    rfl
  rw [hstatus, Option.some.injEq, Option.some.injEq] at h
  exact absurd h (not_or.mpr ⟨hcancelled, hfilled⟩)

theorem maintains_update {update : OrderUpdate} (hk : update.intentCommitment ∈ updates) :
    Maintains (OrdersWritten updates residuals) (applyOrderUpdate now update) := by
  refine ⟨fun s => ?_⟩
  have hrefl (s : ProtocolStore) : OrdersWritten updates residuals s s := refl_of _ s
  unfold applyOrderUpdate
  refine rel_after_bind (hrefl s) fun store s₁ h => ?_
  obtain ⟨rfl, rfl⟩ := returns_read.mp h
  refine rel_after_bind (hrefl _) fun order s₂ h => ?_
  obtain ⟨horder, rfl⟩ := returns_orThrow.mp h
  exact ordersWritten_status hk (.inl (by rw [show s₂.order _ = some order from horder]; rfl))

theorem maintains_residual {record : ResidualOrderRecord} {payload : Option PrivateMatchIntent}
    (hmem : record ∈ residuals) :
    Maintains (OrdersWritten updates residuals) (addResidualOrder H record payload) := by
  refine ⟨fun s => ?_⟩
  have hrefl (s : ProtocolStore) : OrdersWritten updates residuals s s := refl_of _ s
  have hkeep : Maintains (Same ProtocolStore.orderTables)
      (keepPrivateMatchIntent H record.order payload) :=
    same_keepPrivateMatchIntent (fun _ _ => rfl) _ _
  have hspent : Maintains (Same ProtocolStore.spentNullifiers)
      (keepPrivateMatchIntent H record.order payload) :=
    same_keepPrivateMatchIntent (fun _ _ => rfl) _ _
  unfold addResidualOrder
  refine rel_after_bind (hrefl s) fun store s₁ h => ?_
  obtain ⟨rfl, rfl⟩ := returns_read.mp h
  refine rel_after_bind (hrefl _) fun _ s₂ h => ?_
  obtain ⟨hfresh, rfl⟩ := returns_throwIf.mp h
  refine rel_after_bind (hrefl _) fun _ s₃ h => ?_
  obtain ⟨-, rfl⟩ := returns_throwIf.mp h
  refine rel_after_bind ((maintains_of_sameTables hkeep hspent).rel _) fun _ s₄ h => ?_
  have hsame : s₄.residualOrders = s₃.residualOrders :=
    (Prod.mk.inj (Prod.mk.inj (hkeep.of_returns h)).2).1
  refine ordersWritten_residual hmem ?_
  rw [hsame]
  exact Option.not_isSome_iff_eq_none.mp hfresh

/-- The table after a submission that adds its intent. -/
structure IntentAdded (now : ℤ) (record : IntentRecord) (s s' : ProtocolStore) : Prop where
  fresh : s.intents.get? record.intentCommitment = none
  intents : s'.intents = s.intents.set record.intentCommitment record
  residuals : s'.residualOrders = s.residualOrders
  lifecycle : s'.orderLifecycle = s.orderLifecycle.set record.intentCommitment
    (openLifecycle now now record.order)
  settlements : s'.settlements = s.settlements
  spent : s'.spentNullifiers = s.spentNullifiers

/-- A submission adds its intent, or it leaves the table alone. -/
theorem after_addIntent (now : ℤ) (record : IntentRecord) (payload : Option PrivateMatchIntent)
    (s : ProtocolStore) :
    (Same ProtocolStore.orderTables s ((addIntent H P now record payload).after s) ∧
        Same ProtocolStore.spentNullifiers s ((addIntent H P now record payload).after s)) ∨
      IntentAdded now record s ((addIntent H P now record payload).after s) := by
  have hkeep : Maintains (Same fun store : ProtocolStore => (store.orderTables,
      store.spentNullifiers)) (keepPrivateMatchIntent H record.order payload) :=
    same_keepPrivateMatchIntent (fun _ _ => rfl) _ _
  let p (s' : ProtocolStore) : Prop := (Same ProtocolStore.orderTables s s' ∧
    Same ProtocolStore.spentNullifiers s s') ∨ IntentAdded now record s s'
  have hsame {s' : ProtocolStore} (h : Same (fun store : ProtocolStore => (store.orderTables,
      store.spentNullifiers)) s s') : p s' := .inl (Prod.mk.inj h)
  show p _
  unfold addIntent
  refine after_bind (hsame rfl) fun store s₁ h => ?_
  obtain ⟨rfl, rfl⟩ := returns_read.mp h
  refine after_bind (hsame rfl) fun _ s₂ h => ?_
  obtain ⟨hfresh, rfl⟩ := returns_throwIf.mp h
  refine after_bind (hsame rfl) fun _ s₃ h => ?_
  obtain ⟨-, rfl⟩ := returns_throwIf.mp h
  refine after_bind (hsame rfl) fun _ s₄ h => ?_
  obtain ⟨-, rfl⟩ := returns_throwIf.mp h
  refine after_bind (hsame (hkeep.rel _)) fun _ s₅ h => ?_
  have htables := hkeep.of_returns h
  have hid {α : Type} {x : StoreScript α} (hx : Maintains (Same id) x) : p (x.after s₅) := by
    have hrel : x.after s₅ = s₅ := hx.rel s₅
    rw [hrel]
    exact hsame htables
  refine after_bind (hid inferInstance) fun _ s₆ h => ?_
  obtain rfl : s₆ = s₅ := Maintains.of_returns (R := Same id) inferInstance h
  refine after_bind (hid inferInstance) fun _ s₇ h => ?_
  obtain ⟨-, rfl⟩ := returns_orThrow.mp h
  refine after_bind (hid inferInstance) fun _ s₈ h => ?_
  obtain ⟨-, rfl⟩ := returns_throwIf.mp h
  refine after_bind (hid inferInstance) fun _ s₉ h => ?_
  obtain ⟨-, rfl⟩ := returns_throwIf.mp h
  refine after_bind (hid inferInstance) fun _ s₁₀ h => ?_
  obtain ⟨-, rfl⟩ := returns_throwIf.mp h
  obtain ⟨hall, hspent⟩ := Prod.mk.inj htables
  obtain ⟨hintents, hrest⟩ := Prod.mk.inj hall
  obtain ⟨hresiduals, hrest⟩ := Prod.mk.inj hrest
  obtain ⟨horders, hsettlements⟩ := Prod.mk.inj hrest
  right
  exact ⟨Option.not_isSome_iff_eq_none.mp hfresh, hintents ▸ rfl, hresiduals, horders ▸ rfl,
    hsettlements, hspent⟩

/-! ## Settlements -/

/-- What `addSettlement` writes after the spends. -/
theorem maintains_writes (settlement : SettlementRecord) (firstPositionIndex : ℕ)
    (openings : List PositionLifecycleRecord) (residuals : List ResidualOrderRecord)
    (events : List AccountEventRecord) (payloads : List PrivateMatchIntent) :
    Maintains (OrdersWritten (settlement.orderUpdates.map (·.intentCommitment)) residuals)
      (do
        applySettlementOrderUpdates now settlement
        forEach (openPosition settlement firstPositionIndex) openings
        residuals |> forEach fun residual => addResidualOrder H residual
          (intentByCommitment payloads residual.intentCommitment)
        forEach addAccountEvent events
        update fun store => { store with
          settlements := store.settlements.set (settlementKey settlement) settlement } :
            StoreScript Unit) := by
  unfold applySettlementOrderUpdates
  refine .andThen (Maintains.forEach_of_mem fun update hupdate =>
    maintains_update (List.mem_map_of_mem hupdate)) fun _ => ?_
  refine .andThen (Maintains.forEach_of_mem fun opening _ => maintains_of_sameTables
    (same_openPosition (fun _ _ => rfl) _ _ opening)
    (same_openPosition (fun _ _ => rfl) _ _ opening)) fun _ => ?_
  refine .andThen (Maintains.forEach_of_mem fun residual hresidual =>
    maintains_residual hresidual) fun _ => ?_
  refine .andThen (Maintains.forEach_of_mem fun event _ => maintains_of_sameTables
    (same_addAccountEvent (fun _ _ => rfl) event)
    (same_addAccountEvent (fun _ _ => rfl) event)) fun _ => .update fun s => ?_
  exact ⟨rfl, fun _ _ h => h, fun _ _ h => .inl h, fun _ h => absurd rfl h, fun _ h => h,
    fun key hkey => OrderedMap.isSome_get?_set.mpr (.inl hkey)⟩

theorem maintains_settlement (settlement : SettlementRecord)
    (openings : List PositionLifecycleRecord) (residuals : List ResidualOrderRecord)
    (events : List AccountEventRecord) (payloads : List PrivateMatchIntent) :
    Maintains (OrdersWritten (settlement.orderUpdates.map (·.intentCommitment)) residuals)
      (addSettlement H now settlement openings residuals events payloads) := by
  unfold addSettlement
  repeat refine .andThen inferInstance fun _ => ?_
  refine .andThen (.update fun _ => ordersWritten_of_same rfl fun _ hn => hn) fun _ => ?_
  refine .andThen (Maintains.forEach_of_mem fun n _ => maintains_spend n) fun _ => ?_
  exact maintains_writes settlement _ openings residuals events payloads

/-- Nullifiers that have been spent one after the other. -/
theorem spends_of_returns {nullifiers : List Text}
    (h : Returns (forEach spend nullifiers) s () s') :
    (∀ n ∈ nullifiers, n ∉ s.spentNullifiers) ∧
      ∀ n, n ∈ s'.spentNullifiers ↔ n ∈ s.spentNullifiers ∨ n ∈ nullifiers := by
  have heffects := forEach_effects (fun _ _ _ => spend_effects) h
  refine ⟨?_, fun n => by rw [heffects.spent, List.flatMap_singleton']⟩
  induction nullifiers generalizing s with
  | nil => exact fun n hn => absurd hn List.not_mem_nil
  | cons m ns ih =>
    obtain ⟨s₁, hm, hns⟩ := returns_forEach_cons.mp h
    intro n hn hspent
    obtain rfl | hn := List.mem_cons.mp hn
    · unfold spend at hm
      simp only [returns_bind, returns_read, returns_throwIf, returns_update, id, exists_eq_left,
        exists_and_left, exists_const, and_assoc] at hm
      exact hm.1 hspent
    · exact ih hns (forEach_effects (fun _ _ _ => spend_effects) hns) n hn
        (((spend_effects hm).spent n).mpr (.inl hspent))

/-- No status has been written, or the batch was not settled, the nullifiers of the settlement were
unspent, and are spent. -/
def SpentFirst (settlement : SettlementRecord) (s s' : ProtocolStore) : Prop :=
  s'.orderLifecycle = s.orderLifecycle ∨
    s.settlements.get? (settlementKey settlement) = none ∧
      ∀ n ∈ settlement.spentNullifiers, n ∉ s.spentNullifiers ∧ n ∈ s'.spentNullifiers

/-- **A settlement writes a status** only after it has spent its nullifiers. -/
theorem after_addSettlement (settlement : SettlementRecord)
    (openings : List PositionLifecycleRecord) (residuals : List ResidualOrderRecord)
    (events : List AccountEventRecord) (payloads : List PrivateMatchIntent) (s : ProtocolStore) :
    SpentFirst settlement s
      ((addSettlement H now settlement openings residuals events payloads).after s) := by
  have hkept {α : Type} {x : StoreScript α} {s₁ : ProtocolStore}
      (hx : Maintains (Same ProtocolStore.orderLifecycle) x)
      (h : s₁.orderLifecycle = s.orderLifecycle) : SpentFirst settlement s (x.after s₁) :=
    .inl ((hx.rel s₁).trans h)
  unfold addSettlement
  refine after_bind (hkept inferInstance rfl) fun store s₁ h => ?_
  obtain ⟨rfl, rfl⟩ := returns_read.mp h
  refine after_bind (hkept inferInstance rfl) fun _ s₂ h => ?_
  obtain ⟨hunsettled, rfl⟩ := returns_throwIf.mp h
  refine after_bind (hkept inferInstance rfl) fun _ s₃ h => ?_
  obtain ⟨-, rfl⟩ := returns_throwIf.mp h
  refine after_bind (hkept inferInstance rfl) fun _ s₄ h => ?_
  obtain rfl : s₄ = s₃ := Maintains.of_returns (R := Same id) inferInstance h
  refine after_bind (hkept inferInstance rfl) fun _ s₅ h => ?_
  obtain rfl : s₅ = s₄ := Maintains.of_returns (R := Same id) inferInstance h
  refine after_bind (hkept inferInstance rfl) fun _ s₆ h => ?_
  obtain rfl : s₆ = s₅ := Maintains.of_returns (R := Same id) inferInstance h
  refine after_bind (hkept (.update fun _ => rfl) rfl) fun _ s₇ h => ?_
  rw [returns_update] at h
  subst h
  have hspend : Maintains (Same ProtocolStore.orderLifecycle)
      (forEach spend settlement.spentNullifiers) :=
    Maintains.forEach_of_mem fun n _ => same_spend (fun _ _ => rfl) n
  refine after_bind (hkept hspend rfl) fun _ s₈ h => .inr
    ⟨Option.not_isSome_iff_eq_none.mp hunsettled, fun n hn => ?_⟩
  obtain ⟨hunspent, hspent⟩ := spends_of_returns h
  refine ⟨hunspent n hn, ?_⟩
  -- what follows spends nothing back
  have hrest : Maintains (OrdersWritten (settlement.orderUpdates.map (·.intentCommitment)) residuals)
      (do
        applySettlementOrderUpdates now settlement
        forEach (openPosition settlement s₆.positionCommitments.size) openings
        residuals |> forEach fun residual => addResidualOrder H residual
          (intentByCommitment payloads residual.intentCommitment)
        forEach addAccountEvent events
        update fun store => { store with
          settlements := store.settlements.set (settlementKey settlement) settlement }) :=
    maintains_writes settlement _ openings residuals events payloads
  exact (hrest.rel s₈).spent n ((hspent n).mpr (.inr hn))

/-- What a settlement that is committed has found. -/
theorem returns_addSettlement {settlement : SettlementRecord}
    {openings : List PositionLifecycleRecord} {residuals : List ResidualOrderRecord}
    {events : List AccountEventRecord} {payloads : List PrivateMatchIntent} {u : Unit}
    (h : Returns (addSettlement H now settlement openings residuals events payloads) s u s') :
    s.settlements.get? (settlementKey settlement) = none ∧
      ∀ n ∈ settlement.spentNullifiers, n ∉ s.spentNullifiers := by
  unfold addSettlement at h
  simp only [returns_bind, returns_read, returns_throwIf, returns_update, id, exists_eq_left,
    exists_and_left, exists_const, and_assoc] at h
  obtain ⟨hunsettled, -, _, s₁, hproof, _, s₂, hopenings, _, s₃, hresiduals, _, s₄, hspend, -⟩ := h
  obtain rfl : s₁ = s := Maintains.of_returns (R := Same id) inferInstance hproof
  obtain rfl : s₂ = s₁ := Maintains.of_returns (R := Same id) inferInstance hopenings
  obtain rfl : s₃ = s₂ := Maintains.of_returns (R := Same id) inferInstance hresiduals
  exact ⟨Option.not_isSome_iff_eq_none.mp hunsettled, (spends_of_returns hspend).1⟩

end Pnlx.Server
