import Pnlx.Server.StoreFrames

/-!
# Orders, their notes, and what is spent

An order locks the note whose nullifier it names. The locks are kept in the tables of intents and
of residual orders, the statuses in that of the lifecycles, and the spent nullifiers in a set.
`effects_of_returns` says which statuses a call that returns has written, which notes it has locked
and which nullifiers it has spent.
-/

namespace Pnlx.Server

open BatchMatch (Text)
open Script

variable {H : Host} {P : Fr → Fr → Fr} {β : Type} {s s' s₁ : ProtocolStore}
  {now : ℤ}

/-- The order with the commitment `k` names the nullifier `n`. -/
def ProtocolStore.Locks (store : ProtocolStore) (k n : Text) : Prop :=
  (∃ record, store.intents.get? k = some record ∧ record.noteNullifier = n) ∨
    ∃ record, store.residualOrders.get? k = some record ∧ record.noteNullifier = n

/-- The statuses after some writes. -/
def writeStatuses (status : Text → Option Text) (writes : List (Text × Text)) :
    Text → Option Text :=
  writes.foldl (fun status write => Function.update status write.1 (some write.2)) status

/-- The statuses, locks and spends between two stores. -/
structure Effects (writes locks : List (Text × Text)) (spends : List Text)
    (s s' : ProtocolStore) : Prop where
  status : s'.orderStatus = writeStatuses s.orderStatus writes
  locks : ∀ k n, s'.Locks k n ↔ s.Locks k n ∨ (k, n) ∈ locks
  spent : ∀ n, n ∈ s'.spentNullifiers ↔ n ∈ s.spentNullifiers ∨ n ∈ spends

theorem Effects.trans {writes writes' locks locks' : List (Text × Text)}
    {spends spends' : List Text}
    (h : Effects writes locks spends s s₁) (h' : Effects writes' locks' spends' s₁ s') :
    Effects (writes ++ writes') (locks ++ locks') (spends ++ spends') s s' := by
  refine ⟨?_, fun k n => ?_, fun n => ?_⟩
  · rw [h'.status, h.status, writeStatuses, writeStatuses, writeStatuses, List.foldl_append]
  · rw [h'.locks, h.locks, List.mem_append, or_assoc]
  · rw [h'.spent, h.spent, List.mem_append, or_assoc]

/-! ## Operations that leave orders and notes alone -/

/-- The tables of the orders and the spent nullifiers. -/
def ProtocolStore.book (store : ProtocolStore) : OrderedMap Text IntentRecord ×
    OrderedMap Text ResidualOrderRecord × OrderedMap Text OrderLifecycleRecord × OrderedSet Text :=
  (store.intents, store.residualOrders, store.orderLifecycle, store.spentNullifiers)

abbrev SameTables : ProtocolStore → ProtocolStore → Prop := Same ProtocolStore.book

theorem SameTables.effects (h : SameTables s s') : Effects [] [] [] s s' := by
  obtain ⟨hintents, hrest⟩ := Prod.mk.inj h
  obtain ⟨hresiduals, hrest⟩ := Prod.mk.inj hrest
  obtain ⟨horders, hspent⟩ := Prod.mk.inj hrest
  refine ⟨?_, fun k n => ?_, fun n => ?_⟩
  · funext k
    unfold ProtocolStore.orderStatus
    rw [horders]
    rfl
  · unfold ProtocolStore.Locks
    rw [hintents, hresiduals]
    simp
  · rw [hspent]
    simp

/-! ## Single operations -/

theorem orderStatus_set {store : ProtocolStore} {k : Text} {record : OrderLifecycleRecord} :
    { store with orderLifecycle := store.orderLifecycle.set k record }.orderStatus =
      Function.update store.orderStatus k (some record.status) := by
  funext k'
  unfold ProtocolStore.orderStatus
  rw [OrderedMap.get?_set]
  by_cases hk : k' = k
  · rw [if_pos hk, hk, Function.update_self, Option.map_some]
  · rw [if_neg hk, Function.update_of_ne hk]

theorem spend_effects {nullifier : Text} {u : Unit} (h : Returns (spend nullifier) s u s') :
    Effects [] [] [nullifier] s s' := by
  unfold spend at h
  simp only [returns_bind, returns_read, returns_throwIf, returns_update, id, exists_eq_left,
    exists_and_left, exists_const, and_assoc] at h
  obtain ⟨-, rfl⟩ := h
  refine ⟨rfl, fun k n => (or_iff_left List.not_mem_nil).symm, fun n => ?_⟩
  rw [OrderedSet.mem_add, List.mem_singleton]

theorem flatMap_const_nil {α γ : Type} (l : List α) : (l.flatMap fun _ => ([] : List γ)) = [] :=
  List.flatMap_eq_nil_iff.mpr fun _ _ => rfl

/-- The effects of a loop are those of its rounds, one after the other. -/
theorem forEach_effects {body : β → StoreScript Unit} {writes locks : β → List (Text × Text)}
    {spends : β → List Text} {bs : List β}
    (hbody : ∀ b s s', Returns (body b) s () s' → Effects (writes b) (locks b) (spends b) s s')
    {u : Unit} (h : Returns (forEach body bs) s u s') :
    Effects (bs.flatMap writes) (bs.flatMap locks) (bs.flatMap spends) s s' := by
  induction bs generalizing s with
  | nil =>
    rw [returns_forEach_nil.mp h]
    exact SameTables.effects rfl
  | cons b bs ih =>
    obtain ⟨s₁, hfirst, hrest⟩ := returns_forEach_cons.mp h
    simp only [List.flatMap_cons]
    exact (hbody b s s₁ hfirst).trans (ih hrest)

theorem cancelOrder_effects {k : Text} {txHash : Option Text} {u : Unit}
    (h : Returns (cancelOrder now k txHash) s u s') :
    Effects [(k, statusCancelled)] [] [] s s' := by
  unfold cancelOrder at h
  simp only [returns_bind, returns_read, returns_throwIf, returns_update, returns_orThrow, id,
    exists_eq_left, exists_and_left, exists_const, and_assoc] at h
  obtain ⟨existing, -, -, -, -, rfl⟩ := h
  exact ⟨orderStatus_set, fun k n => (or_iff_left List.not_mem_nil).symm,
    fun n => (or_iff_left List.not_mem_nil).symm⟩

theorem applyOrderUpdate_effects {orderUpdate : OrderUpdate} {u : Unit}
    (h : Returns (applyOrderUpdate now orderUpdate) s u s') :
    Effects [(orderUpdate.intentCommitment, orderUpdate.status)] [] [] s s' := by
  unfold applyOrderUpdate at h
  simp only [returns_bind, returns_read, returns_update, returns_orThrow, id, exists_eq_left,
    exists_and_left, and_assoc] at h
  obtain ⟨order, -, rfl⟩ := h
  exact ⟨orderStatus_set, fun k n => (or_iff_left List.not_mem_nil).symm,
    fun n => (or_iff_left List.not_mem_nil).symm⟩

/-- A write under a key that is not there yet adds its value. -/
theorem exists_get?_set {ν : Type} {m : OrderedMap Text ν} {k k' n : Text} {v : ν}
    {nullifier : ν → Text} (hk : m.get? k = none) :
    (∃ record, (m.set k v).get? k' = some record ∧ nullifier record = n) ↔
      (∃ record, m.get? k' = some record ∧ nullifier record = n) ∨ (k', n) = (k, nullifier v) := by
  rw [Prod.mk.injEq]
  by_cases hkey : k' = k
  · subst hkey
    simp only [OrderedMap.get?_set_self, hk, Option.some.injEq, exists_eq_left', true_and,
      reduceCtorEq, false_and, exists_false, false_or, eq_comm]
  · simp only [OrderedMap.get?_set_of_ne hkey, hkey, false_and, or_false]

theorem addIntent_effects {record : IntentRecord} {payload : Option PrivateMatchIntent} {u : Unit}
    (h : Returns (addIntent H P now record payload) s u s') :
    Effects [(record.intentCommitment, statusOpen)]
      [(record.intentCommitment, record.noteNullifier)] [] s s' := by
  unfold addIntent at h
  simp only [returns_bind, returns_read, returns_throwIf, returns_update, returns_orThrow, id,
    exists_eq_left, exists_and_left, exists_const, and_assoc] at h
  obtain ⟨hfresh, -, -, _, s₁, hkeep, _, s₂, hproof, root, -, -, -, -, rfl⟩ := h
  have hkeep : SameTables s s₁ := (same_keepPrivateMatchIntent (fun _ _ => rfl) _ _).of_returns hkeep
  obtain rfl : s₂ = s₁ := Maintains.of_returns (R := Same id) inferInstance hproof
  have hnone : s₂.intents.get? record.intentCommitment = none := by
    rw [(Prod.mk.inj hkeep).1]
    exact Option.not_isSome_iff_eq_none.mp hfresh
  refine hkeep.effects.trans ⟨orderStatus_set, fun k n => ?_, fun n => ?_⟩
  · unfold ProtocolStore.Locks
    rw [exists_get?_set hnone, or_right_comm, List.mem_singleton]
  · exact (or_iff_left List.not_mem_nil).symm

theorem addResidualOrder_effects {record : ResidualOrderRecord}
    {payload : Option PrivateMatchIntent} {u : Unit}
    (h : Returns (addResidualOrder H record payload) s u s') :
    Effects [(record.intentCommitment, statusOpen)]
      [(record.intentCommitment, record.noteNullifier)] [] s s' := by
  unfold addResidualOrder at h
  simp only [returns_bind, returns_read, returns_throwIf, returns_update, id, exists_eq_left,
    exists_and_left, exists_const, and_assoc] at h
  obtain ⟨hfresh, -, _, s₁, hkeep, rfl⟩ := h
  have hkeep : SameTables s s₁ := (same_keepPrivateMatchIntent (fun _ _ => rfl) _ _).of_returns hkeep
  have hnone : s₁.residualOrders.get? record.intentCommitment = none := by
    rw [(Prod.mk.inj (Prod.mk.inj hkeep).2).1]
    exact Option.not_isSome_iff_eq_none.mp hfresh
  refine hkeep.effects.trans ⟨orderStatus_set, fun k n => ?_, fun n => ?_⟩
  · unfold ProtocolStore.Locks
    rw [exists_get?_set hnone, ← or_assoc, List.mem_singleton]
  · exact (or_iff_left List.not_mem_nil).symm

/-! ## Calls -/

/-- The statuses that a call writes, in order. -/
def StoreCall.writes : StoreCall → List (Text × Text)
  | .addIntent _ record _ => [(record.intentCommitment, statusOpen)]
  | .cancelOrder _ intentCommitment _ => [(intentCommitment, statusCancelled)]
  | .addSettlement _ settlement _ residualOrders _ _ =>
    (settlement.orderUpdates.map fun update => (update.intentCommitment, update.status)) ++
      residualOrders.map fun residual => (residual.intentCommitment, statusOpen)
  | _ => []

/-- The orders that a call adds, with the nullifiers of their notes. -/
def StoreCall.locks : StoreCall → List (Text × Text)
  | .addIntent _ record _ => [(record.intentCommitment, record.noteNullifier)]
  | .addSettlement _ _ _ residualOrders _ _ =>
    residualOrders.map fun residual => (residual.intentCommitment, residual.noteNullifier)
  | _ => []

/-- The nullifiers that a call spends. -/
def StoreCall.spends : StoreCall → List Text
  | .addWithdrawal record => [record.nullifier]
  | .addSettlement _ settlement _ _ _ _ => settlement.spentNullifiers
  | .addLiquidation record => [record.positionNullifier]
  | .addPositionClose record | .addManualPositionClose record => [record.positionNullifier]
  | .addPairedPositionCloses trader maker _ => [trader.positionNullifier, maker.positionNullifier]
  | _ => []

theorem addSettlement_effects {settlement : SettlementRecord}
    {openings : List PositionLifecycleRecord} {residuals : List ResidualOrderRecord}
    {events : List AccountEventRecord} {payloads : List PrivateMatchIntent}
    (h : Returns (addSettlement H now settlement openings residuals events payloads) s () s') :
    Effects (StoreCall.addSettlement now settlement openings residuals events payloads).writes
      (StoreCall.addSettlement now settlement openings residuals events payloads).locks
      settlement.spentNullifiers s s' := by
  unfold addSettlement at h
  simp only [returns_bind, returns_read, returns_throwIf, returns_update, id, exists_eq_left,
    exists_and_left, exists_const, and_assoc] at h
  obtain ⟨-, -, _, s₁, hproof, _, s₂, hopenings, _, s₃, hresiduals, _, s₄, hspend, _, s₅, hupdates,
    _, s₆, hopen, _, s₇, hadd, _, s₈, hevents, rfl⟩ := h
  -- the checks leave the store as it is
  obtain rfl : s₁ = s := Maintains.of_returns (R := Same id) inferInstance hproof
  obtain rfl : s₂ = s₁ := Maintains.of_returns (R := Same id) inferInstance hopenings
  obtain rfl : s₃ = s₂ := Maintains.of_returns (R := Same id) inferInstance hresiduals
  have htrees : SameTables s₃ { s₃ with
      positionCommitments := s₃.positionCommitments.addAll settlement.newCommitments
      marginCommitments := s₃.marginCommitments.addAll settlement.marginChangeCommitments } := rfl
  have hspend := forEach_effects (fun _ _ _ => spend_effects) hspend
  have hupdates := forEach_effects (fun _ _ _ => applyOrderUpdate_effects) hupdates
  have hopen : SameTables s₅ s₆ := returns_forEach_rel
    (fun opening _ _ _ => (same_openPosition (fun _ _ => rfl) _ _ opening).of_returns) hopen
  have hadd := forEach_effects (fun _ _ _ => addResidualOrder_effects) hadd
  have hevents : SameTables s₇ s₈ := returns_forEach_rel
    (fun event _ _ _ => (same_addAccountEvent (fun _ _ => rfl) event).of_returns) hevents
  have hkeep : SameTables s₈ { s₈ with
      settlements := s₈.settlements.set (settlementKey settlement) settlement } := rfl
  have hall := htrees.effects.trans (hspend.trans (hupdates.trans (hopen.effects.trans
    (hadd.trans (hevents.effects.trans hkeep.effects)))))
  simpa [StoreCall.writes, StoreCall.locks, ← List.map_eq_flatMap, flatMap_const_nil] using hall

theorem addWithdrawal_effects {record : WithdrawalRecord}
    (h : Returns (addWithdrawal record) s () s') : Effects [] [] [record.nullifier] s s' := by
  unfold addWithdrawal at h
  simp only [returns_bind, returns_read, returns_throwIf, returns_update, returns_doIf, id,
    exists_eq_left, exists_and_left, exists_const, and_assoc] at h
  obtain ⟨-, _, s₁, hproof, _, s₂, hspend, s₃, hchange, rfl⟩ := h
  obtain rfl : s₁ = s := Maintains.of_returns (R := Same id) inferInstance hproof
  have hspend := spend_effects hspend
  rcases hchange with ⟨-, rfl⟩ | ⟨-, rfl⟩
  · exact ⟨hspend.status, hspend.locks, hspend.spent⟩
  · exact ⟨hspend.status, hspend.locks, hspend.spent⟩

theorem addLiquidation_effects {record : LiquidationRecord}
    (h : Returns (addLiquidation record) s () s') :
    Effects [] [] [record.positionNullifier] s s' := by
  unfold addLiquidation markPositionLiquidated at h
  simp only [returns_bind, returns_read, returns_throwIf, id, exists_eq_left, exists_and_left,
    exists_const, and_assoc] at h
  obtain ⟨-, _, s₁, hproof, _, s₂, hspend, _, s₃, hmark, hkeep⟩ := h
  obtain rfl : s₁ = s := Maintains.of_returns (R := Same id) inferInstance hproof
  have hmark : SameTables s₂ s₃ := (same_markPosition (fun _ _ => rfl) _ _ _).of_returns hmark
  have hkeep : SameTables s₃ s' := by
    rw [returns_update.mp hkeep]
    rfl
  exact (spend_effects hspend).trans (hmark.effects.trans hkeep.effects)

theorem addPositionCloseRecord_effects {record : PositionCloseRecord}
    (h : Returns (addPositionCloseRecord P record) s () s') :
    Effects [] [] [record.positionNullifier] s s' := by
  unfold addPositionCloseRecord at h
  simp only [returns_bind, returns_read, returns_throwIf, returns_update, returns_orThrow, id,
    exists_eq_left, exists_and_left, exists_const, and_assoc] at h
  obtain ⟨-, _, s₁, hproof, _, s₂, hspend, _, s₃, hmark, root, -, rfl⟩ := h
  obtain rfl : s₁ = s := Maintains.of_returns (R := Same id) inferInstance hproof
  have htrees : SameTables s₂ { s₂ with
      positionCommitments := s₂.positionCommitments.add record.newPositionCommitment
      marginCommitments := s₂.marginCommitments.add record.marginOutputCommitment } := rfl
  have hmark : SameTables _ s₃ := (same_markPosition (fun _ _ => rfl) _ _ _).of_returns hmark
  have hall := (spend_effects hspend).trans (htrees.effects.trans hmark.effects)
  exact ⟨hall.status, hall.locks, hall.spent⟩

/-- **What a call that returns has written, locked and spent.** -/
theorem effects_of_returns {call : StoreCall} (h : Returns (call.script H P) s () s') :
    Effects call.writes call.locks call.spends s s' := by
  have hsame {x : StoreScript Unit} (hx : Maintains SameTables x) (h : Returns x s () s') :
      Effects [] [] [] s s' := SameTables.effects (hx.of_returns h)
  cases call with
  | recordProof proof => exact hsame (same_recordProof (fun _ _ => rfl) proof) h
  | addMarginCommitment commitment =>
    exact hsame (same_addMarginCommitment (fun _ _ => rfl) commitment) h
  | addWithdrawal record => exact addWithdrawal_effects h
  | addIntent now record payload => exact addIntent_effects h
  | cancelOrder now commitment txHash => exact cancelOrder_effects h
  | addSettlement now settlement openings residuals events payloads => exact addSettlement_effects h
  | addAccountEvent record => exact hsame (same_addAccountEvent (fun _ _ => rfl) record) h
  | addLiquidation record => exact addLiquidation_effects h
  | addConditionalClose record => exact hsame (same_addConditionalClose (fun _ _ => rfl) record) h
  | addPositionClose record =>
    unfold StoreCall.script addPositionClose at h
    simp only [returns_bind, returns_read, returns_throwIf, id, exists_eq_left, exists_and_left,
      exists_const, and_assoc] at h
    exact addPositionCloseRecord_effects h.2
  | addManualPositionClose record => exact addPositionCloseRecord_effects h
  | addPairedPositionCloses trader maker conditional =>
    unfold StoreCall.script addPairedPositionCloses at h
    simp only [returns_bind, returns_read, returns_throwIf, id, exists_eq_left, exists_and_left,
      exists_const, and_assoc] at h
    obtain ⟨-, -, _, s₁, htrader, _, s₂, hmaker, -, _, s₃, hfirst, hsecond⟩ := h
    obtain rfl : s₁ = s := Maintains.of_returns (R := Same id) inferInstance htrader
    obtain rfl : s₂ = s₁ := Maintains.of_returns (R := Same id) inferInstance hmaker
    exact (addPositionCloseRecord_effects hfirst).trans (addPositionCloseRecord_effects hsecond)

end Pnlx.Server
