import Pnlx.Server.StoreLocks

/-!
# The order book under the calls of the store

What a call leaves of the intents and their statuses, whether it returns or throws. Only `addIntent`
adds an intent, and only after its checks.

`bookGrown_after`: an intent stays and becomes open again only if the call opens its commitment, and
no two open intents have the same nullifier.
-/

namespace Pnlx.Server

open BatchMatch (Text)
open Script

variable {H : Host} {P : Fr → Fr → Fr} {s s' : ProtocolStore} {call : StoreCall} {k : Text}
  {now : ℤ}

/-- The intent is in the store and its order is open. -/
def ProtocolStore.IntentOpen (store : ProtocolStore) (k : Text) : Prop :=
  (store.intents.get? k).isSome ∧ store.orderStatus k = some statusOpen

/-- Intents are kept under their commitments, and no two open ones have the same nullifier. -/
structure ProtocolStore.Exclusive (store : ProtocolStore) : Prop where
  keyed : ∀ k record, store.intents.get? k = some record → record.intentCommitment = k
  apart : ∀ k k' record record', store.intents.get? k = some record →
    store.intents.get? k' = some record' → store.orderStatus k = some statusOpen →
    store.orderStatus k' = some statusOpen → record.noteNullifier = record'.noteNullifier → k = k'

/-- The commitments of the orders that a settlement may open. -/
def StoreCall.opens : StoreCall → List Text
  | .addSettlement _ settlement _ residualOrders _ _ =>
    (settlement.orderUpdates.filter (·.status = statusOpen)).map (·.intentCommitment) ++
      residualOrders.map (·.intentCommitment)
  | _ => []

/-- The intents are the same, and no other orders than `opens` become open. -/
def BookKept (opens : List Text) (s s' : ProtocolStore) : Prop :=
  s'.intents = s.intents ∧
    ∀ k, s'.orderStatus k = some statusOpen → s.orderStatus k = some statusOpen ∨ k ∈ opens

variable {opens : List Text}

instance : Std.Refl (BookKept opens) := ⟨fun _ => ⟨rfl, fun _ h => Or.inl h⟩⟩

instance : IsTrans ProtocolStore (BookKept opens) :=
  ⟨fun _ _ _ h h' => ⟨h'.1.trans h.1, fun k hk => (h'.2 k hk).elim (h.2 k) Or.inr⟩⟩

/-- The tables of the book. -/
def ProtocolStore.orderBook (store : ProtocolStore) :
    OrderedMap Text IntentRecord × OrderedMap Text OrderLifecycleRecord :=
  (store.intents, store.orderLifecycle)

theorem bookKept_of_same (h : Same ProtocolStore.orderBook s s') : BookKept opens s s' := by
  obtain ⟨hintents, horders⟩ := Prod.mk.inj h
  refine ⟨hintents, fun k hk => Or.inl ?_⟩
  unfold ProtocolStore.orderStatus at hk ⊢
  rw [← horders]
  exact hk

/-- An order gets another status than open. -/
theorem bookKept_set {record : OrderLifecycleRecord} (h : record.status = statusOpen → k ∈ opens) :
    BookKept opens s { s with orderLifecycle := s.orderLifecycle.set k record } := by
  refine ⟨rfl, fun k' hk' => ?_⟩
  rw [orderStatus_set] at hk'
  by_cases hkey : k' = k
  · subst hkey
    rw [Function.update_self] at hk'
    exact Or.inr (h (Option.some.inj hk'))
  · rw [Function.update_of_ne hkey] at hk'
    exact Or.inl hk'

theorem maintains_of_same {α : Type} {x : StoreScript α}
    (hx : Maintains (Same ProtocolStore.orderBook) x) : Maintains (BookKept opens) x :=
  hx.mono fun _ _ => bookKept_of_same

theorem maintains_cancelOrder (now : ℤ) (k : Text) (txHash : Option Text) :
    Maintains (BookKept opens) (cancelOrder now k txHash) := by
  unfold cancelOrder
  repeat refine .andThen inferInstance fun _ => ?_
  have hne : statusCancelled ≠ statusOpen := by decide
  exact .update fun s => bookKept_set fun h => absurd h hne

theorem maintains_applyOrderUpdate {update : OrderUpdate}
    (h : update.status = statusOpen → update.intentCommitment ∈ opens) :
    Maintains (BookKept opens) (applyOrderUpdate now update) := by
  unfold applyOrderUpdate
  repeat refine .andThen inferInstance fun _ => ?_
  exact .update fun s => bookKept_set h

theorem maintains_addResidualOrder {record : ResidualOrderRecord}
    {payload : Option PrivateMatchIntent} (h : record.intentCommitment ∈ opens) :
    Maintains (BookKept opens) (addResidualOrder H record payload) := by
  unfold addResidualOrder
  refine .andThen inferInstance fun _ => .andThen inferInstance fun _ =>
    .andThen inferInstance fun _ => .andThen
      (maintains_of_same (same_keepPrivateMatchIntent (fun _ _ => rfl) _ _)) fun _ =>
        .update fun s => ?_
  exact @bookKept_set { s with
    residualOrders := s.residualOrders.set record.intentCommitment record } _ _ _ fun _ => h

theorem maintains_addSettlement {settlement : SettlementRecord}
    {openings : List PositionLifecycleRecord} {residuals : List ResidualOrderRecord}
    {events : List AccountEventRecord} {payloads : List PrivateMatchIntent} :
    Maintains (BookKept
      (StoreCall.addSettlement now settlement openings residuals events payloads).opens)
      (addSettlement H now settlement openings residuals events payloads) := by
  have hupdates : Maintains (BookKept
      (StoreCall.addSettlement now settlement openings residuals events payloads).opens)
      (applySettlementOrderUpdates now settlement) := by
    refine Maintains.forEach_of_mem fun update hupdate => maintains_applyOrderUpdate fun hopen => ?_
    refine List.mem_append_left _ (List.mem_map_of_mem (List.mem_filter.mpr ⟨hupdate, ?_⟩))
    exact decide_eq_true hopen
  have hresiduals := Maintains.forEach_of_mem fun residual hresidual =>
    @maintains_addResidualOrder H
      (StoreCall.addSettlement now settlement openings residuals events payloads).opens residual
      (intentByCommitment payloads residual.intentCommitment)
      (List.mem_append_right _ (List.mem_map_of_mem hresidual))
  unfold addSettlement
  repeat refine .andThen inferInstance fun _ => ?_
  refine .andThen (maintains_of_same (.update fun _ => rfl)) fun _ => ?_
  refine .andThen (Maintains.forEach_of_mem fun nullifier _ =>
    maintains_of_same (same_spend (fun _ _ => rfl) nullifier)) fun _ => ?_
  refine .andThen hupdates fun _ => .andThen (Maintains.forEach_of_mem fun opening _ =>
    maintains_of_same (same_openPosition (fun _ _ => rfl) _ _ opening)) fun _ => ?_
  refine .andThen hresiduals fun _ => .andThen (Maintains.forEach_of_mem fun event _ =>
    maintains_of_same (same_addAccountEvent (fun _ _ => rfl) event)) fun _ => ?_
  exact maintains_of_same (.update fun _ => rfl)

theorem maintains_addPositionCloseRecord (record : PositionCloseRecord) :
    Maintains (BookKept opens) (addPositionCloseRecord P record) := by
  refine maintains_of_same ?_
  have hspend : Maintains (Same ProtocolStore.orderBook) (spend record.positionNullifier) :=
    same_spend (fun _ _ => rfl) _
  have hmark : Maintains (Same ProtocolStore.orderBook) (markPositionClosed record) :=
    same_markPosition (fun _ _ => rfl) _ _ _
  unfold addPositionCloseRecord
  refine .andThen inferInstance fun _ => .andThen inferInstance fun _ =>
    .andThen inferInstance fun _ => .andThen hspend fun _ =>
      .andThen (.update fun _ => rfl) fun _ => .andThen hmark fun _ =>
        .andThen inferInstance fun _ => .update fun _ => rfl

/-! ## Calls -/

/-- The intents stay, none of them becomes open again but for those in `opens`, and if these are new
no two open intents have the same nullifier. -/
structure BookGrown (opens : List Text) (s s' : ProtocolStore) : Prop where
  kept : ∀ k record, s.intents.get? k = some record → s'.intents.get? k = some record
  closed : ∀ k, (s.intents.get? k).isSome → s'.orderStatus k = some statusOpen →
    s.orderStatus k = some statusOpen ∨ k ∈ opens
  exclusive : (∀ k ∈ opens, s.intents.get? k = none) → s.Exclusive → s'.Exclusive

theorem BookKept.grown (h : BookKept opens s s') : BookGrown opens s s' := by
  refine ⟨fun k record hrecord => by rw [h.1]; exact hrecord, fun k _ hk => h.2 k hk,
    fun hfresh hs => ⟨fun k record hk => hs.keyed k record (h.1 ▸ hk),
      fun k k' record record' hk hk' hopen hopen' => ?_⟩⟩
  rw [h.1] at hk hk'
  refine hs.apart k k' record record' hk hk' ((h.2 k hopen).resolve_right fun hmem => ?_)
    ((h.2 k' hopen').resolve_right fun hmem => ?_)
  · exact absurd ((hfresh k hmem).symm.trans hk) nofun
  · exact absurd ((hfresh k' hmem).symm.trans hk') nofun

/-- A new intent whose nullifier no other order locks. -/
theorem bookGrown_add {record : IntentRecord}
    (hfresh : s.intents.get? record.intentCommitment = none)
    (hlocked : ¬ s.locked record.noteNullifier) :
    BookGrown [] s { s with
      intents := s.intents.set record.intentCommitment record
      orderLifecycle := s.orderLifecycle.set record.intentCommitment
        (openLifecycle now now record.order) } := by
  have hne {k : Text} {old : IntentRecord} (hk : s.intents.get? k = some old) :
      k ≠ record.intentCommitment := by
    rintro rfl
    exact absurd (hfresh.symm.trans hk) nofun
  have hstatus (k : Text) : { s with
      intents := s.intents.set record.intentCommitment record
      orderLifecycle := s.orderLifecycle.set record.intentCommitment
        (openLifecycle now now record.order) }.orderStatus k =
        Function.update s.orderStatus record.intentCommitment (some statusOpen) k :=
    congrFun orderStatus_set k
  refine ⟨fun k old hold => ?_, fun k hk hopen => Or.inl ?_, fun _ hs => ⟨fun k old hold => ?_,
    fun k k' old old' hk hk' hopen hopen' hnullifier => ?_⟩⟩
  · exact (OrderedMap.get?_set_of_ne (hne hold)).trans hold
  · obtain ⟨old, hold⟩ := Option.isSome_iff_exists.mp hk
    rw [hstatus, Function.update_of_ne (hne hold)] at hopen
    exact hopen
  · rw [OrderedMap.get?_set] at hold
    split_ifs at hold with hk
    · rw [← Option.some.inj hold, hk]
    · exact hs.keyed k old hold
  · -- an old open intent with the nullifier of the new one would lock it
    have hold {k : Text} {old : IntentRecord} (hk : (s.intents.set record.intentCommitment
        record).get? k = some old) : k = record.intentCommitment ∧ old = record ∨
          k ≠ record.intentCommitment ∧ s.intents.get? k = some old := by
      rw [OrderedMap.get?_set] at hk
      split_ifs at hk with hkey
      · exact Or.inl ⟨hkey, (Option.some.inj hk).symm⟩
      · exact Or.inr ⟨hkey, hk⟩
    have hfree {k : Text} {old : IntentRecord} (hkey : k ≠ record.intentCommitment)
        (hk : s.intents.get? k = some old) (hopen : s.orderStatus k = some statusOpen)
        (hnullifier : old.noteNullifier = record.noteNullifier) : False := by
      refine hlocked ⟨old, OrderedMap.mem_values.mpr ⟨k, hk⟩, hnullifier, ?_⟩
      rw [hs.keyed k old hk, hopen]
      decide
    rw [hstatus] at hopen hopen'
    rcases hold hk with ⟨rfl, rfl⟩ | ⟨hkey, hin⟩ <;>
      rcases hold hk' with ⟨rfl, rfl⟩ | ⟨hkey', hin'⟩
    · rfl
    · rw [Function.update_of_ne hkey'] at hopen'
      exact (hfree hkey' hin' hopen' hnullifier.symm).elim
    · rw [Function.update_of_ne hkey] at hopen
      exact (hfree hkey hin hopen hnullifier).elim
    · rw [Function.update_of_ne hkey] at hopen
      rw [Function.update_of_ne hkey'] at hopen'
      exact hs.apart k k' old old' hin hin' hopen hopen' hnullifier

instance : Std.Refl (BookGrown opens) :=
  ⟨fun _ => ⟨fun _ _ h => h, fun _ _ h => Or.inl h, fun _ h => h⟩⟩

instance : IsTrans ProtocolStore (BookGrown []) where
  trans s s₁ s' h h' := by
    refine ⟨fun k record hk => h'.kept k record (h.kept k record hk), fun k hk hopen => Or.inl ?_,
      fun hfresh hs => h'.exclusive nofun (h.exclusive hfresh hs)⟩
    obtain ⟨record, hrecord⟩ := Option.isSome_iff_exists.mp hk
    have hmid := (h'.closed k (h.kept k record hrecord ▸ rfl) hopen).resolve_right List.not_mem_nil
    exact (h.closed k hk hmid).resolve_right List.not_mem_nil

/-- A submission adds its intent only when it returns. -/
theorem bookGrown_addIntent (record : IntentRecord) (payload : Option PrivateMatchIntent) :
    BookGrown [] s ((addIntent H P now record payload).after s) := by
  have hrefl (s : ProtocolStore) : BookGrown [] s s := refl_of (BookGrown []) s
  have hkeep : Maintains (Same ProtocolStore.orderBook)
      (keepPrivateMatchIntent H record.order payload) :=
    same_keepPrivateMatchIntent (fun _ _ => rfl) _ _
  unfold addIntent
  refine rel_after_bind (hrefl s) fun store s₁ h => ?_
  obtain ⟨rfl, rfl⟩ := returns_read.mp h
  refine rel_after_bind (hrefl _) fun _ s₂ h => ?_
  obtain ⟨hfresh, rfl⟩ := returns_throwIf.mp h
  refine rel_after_bind (hrefl _) fun _ s₃ h => ?_
  obtain ⟨-, rfl⟩ := returns_throwIf.mp h
  refine rel_after_bind (hrefl _) fun _ s₄ h => ?_
  obtain ⟨-, rfl⟩ := returns_throwIf.mp h
  refine rel_after_bind (bookKept_of_same (hkeep.rel _)).grown fun _ s₅ h => ?_
  have hbook : Same ProtocolStore.orderBook s₄ s₅ := hkeep.of_returns h
  refine rel_after_bind (hrefl _) fun _ s₆ h => ?_
  obtain rfl : s₆ = s₅ := Maintains.of_returns (R := Same id) inferInstance h
  refine rel_after_bind (hrefl _) fun _ s₇ h => ?_
  obtain ⟨-, rfl⟩ := returns_orThrow.mp h
  refine rel_after_bind (hrefl _) fun _ s₈ h => ?_
  obtain ⟨-, rfl⟩ := returns_throwIf.mp h
  refine rel_after_bind (hrefl _) fun _ s₉ h => ?_
  obtain ⟨-, rfl⟩ := returns_throwIf.mp h
  refine rel_after_bind (hrefl _) fun _ s₁₀ h => ?_
  obtain ⟨hlocked, rfl⟩ := returns_throwIf.mp h
  obtain ⟨hintents, horders⟩ := Prod.mk.inj hbook
  refine bookGrown_add ?_ fun ⟨existing, hmem, hnullifier, hstatus⟩ =>
    hlocked ⟨existing, ?_, hnullifier, ?_⟩
  · rw [hintents]
    exact Option.not_isSome_iff_eq_none.mp hfresh
  · exact hintents ▸ hmem
  · unfold ProtocolStore.orderStatus at hstatus ⊢
    rw [← horders]
    exact hstatus

/-- **The intents after a call**, whether it returns or throws. -/
theorem bookGrown_after (call : StoreCall) :
    BookGrown call.opens s ((call.script H P).after s) := by
  have hgrown {x : StoreScript Unit} (hx : Maintains (BookKept call.opens) x) :
      BookGrown call.opens s (x.after s) := (hx.rel s).grown
  cases call with
  | recordProof proof => exact hgrown (maintains_of_same (same_recordProof (fun _ _ => rfl) proof))
  | addMarginCommitment commitment =>
    exact hgrown (maintains_of_same (same_addMarginCommitment (fun _ _ => rfl) commitment))
  | addWithdrawal record =>
    exact hgrown (maintains_of_same (same_addWithdrawal (fun _ _ => rfl) (fun _ _ => rfl)
      (fun _ _ => rfl) record))
  | addIntent now record payload => exact bookGrown_addIntent record payload
  | cancelOrder now commitment txHash =>
    exact hgrown (maintains_cancelOrder now commitment txHash)
  | addSettlement now settlement openings residuals events payloads =>
    exact hgrown maintains_addSettlement
  | addAccountEvent record =>
    exact hgrown (maintains_of_same (same_addAccountEvent (fun _ _ => rfl) record))
  | addLiquidation record =>
    exact hgrown (maintains_of_same (same_addLiquidation (fun _ _ => rfl) (fun _ _ => rfl)
      (fun _ _ => rfl) record))
  | addConditionalClose record =>
    exact hgrown (maintains_of_same (same_addConditionalClose (fun _ _ => rfl) record))
  | addPositionClose record =>
    exact hgrown (.andThen inferInstance fun _ => .andThen inferInstance fun _ =>
      maintains_addPositionCloseRecord record)
  | addManualPositionClose record => exact hgrown (maintains_addPositionCloseRecord record)
  | addPairedPositionCloses trader maker conditional =>
    refine hgrown ?_
    unfold StoreCall.script Server.addPairedPositionCloses
    repeat refine .andThen inferInstance fun _ => ?_
    exact .andThen (maintains_addPositionCloseRecord trader) fun _ =>
      maintains_addPositionCloseRecord maker

end Pnlx.Server
