import Pnlx.Properties.BatchRecovery
import Pnlx.Server.Executor
import Pnlx.Server.OrderTable
import Pnlx.Server.Results

/-!
# The lifecycle of an order

A settlement that the executor creates writes the statuses of its orders when it is committed, and
does not look at them again. As long as no order is cancelled while such a settlement waits, and no
two orders have the same commitment, an order that is cancelled or filled keeps its status, and no
cancelled order is filled (`finished_keep`).
-/

namespace Pnlx.Server

open BatchMatch (Text)
open Script Runs

variable {H : Host} {P : Fr → Fr → Fr} {markets : Text → Option MarketConfig} {now : ℤ}

/-! ## What a match updates -/

section Match

variable {input : MatchInput} {result : MatchResult} {book book' : Book} {bound : Option ℤ}
  {market : MarketConfig}

/-- The note of every order with a fill is spent. -/
def Book.SpendsFilled (book : Book) : Prop :=
  ∀ order ∈ book.longs.all ++ book.shorts.all, 0 < order.filled →
    order.intent.noteNullifier ∈ book.spentNullifiers

theorem Book.SpendsFilled.cross (h : book.SpendsFilled) (long short : BookOrder) (trade : Trade) :
    (book.cross long short trade).SpendsFilled := by
  have hspent (n : Text) (hn : n ∈ book.spentNullifiers ∨ n = long.intent.noteNullifier ∨
      n = short.intent.noteNullifier) : n ∈ (book.cross long short trade).spentNullifiers := by
    refine mem_addUnique.mpr ?_
    obtain hn | hn | hn := hn
    · exact .inl (mem_addUnique.mpr (.inl hn))
    · exact .inl (mem_addUnique.mpr (.inr hn))
    · exact .inr hn
  intro order hmem hfilled
  rcases List.mem_append.mp hmem with hmem | hmem
  · rcases Cursor.mem_all_put.mp hmem with rfl | hother
    · exact hspent _ (.inr (.inl rfl))
    · exact hspent _ (.inl (h order
        (List.mem_append_left _ (Cursor.mem_all_of_others hother)) hfilled))
  · rcases Cursor.mem_all_put.mp hmem with rfl | hother
    · exact hspent _ (.inr (.inr rfl))
    · exact hspent _ (.inl (h order
        (List.mem_append_right _ (Cursor.mem_all_of_others hother)) hfilled))

/-- An order with a fill is one of an intent, and its note is spent. -/
theorem matchOrders_spends {orders : List BookOrder}
    (h : matchOrders H P bound input = some (book, orders)) :
    ∀ order ∈ orders, 0 < order.filled →
      order.intent ∈ input.intents ∧ order.intent.noteNullifier ∈ book.spentNullifiers := by
  obtain ⟨-, hof⟩ := matchOrders_traced h
  intro order hmem hfilled
  obtain ⟨intent, hintent, hsource⟩ := hof.exists_of_mem_right hmem
  refine ⟨hsource.source ▸ hintent, ?_⟩
  unfold matchOrders at h
  simp only [Option.bind_eq_bind, Option.bind_eq_some_iff, assert_eq_some, Option.some.injEq,
    Prod.mk.injEq] at h
  obtain ⟨start, hstart, -, -, book, hloop, -, -, rfl, rfl⟩ := h
  have hfresh : ∀ order ∈ start, order.filled = 0 := fun order horder => by
    obtain ⟨p, -, hp⟩ := (mapM_eq_some.mp hstart).exists_of_mem_right horder
    exact (toBookOrder_kept hp).2.1
  have hspends : book.SpendsFilled := by
    refine @loop_inv _ _ _ _ _ _ _ Book.SpendsFilled ?_ ?_ hloop
    · rintro book ⟨long, short⟩ book' hspends - hround
      obtain ⟨trade, fees, -, rfl⟩ := matchPair_eq_some hround
      exact hspends.cross long short trade
    · intro order horder hpos
      have hstart : order ∈ start := by
        rcases List.mem_append.mp horder with horder | horder
        · exact List.mem_of_mem_filter ((List.mem_insertionSort _).mp horder)
        · exact List.mem_of_mem_filter ((List.mem_insertionSort _).mp horder)
      exact absurd (hfresh order hstart) hpos.ne'
  obtain ⟨source, hstarted, rfl⟩ := List.mem_map.mp hmem
  unfold afterLoop at hfilled ⊢
  cases hfind : (book.longs.all ++ book.shorts.all).find? (·.sequence = source.sequence) with
  | none =>
    rw [hfind, Option.getD_none, hfresh source hstarted] at hfilled
    exact absurd hfilled (lt_irrefl 0)
  | some found =>
    rw [hfind, Option.getD_some] at hfilled
    exact hspends found (List.mem_of_find?_eq_some hfind) hfilled

/-- A match updates intents whose notes it spends. -/
theorem matchBatch_updates (h : matchBatch H P bound input = some result) :
    ∀ update ∈ result.orderUpdates, ∃ intent ∈ input.intents,
      intent.intentCommitment = update.intentCommitment ∧
        intent.noteNullifier ∈ result.spentNullifiers := by
  unfold matchBatch at h
  simp only [Option.bind_eq_bind, Option.bind_eq_some_iff] at h
  obtain ⟨⟨book, orders⟩, horders, hresult⟩ := h
  have hof := createResult_eq_some hresult
  intro update hupdate
  rw [hof.updates] at hupdate
  obtain ⟨order, horder, rfl⟩ := List.mem_map.mp hupdate
  obtain ⟨hmem, hfilled⟩ := List.mem_filter.mp horder
  obtain ⟨hintent, hspent⟩ := matchOrders_spends horders order hmem (of_decide_eq_true hfilled)
  exact ⟨order.intent, hintent, rfl, hof.spent ▸ hspent⟩

end Match

/-! ## What a settlement is created of -/

section Created

variable {store : ProtocolStore} {batchId marketId : Text}

/-- An order of the table is found under its commitment. -/
theorem ProtocolStore.Catalogued.order_of_mem (hs : store.Catalogued) {order : OrderRecord}
    (h : order ∈ store.intents.values.map (·.order) ++ store.residualOrders.values.map (·.order)) :
    store.order order.intentCommitment = some order := by
  unfold ProtocolStore.order
  rcases List.mem_append.mp h with h | h
  · obtain ⟨record, hrecord, rfl⟩ := List.mem_map.mp h
    obtain ⟨k, hk⟩ := OrderedMap.mem_values.mp hrecord
    obtain rfl : record.intentCommitment = k := hs.intents k record hk
    rw [show store.intents.get? record.order.intentCommitment = some record from hk]
    rfl
  · obtain ⟨record, hrecord, rfl⟩ := List.mem_map.mp h
    obtain ⟨k, hk⟩ := OrderedMap.mem_values.mp hrecord
    obtain rfl : record.intentCommitment = k := hs.residuals k record hk
    have hnone : store.intents.get? record.intentCommitment = none := by
      by_contra hne
      have hapart := hs.apart _ (Option.isSome_iff_ne_none.mpr hne)
      exact absurd (hapart.symm.trans hk) nofun
    rw [show store.intents.get? record.order.intentCommitment = none from hnone,
      show store.residualOrders.get? record.order.intentCommitment = some record from hk]
    rfl

/-- The order is open, and its note is one of the nullifiers. -/
def ProtocolStore.OpenWith (store : ProtocolStore) (nullifiers : List Text) (k : Text) : Prop :=
  store.orderStatus k = some statusOpen ∧
    ∃ order, store.order k = some order ∧ order.noteNullifier ∈ nullifiers

/-- The orders of a batch are open. -/
theorem open_of_record (hs : store.Catalogued) {record : MatchRecord}
    (h : record ∈ ExecutorService.relevantIntents store marketId batchId ∨
      record ∈ activeResiduals store marketId batchId) :
    store.OpenWith [record.noteNullifier] record.intentCommitment := by
  rcases h with h | h
  · obtain ⟨intent, hintent, rfl⟩ := List.mem_map.mp h
    obtain ⟨hmem, hactive⟩ := List.mem_filter.mp hintent
    refine ⟨(of_decide_eq_true hactive).2.2, intent.order, hs.order_of_mem ?_,
      List.mem_singleton_self _⟩
    exact List.mem_append_left _ (List.mem_map_of_mem hmem)
  · obtain ⟨residual, hresidual, rfl⟩ := List.mem_map.mp h
    obtain ⟨hmem, hactive⟩ := List.mem_filter.mp hresidual
    have horder : store.order residual.intentCommitment = some residual.order :=
      hs.order_of_mem (List.mem_append_right _ (List.mem_map_of_mem hmem))
    exact ⟨(of_decide_eq_true hactive).2, residual.order, horder, List.mem_singleton_self _⟩

/-- The private intent of a record has its commitment and its note. -/
theorem privateMatchIntentFor_eq_ok {record : MatchRecord} {intent : PrivateMatchIntent}
    (h : privateMatchIntentFor H store batchId record = .ok intent) :
    intent.intentCommitment = record.intentCommitment ∧
      intent.noteNullifier = record.noteNullifier := by
  unfold privateMatchIntentFor at h
  obtain ⟨payload, -, h⟩ := except_bind_eq_ok.mp h
  obtain ⟨u, hassert, h⟩ := except_bind_eq_ok.mp h
  obtain rfl := Except.ok.inj h
  have hreturns : Returns (assertPrivateMatchIntent H record.toOrderRecord payload) store u
      (assertPrivateMatchIntent H record.toOrderRecord payload store).2 := Prod.ext hassert rfl
  unfold assertPrivateMatchIntent at hreturns
  simp only [returns_bind, returns_throwIf, exists_eq_left, exists_and_left, exists_const,
    and_assoc] at hreturns
  obtain ⟨hcommitment, -, -, hnullifier, -⟩ := hreturns
  exact ⟨not_not.mp hcommitment, not_not.mp hnullifier⟩

/-- **The orders that a created settlement updates are open**, and it spends their notes. -/
theorem open_of_prepareBatch (hs : store.Catalogued) {prepared : PreparedSettlement}
    (h : ExecutorService.prepareBatch H P markets store batchId marketId = .ok prepared) :
    ∀ update ∈ prepared.draft.orderUpdates,
      store.OpenWith prepared.draft.spentNullifiers update.intentCommitment := by
  unfold ExecutorService.prepareBatch at h
  obtain ⟨market, -, h⟩ := except_bind_eq_ok.mp h
  dsimp only at h
  obtain ⟨-, -, h⟩ := except_bind_eq_ok.mp h
  obtain ⟨intents, hintents, h⟩ := except_bind_eq_ok.mp h
  obtain ⟨matched, hmatched, h⟩ := except_bind_eq_ok.mp h
  obtain ⟨draft, hdraft, h⟩ := except_bind_eq_ok.mp h
  obtain rfl := Except.ok.inj h
  have hdraft := orError_eq_ok.mp hdraft
  unfold prepareRisc0SettlementDraft at hdraft
  simp only [bind, Option.bind_eq_some_iff, Option.some.injEq] at hdraft
  obtain ⟨-, -, payloads, -, residuals, -, rfl⟩ := hdraft
  intro update hupdate
  obtain ⟨intent, hintent, hcommitment, hspent⟩ :=
    matchBatch_updates (orError_eq_ok.mp hmatched) update hupdate
  obtain ⟨record, hrecord, hfor⟩ := (forall₂_of_mapM hintents).exists_of_mem_right hintent
  obtain ⟨hsame, hnullifier⟩ := privateMatchIntentFor_eq_ok hfor
  obtain ⟨hopen, order, horder, hnote⟩ := open_of_record hs (List.mem_append.mp hrecord).symm
  rw [← hcommitment, hsame]
  refine ⟨hopen, order, horder, ?_⟩
  rw [List.mem_singleton.mp hnote, ← hnullifier]
  exact hspent

/-! ### External settlements -/

variable {R : ProtocolStore → ProtocolStore → Prop} [Std.Refl R] [IsTrans ProtocolStore R]
  {transcript : ExternalBatchSettlementTranscript} {s s' : ProtocolStore}

/-- A round of the loop over the updates writes nothing. -/
theorem maintains_validateOrderUpdate (settlement : SettlementRecord) (update : OrderUpdate)
    (index : ℕ) : Maintains R (validateOrderUpdate s settlement update index) := by
  unfold validateOrderUpdate
  repeat refine .andThen inferInstance fun _ => ?_
  infer_instance

/-- An active order is found under its commitment. -/
theorem order_of_activeOrder (hs : s.Catalogued) {k : Text} {order : OrderRecord}
    (h : activeOrder s marketId k = some order) :
    s.orderStatus k = some statusOpen ∧ s.order k = some order := by
  unfold activeOrder at h
  have hfound := List.find?_some h
  obtain rfl : order.intentCommitment = k := of_decide_eq_true hfound
  have hmem := List.mem_reverse.mp (List.mem_of_find?_eq_some h)
  obtain ⟨hmem, hactive⟩ := List.mem_filter.mp hmem
  exact ⟨(of_decide_eq_true hactive).2, hs.order_of_mem hmem⟩

/-- A round of the loop over the updates finds an active order whose note is spent. -/
theorem open_of_validateOrderUpdate (hs : s.Catalogued) {settlement : SettlementRecord}
    {update : OrderUpdate} {index : ℕ}
    (h : Returns (validateOrderUpdate s settlement update index) s () s') :
    s.OpenWith settlement.spentNullifiers update.intentCommitment := by
  unfold validateOrderUpdate at h
  simp only [returns_bind, returns_throwIf, returns_orThrow, exists_eq_left, exists_and_left,
    exists_const, and_assoc] at h
  obtain ⟨-, order, horder, -, -, -, hspent, -⟩ := h
  obtain ⟨hopen, htable⟩ := order_of_activeOrder hs horder
  exact ⟨hopen, order, htable, not_not.mp hspent⟩

/-- **The orders that an accepted transcript updates are open**, and it spends their notes. -/
theorem open_of_validate (hs : s.Catalogued) {u : Unit}
    (h : Returns (validateExternalBatchSettlement H markets transcript) s u s') :
    ∀ update ∈ transcript.settlement.orderUpdates,
      s.OpenWith transcript.settlement.spentNullifiers update.intentCommitment := by
  have hupdates : ∃ s₁, Returns (forEach (fun p : OrderUpdate × ℕ =>
      validateOrderUpdate s transcript.settlement p.1 p.2)
      transcript.settlement.orderUpdates.zipIdx) s () s₁ := by
    unfold validateExternalBatchSettlement at h
    simp only [returns_bind, returns_read, returns_throwIf, returns_orThrow, id, exists_eq_left,
      exists_and_left, exists_const, and_assoc] at h
    obtain ⟨-, -, -, -, -, hash, -, -, -, -, -, _, s₁, hupdates, -⟩ := h
    exact ⟨s₁, hupdates⟩
  obtain ⟨s₁, hupdates⟩ := hupdates
  intro update hmem
  obtain ⟨p, hp, rfl⟩ : ∃ p ∈ transcript.settlement.orderUpdates.zipIdx, p.1 = update := by
    rw [← List.zipIdx_map_fst 0 transcript.settlement.orderUpdates] at hmem
    exact List.mem_map.mp hmem
  have hround := returns_of_forEach (fun p _ => maintains_validateOrderUpdate _ _ _) hupdates p hp
  exact open_of_validateOrderUpdate hs hround

end Created

/-! ## Finished orders -/

/-- The order is cancelled or filled. -/
def ProtocolStore.Finished (store : ProtocolStore) (k : Text) : Prop :=
  store.orderStatus k = some statusCancelled ∨ store.orderStatus k = some statusFilled

/-- The batch of a settlement is not settled yet. -/
def ProtocolStore.Unsettled (store : ProtocolStore) (draft : BatchSettlement) : Prop :=
  store.settlements.get? (draft.marketId ++ ':' :: draft.batchId) = none

/-- The settlement updates the order. -/
def BatchSettlement.Updates (draft : BatchSettlement) (k : Text) : Prop :=
  k ∈ draft.orderUpdates.map (·.intentCommitment)

namespace ExecutorService

/-- The settlements whose proofs are being made and those that the service has returned. -/
def drafts (service : ExecutorService) : List BatchSettlement :=
  service.proving.map (·.draft) ++ service.created.map (·.toBatchSettlement)

/-- What holds between the store and the settlements that wait. -/
structure Sound (store : ProtocolStore) (drafts : List BatchSettlement) : Prop where
  table : store.Catalogued
  locked : ∀ draft ∈ drafts, ∀ k, draft.Updates k → ∃ order, store.order k = some order ∧
    order.noteNullifier ∈ draft.spentNullifiers
  live : ∀ draft ∈ drafts, store.Unsettled draft → ∀ k, draft.Updates k → store.Finished k →
    ∃ n ∈ draft.spentNullifiers, n ∈ store.spentNullifiers

/-- What a step may do: an order that is finished keeps its status, and one that gets finished has
its note spent, or no settlement waits for it. -/
structure Advances (drafts : List BatchSettlement) (s s' : ProtocolStore) : Prop where
  table : s'.Catalogued
  kept : ∀ k, s.Finished k → s'.orderStatus k = s.orderStatus k
  orders : ∀ k order, s.order k = some order → s'.order k = some order
  finished : ∀ k, s'.Finished k → s.Finished k ∨
    (∃ order, s.order k = some order ∧ order.noteNullifier ∈ s'.spentNullifiers) ∨
    ∀ draft ∈ drafts, s.Unsettled draft → ¬ draft.Updates k
  spent : ∀ n, n ∈ s.spentNullifiers → n ∈ s'.spentNullifiers
  settled : ∀ key, (s.settlements.get? key).isSome → (s'.settlements.get? key).isSome

variable {s s' : ProtocolStore} {drafts : List BatchSettlement} {updates : List Text}
  {residuals : List ResidualOrderRecord}

theorem Advances.unsettled (h : Advances drafts s s') {draft : BatchSettlement}
    (hdraft : s'.Unsettled draft) : s.Unsettled draft := by
  unfold ProtocolStore.Unsettled at *
  by_contra hne
  have hsome := h.settled _ (Option.isSome_iff_ne_none.mpr hne)
  rw [hdraft] at hsome
  cases hsome

/-- **The step lemma.** -/
theorem Sound.advance (h : Sound s drafts) (hadvance : Advances drafts s s') :
    Sound s' drafts where
  table := hadvance.table
  locked draft hdraft k hk := by
    obtain ⟨order, horder, hnote⟩ := h.locked draft hdraft k hk
    exact ⟨order, hadvance.orders k order horder, hnote⟩
  live draft hdraft hunsettled k hk hfinished := by
    have hunsettled := hadvance.unsettled hunsettled
    obtain hold | ⟨order, horder, hspent⟩ | hfree := hadvance.finished k hfinished
    · obtain ⟨n, hn, hspent⟩ := h.live draft hdraft hunsettled k hk hold
      exact ⟨n, hn, hadvance.spent n hspent⟩
    · obtain ⟨order', horder', hnote⟩ := h.locked draft hdraft k hk
      obtain rfl : order = order' := Option.some.inj (horder.symm.trans horder')
      exact ⟨order.noteNullifier, hnote, hspent⟩
    · exact absurd hk (hfree draft hdraft hunsettled)

/-- An order with a status is in the table. -/
theorem order_of_finished (hs : s.Catalogued) {k : Text} (hk : s.Finished k) :
    (s.order k).isSome := by
  refine hs.tracked k ?_
  unfold ProtocolStore.Finished at hk
  obtain hk | hk := hk
  · rw [hk]
    rfl
  · rw [hk]
    rfl

/-- A residual order that is added is not in the table. -/
theorem order_of_added (h : OrdersWritten updates residuals s s')
    (hfresh : ∀ record ∈ residuals, s.intents.get? record.intentCommitment = none) {k : Text}
    (hnone : s.residualOrders.get? k = none) (hadded : (s'.residualOrders.get? k).isSome) :
    s.order k = none := by
  obtain ⟨record, hrecord⟩ := Option.isSome_iff_exists.mp hadded
  obtain hold | ⟨hmem, rfl⟩ := h.added k record hrecord
  · exact absurd (hnone.symm.trans hold) nofun
  · unfold ProtocolStore.order
    rw [hfresh record hmem, hnone]
    rfl

/-- A step that writes the table of orders. -/
theorem Advances.of_written (h : OrdersWritten updates residuals s s') (hs : Sound s drafts)
    (hfresh : ∀ record ∈ residuals, s.intents.get? record.intentCommitment = none)
    (hkept : ∀ k ∈ updates, s.Finished k → s'.orderStatus k = s.orderStatus k)
    (hfinished : ∀ k ∈ updates, s'.orderStatus k ≠ s.orderStatus k → s'.Finished k →
      (∃ order, s.order k = some order ∧ order.noteNullifier ∈ s'.spentNullifiers) ∨
        ∀ draft ∈ drafts, s.Unsettled draft → ¬ draft.Updates k) :
    Advances drafts s s' where
  table := h.catalogued hs.table hfresh
  kept k hk := by
    by_contra hne
    obtain ⟨hmem, -⟩ | ⟨hnone, hadded⟩ := h.status k hne
    · exact hne (hkept k hmem hk)
    · have horder := order_of_finished hs.table hk
      rw [order_of_added h hfresh hnone hadded] at horder
      cases horder
  orders k order horder := by rw [h.order_of_isSome (horder ▸ rfl), horder]
  finished k hk := by
    by_cases hsame : s'.orderStatus k = s.orderStatus k
    · left
      unfold ProtocolStore.Finished at *
      rwa [← hsame]
    · right
      obtain ⟨hmem, -⟩ | ⟨hnone, hadded⟩ := h.status k hsame
      · exact hfinished k hmem hsame hk
      · -- a residual order that is new is none of those that settlements wait for
        refine .inr fun draft hdraft _ hupdate => ?_
        obtain ⟨order, horder, -⟩ := hs.locked draft hdraft k hupdate
        exact absurd ((order_of_added h hfresh hnone hadded).symm.trans horder) nofun
  spent := h.spent
  settled := h.settled

/-- A step that writes no order. -/
theorem Advances.of_unwritten (h : OrdersWritten [] [] s s') (hs : Sound s drafts) :
    Advances drafts s s' :=
  .of_written h hs (fun _ hmem => absurd hmem List.not_mem_nil)
    (fun _ hmem => absurd hmem List.not_mem_nil) fun _ hmem => absurd hmem List.not_mem_nil

/-- A submission whose commitment is not that of a residual order. -/
theorem Advances.of_intent {record : IntentRecord} (h : IntentAdded now record s s')
    (hs : Sound s drafts) (hresidual : s.residualOrders.get? record.intentCommitment = none) :
    Advances drafts s s' := by
  have hnone : s.order record.intentCommitment = none := by
    unfold ProtocolStore.order
    rw [h.fresh, hresidual]
    rfl
  have horder : ∀ k, k ≠ record.intentCommitment → s'.order k = s.order k := fun k hk => by
    unfold ProtocolStore.order
    rw [h.intents, h.residuals, OrderedMap.get?_set_of_ne hk]
  have hstatus : ∀ k, k ≠ record.intentCommitment → s'.orderStatus k = s.orderStatus k :=
    fun k hk => by
      unfold ProtocolStore.orderStatus
      rw [h.lifecycle, OrderedMap.get?_set_of_ne hk]
  have hopen : s'.orderStatus record.intentCommitment = some statusOpen := by
    unfold ProtocolStore.orderStatus
    rw [h.lifecycle, OrderedMap.get?_set_self]
    rfl
  have hunfinished : ¬ s'.Finished record.intentCommitment := by
    unfold ProtocolStore.Finished
    rw [hopen]
    decide
  refine ⟨⟨fun k old hold => ?_, fun k old hold => hs.table.residuals k old (h.residuals ▸ hold),
    fun k hk => ?_, fun k hk => ?_⟩, fun k hk => hstatus k ?_, fun k order hk => ?_,
    fun k hk => .inl ?_, fun n hn => h.spent ▸ hn, fun key hkey => h.settlements ▸ hkey⟩
  · rw [h.intents, OrderedMap.get?_set] at hold
    split_ifs at hold with hkey
    · rw [← Option.some.inj hold, hkey]
    · exact hs.table.intents k old hold
  · rw [h.residuals]
    rw [h.intents, OrderedMap.isSome_get?_set] at hk
    obtain hk | rfl := hk
    · exact hs.table.apart k hk
    · exact hresidual
  · by_cases hkey : k = record.intentCommitment
    · unfold ProtocolStore.order
      rw [h.intents, hkey, OrderedMap.get?_set_self]
      rfl
    · rw [horder k hkey]
      exact hs.table.tracked k (hstatus k hkey ▸ hk)
  · rintro rfl
    have hsome := order_of_finished hs.table hk
    rw [hnone] at hsome
    cases hsome
  · rw [horder k, hk]
    rintro rfl
    cases hnone.symm.trans hk
  · have hkey : k ≠ record.intentCommitment := by
      rintro rfl
      exact hunfinished hk
    unfold ProtocolStore.Finished at *
    rwa [← hstatus k hkey]

/-- A commit of a settlement whose orders are not finished, or cannot be committed any more. -/
theorem Advances.of_settlement {settlement : SettlementRecord}
    (h : OrdersWritten (settlement.orderUpdates.map (·.intentCommitment)) residuals s s')
    (hspent : SpentFirst settlement s s') (hs : Sound s drafts)
    (hfresh : ∀ record ∈ residuals, s.intents.get? record.intentCommitment = none)
    (hlocked : ∀ k, settlement.Updates k → ∃ order, s.order k = some order ∧
      order.noteNullifier ∈ settlement.spentNullifiers)
    (hlive : s.Unsettled settlement.toBatchSettlement → ∀ k, settlement.Updates k →
      s.Finished k → ∃ n ∈ settlement.spentNullifiers, n ∈ s.spentNullifiers) :
    Advances drafts s s' := by
  have hsame (k : Text) (h : s'.orderLifecycle = s.orderLifecycle) :
      s'.orderStatus k = s.orderStatus k := by
    unfold ProtocolStore.orderStatus
    rw [h]
  refine .of_written h hs hfresh (fun k hk hfinished => ?_) fun k hk hne _ => .inl ?_
  · obtain hlifecycle | ⟨hunsettled, hunspent⟩ := hspent
    · exact hsame k hlifecycle
    · obtain ⟨n, hn, hold⟩ := hlive hunsettled k hk hfinished
      exact absurd hold (hunspent n hn).1
  · obtain hlifecycle | ⟨-, hunspent⟩ := hspent
    · exact absurd (hsame k hlifecycle) hne
    · obtain ⟨order, horder, hnote⟩ := hlocked k hk
      exact ⟨order, horder, (hunspent _ hnote).2⟩

end ExecutorService

/-! ## Steps -/

/-- What goes wrong is left out: an order is cancelled while a settlement that updates it waits, or
two orders have the same commitment. -/
def ExecutorAction.Careful (service : ExecutorService) : ExecutorAction → Prop
  | .submitIntent _ record _ =>
    service.store.residualOrders.get? record.intentCommitment = none
  | .cancelOrder _ k _ =>
    ∀ draft ∈ service.drafts, service.store.Unsettled draft → ¬ draft.Updates k
  | .commitBatchSettlement _ settlement => ∀ record ∈ service.residualsOf settlement,
    service.store.intents.get? record.intentCommitment = none
  | .commitExternalBatchSettlement _ transcript _ => ∀ record ∈ transcript.residualOrders,
    service.store.intents.get? record.intentCommitment = none
  | _ => True

instance (service : ExecutorService) (act : ExecutorAction) : Decidable (act.Careful service) := by
  unfold ExecutorAction.Careful ProtocolStore.Unsettled BatchSettlement.Updates
  cases act <;> infer_instance

/-- The settlement that an action commits. -/
def ExecutorAction.Commits (H : Host) (markets : Text → Option MarketConfig)
    (service : ExecutorService) (draft : BatchSettlement) : ExecutorAction → Prop
  | .commitBatchSettlement now settlement => settlement.toBatchSettlement = draft ∧
    ∃ store', Returns (ExecutorService.commitScript H now service settlement) service.store () store'
  | .commitExternalBatchSettlement now transcript proofVerified =>
    transcript.settlement.toBatchSettlement = draft ∧ ∃ settlement store',
      Returns (Server.commitExternalBatchSettlement H markets now transcript proofVerified)
        service.store settlement store'
  | _ => False

namespace ExecutorService

variable {service service' : ExecutorService}

/-- The service and what waits. -/
def Kept (service : ExecutorService) : Prop := Sound service.store service.drafts

theorem Advances.refl {s : ProtocolStore} {drafts : List BatchSettlement} (hs : Sound s drafts) :
    Advances drafts s s := .of_unwritten (refl_of (OrdersWritten [] []) s) hs

/-- Fewer settlements wait. -/
theorem Sound.subset {s : ProtocolStore} {drafts drafts' : List BatchSettlement}
    (h : Sound s drafts) (hsub : ∀ draft ∈ drafts', draft ∈ drafts) : Sound s drafts' :=
  ⟨h.table, fun draft hdraft => h.locked draft (hsub draft hdraft),
    fun draft hdraft => h.live draft (hsub draft hdraft)⟩

/-- A step on the store alone. -/
theorem Kept.onStore (h : service.Kept) {α : Type} {x : StoreScript α}
    (hx : Advances service.drafts service.store (x.after service.store)) :
    Advances service.drafts service.store (service.onStore x).store ∧ (service.onStore x).Kept :=
  ⟨hx, Sound.advance h hx⟩

theorem advances_cancel (h : service.Kept) {k : Text} {txHash : Option Text}
    (hcareful : (ExecutorAction.cancelOrder now k txHash).Careful service) :
    Advances service.drafts service.store ((cancelOrder now k txHash).after service.store) := by
  refine .of_written ((maintains_cancel now k txHash).rel _) h (fun _ hmem => absurd hmem List.not_mem_nil)
    (fun k' hk' hfinished => ?_) fun k' hk' _ _ => .inr ?_
  · obtain rfl := List.mem_singleton.mp hk'
    rw [after_cancelOrder hfinished]
  · obtain rfl := List.mem_singleton.mp hk'
    exact hcareful

theorem advances_submit (h : service.Kept) {record : IntentRecord}
    {payload : Option PrivateMatchIntent}
    (hcareful : (ExecutorAction.submitIntent now record payload).Careful service) :
    Advances service.drafts service.store ((addIntent H P now record payload).after service.store) := by
  obtain ⟨htables, hspent⟩ | hadded := @after_addIntent H P now record payload service.store
  · exact .of_unwritten (ordersWritten_of_same htables fun _ hn => hspent.symm ▸ hn) h
  · exact .of_intent hadded h hcareful

theorem advances_commit (h : service.Kept) {settlement : SettlementRecord}
    (hcreated : settlement ∈ service.created)
    (hcareful : (ExecutorAction.commitBatchSettlement now settlement).Careful service) :
    Advances service.drafts service.store
      ((commitScript H now service settlement).after service.store) := by
  have hdraft : settlement.toBatchSettlement ∈ service.drafts :=
    List.mem_append_right _ (List.mem_map_of_mem hcreated)
  have hwritten : Maintains (OrdersWritten (settlement.orderUpdates.map (·.intentCommitment))
      (service.residualsOf settlement)) (commitScript H now service settlement) := by
    unfold commitScript recordProof
    refine .andThen (.update fun _ => ordersWritten_of_same rfl fun _ hn => hn) fun _ => ?_
    exact .andThen inferInstance fun _ => maintains_settlement _ _ _ _ _
  have hspent : SpentFirst settlement service.store
      ((commitScript H now service settlement).after service.store) := by
    unfold commitScript recordProof
    refine after_bind (.inl rfl) fun _ s₁ h₁ => ?_
    obtain rfl := returns_update.mp h₁
    refine after_bind (.inl rfl) fun store s₂ h₂ => ?_
    obtain ⟨rfl, rfl⟩ := returns_read.mp h₂
    exact after_addSettlement settlement _ _ _ _ _
  exact .of_settlement (hwritten.rel _) hspent h hcareful (h.locked _ hdraft) (h.live _ hdraft)

theorem advances_external (h : service.Kept) {transcript : ExternalBatchSettlementTranscript}
    {proofVerified : Bool}
    (hcareful : (ExecutorAction.commitExternalBatchSettlement now transcript proofVerified).Careful
      service) :
    Advances service.drafts service.store
      ((commitExternalBatchSettlement H markets now transcript proofVerified).after service.store) := by
  have hvalidate : (validateExternalBatchSettlement H markets transcript).after service.store =
      service.store := (maintains_validate (R := Same id) markets transcript).rel service.store
  unfold commitExternalBatchSettlement
  refine after_bind (hvalidate.symm ▸ Advances.refl h) fun u s₁ hreturns => ?_
  obtain rfl : s₁ = service.store := hreturns.after.symm.trans hvalidate
  have hopen := open_of_validate h.table hreturns
  -- what follows the checks
  let rest : StoreScript SettlementRecord := do
    doIf proofVerified (recordProof transcript.settlement.proof)
    let store ← read id
    throwIf (¬ hasProof store transcript.settlement.proof)
      "external settlement proof is not verified"
    addSettlement H now transcript.settlement transcript.positionOpenings transcript.residualOrders
      transcript.accountEvents transcript.privateMatchIntents
    pure transcript.settlement
  have hproof : Maintains (OrdersWritten
      (transcript.settlement.orderUpdates.map (·.intentCommitment)) transcript.residualOrders)
      (recordProof transcript.settlement.proof) :=
    .update fun _ => ordersWritten_of_same rfl fun _ hn => hn
  have hproofSpent : Maintains (Same fun store : ProtocolStore => (store.orderLifecycle,
      store.settlements, store.spentNullifiers)) (recordProof transcript.settlement.proof) :=
    same_recordProof (fun _ _ => rfl) _
  have hwritten : Maintains (OrdersWritten
      (transcript.settlement.orderUpdates.map (·.intentCommitment)) transcript.residualOrders)
      rest := by
    refine .andThen inferInstance fun _ => .andThen inferInstance fun _ =>
      .andThen inferInstance fun _ => ?_
    exact .andThen (maintains_settlement _ _ _ _ _) fun _ => inferInstance
  have hspent : SpentFirst transcript.settlement service.store (rest.after service.store) := by
    have hdo : Maintains (Same fun store : ProtocolStore => (store.orderLifecycle,
        store.settlements, store.spentNullifiers))
        (doIf proofVerified (recordProof transcript.settlement.proof)) := inferInstance
    refine after_bind (.inl (Prod.mk.inj (hdo.rel _)).1) fun _ s₂ h₂ => ?_
    obtain ⟨horders, hrest⟩ := Prod.mk.inj (hdo.of_returns h₂)
    obtain ⟨hsettlements, hnullifiers⟩ := Prod.mk.inj hrest
    refine after_bind (.inl horders) fun store s₃ h₃ => ?_
    obtain ⟨rfl, rfl⟩ := returns_read.mp h₃
    refine after_bind (.inl horders) fun _ s₄ h₄ => ?_
    obtain ⟨-, rfl⟩ := returns_throwIf.mp h₄
    have hsettle : SpentFirst transcript.settlement service.store
        ((addSettlement H now transcript.settlement transcript.positionOpenings
          transcript.residualOrders transcript.accountEvents
          transcript.privateMatchIntents).after s₄) := by
      refine (after_addSettlement transcript.settlement _ _ _ _ s₄).imp (·.trans horders) ?_
      rw [hsettlements, hnullifiers]
      exact id
    refine after_bind hsettle fun _ s₅ h₅ => ?_
    rw [h₅.after] at hsettle
    exact hsettle
  refine .of_settlement (hwritten.rel _) hspent h hcareful (fun k hk => ?_)
    fun _ k hk hfinished => ?_
  · obtain ⟨update, hupdate, rfl⟩ := List.mem_map.mp hk
    exact (hopen update hupdate).2
  · obtain ⟨update, hupdate, rfl⟩ := List.mem_map.mp hk
    unfold ProtocolStore.Finished at hfinished
    rw [(hopen update hupdate).1] at hfinished
    exact absurd hfinished (by decide)

theorem store_commitBatchSettlement (settlement : SettlementRecord) :
    (commitBatchSettlement H now service settlement).store =
        (commitScript H now service settlement).after service.store ∧
      (commitBatchSettlement H now service settlement).drafts = service.drafts := by
  unfold commitBatchSettlement Script.after
  rcases commitScript H now service settlement service.store with ⟨_ | _, store⟩
  · exact ⟨rfl, rfl⟩
  · exact ⟨rfl, rfl⟩

/-- A batch is prepared from orders that are open. -/
theorem Kept.prepare (h : service.Kept) {batchId marketId : Text} {prepared : PreparedSettlement}
    (hprepared : prepareBatch H P markets service.store batchId marketId = .ok prepared) :
    Kept { service with proving := service.proving ++ [prepared] } := by
  have hopen := open_of_prepareBatch h.table hprepared
  have hmem : ∀ draft ∈ drafts { service with proving := service.proving ++ [prepared] },
      draft ∈ service.drafts ∨ draft = prepared.draft := fun draft hdraft => by
    unfold drafts at hdraft ⊢
    rw [List.map_append, List.mem_append, List.mem_append] at hdraft
    obtain (hproving | hnew) | hcreated := hdraft
    · exact .inl (List.mem_append_left _ hproving)
    · exact .inr (List.mem_singleton.mp hnew)
    · exact .inl (List.mem_append_right _ hcreated)
  refine ⟨h.table, fun draft hdraft k hk => ?_, fun draft hdraft hunsettled k hk hfinished => ?_⟩
  · obtain hold | rfl := hmem draft hdraft
    · exact h.locked draft hold k hk
    · obtain ⟨update, hupdate, rfl⟩ := List.mem_map.mp hk
      exact (hopen update hupdate).2
  · obtain hold | rfl := hmem draft hdraft
    · exact h.live draft hold hunsettled k hk hfinished
    · obtain ⟨update, hupdate, rfl⟩ := List.mem_map.mp hk
      unfold ProtocolStore.Finished at hfinished
      rw [show service.store.orderStatus _ = _ from (hopen update hupdate).1] at hfinished
      exact absurd hfinished (by decide)

/-- A settlement is created of a batch that has been prepared. -/
theorem Kept.create (h : service.Kept) {prepared : PreparedSettlement} {proof : ProofRecord}
    (hmem : prepared ∈ service.proving) :
    Advances service.drafts service.store
        (ExecutorService.createBatchSettlement H now service prepared proof).store ∧
      (ExecutorService.createBatchSettlement H now service prepared proof).Kept := by
  have hstore : Advances service.drafts service.store
      (keepResiduals service.store prepared.input.matched.residuals) :=
    .of_unwritten (ordersWritten_of_same rfl fun _ hn => hn) h
  refine ⟨hstore, (Sound.advance h hstore).subset fun draft hdraft => ?_⟩
  unfold drafts at hdraft ⊢
  rcases List.mem_append.mp hdraft with hproving | hcreated
  · obtain ⟨p, hp, rfl⟩ := List.mem_map.mp hproving
    exact List.mem_append_left _ (List.mem_map_of_mem (List.mem_of_mem_erase hp))
  · obtain ⟨settlement, hsettlement, rfl⟩ := List.mem_map.mp hcreated
    rcases List.mem_append.mp hsettlement with hold | hnew
    · exact List.mem_append_right _ (List.mem_map_of_mem hold)
    · rw [List.mem_singleton.mp hnew]
      exact List.mem_append_left _ (List.mem_map_of_mem hmem)

/-- **One step** of the service, if it is careful. -/
theorem Kept.step (h : service.Kept) {act : ExecutorAction} (hcareful : act.Careful service)
    (hstep : step H P markets service act = .ok service') :
    Advances service.drafts service.store service'.store ∧ service'.Kept := by
  have hunwritten {x : StoreScript Unit} (hx : Maintains (OrdersWritten [] []) x) :
      Advances service.drafts service.store (service.onStore x).store ∧
        (service.onStore x).Kept := h.onStore (.of_unwritten (hx.rel _) h)
  cases act with
  | recordProof proof =>
    rw [← Except.ok.inj hstep]
    exact hunwritten (.update fun _ => ordersWritten_of_same rfl fun _ hn => hn)
  | addMarginCommitment commitment =>
    rw [← Except.ok.inj hstep]
    exact hunwritten (maintains_of_sameTables (same_addMarginCommitment (fun _ _ => rfl) _)
      (same_addMarginCommitment (fun _ _ => rfl) _))
  | addWithdrawal record =>
    rw [← Except.ok.inj hstep]
    exact hunwritten (maintains_withdrawal record)
  | submitIntent now record payload =>
    rw [← Except.ok.inj hstep]
    exact h.onStore (advances_submit h hcareful)
  | cancelOrder now k txHash =>
    rw [← Except.ok.inj hstep]
    exact h.onStore (advances_cancel h hcareful)
  | prepareBatch batchId marketId =>
    obtain ⟨prepared, hprepared, heq⟩ := except_bind_eq_ok.mp hstep
    rw [← Except.ok.inj heq]
    exact ⟨Advances.refl h, h.prepare hprepared⟩
  | createBatchSettlement now prepared proof =>
    unfold ExecutorService.step at hstep
    dsimp only at hstep
    split_ifs at hstep with hmem
    rw [← Except.ok.inj hstep]
    exact h.create hmem
  | commitBatchSettlement now settlement =>
    unfold ExecutorService.step at hstep
    dsimp only at hstep
    split_ifs at hstep with hmem
    rw [← Except.ok.inj hstep]
    obtain ⟨hstore, hdrafts⟩ := @store_commitBatchSettlement H now service settlement
    have hadvance := @advances_commit H now service h settlement hmem hcareful
    unfold Kept
    rw [hstore, hdrafts]
    exact ⟨hadvance, Sound.advance h hadvance⟩
  | commitExternalBatchSettlement now transcript proofVerified =>
    rw [← Except.ok.inj hstep]
    exact h.onStore (advances_external h hcareful)

theorem kept_empty : empty.Kept := by
  refine ⟨⟨fun k record hk => ?_, fun k record hk => ?_, fun k hk => ?_, fun k hk => ?_⟩,
    fun draft hdraft => ?_, fun draft hdraft => ?_⟩
  · cases hk
  · cases hk
  · cases hk
  · cases hk
  · cases hdraft
  · cases hdraft

/-- No settlement that is committed fills an order that is cancelled. -/
theorem Kept.commits (h : service.Kept) {act : ExecutorAction} {draft : BatchSettlement}
    (hstep : ExecutorService.step H P markets service act = .ok service')
    (hcommits : act.Commits H markets service draft) :
    ∀ k, draft.Updates k → service.store.orderStatus k ≠ some statusCancelled := by
  intro k hk hcancelled
  cases act with
  | commitBatchSettlement now settlement =>
    obtain ⟨rfl, store', hreturns⟩ := hcommits
    unfold ExecutorService.step at hstep
    dsimp only at hstep
    split_ifs at hstep with hmem
    have hdraft : settlement.toBatchSettlement ∈ service.drafts :=
      List.mem_append_right _ (List.mem_map_of_mem hmem)
    unfold commitScript Server.recordProof at hreturns
    simp only [returns_bind, returns_update, returns_read, id, exists_eq_left, exists_and_left,
      exists_const, and_assoc] at hreturns
    obtain ⟨hunsettled, hunspent⟩ := returns_addSettlement hreturns
    obtain ⟨n, hn, hspent⟩ := h.live _ hdraft hunsettled k hk (.inl hcancelled)
    exact hunspent n hn hspent
  | commitExternalBatchSettlement now transcript proofVerified =>
    obtain ⟨rfl, settlement, store', hreturns⟩ := hcommits
    unfold Server.commitExternalBatchSettlement at hreturns
    obtain ⟨u, s₁, hvalidate, -⟩ := returns_bind.mp hreturns
    obtain ⟨update, hupdate, rfl⟩ := List.mem_map.mp hk
    rw [(open_of_validate h.table hvalidate update hupdate).1] at hcancelled
    exact absurd hcancelled (by decide)
  | _ => exact hcommits

/-- A step that keeps the statuses of finished orders and fills no cancelled order. -/
structure KeepsFinished (H : Host) (markets : Text → Option MarketConfig)
    (x : Step ExecutorService ExecutorAction) : Prop where
  kept : ∀ k, x.pre.store.Finished k → x.post.store.orderStatus k = x.pre.store.orderStatus k
  uncancelled : ∀ draft, x.act.Commits H markets x.pre draft →
    ∀ k, draft.Updates k → x.pre.store.orderStatus k ≠ some statusCancelled

/-- **An order that is cancelled or filled keeps its status**, and no settlement that is committed
fills a cancelled order, in every run whose steps are careful. -/
theorem finished_keep (H : Host) (P : Fr → Fr → Fr) (markets : Text → Option MarketConfig)
    (acts : List ExecutorAction)
    (hcareful : ∀ x ∈ accepted (step H P markets) empty acts, x.act.Careful x.pre) :
    ∀ x ∈ accepted (step H P markets) empty acts, KeepsFinished H markets x := by
  intro x hx
  have hkept : x.pre.Kept := (around_of_accepted (fun x hcareful hstep hpre =>
    (Kept.step hpre hcareful hstep).2) kept_empty hcareful x hx).1
  have hstep := (accepted_ok x hx).1
  refine ⟨fun k hk => ?_, fun draft hcommits k hk => ?_⟩
  · exact (hkept.step (hcareful x hx) hstep).1.kept k hk
  · exact hkept.commits hstep hcommits k hk

/-! ## A cancelled order is filled -/

section Samples

open SampleHost

/-- Two orders are submitted that cross each other. -/
def submitTwo : List ExecutorAction :=
  .recordProof orderProof :: [marketOrder 1 1000000, marketOrder 2 (-1000000)].map fun order =>
    .submitIntent 0 (submittedIntent order) (some order)

/-- A third order, of another batch. -/
def laterOrder : PrivateMatchIntent := { marketOrder 3 1000000 with batchId := "later".toList }

/-- The batch of the two orders is settled, and the third order cancelled while its proof is made.
Then the orders that are finished are cancelled again, and the settlement is committed again. -/
def settleAndRetry (prepared : PreparedSettlement) : List ExecutorAction :=
  submitTwo ++ [.submitIntent 0 (submittedIntent laterOrder) (some laterOrder),
    .prepareBatch "ui".toList "A".toList, .createBatchSettlement 1 prepared orderProof,
    .cancelOrder 2 (BatchMatch.hexText 3) none,
    .commitBatchSettlement 3 { prepared.draft with proof := orderProof },
    .cancelOrder 4 (BatchMatch.hexText 1) none, .cancelOrder 4 (BatchMatch.hexText 3) none,
    .commitBatchSettlement 5 { prepared.draft with proof := orderProof }]

/-- The commit fills the long order after the third one has been cancelled, and both stay so. -/
theorem finished_keep_sample : ∃ prepared,
    let run := accepted (step batchHost pairHash sampleMatcher.markets) empty
      (settleAndRetry prepared)
    run.length = (settleAndRetry prepared).length ∧
    (∃ x ∈ run, x.pre.store.orderStatus (BatchMatch.hexText 1) = some statusOpen ∧
      x.post.store.orderStatus (BatchMatch.hexText 1) = some statusFilled ∧
      x.pre.store.orderStatus (BatchMatch.hexText 3) = some statusCancelled) ∧
    ∀ x ∈ run, KeepsFinished batchHost sampleMatcher.markets x := by
  have hrun : (ExecutorService.prepareBatch batchHost pairHash sampleMatcher.markets openOrders
      "ui".toList "A".toList).toOption.any fun prepared =>
      let run := accepted (step batchHost pairHash sampleMatcher.markets) empty
        (settleAndRetry prepared)
      run.length = (settleAndRetry prepared).length ∧
      (∃ x ∈ run, x.pre.store.orderStatus (BatchMatch.hexText 1) = some statusOpen ∧
        x.post.store.orderStatus (BatchMatch.hexText 1) = some statusFilled ∧
        x.pre.store.orderStatus (BatchMatch.hexText 3) = some statusCancelled) ∧
      ∀ x ∈ run, x.act.Careful x.pre := by
    decide +kernel
  obtain ⟨prepared, -, hrun⟩ := (Option.any_eq_true _ _).mp hrun
  obtain ⟨hlength, hfilled, hcareful⟩ := of_decide_eq_true hrun
  exact ⟨prepared, hlength, hfilled,
    finished_keep batchHost pairHash sampleMatcher.markets _ hcareful⟩

deriving instance DecidableEq for ExecutorService

theorem final_submitTwo : final (step batchHost pairHash sampleMatcher.markets) empty submitTwo =
    { empty with store := openOrders } := by decide +kernel

/-- The batch of the two orders is settled, and the long one cancelled while its proof is made. -/
def cancelWhileProving (prepared : PreparedSettlement) : List ExecutorAction :=
  submitTwo ++ [.prepareBatch "ui".toList "A".toList, .cancelOrder 1 (BatchMatch.hexText 1) none,
    .createBatchSettlement 2 prepared orderProof,
    .commitBatchSettlement 3 { prepared.draft with proof := orderProof }]

/-- **A cancelled order is filled.** -/
theorem cancelled_filled : ¬ ∀ acts, ∀ x ∈ accepted (step batchHost pairHash sampleMatcher.markets)
    empty acts, KeepsFinished batchHost sampleMatcher.markets x := by
  have hrun : (ExecutorService.prepareBatch batchHost pairHash sampleMatcher.markets openOrders
      "ui".toList "A".toList).toOption.any fun prepared =>
      ∃ x ∈ accepted (step batchHost pairHash sampleMatcher.markets)
        { empty with store := openOrders } ((cancelWhileProving prepared).drop submitTwo.length),
        x.pre.store.orderStatus (BatchMatch.hexText 1) = some statusCancelled ∧
          x.post.store.orderStatus (BatchMatch.hexText 1) = some statusFilled := by
    decide +kernel
  intro hall
  obtain ⟨prepared, -, hrun⟩ := (Option.any_eq_true _ _).mp hrun
  obtain ⟨x, hx, hpre, hpost⟩ := of_decide_eq_true hrun
  replace hx : x ∈ accepted (step batchHost pairHash sampleMatcher.markets) empty
      (cancelWhileProving prepared) := by
    unfold cancelWhileProving at hx ⊢
    rw [List.drop_left] at hx
    rw [accepted_append, final_submitTwo]
    exact List.mem_append_right _ hx
  have hkept := (hall (cancelWhileProving prepared) x hx).kept _ (.inl hpre)
  rw [hpre, hpost] at hkept
  exact absurd hkept (by decide)

end Samples

end ExecutorService

end Pnlx.Server
