import Pnlx.SampleHost
import Pnlx.Server.StoreThrows

/-!
# Atomic operations of the store

`atomic_iff`: exactly when an operation that throws leaves the store as it was. A settlement checks
each thing that it adds when its turn comes, after the ones before are in the store.
-/

namespace Pnlx.Server

open BatchMatch (Text)
open Script

variable {H : Host} {P : Fr → Fr → Fr} {s s' : ProtocolStore} {now : ℤ}

/-! ## Settlements -/

/-- The checks of a settlement before its first write. -/
structure SettlementKept (s : ProtocolStore) (settlement : SettlementRecord)
    (openings : List PositionLifecycleRecord) (residuals : List ResidualOrderRecord) : Prop where
  fresh : s.settlements.get? (settlementKey settlement) = none
  transcript : settlement.matchTranscriptDigest ≠ []
  proof : hasProof s settlement.proof
  openings : OpeningsFit settlement openings
  residuals : ResidualsFit settlement residuals

/-- The lifecycle that an update writes to the store as it is before all updates. -/
def settledIn (now : ℤ) (s : ProtocolStore) (order : OrderRecord) (orderUpdate : OrderUpdate) :
    OrderLifecycleRecord :=
  settledLifecycle now order (s.orderLifecycle.get? orderUpdate.intentCommitment) orderUpdate

/-- The lifecycles that the updates write until one is of an unknown order. -/
def settledLifecycles (now : ℤ) (s : ProtocolStore) :
    List OrderUpdate → List (Text × OrderLifecycleRecord)
  | [] => []
  | orderUpdate :: updates =>
    match s.order orderUpdate.intentCommitment with
    | some order => (orderUpdate.intentCommitment, settledIn now s order orderUpdate) ::
        settledLifecycles now s updates
    | none => []

/-- Every update is of an order in the store. -/
def OrdersKnown (s : ProtocolStore) (updates : List OrderUpdate) : Prop :=
  ∀ orderUpdate ∈ updates, (s.order orderUpdate.intentCommitment).isSome

/-- The nullifiers that a settlement spends, as its loop inserts them. -/
abbrev Spendable (s : ProtocolStore) : List Text → Prop :=
  Insertable s (fun s k => k ∈ s.spentNullifiers) (fun _ => True) id

theorem inserts_spend : Inserts (fun _ => True) ProtocolStore.extent
    (fun s k => k ∈ s.spentNullifiers) (fun _ => True) id spend where
  throws nullifier s s' _ := by
    rw [throws_spend, true_and, not_not, and_comm]
    exact Iff.rfl
  returns nullifier s s' _ h := by
    obtain ⟨hnew, rfl⟩ := returns_spend_iff.mp h
    exact ⟨trivial, extent_spend hnew, fun k => OrderedSet.mem_add⟩

theorem inserts_addAccountEvent : Inserts (fun _ => True) ProtocolStore.extent
    (fun s k => (s.accountEvents.get? k).isSome) (fun _ => True) AccountEventRecord.eventId
    addAccountEvent where
  throws event s s' _ := by
    unfold addAccountEvent
    simp [and_comm, Option.isSome_iff_ne_none]
  returns event s s' _ h := by
    unfold addAccountEvent at h
    simp only [returns_bind, returns_read, returns_throwIf, returns_update, id] at h
    obtain ⟨_, _, ⟨rfl, rfl⟩, _, _, ⟨hnew, rfl⟩, rfl⟩ := h
    refine ⟨trivial, ?_, fun k => ?_⟩
    · have hsize := @OrderedMap.size_set_of_none _ _ _ _ _ event
        (Option.not_isSome_iff_eq_none.mp hnew)
      unfold ProtocolStore.extent
      dsimp only
      omega
    · exact OrderedMap.isSome_get?_set

/-- A residual order and its payload can be added. -/
def ResidualFits (H : Host) (payloads : List PrivateMatchIntent) (residual : ResidualOrderRecord) :
    Prop :=
  residual.matchingPayloadCommitment ≠ [] ∧
    ∀ kept, intentByCommitment payloads residual.intentCommitment = some kept →
      PayloadFits H residual.order kept

theorem inserts_addResidualOrder (payloads : List PrivateMatchIntent) :
    Inserts (fun _ => True) ProtocolStore.extent (fun s k => (s.residualOrders.get? k).isSome)
      (ResidualFits H payloads) ResidualOrderRecord.intentCommitment fun residual =>
        addResidualOrder H residual
          (intentByCommitment payloads residual.intentCommitment) where
  throws residual s s' _ := by
    unfold addResidualOrder ResidualFits
    simp only [throws_bind, not_throws_read, false_or, returns_read, throws_throwIf,
      returns_throwIf, throws_keep, not_throws_update, id]
    constructor
    · rintro ⟨_, _, ⟨rfl, rfl⟩, ⟨hused, rfl⟩ | ⟨_, _, ⟨-, rfl⟩, ⟨hempty, rfl⟩ | ⟨_, _, ⟨-, rfl⟩,
        ⟨rfl, kept, hkept, hmisfit⟩ | ⟨_, _, _, h⟩⟩⟩⟩
      · exact ⟨rfl, fun h => h.2 hused⟩
      · exact ⟨rfl, fun h => h.1.1 hempty⟩
      · exact ⟨rfl, fun h => hmisfit (h.1.2 kept hkept)⟩
      · exact absurd h id
    · rintro ⟨rfl, hfails⟩
      refine ⟨_, _, ⟨rfl, rfl⟩, ?_⟩
      by_cases hused : (s'.residualOrders.get? residual.intentCommitment).isSome
      · exact Or.inl ⟨hused, rfl⟩
      refine Or.inr ⟨(), _, ⟨hused, rfl⟩, ?_⟩
      by_cases hempty : residual.matchingPayloadCommitment = []
      · exact Or.inl ⟨hempty, rfl⟩
      refine Or.inr ⟨(), _, ⟨hempty, rfl⟩, Or.inl ⟨rfl, ?_⟩⟩
      by_contra hfits
      push Not at hfits
      exact hfails ⟨⟨hempty, hfits⟩, hused⟩
  returns residual s s' _ h := by
    unfold addResidualOrder at h
    simp only [returns_bind, returns_read, returns_throwIf, returns_keep, returns_update, id] at h
    obtain ⟨_, _, ⟨rfl, rfl⟩, _, _, ⟨hnew, rfl⟩, _, s, ⟨-, rfl⟩, _, s₁, ⟨-, hs₁⟩, rfl⟩ := h
    have hsame : s₁.residualOrders = s.residualOrders ∧ s₁.extent = s.extent := by
      rw [hs₁]
      cases intentByCommitment payloads residual.intentCommitment with
      | none => exact ⟨rfl, rfl⟩
      | some kept => exact ⟨rfl, rfl⟩
    obtain ⟨hresiduals, hextent⟩ := hsame
    rw [← hresiduals] at hnew ⊢
    refine ⟨trivial, ?_, fun k => OrderedMap.isSome_get?_set⟩
    have hsize := @OrderedMap.size_set_of_none _ _ _ _ _ residual
      (Option.not_isSome_iff_eq_none.mp hnew)
    rw [← hextent]
    unfold ProtocolStore.extent
    dsimp only
    omega

theorem returns_openPosition {settlement : SettlementRecord} {first : ℕ}
    {opening : PositionLifecycleRecord} {u : Unit}
    (h : Returns (openPosition settlement first opening) s u s') :
    s.extent < s'.extent ∧ s'.positionCommitments = s.positionCommitments ∧
      ∀ k, (s'.positionLifecycle.get? k).isSome ↔
        (s.positionLifecycle.get? k).isSome ∨ k = opening.positionCommitment := by
  unfold openPosition addPositionOpening at h
  simp only [returns_bind, returns_read, returns_throwIf, returns_orThrow, returns_update, id] at h
  obtain ⟨offset, _, ⟨-, rfl⟩, _, _, ⟨rfl, rfl⟩, _, _, ⟨hnew, rfl⟩, _, _, ⟨-, rfl⟩, _, s, ⟨-, rfl⟩,
    rfl⟩ := h
  refine ⟨?_, rfl, fun k => OrderedMap.isSome_get?_set⟩
  have hsize := @OrderedMap.size_set_of_none _ _ _ _ _
    { opening with positionIndex := some (first + offset) }
    (Option.not_isSome_iff_eq_none.mp hnew)
  unfold ProtocolStore.extent
  dsimp only
  omega

theorem atomic_openPosition (settlement : SettlementRecord) (first : ℕ)
    (opening : PositionLifecycleRecord) : Atomic (openPosition settlement first opening) s := by
  unfold openPosition addPositionOpening
  simp only [atomic_orThrow_bind, atomic_read_bind, atomic_throwIf_bind]
  exact fun _ _ _ _ _ => atomic_update

/-- The positions that a settlement opens, as its loop inserts them. -/
theorem inserts_openPosition (settlement : SettlementRecord) (first : ℕ) :
    Inserts (fun s => ∀ c ∈ settlement.newCommitments, c ∈ s.positionCommitments)
      ProtocolStore.extent (fun s k => (s.positionLifecycle.get? k).isSome)
      (fun opening => opening.positionCommitment ∈ settlement.newCommitments ∧
        opening.status = statusOpen) PositionLifecycleRecord.positionCommitment
      (openPosition settlement first) where
  throws opening s s' hs := by
    unfold openPosition addPositionOpening
    simp only [throws_bind, not_throws_read, false_or, returns_read, throws_throwIf, throws_orThrow,
      returns_orThrow, returns_throwIf, not_throws_update, id]
    constructor
    · rintro (⟨hunlisted, rfl⟩ | ⟨offset, _, ⟨hoffset, rfl⟩, _, _, ⟨rfl, rfl⟩, ⟨hused, rfl⟩ |
        ⟨_, _, ⟨-, rfl⟩, ⟨hclosed, rfl⟩ | ⟨_, _, ⟨-, rfl⟩, ⟨hunknown, rfl⟩ | ⟨_, _, _, h⟩⟩⟩⟩)
      · exact ⟨rfl, fun h => List.idxOf?_eq_none_iff.mp hunlisted h.1.1⟩
      · exact ⟨rfl, fun h => h.2 hused⟩
      · exact ⟨rfl, fun h => hclosed h.1.2⟩
      · exact ⟨rfl, fun h => hunknown (hs _ h.1.1)⟩
      · exact absurd h id
    · rintro ⟨rfl, hfails⟩
      cases hoffset : settlement.newCommitments.idxOf? opening.positionCommitment with
      | none => exact Or.inl ⟨rfl, rfl⟩
      | some offset =>
        have hlisted : opening.positionCommitment ∈ settlement.newCommitments := by
          by_contra hunlisted
          rw [List.idxOf?_eq_none_iff.mpr hunlisted] at hoffset
          cases hoffset
        refine Or.inr ⟨offset, _, ⟨rfl, rfl⟩, _, _, ⟨rfl, rfl⟩, ?_⟩
        by_cases hused : (s'.positionLifecycle.get? opening.positionCommitment).isSome
        · exact Or.inl ⟨hused, rfl⟩
        refine Or.inr ⟨(), _, ⟨hused, rfl⟩, Or.inl ⟨fun hopen => ?_, rfl⟩⟩
        exact hfails ⟨⟨hlisted, hopen⟩, hused⟩
  returns opening s s' hs h := by
    obtain ⟨hextent, hpositions, hhas⟩ := returns_openPosition h
    exact ⟨hpositions ▸ hs, hextent, hhas⟩

/-! ### Growth of the loops -/

instance (settlement : SettlementRecord) (first : ℕ) (opening : PositionLifecycleRecord) :
    Maintains (Grows ProtocolStore.extent) (openPosition settlement first opening) :=
  grows_of_atomic (fun _ => atomic_openPosition settlement first opening)
    fun _ _ _ h => (returns_openPosition h).1

instance (payloads : List PrivateMatchIntent) (residual : ResidualOrderRecord) :
    Maintains (Grows ProtocolStore.extent) (addResidualOrder H residual
      (intentByCommitment payloads residual.intentCommitment)) :=
  grows_of_atomic (fun _ => atomic_addResidualOrder residual _)
    fun s _ s' h => ((inserts_addResidualOrder payloads).returns residual s s' trivial h).2.1

instance (event : AccountEventRecord) :
    Maintains (Grows ProtocolStore.extent) (addAccountEvent event) :=
  grows_of_atomic (fun _ => atomic_addAccountEvent event)
    fun s _ s' h => (inserts_addAccountEvent.returns event s s' trivial h).2.1

/-! ### Order updates -/

theorem settledLifecycles_congr (h : ∀ k, s'.order k = s.order k)
    (hsettled : settledIn now s' = settledIn now s) (updates : List OrderUpdate) :
    settledLifecycles now s' updates = settledLifecycles now s updates := by
  induction updates with
  | nil => rfl
  | cons orderUpdate updates ih => rw [settledLifecycles, settledLifecycles, h, hsettled, ih]

/-- An update keeps what later updates of its order keep. -/
theorem settledIn_set (order : OrderRecord) (orderUpdate : OrderUpdate) :
    settledIn now { s with
      orderLifecycle := s.orderLifecycle.set orderUpdate.intentCommitment
        (settledIn now s order orderUpdate) } = settledIn now s := by
  funext order' orderUpdate'
  unfold settledIn
  dsimp only
  rw [OrderedMap.get?_set]
  split_ifs with hk
  · rw [hk]
    rfl
  · rfl

/-- The loop over the order updates writes lifecycles until it throws at an unknown order. -/
theorem applyOrderUpdates_cases (updates : List OrderUpdate) (s : ProtocolStore) :
    let written := { s with
      orderLifecycle := s.orderLifecycle.setAll (settledLifecycles now s updates) }
    (OrdersKnown s updates → Returns (forEach (applyOrderUpdate now) updates) s () written) ∧
      (¬ OrdersKnown s updates → Throws (forEach (applyOrderUpdate now) updates) s written) := by
  induction updates generalizing s with
  | nil => exact ⟨fun _ => returns_forEach_nil.mpr rfl, fun h => absurd nofun h⟩
  | cons orderUpdate updates ih =>
    intro written
    cases horder : s.order orderUpdate.intentCommitment with
    | none =>
      have hwritten : written = s := by
        simp only [written, settledLifecycles, horder]
        rfl
      refine ⟨fun h => ?_, fun _ => ?_⟩
      · have hknown := h orderUpdate List.mem_cons_self
        rw [horder] at hknown
        cases hknown
      · rw [hwritten]
        refine throws_forEach_cons.mpr (Or.inl ?_)
        unfold applyOrderUpdate
        simp [horder]
    | some order =>
      have hfirst : Returns (applyOrderUpdate now orderUpdate) s () { s with
          orderLifecycle := s.orderLifecycle.set orderUpdate.intentCommitment
            (settledIn now s order orderUpdate) } := by
        unfold applyOrderUpdate settledIn
        simp [horder]
      obtain ⟨hreturns, hthrows⟩ := ih { s with
        orderLifecycle := s.orderLifecycle.set orderUpdate.intentCommitment
          (settledIn now s order orderUpdate) }
      have hlifecycles : settledLifecycles now { s with
          orderLifecycle := s.orderLifecycle.set orderUpdate.intentCommitment
            (settledIn now s order orderUpdate) } updates = settledLifecycles now s updates :=
        settledLifecycles_congr (by intro k; rfl) (settledIn_set order orderUpdate) updates
      rw [hlifecycles] at hreturns hthrows
      have hwritten : written = { s with
          orderLifecycle := (s.orderLifecycle.set orderUpdate.intentCommitment
            (settledIn now s order orderUpdate)).setAll (settledLifecycles now s updates) } := by
        simp only [written, settledLifecycles, horder]
        rfl
      have hknown : OrdersKnown s (orderUpdate :: updates) ↔ OrdersKnown s updates := by
        unfold OrdersKnown
        rw [List.forall_mem_cons, horder]
        exact and_iff_right rfl
      rw [hknown, hwritten]
      exact ⟨fun h => returns_forEach_cons.mpr ⟨_, hfirst, hreturns h⟩,
        fun h => throws_forEach_cons.mpr (Or.inr ⟨_, hfirst, hthrows h⟩)⟩

theorem returns_applyOrderUpdates_iff {updates : List OrderUpdate} {u : Unit} :
    Returns (forEach (applyOrderUpdate now) updates) s u s' ↔ OrdersKnown s updates ∧ s' = { s with
      orderLifecycle := s.orderLifecycle.setAll (settledLifecycles now s updates) } := by
  obtain ⟨hreturns, hthrows⟩ := applyOrderUpdates_cases updates s
  by_cases hknown : OrdersKnown s updates
  · refine ⟨fun h => ⟨hknown, (h.unique (hreturns hknown)).2⟩, ?_⟩
    rintro ⟨-, rfl⟩
    exact hreturns hknown
  · exact iff_of_false (fun h => h.not_throws (hthrows hknown)) fun h => hknown h.1

theorem throws_applyOrderUpdates_iff {updates : List OrderUpdate} :
    Throws (forEach (applyOrderUpdate now) updates) s s' ↔ ¬ OrdersKnown s updates ∧ s' = { s with
      orderLifecycle := s.orderLifecycle.setAll (settledLifecycles now s updates) } := by
  obtain ⟨hreturns, hthrows⟩ := applyOrderUpdates_cases updates s
  by_cases hknown : OrdersKnown s updates
  · exact iff_of_false (hreturns hknown).not_throws fun h => h.1 hknown
  · refine ⟨fun h => ⟨hknown, h.unique (hthrows hknown)⟩, ?_⟩
    rintro ⟨-, rfl⟩
    exact hthrows hknown

/-! ### The writes of a settlement -/

variable (H) in
/-- What a settlement does after its checks. -/
def settle (now : ℤ) (settlement : SettlementRecord) (openings : List PositionLifecycleRecord)
    (residuals : List ResidualOrderRecord) (events : List AccountEventRecord)
    (payloads : List PrivateMatchIntent) (first : ℕ) : StoreScript Unit := do
  update fun store => { store with
    positionCommitments := store.positionCommitments.addAll settlement.newCommitments
    marginCommitments := store.marginCommitments.addAll settlement.marginChangeCommitments }
  forEach spend settlement.spentNullifiers
  applySettlementOrderUpdates now settlement
  forEach (openPosition settlement first) openings
  residuals |> forEach fun residual =>
    addResidualOrder H residual (intentByCommitment payloads residual.intentCommitment)
  forEach addAccountEvent events
  update fun store =>
    { store with settlements := store.settlements.set (settlementKey settlement) settlement }

theorem addSettlement_eq (settlement : SettlementRecord) (openings : List PositionLifecycleRecord)
    (residuals : List ResidualOrderRecord) (events : List AccountEventRecord)
    (payloads : List PrivateMatchIntent) :
    addSettlement H now settlement openings residuals events payloads = (do
      let store ← read id
      throwIf (store.settlements.get? (settlementKey settlement)).isSome "batch already settled"
      throwIf (settlement.matchTranscriptDigest = []) "match transcript digest is required"
      assertProof settlement.proof
      validatePositionOpenings settlement openings
      validateResidualOrders settlement residuals
      settle H now settlement openings residuals events payloads store.positionCommitments.size) := rfl

/-- The positions to open are new. -/
abbrev Openable (s : ProtocolStore) (settlement : SettlementRecord) :
    List PositionLifecycleRecord → Prop :=
  Insertable s (fun s k => (s.positionLifecycle.get? k).isSome)
    (fun opening => opening.positionCommitment ∈ settlement.newCommitments ∧
      opening.status = statusOpen) PositionLifecycleRecord.positionCommitment

variable (H) in
/-- The residual orders to add are new, and their payloads fit. -/
abbrev Addable (s : ProtocolStore) (payloads : List PrivateMatchIntent) :
    List ResidualOrderRecord → Prop :=
  Insertable s (fun s k => (s.residualOrders.get? k).isSome) (ResidualFits H payloads)
    ResidualOrderRecord.intentCommitment

/-- The account events are new. -/
abbrev Recordable (s : ProtocolStore) : List AccountEventRecord → Prop :=
  Insertable s (fun s k => (s.accountEvents.get? k).isSome) (fun _ => True)
    AccountEventRecord.eventId

variable (H) in
/-- Everything that a settlement adds can be added. -/
structure SettlementAdded (s : ProtocolStore) (settlement : SettlementRecord)
    (openings : List PositionLifecycleRecord) (residuals : List ResidualOrderRecord)
    (events : List AccountEventRecord) (payloads : List PrivateMatchIntent) : Prop where
  spent : Spendable s settlement.spentNullifiers
  orders : OrdersKnown s settlement.orderUpdates
  openings : Openable s settlement openings
  residuals : Addable H s payloads residuals
  events : Recordable s events

/-- **What a settlement adds is added** exactly when all of it can be. -/
theorem succeeds_settle_iff {settlement : SettlementRecord}
    {openings : List PositionLifecycleRecord} {residuals : List ResidualOrderRecord}
    {events : List AccountEventRecord} {payloads : List PrivateMatchIntent} {first : ℕ} :
    Succeeds (settle H now settlement openings residuals events payloads first) s ↔
      SettlementAdded H s settlement openings residuals events payloads := by
  have hevents : ∀ t : ProtocolStore, t.accountEvents = s.accountEvents →
      (Succeeds (do
        forEach addAccountEvent events
        update fun store => { store with
          settlements := store.settlements.set (settlementKey settlement) settlement }) t ↔
        Recordable s events) := by
    intro t hevent
    refine (succeeds_bind_iff fun _ _ _ => iff_of_true succeeds_update trivial).trans ?_
    rw [and_true, inserts_addAccountEvent.succeeds_iff trivial]
    exact insertable_congr fun _ => by rw [hevent]
  have hresiduals : ∀ t : ProtocolStore, t.residualOrders = s.residualOrders →
      t.accountEvents = s.accountEvents →
      (Succeeds (do
        residuals |> forEach fun residual =>
          addResidualOrder H residual (intentByCommitment payloads residual.intentCommitment)
        forEach addAccountEvent events
        update fun store => { store with
          settlements := store.settlements.set (settlementKey settlement) settlement }) t ↔
        Addable H s payloads residuals ∧ Recordable s events) := by
    intro t hresidual hevent
    refine (succeeds_bind_iff fun _ t' h => hevents t' ?_).trans (and_congr_left' ?_)
    · have hsame : Maintains (Same ProtocolStore.accountEvents) (forEach (fun residual =>
          addResidualOrder H residual (intentByCommitment payloads residual.intentCommitment))
          residuals) :=
        .forEach_of_mem fun residual _ =>
          same_addResidualOrder (fun _ _ => rfl) (fun _ _ _ => rfl) residual _
      exact (hsame.of_returns h).trans hevent
    · rw [(inserts_addResidualOrder payloads).succeeds_iff trivial]
      exact insertable_congr fun _ => by rw [hresidual]
  have hopenings : ∀ t : ProtocolStore,
      (∀ c ∈ settlement.newCommitments, c ∈ t.positionCommitments) →
      t.positionLifecycle = s.positionLifecycle → t.residualOrders = s.residualOrders →
      t.accountEvents = s.accountEvents →
      (Succeeds (do
        forEach (openPosition settlement first) openings
        residuals |> forEach fun residual =>
          addResidualOrder H residual (intentByCommitment payloads residual.intentCommitment)
        forEach addAccountEvent events
        update fun store => { store with
          settlements := store.settlements.set (settlementKey settlement) settlement }) t ↔
        Openable s settlement openings ∧ Addable H s payloads residuals ∧ Recordable s events) := by
    intro t hlisted hlifecycle hresidual hevent
    refine (succeeds_bind_iff fun _ t' h => ?_).trans (and_congr_left' ?_)
    · have hsame : Maintains (Same fun s : ProtocolStore => (s.residualOrders, s.accountEvents))
          (forEach (openPosition settlement first) openings) :=
        .forEach_of_mem fun opening _ => same_openPosition (fun _ _ => rfl) settlement first opening
      obtain ⟨hresidual', hevent'⟩ := Prod.mk.inj (hsame.of_returns h)
      exact hresiduals t' (hresidual'.trans hresidual) (hevent'.trans hevent)
    · rw [(inserts_openPosition settlement first).succeeds_iff hlisted]
      exact insertable_congr fun _ => by rw [hlifecycle]
  unfold settle applySettlementOrderUpdates
  have horders : ∀ t : ProtocolStore,
      (∀ c ∈ settlement.newCommitments, c ∈ t.positionCommitments) →
      t.intents = s.intents → t.positionLifecycle = s.positionLifecycle →
      t.residualOrders = s.residualOrders → t.accountEvents = s.accountEvents →
      (Succeeds (do
        forEach (applyOrderUpdate now) settlement.orderUpdates
        forEach (openPosition settlement first) openings
        residuals |> forEach fun residual =>
          addResidualOrder H residual (intentByCommitment payloads residual.intentCommitment)
        forEach addAccountEvent events
        update fun store => { store with
          settlements := store.settlements.set (settlementKey settlement) settlement }) t ↔
        OrdersKnown s settlement.orderUpdates ∧ Openable s settlement openings ∧
          Addable H s payloads residuals ∧ Recordable s events) := by
    intro t hlisted hintent hlifecycle hresidual hevent
    refine (succeeds_bind_iff fun _ t' h => ?_).trans (and_congr_left' ?_)
    · obtain ⟨-, rfl⟩ := returns_applyOrderUpdates_iff.mp h
      exact hopenings _ hlisted hlifecycle hresidual hevent
    · unfold Succeeds
      simp only [returns_applyOrderUpdates_iff, exists_and_left]
      unfold OrdersKnown ProtocolStore.order
      simp only [hintent, hresidual]
      simp
  refine (succeeds_bind_iff (q := Spendable s settlement.spentNullifiers ∧
    OrdersKnown s settlement.orderUpdates ∧ Openable s settlement openings ∧
      Addable H s payloads residuals ∧ Recordable s events) fun _ s₁ h => ?_).trans ?_
  · obtain rfl := returns_update.mp h
    refine (succeeds_bind_iff fun _ t h => ?_).trans (and_congr_left' ?_)
    · have hsame : Maintains (Same fun s : ProtocolStore => (s.positionCommitments, s.intents,
          s.positionLifecycle, s.residualOrders, s.accountEvents))
          (forEach spend settlement.spentNullifiers) :=
        .forEach_of_mem fun nullifier _ => same_spend (fun _ _ => rfl) nullifier
      have ht := hsame.of_returns h
      unfold Same at ht
      simp only [Prod.mk.injEq] at ht
      obtain ⟨hposition, hintent, hlifecycle, hresidual, hevent⟩ := ht
      refine horders t (fun c hc => ?_) hintent hlifecycle hresidual hevent
      rw [hposition]
      exact OrderedSet.mem_addAll.mpr (Or.inr hc)
    · rw [inserts_spend.succeeds_iff trivial]
      exact Iff.rfl
  · rw [and_iff_right succeeds_update]
    constructor
    · rintro ⟨h₁, h₂, h₃, h₄, h₅⟩
      exact ⟨h₁, h₂, h₃, h₄, h₅⟩
    · intro h
      exact ⟨h.spent, h.orders, h.openings, h.residuals, h.events⟩

/-- Whether a settlement is added does not depend on the time. -/
theorem succeeds_addSettlement_at {settlement : SettlementRecord}
    {openings : List PositionLifecycleRecord} {residuals : List ResidualOrderRecord}
    {events : List AccountEventRecord} {payloads : List PrivateMatchIntent} (now' : ℤ) :
    Succeeds (addSettlement H now settlement openings residuals events payloads) s ↔
      Succeeds (addSettlement H now' settlement openings residuals events payloads) s := by
  rw [addSettlement_eq, addSettlement_eq]
  iterate 6 refine succeeds_bind_congr fun _ _ _ => ?_
  rw [succeeds_settle_iff, succeeds_settle_iff]

variable (H) in
/-- The first thing that there is to spend, to update or to add fails. -/
def FailsFirst (now : ℤ) (s : ProtocolStore) (settlement : SettlementRecord)
    (openings : List PositionLifecycleRecord) (residuals : List ResidualOrderRecord)
    (events : List AccountEventRecord) (payloads : List PrivateMatchIntent) : Prop :=
  HeadFails s (fun s k => k ∈ s.spentNullifiers) (fun _ => True) id settlement.spentNullifiers ∨
    settlement.spentNullifiers = [] ∧
      s.orderLifecycle.setAll (settledLifecycles now s settlement.orderUpdates) = s.orderLifecycle ∧
      (¬ OrdersKnown s settlement.orderUpdates ∨
        HeadFails s (fun s k => (s.positionLifecycle.get? k).isSome)
          (fun opening => opening.positionCommitment ∈ settlement.newCommitments ∧
            opening.status = statusOpen) PositionLifecycleRecord.positionCommitment openings ∨
        openings = [] ∧ (HeadFails s (fun s k => (s.residualOrders.get? k).isSome)
            (ResidualFits H payloads) ResidualOrderRecord.intentCommitment residuals ∨
          residuals = [] ∧ HeadFails s (fun s k => (s.accountEvents.get? k).isSome)
            (fun _ => True) AccountEventRecord.eventId events))

variable (H) in
/-- A settlement throws before it has changed anything. -/
structure SettlementIdle (now : ℤ) (s : ProtocolStore) (settlement : SettlementRecord)
    (openings : List PositionLifecycleRecord) (residuals : List ResidualOrderRecord)
    (events : List AccountEventRecord) (payloads : List PrivateMatchIntent) : Prop where
  positions : ∀ c ∈ settlement.newCommitments, c ∈ s.positionCommitments
  margins : ∀ c ∈ settlement.marginChangeCommitments, c ∈ s.marginCommitments
  fails : FailsFirst H now s settlement openings residuals events payloads

/-- New commitments that change nothing are there already. -/
theorem addCommitments_self {positions margins : List Text} (hle : { s with
      positionCommitments := s.positionCommitments.addAll positions
      marginCommitments := s.marginCommitments.addAll margins }.extent ≤ s.extent) :
    (∀ c ∈ positions, c ∈ s.positionCommitments) ∧ ∀ c ∈ margins, c ∈ s.marginCommitments := by
  have hposition := OrderedSet.size_le_addAll s.positionCommitments positions
  have hmargin := OrderedSet.size_le_addAll s.marginCommitments margins
  unfold ProtocolStore.extent at hle
  dsimp only at hle
  exact ⟨OrderedSet.subset_of_size_addAll (by omega), OrderedSet.subset_of_size_addAll (by omega)⟩

theorem addCommitments_of_subset {positions margins : List Text}
    (hpositions : ∀ c ∈ positions, c ∈ s.positionCommitments)
    (hmargins : ∀ c ∈ margins, c ∈ s.marginCommitments) : { s with
      positionCommitments := s.positionCommitments.addAll positions
      marginCommitments := s.marginCommitments.addAll margins } = s := by
  rw [OrderedSet.addAll_of_subset hpositions, OrderedSet.addAll_of_subset hmargins]

/-- The loops after the order updates. -/
theorem throws_self_loops {settlement : SettlementRecord}
    {openings : List PositionLifecycleRecord} {residuals : List ResidualOrderRecord}
    {events : List AccountEventRecord} {payloads : List PrivateMatchIntent} {first : ℕ}
    (hlisted : ∀ c ∈ settlement.newCommitments, c ∈ s.positionCommitments) :
    Throws (do
      forEach (openPosition settlement first) openings
      residuals |> forEach fun residual =>
        addResidualOrder H residual (intentByCommitment payloads residual.intentCommitment)
      forEach addAccountEvent events) s s ↔
      HeadFails s (fun s k => (s.positionLifecycle.get? k).isSome)
          (fun opening => opening.positionCommitment ∈ settlement.newCommitments ∧
            opening.status = statusOpen) PositionLifecycleRecord.positionCommitment openings ∨
        openings = [] ∧ (HeadFails s (fun s k => (s.residualOrders.get? k).isSome)
            (ResidualFits H payloads) ResidualOrderRecord.intentCommitment residuals ∨
          residuals = [] ∧ HeadFails s (fun s k => (s.accountEvents.get? k).isSome)
            (fun _ => True) AccountEventRecord.eventId events) := by
  have hopen := inserts_openPosition settlement first
  have hadd := inserts_addResidualOrder (H := H) payloads
  rw [throws_self_bind ProtocolStore.extent fun _ _ => hopen.eq_of_returns hlisted,
    throws_self_bind ProtocolStore.extent fun _ _ => hadd.eq_of_returns trivial,
    hopen.throws_self_iff hlisted, hadd.throws_self_iff trivial,
    inserts_addAccountEvent.throws_self_iff trivial]
  simp only [hopen.returns_self_iff hlisted, hadd.returns_self_iff trivial, exists_const]

/-- The order updates and the loops after them. -/
theorem throws_self_orders {settlement : SettlementRecord}
    {openings : List PositionLifecycleRecord} {residuals : List ResidualOrderRecord}
    {events : List AccountEventRecord} {payloads : List PrivateMatchIntent} {first : ℕ} :
    Throws (do
      applySettlementOrderUpdates now settlement
      forEach (openPosition settlement first) openings
      residuals |> forEach fun residual =>
        addResidualOrder H residual (intentByCommitment payloads residual.intentCommitment)
      forEach addAccountEvent events) s s ↔
      s.orderLifecycle.setAll (settledLifecycles now s settlement.orderUpdates) = s.orderLifecycle ∧
        (¬ OrdersKnown s settlement.orderUpdates ∨ Throws (do
          forEach (openPosition settlement first) openings
          residuals |> forEach fun residual =>
            addResidualOrder H residual (intentByCommitment payloads residual.intentCommitment)
          forEach addAccountEvent events) s s) := by
  have horders : Maintains (Same ProtocolStore.extent) (applySettlementOrderUpdates now settlement) :=
    same_applySettlementOrderUpdates (fun _ _ => rfl) settlement
  have hkept : s = { s with
      orderLifecycle := s.orderLifecycle.setAll (settledLifecycles now s settlement.orderUpdates) } ↔
        s.orderLifecycle.setAll (settledLifecycles now s settlement.orderUpdates) = s.orderLifecycle :=
    ⟨fun h => (congrArg ProtocolStore.orderLifecycle h).symm, fun h => by rw [h]⟩
  rw [throws_self_bind_of_same ProtocolStore.extent fun _ _ h => horders.of_returns h]
  unfold applySettlementOrderUpdates
  simp only [throws_applyOrderUpdates_iff, returns_applyOrderUpdates_iff, hkept, exists_const]
  by_cases hknown : OrdersKnown s settlement.orderUpdates
  · simp [hknown]
  · simp [hknown]

/-- **A settlement throws where it has started** exactly when it is idle until then. -/
theorem throws_self_settle_iff {settlement : SettlementRecord}
    {openings : List PositionLifecycleRecord} {residuals : List ResidualOrderRecord}
    {events : List AccountEventRecord} {payloads : List PrivateMatchIntent} {first : ℕ} :
    Throws (settle H now settlement openings residuals events payloads first) s s ↔
      SettlementIdle H now s settlement openings residuals events payloads := by
  have hsettle : settle H now settlement openings residuals events payloads first = (do
      update fun store => { store with
        positionCommitments := store.positionCommitments.addAll settlement.newCommitments
        marginCommitments := store.marginCommitments.addAll settlement.marginChangeCommitments }
      forEach spend settlement.spentNullifiers
      applySettlementOrderUpdates now settlement
      forEach (openPosition settlement first) openings
      residuals |> forEach fun residual =>
        addResidualOrder H residual (intentByCommitment payloads residual.intentCommitment)
      forEach addAccountEvent events) >>= fun _ => update fun store => { store with
        settlements := store.settlements.set (settlementKey settlement) settlement } := by
    simp only [settle, bind_assoc]
  have horders : Maintains (Same ProtocolStore.extent) (applySettlementOrderUpdates now settlement) :=
    same_applySettlementOrderUpdates (fun _ _ => rfl) settlement
  have hloops : Maintains (NoSmaller ProtocolStore.extent) (do
      applySettlementOrderUpdates now settlement
      forEach (openPosition settlement first) openings
      residuals |> forEach fun residual =>
        addResidualOrder H residual (intentByCommitment payloads residual.intentCommitment)
      forEach addAccountEvent events) :=
    .andThen (horders.mono fun _ _ h => Nat.le_of_eq h.symm) fun _ => inferInstance
  have hspend : Maintains (NoSmaller ProtocolStore.extent) (do
      forEach spend settlement.spentNullifiers
      applySettlementOrderUpdates now settlement
      forEach (openPosition settlement first) openings
      residuals |> forEach fun residual =>
        addResidualOrder H residual (intentByCommitment payloads residual.intentCommitment)
      forEach addAccountEvent events) := .andThen inferInstance fun _ => hloops
  have hfails : (∀ c ∈ settlement.newCommitments, c ∈ s.positionCommitments) → (Throws (do
      forEach spend settlement.spentNullifiers
      applySettlementOrderUpdates now settlement
      forEach (openPosition settlement first) openings
      residuals |> forEach fun residual =>
        addResidualOrder H residual (intentByCommitment payloads residual.intentCommitment)
      forEach addAccountEvent events) s s ↔
        FailsFirst H now s settlement openings residuals events payloads) := by
    intro hlisted
    rw [throws_self_bind ProtocolStore.extent fun _ _ => inserts_spend.eq_of_returns trivial,
      inserts_spend.throws_self_iff trivial, throws_self_orders, throws_self_loops hlisted]
    simp only [inserts_spend.returns_self_iff trivial, exists_const]
    exact Iff.rfl
  rw [hsettle, throws_bind]
  simp only [not_throws_update, exists_false, and_false, or_false]
  rw [throws_self_bind ProtocolStore.extent]
  · constructor
    · rintro (h | ⟨_, hadd, h⟩)
      · exact absurd h not_throws_update
      · have hself := returns_update.mp hadd
        obtain ⟨hpositions, hmargins⟩ :=
          addCommitments_self (congrArg ProtocolStore.extent hself).ge
        exact ⟨hpositions, hmargins, (hfails hpositions).mp h⟩
    · intro h
      refine Or.inr ⟨(), ?_, (hfails h.positions).mpr h.fails⟩
      exact returns_update.mpr (addCommitments_of_subset h.positions h.margins).symm
  · rintro _ _ h hle
    obtain rfl := returns_update.mp h
    obtain ⟨hpositions, hmargins⟩ := addCommitments_self hle
    exact addCommitments_of_subset hpositions hmargins

/-- **A settlement is atomic** unless its checks pass, something of it cannot be added, and
something has changed before. -/
theorem atomic_addSettlement_iff {settlement : SettlementRecord}
    {openings : List PositionLifecycleRecord} {residuals : List ResidualOrderRecord}
    {events : List AccountEventRecord} {payloads : List PrivateMatchIntent} :
    Atomic (addSettlement H now settlement openings residuals events payloads) s ↔
      (SettlementKept s settlement openings residuals →
        SettlementAdded H s settlement openings residuals events payloads ∨
          SettlementIdle H now s settlement openings residuals events payloads) := by
  have hsettle : Atomic (settle H now settlement openings residuals events payloads
      s.positionCommitments.size) s ↔
        SettlementAdded H s settlement openings residuals events payloads ∨
          SettlementIdle H now s settlement openings residuals events payloads := by
    rw [atomic_iff_succeeds_or_throws, succeeds_settle_iff, throws_self_settle_iff]
  rw [addSettlement_eq]
  simp only [atomic_read_bind, atomic_throwIf_bind, (checks_assertProof _).atomic_bind,
    (checks_validatePositionOpenings _ _).atomic_bind,
    (checks_validateResidualOrders _ _).atomic_bind, hsettle, id]
  constructor
  · intro h hkept
    refine h ?_ hkept.transcript hkept.proof hkept.openings hkept.residuals
    rw [hkept.fresh]
    exact Bool.false_ne_true
  · exact fun h hfresh htranscript hproof hopenings hresiduals =>
      h ⟨Option.not_isSome_iff_eq_none.mp hfresh, htranscript, hproof, hopenings, hresiduals⟩

/-! ## All operations -/

/-- An operation of the store: a call of the server, or the addition of a residual order. -/
inductive StoreOperation where
  | call (storeCall : StoreCall)
  | addResidualOrder (record : ResidualOrderRecord) (privateMatchIntent : Option PrivateMatchIntent)

def StoreOperation.script (H : Host) (poseidon2Hash : Fr → Fr → Fr) :
    StoreOperation → StoreScript Unit
  | .call storeCall => storeCall.script H poseidon2Hash
  | .addResidualOrder record privateMatchIntent =>
    Server.addResidualOrder H record privateMatchIntent

variable (H P) in
/-- Nothing is written before a check that fails. -/
def AtomicWhen (s : ProtocolStore) : StoreOperation → Prop
  | .call (.addIntent _ record privateMatchIntent) => ∀ kept, privateMatchIntent = some kept →
      IntentKept H s record kept →
        s.privateMatchIntents.get? record.intentCommitment = some kept ∨ IntentAdmitted P s record
  | .call (.addSettlement now settlement openings residuals events payloads) =>
    SettlementKept s settlement openings residuals →
      SettlementAdded H s settlement openings residuals events payloads ∨
        SettlementIdle H now s settlement openings residuals events payloads
  | .call (.addPositionClose record) =>
    s.triggered record → CloseKept s record → (closeRoot P s record).isSome
  | .call (.addManualPositionClose record) => CloseKept s record → (closeRoot P s record).isSome
  | .call (.addPairedPositionCloses trader maker conditional) =>
    PairKept s trader maker conditional →
      (closeRoot P s trader).isSome ∧ (pairRoot P s trader maker).isSome
  | _ => True

/-- **An operation that throws leaves the store as it was** exactly when it writes nothing before
the check that fails. -/
theorem atomic_iff (operation : StoreOperation) (s : ProtocolStore) :
    Atomic (operation.script H P) s ↔ AtomicWhen H P s operation := by
  cases operation with
  | addResidualOrder record payload =>
    exact iff_of_true (atomic_addResidualOrder record payload) trivial
  | call storeCall =>
    cases storeCall with
    | recordProof proof => exact iff_of_true atomic_update trivial
    | addMarginCommitment commitment =>
      exact iff_of_true (atomic_addMarginCommitment commitment) trivial
    | addWithdrawal record => exact iff_of_true (atomic_addWithdrawal record) trivial
    | addIntent now record payload => exact atomic_addIntent_iff
    | cancelOrder now k txHash => exact iff_of_true (atomic_cancelOrder now k txHash) trivial
    | addSettlement now settlement openings residuals events payloads => exact atomic_addSettlement_iff
    | addAccountEvent record => exact iff_of_true (atomic_addAccountEvent record) trivial
    | addLiquidation record => exact iff_of_true (atomic_addLiquidation record) trivial
    | addConditionalClose record => exact iff_of_true (atomic_addConditionalClose record) trivial
    | addPositionClose record => exact atomic_addPositionClose_iff
    | addManualPositionClose record => exact atomic_addPositionCloseRecord_iff
    | addPairedPositionCloses trader maker conditional => exact atomic_addPairedPositionCloses_iff

/-! ## A submission that throws -/

def samplePayload : PrivateMatchIntent where
  batchId := "0x1".toList
  intentCommitment := "0x2".toList
  limitPrice := 100
  margin := 50
  marketId := "m".toList
  noteChangeCommitment := "0x3".toList
  noteNullifier := "0x4".toList
  ownerCommitment := "0x5".toList
  signedSize := 10
  sourceIntentCommitment := none

def sampleIntentProof : ProofRecord where
  circuitId := "intent-validity".toList
  circuitKey := "0x6".toList
  verifierHash := "0x7".toList
  publicInputHash := "0x8".toList
  proofDigest := "0x9".toList
  proofSystem := none
  imageId := none
  journalDigest := none
  sealDigest := none

/-- The proof was made for a root that is not the current one. -/
def staleIntent : IntentRecord where
  batchId := samplePayload.batchId
  batchDigest := "0xa".toList
  marketId := samplePayload.marketId
  marketDigest := "0xb".toList
  marginRoot := "0xc".toList
  ownerCommitmentField := "0xd".toList
  ownerCommitment := samplePayload.ownerCommitment
  intentCommitment := samplePayload.intentCommitment
  matchingPayloadCommitment := matchingPayloadCommitment sampleHost samplePayload
  noteChangeCommitment := samplePayload.noteChangeCommitment
  proof := sampleIntentProof
  noteNullifier := samplePayload.noteNullifier
  submissionSequence := none

/-- A store with the proof of the intent. -/
def provenStore : ProtocolStore := { ProtocolStore.empty with
  proofs := OrderedSet.empty.add (proofKey sampleIntentProof) }

/-- **A submission with a stale root throws and leaves its payload in the store.** -/
theorem stale_submission_kept : ∃ s', Throws (StoreOperation.script sampleHost SampleHost.pairHash
      (.call (.addIntent 0 staleIntent (some samplePayload)))) provenStore s' ∧
    s'.privateMatchIntents.get? staleIntent.intentCommitment ≠
      provenStore.privateMatchIntents.get? staleIntent.intentCommitment := by
  have hthrows : (StoreOperation.script sampleHost SampleHost.pairHash
      (.call (.addIntent 0 staleIntent (some samplePayload))) provenStore).1 =
        .error "intent margin root is not current" := by
    decide +kernel
  have hkept : ((StoreOperation.script sampleHost SampleHost.pairHash
      (.call (.addIntent 0 staleIntent (some samplePayload)))).after provenStore
        ).privateMatchIntents.get? staleIntent.intentCommitment ≠
      provenStore.privateMatchIntents.get? staleIntent.intentCommitment := by
    decide +kernel
  exact ⟨_, throws_after hthrows, hkept⟩

end Pnlx.Server
