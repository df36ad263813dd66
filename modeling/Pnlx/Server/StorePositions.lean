import Pnlx.Server.StoreTrees

/-!
# The indices of the positions

A settlement and a close store the indices of the positions they bring, counted from the size of
the tree before them. When the commitments they bring are distinct and new, every stored index is
the place of its commitment in the tree (`indexed_of_returns`).
-/

namespace Pnlx.Server

open BatchMatch (Text)
open Script

variable {H : Host} {P : Fr → Fr → Fr} {s s' : ProtocolStore} {first : ℕ} {new : List Text}
  {now : ℤ}

/-- Every stored index is the place of its commitment in the tree. -/
structure Indexed (store : ProtocolStore) : Prop where
  opened : ∀ record ∈ store.positionLifecycle.values, ∀ i, record.positionIndex = some i →
    store.positionCommitments.elems[i]? = some record.positionCommitment
  closed : ∀ record ∈ store.positionCloses.values, ∀ i, record.outputPositionIndex = some i →
    store.positionCommitments.elems[i]? = some record.newPositionCommitment

/-- The leaves of the tree from `first` on begin with `new`. -/
def ListedFrom (first : ℕ) (new : List Text) (store : ProtocolStore) : Prop :=
  ∀ j x, new[j]? = some x → store.positionCommitments.elems[first + j]? = some x

/-- Positions are only added at the end, and their indices stay right if the leaves of the tree from
`first` on begin with `new`. -/
structure Extends (first : ℕ) (new : List Text) (s s' : ProtocolStore) : Prop where
  positions : s.positionCommitments.elems <+: s'.positionCommitments.elems
  indexed : ListedFrom first new s → Indexed s → Indexed s'

theorem getElem?_of_prefix {l l' : List Text} (h : l <+: l') {i : ℕ} {x : Text}
    (hget : l[i]? = some x) : l'[i]? = some x := by
  obtain ⟨rest, rfl⟩ := h
  obtain ⟨hlt, -⟩ := List.getElem?_eq_some_iff.mp hget
  rwa [List.getElem?_append_left hlt]

theorem ListedFrom.extend (h : ListedFrom first new s)
    (hpositions : s.positionCommitments.elems <+: s'.positionCommitments.elems) :
    ListedFrom first new s' := fun j x hx => getElem?_of_prefix hpositions (h j x hx)

instance : Std.Refl (Extends first new) := ⟨fun _ => ⟨List.prefix_rfl, fun _ h => h⟩⟩

instance : IsTrans ProtocolStore (Extends first new) where
  trans _ _ _ h h' :=
    ⟨h.positions.trans h'.positions,
      fun hlisted hindexed => h'.indexed (hlisted.extend h.positions) (h.indexed hlisted hindexed)⟩

/-! ## Operations that store no index -/

/-- The parts of the store in which positions and their indices are. -/
def ProtocolStore.positions (store : ProtocolStore) :
    OrderedSet Text × OrderedMap Text PositionLifecycleRecord × OrderedMap Text PositionCloseRecord :=
  (store.positionCommitments, store.positionLifecycle, store.positionCloses)

abbrev SamePositions : ProtocolStore → ProtocolStore → Prop := Same ProtocolStore.positions

theorem SamePositions.indexed (h : SamePositions s s') (hindexed : Indexed s) : Indexed s' := by
  obtain ⟨hpositions, hrest⟩ := Prod.mk.inj h
  obtain ⟨hopened, hclosed⟩ := Prod.mk.inj hrest
  constructor
  · rw [hpositions, hopened]
    exact hindexed.opened
  · rw [hpositions, hclosed]
    exact hindexed.closed

theorem SamePositions.extends (h : SamePositions s s') : Extends first new s s' where
  positions := (Prod.mk.inj h).1 ▸ List.prefix_rfl
  indexed _ := h.indexed

theorem extends_of_same {α : Type} {x : StoreScript α} (hx : Maintains SamePositions x) :
    Maintains (Extends first new) x := hx.mono fun _ _ h => h.extends

instance (nullifier : Text) : Maintains (Extends first new) (spend nullifier) :=
  extends_of_same (same_spend (fun _ _ => rfl) nullifier)

instance (settlement : SettlementRecord) :
    Maintains (Extends first new) (applySettlementOrderUpdates now settlement) :=
  extends_of_same (same_applySettlementOrderUpdates (fun _ _ => rfl) settlement)

instance (record : ResidualOrderRecord) (payload : Option PrivateMatchIntent) :
    Maintains (Extends first new) (addResidualOrder H record payload) :=
  extends_of_same (same_addResidualOrder (fun _ _ => rfl) (fun _ _ _ => rfl) record payload)

instance (record : AccountEventRecord) : Maintains (Extends first new) (addAccountEvent record) :=
  extends_of_same (same_addAccountEvent (fun _ _ => rfl) record)

/-! ## Operations that store an index -/

/-- A write of a position whose index is right. -/
theorem Indexed.setPosition {record : PositionLifecycleRecord} {k : Text} (h : Indexed s)
    (hrecord : ∀ i, record.positionIndex = some i →
      s.positionCommitments.elems[i]? = some record.positionCommitment) :
    Indexed { s with positionLifecycle := s.positionLifecycle.set k record } := by
  refine ⟨fun record' hmem => ?_, h.closed⟩
  obtain ⟨k', hk'⟩ := OrderedMap.mem_values.mp hmem
  rw [OrderedMap.get?_set] at hk'
  split_ifs at hk' with heq
  · obtain rfl := Option.some.inj hk'
    exact hrecord
  · exact h.opened record' (OrderedMap.mem_values.mpr ⟨k', hk'⟩)

theorem findPosition_mem {commitment nullifier : Text} {position : PositionLifecycleRecord}
    (h : s.findPosition commitment nullifier = some position) :
    position ∈ s.positionLifecycle.values := by
  unfold ProtocolStore.findPosition at h
  rcases Option.or_eq_some_iff.mp h with hget | ⟨-, hfind⟩
  · exact OrderedMap.mem_values.mpr ⟨commitment, hget⟩
  · exact List.mem_of_find?_eq_some hfind

/-- A mark that leaves the commitment and the index of a position alone. -/
theorem extends_markPosition {commitment nullifier : Text}
    {mark : PositionLifecycleRecord → PositionLifecycleRecord}
    (hmark : ∀ position, (mark position).positionIndex = position.positionIndex ∧
      (mark position).positionCommitment = position.positionCommitment) :
    Maintains (Extends first new) (markPosition commitment nullifier mark) := by
  refine .update fun store => ?_
  cases hfind : store.findPosition commitment nullifier with
  | none => exact refl_of (Extends first new) store
  | some position =>
    obtain ⟨hindex, hcommitment⟩ := hmark position
    refine ⟨List.prefix_rfl, fun _ hindexed => hindexed.setPosition fun i hi => ?_⟩
    rw [hcommitment]
    rw [hindex] at hi
    exact hindexed.opened position (findPosition_mem hfind) i hi

instance (record : PositionCloseRecord) :
    Maintains (Extends first new) (markPositionClosed record) :=
  extends_markPosition fun _ => ⟨rfl, rfl⟩

instance (record : LiquidationRecord) :
    Maintains (Extends first new) (addLiquidation record) := by
  have hmark : Maintains (Extends first new) (markPositionLiquidated record) :=
    extends_markPosition fun _ => ⟨rfl, rfl⟩
  unfold addLiquidation
  repeat refine .andThen inferInstance fun _ => ?_
  exact extends_of_same (.update fun _ => rfl)

/-- A position of a settlement gets the index of its commitment. -/
theorem openPosition_extends {settlement : SettlementRecord} {opening : PositionLifecycleRecord}
    {u : Unit} (h : Returns (openPosition settlement first opening) s u s') :
    Extends first settlement.newCommitments s s' := by
  unfold openPosition addPositionOpening at h
  simp only [returns_bind, returns_read, returns_throwIf, returns_update, returns_orThrow, id,
    exists_eq_left, exists_and_left, and_assoc, exists_const] at h
  obtain ⟨offset, hoffset, -, -, -, rfl⟩ := h
  obtain ⟨hlt, hget, -⟩ := List.idxOf?_eq_some_iff.mp hoffset
  refine ⟨List.prefix_rfl, fun hlisted hindexed => hindexed.setPosition fun i hi => ?_⟩
  obtain rfl := Option.some.inj hi
  refine hlisted offset _ ?_
  rw [List.getElem?_eq_getElem hlt, hget]

/-- New commitments are listed from the size of the tree before them. -/
theorem listedFrom_addAll {leaves : OrderedSet Text} (hfresh : new.Nodup ∧ ∀ x ∈ new, x ∉ leaves)
    (hleaves : s.positionCommitments = leaves.addAll new) : ListedFrom leaves.size new s := by
  intro j x hx
  rw [hleaves, OrderedSet.elems_addAll_eq_append_iff.mpr hfresh, OrderedSet.size,
    List.getElem?_append_right (Nat.le_add_right _ _), Nat.add_sub_cancel_left]
  exact hx

/-- Leaves at the end of the tree leave the indices right. -/
theorem Indexed.extend (h : Indexed s)
    (hpositions : s.positionCommitments.elems <+: s'.positionCommitments.elems)
    (hopened : s'.positionLifecycle = s.positionLifecycle)
    (hclosed : s'.positionCloses = s.positionCloses) : Indexed s' := by
  constructor
  · rw [hopened]
    exact fun record hmem i hi => getElem?_of_prefix hpositions (h.opened record hmem i hi)
  · rw [hclosed]
    exact fun record hmem i hi => getElem?_of_prefix hpositions (h.closed record hmem i hi)

theorem addSettlement_indexed {settlement : SettlementRecord}
    {openings : List PositionLifecycleRecord} {residuals : List ResidualOrderRecord}
    {events : List AccountEventRecord} {payloads : List PrivateMatchIntent}
    (hfresh : settlement.newCommitments.Nodup ∧
      ∀ x ∈ settlement.newCommitments, x ∉ s.positionCommitments) (hindexed : Indexed s)
    (h : Returns (addSettlement H now settlement openings residuals events payloads) s () s') :
    Indexed s' := by
  unfold addSettlement at h
  simp only [returns_bind, returns_read, returns_throwIf, returns_update, id, exists_eq_left,
    exists_and_left, exists_const, and_assoc] at h
  obtain ⟨-, -, _, s₁, hproof, _, s₂, hopenings, _, s₃, hresiduals, _, s₄, hspend, _, s₅, hupdates,
    _, s₆, hopen, _, s₇, hadd, _, s₈, hevents, rfl⟩ := h
  -- the checks leave the store as it is
  obtain rfl : s₁ = s := Maintains.of_returns (R := Same id) inferInstance hproof
  obtain rfl : s₂ = s₁ := Maintains.of_returns (R := Same id) inferInstance hopenings
  obtain rfl : s₃ = s₂ := Maintains.of_returns (R := Same id) inferInstance hresiduals
  let E : ProtocolStore → ProtocolStore → Prop :=
    Extends s₃.positionCommitments.size settlement.newCommitments
  have hspend : E _ s₄ := Maintains.of_returns inferInstance hspend
  have hupdates : E s₄ s₅ := Maintains.of_returns inferInstance hupdates
  have hopen : E s₅ s₆ := returns_forEach_rel (fun opening _ _ _ => openPosition_extends) hopen
  have hadd : E s₆ s₇ := Maintains.of_returns inferInstance hadd
  have hevents : E s₇ s₈ := Maintains.of_returns inferInstance hevents
  have hall : E _ s₈ :=
    trans_of E (trans_of E (trans_of E (trans_of E hspend hupdates) hopen) hadd) hevents
  have hprefix := OrderedSet.prefix_addAll s₃.positionCommitments settlement.newCommitments
  have hpost := hall.indexed (listedFrom_addAll hfresh rfl) (hindexed.extend hprefix rfl rfl)
  exact ⟨hpost.opened, hpost.closed⟩

theorem addPositionCloseRecord_indexed {record : PositionCloseRecord}
    (hfresh : record.newPositionCommitment ∉ s.positionCommitments) (hindexed : Indexed s)
    (h : Returns (addPositionCloseRecord P record) s () s') : Indexed s' := by
  unfold addPositionCloseRecord at h
  simp only [returns_bind, returns_read, returns_throwIf, returns_update, returns_orThrow, id,
    exists_eq_left, exists_and_left, exists_const, and_assoc] at h
  obtain ⟨-, _, s₁, hproof, _, s₂, hspend, _, s₃, hmark, root, -, rfl⟩ := h
  obtain rfl : s₁ = s := Maintains.of_returns (R := Same id) inferInstance hproof
  have hsame : SamePositions s₁ s₂ := (same_spend (fun _ _ => rfl) _).of_returns hspend
  obtain ⟨hpositions, -⟩ := Prod.mk.inj hsame
  rw [← hpositions] at hfresh ⊢
  have hmark : Extends s₂.positionCommitments.size [record.newPositionCommitment] _ s₃ :=
    Maintains.of_returns inferInstance hmark
  have hlisted : ListedFrom s₂.positionCommitments.size [record.newPositionCommitment] { s₂ with
      positionCommitments := s₂.positionCommitments.add record.newPositionCommitment
      marginCommitments := s₂.marginCommitments.add record.marginOutputCommitment } :=
    listedFrom_addAll ⟨List.nodup_singleton _, fun x hx => List.mem_singleton.mp hx ▸ hfresh⟩ rfl
  have hprefix := OrderedSet.prefix_add s₂.positionCommitments record.newPositionCommitment
  have hpost := hmark.indexed hlisted ((hsame.indexed hindexed).extend hprefix rfl rfl)
  refine ⟨hpost.opened, fun record' hmem => ?_⟩
  obtain ⟨k, hk⟩ := OrderedMap.mem_values.mp hmem
  rw [OrderedMap.get?_set] at hk
  split_ifs at hk with heq
  · -- the record of the close itself
    obtain rfl := Option.some.inj hk
    intro i hi
    obtain rfl := Option.some.inj hi
    exact hlisted.extend hmark.positions 0 _ rfl
  · exact hpost.closed record' (OrderedMap.mem_values.mpr ⟨k, hk⟩)

/-- **A call that brings distinct new positions leaves the indices right.** -/
theorem indexed_of_returns {call : StoreCall} (hfresh : call.positions.Nodup ∧
      ∀ x ∈ call.positions, x ∉ s.positionCommitments) (hindexed : Indexed s)
    (h : Returns (call.script H P) s () s') : Indexed s' := by
  have hsame {x : StoreScript Unit} (hx : Maintains SamePositions x) (h : Returns x s () s') :
      Indexed s' := SamePositions.indexed (hx.of_returns h) hindexed
  cases call with
  | recordProof proof => exact hsame (same_recordProof (fun _ _ => rfl) proof) h
  | addMarginCommitment commitment =>
    exact hsame (same_addMarginCommitment (fun _ _ => rfl) commitment) h
  | addWithdrawal record =>
    exact hsame (same_addWithdrawal (fun _ _ => rfl) (fun _ _ => rfl) (fun _ _ => rfl) record) h
  | addIntent now record payload =>
    exact hsame (same_addIntent (fun _ _ => rfl) (fun _ _ _ => rfl) record payload) h
  | cancelOrder now commitment txHash =>
    exact hsame (same_cancelOrder (fun _ _ => rfl) commitment txHash) h
  | addSettlement now settlement openings residuals events payloads =>
    exact addSettlement_indexed hfresh hindexed h
  | addAccountEvent record => exact hsame (same_addAccountEvent (fun _ _ => rfl) record) h
  | addLiquidation record =>
    -- a liquidation marks its position and leaves its index
    have hextends : Extends 0 [] s s' :=
      Maintains.of_returns (x := addLiquidation record) inferInstance h
    exact hextends.indexed (fun j x hx => absurd hx (by simp)) hindexed
  | addConditionalClose record => exact hsame (same_addConditionalClose (fun _ _ => rfl) record) h
  | addPositionClose record =>
    unfold StoreCall.script addPositionClose at h
    simp only [returns_bind, returns_read, returns_throwIf, id, exists_eq_left, exists_and_left,
      exists_const, and_assoc] at h
    exact addPositionCloseRecord_indexed (hfresh.2 _ List.mem_cons_self) hindexed h.2
  | addManualPositionClose record =>
    exact addPositionCloseRecord_indexed (hfresh.2 _ List.mem_cons_self) hindexed h
  | addPairedPositionCloses trader maker conditional =>
    unfold StoreCall.script addPairedPositionCloses at h
    simp only [returns_bind, returns_read, returns_throwIf, id, exists_eq_left, exists_and_left,
      exists_const, and_assoc] at h
    obtain ⟨-, -, _, s₁, htrader, _, s₂, hmaker, -, _, s₃, hfirst, hsecond⟩ := h
    obtain rfl : s₁ = s := Maintains.of_returns (R := Same id) inferInstance htrader
    obtain rfl : s₂ = s₁ := Maintains.of_returns (R := Same id) inferInstance hmaker
    have hnew := hfresh.2 trader.newPositionCommitment List.mem_cons_self
    refine addPositionCloseRecord_indexed ?_
      (addPositionCloseRecord_indexed hnew hindexed hfirst) hsecond
    rw [(addPositionCloseRecord_trees hfirst).2, OrderedSet.mem_add, not_or]
    refine ⟨hfresh.2 _ (List.mem_cons_of_mem _ List.mem_cons_self), fun heq => ?_⟩
    exact (List.nodup_cons.mp hfresh.1).1 (List.mem_singleton.mpr heq.symm)

end Pnlx.Server
