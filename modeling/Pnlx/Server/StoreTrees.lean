import Pnlx.Server.StoreFrames

/-!
# What the operations of the store add to its trees

Each call brings commitments to margin notes and to positions. A call that returns has added all of
them (`trees_of_returns`), and a call that throws has added no others (`maintains_adds`).
-/

namespace Pnlx.Server

open BatchMatch (Text)
open Script

variable {H : Host} {P : Fr → Fr → Fr} {s s' : ProtocolStore} {now : ℤ}

/-- The leaves of both trees. -/
def ProtocolStore.trees (store : ProtocolStore) : OrderedSet Text × OrderedSet Text :=
  (store.marginCommitments, store.positionCommitments)

abbrev SameTrees : ProtocolStore → ProtocolStore → Prop := Same ProtocolStore.trees

/-! ## Operations that add no leaf -/

section SameTrees

instance (proof : ProofRecord) : Maintains SameTrees (recordProof proof) :=
  same_recordProof (fun _ _ => rfl) proof

instance (nullifier : Text) : Maintains SameTrees (spend nullifier) :=
  same_spend (fun _ _ => rfl) nullifier

instance (record : IntentRecord) (payload : Option PrivateMatchIntent) :
    Maintains SameTrees (addIntent H P now record payload) :=
  same_addIntent (fun _ _ => rfl) (fun _ _ _ => rfl) record payload

instance (intentCommitment : Text) (txHash : Option Text) :
    Maintains SameTrees (cancelOrder now intentCommitment txHash) :=
  same_cancelOrder (fun _ _ => rfl) intentCommitment txHash

instance (record : ResidualOrderRecord) (payload : Option PrivateMatchIntent) :
    Maintains SameTrees (addResidualOrder H record payload) :=
  same_addResidualOrder (fun _ _ => rfl) (fun _ _ _ => rfl) record payload

instance (settlement : SettlementRecord) :
    Maintains SameTrees (applySettlementOrderUpdates now settlement) :=
  same_applySettlementOrderUpdates (fun _ _ => rfl) settlement

instance (settlement : SettlementRecord) (i : ℕ) (opening : PositionLifecycleRecord) :
    Maintains SameTrees (openPosition settlement i opening) :=
  same_openPosition (fun _ _ => rfl) settlement i opening

instance (record : AccountEventRecord) : Maintains SameTrees (addAccountEvent record) :=
  same_addAccountEvent (fun _ _ => rfl) record

instance (commitment nullifier : Text) (mark : PositionLifecycleRecord → PositionLifecycleRecord) :
    Maintains SameTrees (markPosition commitment nullifier mark) :=
  same_markPosition (fun _ _ => rfl) commitment nullifier mark

instance (record : LiquidationRecord) : Maintains SameTrees (addLiquidation record) :=
  same_addLiquidation (fun _ _ => rfl) (fun _ _ => rfl) (fun _ _ => rfl) record

instance (record : ConditionalOrderRecord) : Maintains SameTrees (addConditionalClose record) :=
  same_addConditionalClose (fun _ _ => rfl) record

end SameTrees

/-! ## Calls -/

/-- The commitments to margin notes that a call brings. -/
def StoreCall.margins : StoreCall → List Text
  | .addMarginCommitment commitment => [commitment]
  | .addWithdrawal record =>
    if record.changeCommitment ≠ "0x0".toList then [record.changeCommitment] else []
  | .addSettlement _ settlement _ _ _ _ => settlement.marginChangeCommitments
  | .addPositionClose record | .addManualPositionClose record => [record.marginOutputCommitment]
  | .addPairedPositionCloses trader maker _ =>
    [trader.marginOutputCommitment, maker.marginOutputCommitment]
  | _ => []

/-- The commitments to positions that a call brings. -/
def StoreCall.positions : StoreCall → List Text
  | .addSettlement _ settlement _ _ _ _ => settlement.newCommitments
  | .addPositionClose record | .addManualPositionClose record => [record.newPositionCommitment]
  | .addPairedPositionCloses trader maker _ =>
    [trader.newPositionCommitment, maker.newPositionCommitment]
  | _ => []

/-- The trees have got no leaves but those of the lists. -/
structure Adds (margins positions : List Text) (s s' : ProtocolStore) : Prop where
  margins : ∀ x ∈ s'.marginCommitments, x ∈ s.marginCommitments ∨ x ∈ margins
  positions : ∀ x ∈ s'.positionCommitments, x ∈ s.positionCommitments ∨ x ∈ positions

instance (margins positions : List Text) : Std.Refl (Adds margins positions) where
  refl _ := ⟨fun _ => Or.inl, fun _ => Or.inl⟩

instance (margins positions : List Text) : IsTrans ProtocolStore (Adds margins positions) where
  trans _ _ _ h h' :=
    ⟨fun x hx => (h'.margins x hx).elim (h.margins x) Or.inr,
      fun x hx => (h'.positions x hx).elim (h.positions x) Or.inr⟩

theorem SameTrees.adds {margins positions : List Text} (h : SameTrees s s') :
    Adds margins positions s s' := by
  obtain ⟨hmargins, hpositions⟩ := Prod.mk.inj h
  exact ⟨fun _ hmem => Or.inl (hmargins ▸ hmem), fun _ hmem => Or.inl (hpositions ▸ hmem)⟩

/-- A script that adds no leaf adds none but those of the lists. -/
instance {α : Type} {x : StoreScript α} [hx : Maintains SameTrees x] (margins positions : List Text) :
    Maintains (Adds margins positions) x := hx.mono fun _ _ h => h.adds

theorem addPositionCloseRecord_adds {record : PositionCloseRecord} {margins positions : List Text}
    (hmargin : record.marginOutputCommitment ∈ margins)
    (hposition : record.newPositionCommitment ∈ positions) :
    Maintains (Adds margins positions) (addPositionCloseRecord P record) := by
  unfold addPositionCloseRecord markPositionClosed
  repeat refine .andThen inferInstance fun _ => ?_
  refine .andThen (.update fun store => ⟨fun x hx => ?_, fun x hx => ?_⟩) fun _ => ?_
  · rcases OrderedSet.mem_add.mp hx with hx | rfl
    · exact Or.inl hx
    · exact Or.inr hmargin
  · rcases OrderedSet.mem_add.mp hx with hx | rfl
    · exact Or.inl hx
    · exact Or.inr hposition
  · repeat refine .andThen inferInstance fun _ => ?_
    exact .update fun _ => SameTrees.adds rfl

theorem addSettlement_adds (settlement : SettlementRecord)
    (openings : List PositionLifecycleRecord) (residuals : List ResidualOrderRecord)
    (events : List AccountEventRecord) (payloads : List PrivateMatchIntent) :
    Maintains (Adds settlement.marginChangeCommitments settlement.newCommitments)
      (addSettlement H now settlement openings residuals events payloads) := by
  unfold addSettlement
  repeat refine .andThen inferInstance fun _ => ?_
  refine .andThen (.update fun store => ⟨fun x hx => ?_, fun x hx => ?_⟩) fun _ => ?_
  · exact OrderedSet.mem_addAll.mp hx
  · exact OrderedSet.mem_addAll.mp hx
  · repeat refine .andThen inferInstance fun _ => ?_
    exact .update fun _ => SameTrees.adds rfl

theorem addWithdrawal_adds (record : WithdrawalRecord) :
    Maintains (Adds (StoreCall.addWithdrawal record).margins []) (addWithdrawal record) := by
  unfold addWithdrawal
  repeat refine .andThen inferInstance fun _ => ?_
  refine .andThen ?_ fun _ => .update fun _ => SameTrees.adds rfl
  unfold doIf
  split_ifs with hchange
  · rw [show (StoreCall.addWithdrawal record).margins = [record.changeCommitment] from
      if_pos hchange]
    refine .update fun store => ⟨fun x hx => ?_, fun x hx => Or.inl hx⟩
    exact (OrderedSet.mem_add.mp hx).imp_right List.mem_singleton.mpr
  · infer_instance

/-- **A call adds no commitments but those it brings**, also when it throws. -/
theorem maintains_adds (call : StoreCall) :
    Maintains (Adds call.margins call.positions) (call.script H P) := by
  cases call with
  | recordProof proof => exact (inferInstance : Maintains (Adds [] []) (recordProof proof))
  | addMarginCommitment commitment =>
    show Maintains (Adds [commitment] []) (addMarginCommitment commitment)
    unfold addMarginCommitment
    repeat refine .andThen inferInstance fun _ => ?_
    refine .update fun store => ⟨fun x hx => ?_, fun x hx => Or.inl hx⟩
    exact (OrderedSet.mem_add.mp hx).imp_right List.mem_singleton.mpr
  | addWithdrawal record => exact addWithdrawal_adds record
  | addIntent now record payload => exact (inferInstance : Maintains (Adds [] []) (addIntent H P now record payload))
  | cancelOrder now commitment txHash =>
    exact (inferInstance : Maintains (Adds [] []) (cancelOrder now commitment txHash))
  | addSettlement now settlement openings residuals events payloads =>
    exact addSettlement_adds settlement openings residuals events payloads
  | addAccountEvent record => exact (inferInstance : Maintains (Adds [] []) (addAccountEvent record))
  | addLiquidation record => exact (inferInstance : Maintains (Adds [] []) (addLiquidation record))
  | addConditionalClose record => exact (inferInstance : Maintains (Adds [] []) (addConditionalClose record))
  | addPositionClose record =>
    have hclose := @addPositionCloseRecord_adds P record [record.marginOutputCommitment]
      [record.newPositionCommitment] List.mem_cons_self List.mem_cons_self
    exact .andThen inferInstance fun _ => .andThen inferInstance fun _ => hclose
  | addManualPositionClose record =>
    exact addPositionCloseRecord_adds List.mem_cons_self List.mem_cons_self
  | addPairedPositionCloses trader maker conditional =>
    unfold StoreCall.script addPairedPositionCloses
    repeat refine .andThen inferInstance fun _ => ?_
    exact .andThen (addPositionCloseRecord_adds List.mem_cons_self List.mem_cons_self) fun _ =>
      addPositionCloseRecord_adds (List.mem_cons_of_mem _ List.mem_cons_self)
        (List.mem_cons_of_mem _ List.mem_cons_self)

/-! ## Calls that return -/

theorem SameTrees.of_returns {α : Type} {x : StoreScript α} [hx : Maintains SameTrees x] {a : α}
    (h : Returns x s a s') : s'.marginCommitments = s.marginCommitments ∧
      s'.positionCommitments = s.positionCommitments :=
  Prod.mk.inj (hx.of_returns h)

theorem addPositionCloseRecord_trees {record : PositionCloseRecord}
    (h : Returns (addPositionCloseRecord P record) s () s') :
    s'.marginCommitments = s.marginCommitments.add record.marginOutputCommitment ∧
      s'.positionCommitments = s.positionCommitments.add record.newPositionCommitment := by
  unfold addPositionCloseRecord markPositionClosed at h
  simp only [returns_bind, returns_read, returns_throwIf, returns_update, returns_orThrow, id,
    exists_eq_left, exists_and_left, exists_const, and_assoc] at h
  obtain ⟨-, _, s₁, hproof, _, s₂, hspend, _, s₃, hmark, root, -, rfl⟩ := h
  obtain ⟨hmargin₁, hposition₁⟩ := SameTrees.of_returns hproof
  obtain ⟨hmargin₂, hposition₂⟩ := SameTrees.of_returns hspend
  obtain ⟨hmargin₃, hposition₃⟩ := SameTrees.of_returns hmark
  constructor
  · show s₃.marginCommitments = _
    rw [hmargin₃, hmargin₂, hmargin₁]
  · show s₃.positionCommitments = _
    rw [hposition₃, hposition₂, hposition₁]

theorem addSettlement_trees {settlement : SettlementRecord}
    {openings : List PositionLifecycleRecord} {residuals : List ResidualOrderRecord}
    {events : List AccountEventRecord} {payloads : List PrivateMatchIntent}
    (h : Returns (addSettlement H now settlement openings residuals events payloads) s () s') :
    s'.marginCommitments = s.marginCommitments.addAll settlement.marginChangeCommitments ∧
      s'.positionCommitments = s.positionCommitments.addAll settlement.newCommitments := by
  unfold addSettlement at h
  simp only [returns_bind, returns_read, returns_throwIf, returns_update, id, exists_eq_left,
    exists_and_left, exists_const, and_assoc] at h
  obtain ⟨-, -, _, s₁, hproof, _, s₂, hopenings, _, s₃, hresiduals, _, s₄, hspend, _, s₅, hupdates,
    _, s₆, hopen, _, s₇, hadd, _, s₈, hevents, rfl⟩ := h
  obtain ⟨hmargin₁, hposition₁⟩ := SameTrees.of_returns hproof
  obtain ⟨hmargin₂, hposition₂⟩ := SameTrees.of_returns hopenings
  obtain ⟨hmargin₃, hposition₃⟩ := SameTrees.of_returns hresiduals
  obtain ⟨hmargin₄, hposition₄⟩ := SameTrees.of_returns hspend
  obtain ⟨hmargin₅, hposition₅⟩ := SameTrees.of_returns hupdates
  obtain ⟨hmargin₆, hposition₆⟩ := SameTrees.of_returns hopen
  obtain ⟨hmargin₇, hposition₇⟩ := SameTrees.of_returns hadd
  obtain ⟨hmargin₈, hposition₈⟩ := SameTrees.of_returns hevents
  constructor
  · show s₈.marginCommitments = _
    rw [hmargin₈, hmargin₇, hmargin₆, hmargin₅, hmargin₄, hmargin₃, hmargin₂, hmargin₁]
  · show s₈.positionCommitments = _
    rw [hposition₈, hposition₇, hposition₆, hposition₅, hposition₄, hposition₃, hposition₂,
      hposition₁]

theorem addWithdrawal_trees {record : WithdrawalRecord}
    (h : Returns (addWithdrawal record) s () s') :
    s'.marginCommitments = s.marginCommitments.addAll (StoreCall.addWithdrawal record).margins ∧
      s'.positionCommitments = s.positionCommitments := by
  unfold addWithdrawal at h
  simp only [returns_bind, returns_read, returns_throwIf, returns_update, returns_doIf, id,
    exists_eq_left, exists_and_left, exists_const, and_assoc] at h
  obtain ⟨-, _, s₁, hproof, _, s₂, hspend, s₃, hchange, rfl⟩ := h
  obtain ⟨hmargin₁, hposition₁⟩ := SameTrees.of_returns hproof
  obtain ⟨hmargin₂, hposition₂⟩ := SameTrees.of_returns hspend
  show s₃.marginCommitments = _ ∧ s₃.positionCommitments = _
  rw [← hmargin₁, ← hmargin₂, ← hposition₁, ← hposition₂]
  rcases hchange with ⟨hne, rfl⟩ | ⟨heq, rfl⟩
  · rw [show (StoreCall.addWithdrawal record).margins = [record.changeCommitment] from if_pos hne]
    exact ⟨rfl, rfl⟩
  · rw [show (StoreCall.addWithdrawal record).margins = [] from if_neg heq]
    exact ⟨rfl, rfl⟩

/-- **A call that returns has added the commitments it brings.** -/
theorem trees_of_returns {call : StoreCall} (h : Returns (call.script H P) s () s') :
    s'.marginCommitments = s.marginCommitments.addAll call.margins ∧
      s'.positionCommitments = s.positionCommitments.addAll call.positions := by
  cases call with
  | recordProof proof => exact SameTrees.of_returns (x := recordProof proof) h
  | addMarginCommitment commitment =>
    unfold StoreCall.script addMarginCommitment at h
    simp only [returns_bind, returns_read, returns_throwIf, returns_update, id, exists_eq_left,
      exists_and_left, exists_const, and_assoc] at h
    obtain ⟨-, rfl⟩ := h
    exact ⟨rfl, rfl⟩
  | addWithdrawal record => exact addWithdrawal_trees h
  | addIntent now record payload => exact SameTrees.of_returns (x := addIntent H P now record payload) h
  | cancelOrder now commitment txHash =>
    exact SameTrees.of_returns (x := cancelOrder now commitment txHash) h
  | addSettlement now settlement openings residuals events payloads => exact addSettlement_trees h
  | addAccountEvent record => exact SameTrees.of_returns (x := addAccountEvent record) h
  | addLiquidation record => exact SameTrees.of_returns (x := addLiquidation record) h
  | addConditionalClose record => exact SameTrees.of_returns (x := addConditionalClose record) h
  | addPositionClose record =>
    unfold StoreCall.script addPositionClose at h
    simp only [returns_bind, returns_read, returns_throwIf, id, exists_eq_left, exists_and_left,
      exists_const, and_assoc] at h
    exact addPositionCloseRecord_trees h.2
  | addManualPositionClose record => exact addPositionCloseRecord_trees h
  | addPairedPositionCloses trader maker conditional =>
    unfold StoreCall.script addPairedPositionCloses at h
    simp only [returns_bind, returns_read, returns_throwIf, id, exists_eq_left, exists_and_left,
      exists_const, and_assoc] at h
    obtain ⟨-, -, _, s₁, htrader, _, s₂, hmaker, -, _, s₃, hfirst, hsecond⟩ := h
    obtain ⟨hmargin₁, hposition₁⟩ := SameTrees.of_returns htrader
    obtain ⟨hmargin₂, hposition₂⟩ := SameTrees.of_returns hmaker
    obtain ⟨hmargin₃, hposition₃⟩ := addPositionCloseRecord_trees hfirst
    obtain ⟨hmargin₄, hposition₄⟩ := addPositionCloseRecord_trees hsecond
    rw [hmargin₄, hmargin₃, hmargin₂, hmargin₁, hposition₄, hposition₃, hposition₂, hposition₁]
    exact ⟨rfl, rfl⟩

end Pnlx.Server
