import Pnlx.Lib.Atomicity
import Pnlx.Server.StoreFrames

/-!
# Operations of the store that throw

A withdrawal, a liquidation and a residual order throw before their first write. An intent keeps its
payload before its last checks (`atomic_addIntent_iff`). A close spends its nullifier and adds its
commitments before it computes the root (`atomic_addPositionCloseRecord_iff`), and a pair of closes
does so twice.
-/

namespace Pnlx.Server

open BatchMatch (Text)
open Script

variable {H : Host} {P : Fr → Fr → Fr} {s s' : ProtocolStore} {now : ℤ}

/-! ## The size of the store -/

/-- The sizes of the parts of the store that an operation only adds to. -/
def ProtocolStore.extent (store : ProtocolStore) : ℕ :=
  store.marginCommitments.size + store.positionCommitments.size + store.spentNullifiers.size +
    store.positionLifecycle.size + store.residualOrders.size + store.accountEvents.size

/-- Parts that do not get smaller. -/
theorem extent_le (hmargin : s.marginCommitments.size ≤ s'.marginCommitments.size)
    (hposition : s.positionCommitments.size ≤ s'.positionCommitments.size)
    (hspent : s.spentNullifiers.size ≤ s'.spentNullifiers.size)
    (hlifecycle : s.positionLifecycle.size ≤ s'.positionLifecycle.size)
    (hresidual : s.residualOrders.size ≤ s'.residualOrders.size)
    (hevent : s.accountEvents.size ≤ s'.accountEvents.size) : s.extent ≤ s'.extent := by
  unfold ProtocolStore.extent
  omega

theorem extent_spend {nullifier : Text} (h : nullifier ∉ s.spentNullifiers) :
    s.extent < { s with spentNullifiers := s.spentNullifiers.add nullifier }.extent := by
  have hsize := OrderedSet.size_add_of_not_mem h
  unfold ProtocolStore.extent
  dsimp only
  omega

/-! ## Checks -/

theorem checks_assertProof (proof : ProofRecord) :
    Checks (assertProof proof) fun s => hasProof s proof :=
  .read fun _ => ⟨fun h => returns_throwIf.mpr ⟨not_not.mpr h, rfl⟩,
    fun h => throws_throwIf.mpr ⟨h, rfl⟩⟩

theorem checks_ne {a b : Text} {e : String} :
    Checks (throwIf (a ≠ b) e : StoreScript Unit) fun _ => a = b :=
  .throwIf _ fun _ => not_not.symm

variable (H) in
/-- The payload is the one of the order. -/
structure PayloadFits (record : OrderRecord) (payload : PrivateMatchIntent) : Prop where
  intent : payload.intentCommitment = record.intentCommitment
  market : payload.marketId = record.marketId
  owner : payload.ownerCommitment = record.ownerCommitment
  nullifier : payload.noteNullifier = record.noteNullifier
  change : record.noteChangeCommitment.isSome →
    some payload.noteChangeCommitment = record.noteChangeCommitment
  noChange : record.noteChangeCommitment.isNone → payload.noteChangeCommitment = "0x0".toList
  commitment : matchingPayloadCommitment H payload = record.matchingPayloadCommitment

theorem checks_assertPrivateMatchIntent (record : OrderRecord) (payload : PrivateMatchIntent) :
    Checks (assertPrivateMatchIntent H record payload) fun _ => PayloadFits H record payload := by
  unfold assertPrivateMatchIntent
  refine (checks_ne.bind (checks_ne.bind (checks_ne.bind (checks_ne.bind ((Checks.throwIf
    (fun _ => record.noteChangeCommitment.isSome →
      some payload.noteChangeCommitment = record.noteChangeCommitment) ?_).bind ((Checks.throwIf
    (fun _ => record.noteChangeCommitment.isNone →
      payload.noteChangeCommitment = "0x0".toList) ?_).bind checks_ne)))))).congr ?_
  · exact fun _ => by rw [not_and, not_not]
  · exact fun _ => by rw [not_and, not_not]
  · exact fun _ => ⟨fun h => ⟨h.intent, h.market, h.owner, h.nullifier, h.change, h.noChange,
      h.commitment⟩, fun ⟨h₁, h₂, h₃, h₄, h₅, h₆, h₇⟩ => ⟨h₁, h₂, h₃, h₄, h₅, h₆, h₇⟩⟩

/-- The openings are openings of the settlement. -/
def OpeningsFit (settlement : SettlementRecord) (openings : List PositionLifecycleRecord) : Prop :=
  ∀ opening ∈ openings, opening.batchId = settlement.batchId ∧
    opening.marketId = settlement.marketId ∧
    opening.settlementDigest = settlement.settlementDigest ∧
    opening.positionCommitment ∈ settlement.newCommitments

theorem checks_validatePositionOpenings (settlement : SettlementRecord)
    (openings : List PositionLifecycleRecord) :
    Checks (validatePositionOpenings settlement openings) fun _ =>
      OpeningsFit settlement openings := by
  exact .forEach (fun opening => checks_ne.bind (checks_ne.bind (checks_ne.bind (.throwIf
    (fun _ => opening.positionCommitment ∈ settlement.newCommitments) fun _ => not_not.symm))))
    openings

/-- The residual orders are those of updates of the settlement. -/
def ResidualsFit (settlement : SettlementRecord) (residuals : List ResidualOrderRecord) : Prop :=
  ∀ residual ∈ residuals, residual.batchId = settlement.batchId ∧
    residual.marketId = settlement.marketId ∧
    residualSource settlement residual.intentCommitment = some residual.sourceIntentCommitment

theorem checks_validateResidualOrders (settlement : SettlementRecord)
    (residuals : List ResidualOrderRecord) :
    Checks (validateResidualOrders settlement residuals) fun _ =>
      ResidualsFit settlement residuals := by
  refine .forEach (fun residual => checks_ne.bind (checks_ne.bind ?_)) residuals
  refine ⟨fun s h => ?_, fun s h => ?_⟩
  · rw [h]
    exact returns_bind.mpr ⟨_, s, returns_orThrow.mpr ⟨rfl, rfl⟩,
      returns_throwIf.mpr ⟨not_not.mpr rfl, rfl⟩⟩
  · rw [throws_bind]
    cases hsource : residualSource settlement residual.intentCommitment with
    | none => exact Or.inl (throws_orThrow.mpr ⟨rfl, rfl⟩)
    | some source =>
      refine Or.inr ⟨source, s, returns_orThrow.mpr ⟨rfl, rfl⟩, throws_throwIf.mpr ⟨?_, rfl⟩⟩
      rintro rfl
      exact h hsource

/-! ## Single records -/

theorem throws_spend {nullifier : Text} :
    Throws (spend nullifier) s s' ↔ nullifier ∈ s.spentNullifiers ∧ s' = s := by
  unfold spend
  simp [and_comm]

theorem returns_spend_iff {nullifier : Text} {u : Unit} : Returns (spend nullifier) s u s' ↔
    nullifier ∉ s.spentNullifiers ∧
      s' = { s with spentNullifiers := s.spentNullifiers.add nullifier } := by
  unfold spend
  simp

instance (nullifier : Text) : Maintains (Grows ProtocolStore.extent) (spend nullifier) := by
  refine grows_of_atomic (fun _ _ h => (throws_spend.mp h).2) fun s _ s' h => ?_
  obtain ⟨hnew, rfl⟩ := returns_spend_iff.mp h
  exact extent_spend hnew

theorem atomic_addWithdrawal (record : WithdrawalRecord) : Atomic (addWithdrawal record) s := by
  unfold addWithdrawal
  rw [atomic_read_bind, atomic_throwIf_bind]
  intro _
  rw [(checks_assertProof record.proof).atomic_bind]
  intro _ s' h
  simp only [throws_bind, throws_doIf, not_throws_update, exists_false, or_false, and_false] at h
  exact (throws_spend.mp h).2

theorem atomic_addLiquidation (record : LiquidationRecord) :
    Atomic (addLiquidation record) s := by
  unfold addLiquidation markPositionLiquidated markPosition
  rw [atomic_read_bind, atomic_throwIf_bind]
  intro _
  rw [(checks_assertProof record.proof).atomic_bind]
  intro _ s' h
  simp only [throws_bind, not_throws_update, exists_false, or_false, and_false] at h
  exact (throws_spend.mp h).2

theorem atomic_addConditionalClose (record : ConditionalOrderRecord) :
    Atomic (addConditionalClose record) s := by
  unfold addConditionalClose
  rw [atomic_read_bind, atomic_throwIf_bind]
  intro _
  rw [(checks_assertProof record.proof).atomic_bind]
  exact fun _ => atomic_update

theorem atomic_addMarginCommitment (commitment : Text) :
    Atomic (addMarginCommitment commitment) s := by
  unfold addMarginCommitment
  rw [atomic_read_bind, atomic_throwIf_bind]
  exact fun _ => atomic_update

theorem atomic_addAccountEvent (record : AccountEventRecord) :
    Atomic (addAccountEvent record) s := by
  unfold addAccountEvent
  rw [atomic_read_bind, atomic_throwIf_bind]
  exact fun _ => atomic_update

theorem atomic_cancelOrder (now : ℤ) (k : Text) (txHash : Option Text) :
    Atomic (cancelOrder now k txHash) s := by
  unfold cancelOrder
  simp only [atomic_read_bind, atomic_orThrow_bind, atomic_throwIf_bind]
  exact fun _ _ _ _ _ => atomic_update

/-! ## Orders -/

variable (H) in
/-- The checks of a submission before it keeps its payload. -/
structure IntentKept (s : ProtocolStore) (record : IntentRecord) (payload : PrivateMatchIntent) :
    Prop where
  fresh : s.intents.get? record.intentCommitment = none
  bound : ¬ (record.batchDigest = [] ∨ record.marketDigest = [] ∨ record.ownerCommitmentField = [])
  committed : record.matchingPayloadCommitment ≠ []
  fits : PayloadFits H record.order payload

variable (P) in
/-- The checks of a submission after it has kept its payload. -/
structure IntentAdmitted (s : ProtocolStore) (record : IntentRecord) : Prop where
  proof : hasProof s record.proof
  root : s.marginMembershipRoot P = some record.marginRoot
  unspent : record.noteNullifier ∉ s.spentNullifiers
  unlocked : ¬ s.locked record.noteNullifier

theorem throws_keep {record : OrderRecord} {payload : Option PrivateMatchIntent} :
    Throws (keepPrivateMatchIntent H record payload) s s' ↔
      s' = s ∧ ∃ kept, payload = some kept ∧ ¬ PayloadFits H record kept := by
  cases payload with
  | none =>
    refine iff_of_false not_throws_pure ?_
    rintro ⟨-, kept, h, -⟩
    cases h
  | some kept =>
    unfold keepPrivateMatchIntent
    simp only [throws_bind, (checks_assertPrivateMatchIntent record kept).throws_iff,
      not_throws_update, exists_false, or_false, and_false, Option.some.injEq, exists_eq_left']
    exact and_comm

theorem returns_keep {record : OrderRecord} {payload : Option PrivateMatchIntent} {u : Unit} :
    Returns (keepPrivateMatchIntent H record payload) s u s' ↔
      (∀ kept, payload = some kept → PayloadFits H record kept) ∧
        s' = match payload with
          | some kept => { s with
              privateMatchIntents := s.privateMatchIntents.set record.intentCommitment kept }
          | none => s := by
  cases payload with
  | none =>
    unfold keepPrivateMatchIntent
    simp
  | some kept =>
    unfold keepPrivateMatchIntent
    simp only [returns_bind, (checks_assertPrivateMatchIntent record kept).returns_iff,
      returns_update, Option.some.injEq, forall_eq']
    constructor
    · rintro ⟨_, _, ⟨hfits, rfl⟩, rfl⟩
      exact ⟨hfits, rfl⟩
    · rintro ⟨hfits, rfl⟩
      exact ⟨(), s, ⟨hfits, rfl⟩, rfl⟩

variable (P) in
/-- What a submission does after it has kept its payload. -/
def admitIntent (now : ℤ) (store : ProtocolStore) (record : IntentRecord) :
    StoreScript Unit := do
  assertProof record.proof
  let root ← orThrow (store.marginMembershipRoot P) "field merkle tree is full"
  throwIf (record.marginRoot ≠ root) "intent margin root is not current"
  throwIf (record.noteNullifier ∈ store.spentNullifiers) "intent nullifier already spent"
  throwIf (store.locked record.noteNullifier) "intent nullifier already locked"
  update fun store => { store with
    intents := store.intents.set record.intentCommitment record
    orderLifecycle := store.orderLifecycle.set record.intentCommitment
      (openLifecycle now now record.order) }

theorem atomic_admitIntent (now : ℤ) (store : ProtocolStore) (record : IntentRecord) :
    Atomic (admitIntent P now store record) s := by
  unfold admitIntent
  rw [(checks_assertProof record.proof).atomic_bind]
  simp only [atomic_orThrow_bind, atomic_throwIf_bind]
  exact fun _ _ _ _ _ _ => atomic_update

theorem returns_admitIntent {store : ProtocolStore} {record : IntentRecord}
    (hproofs : s.proofs = store.proofs) :
    (∃ u s', Returns (admitIntent P now store record) s u s') ↔ IntentAdmitted P store record := by
  have hproof : hasProof s record.proof ↔ hasProof store record.proof := by
    unfold hasProof
    rw [hproofs]
  unfold admitIntent
  simp only [returns_bind, (checks_assertProof record.proof).returns_iff, returns_orThrow,
    returns_throwIf, returns_update, hproof]
  constructor
  · rintro ⟨_, _, _, _, ⟨h, rfl⟩, root, _, ⟨hroot, rfl⟩, _, _, ⟨hsame, rfl⟩, _, _, ⟨hunspent, rfl⟩,
      _, _, ⟨hunlocked, rfl⟩, -⟩
    exact ⟨h, hroot.trans (congrArg some (not_not.mp hsame).symm), hunspent, hunlocked⟩
  · intro h
    exact ⟨(), _, (), s, ⟨h.proof, rfl⟩, record.marginRoot, s, ⟨h.root, rfl⟩, (), s,
      ⟨not_not.mpr rfl, rfl⟩, (), s, ⟨h.unspent, rfl⟩, (), s, ⟨h.unlocked, rfl⟩, rfl⟩

theorem addIntent_eq (record : IntentRecord) (payload : Option PrivateMatchIntent) :
    addIntent H P now record payload = (do
      let store ← read id
      throwIf (store.intents.get? record.intentCommitment).isSome "intent commitment already exists"
      throwIf (record.batchDigest = [] ∨ record.marketDigest = [] ∨
        record.ownerCommitmentField = []) "intent public binding is required"
      throwIf (record.matchingPayloadCommitment = [])
        "intent matching payload commitment is required"
      keepPrivateMatchIntent H record.order payload
      admitIntent P now store record) := rfl

/-- **A submission is atomic** unless it keeps a new payload before a check fails. -/
theorem atomic_addIntent_iff {record : IntentRecord} {payload : Option PrivateMatchIntent} :
    Atomic (addIntent H P now record payload) s ↔ ∀ kept, payload = some kept →
      IntentKept H s record kept →
        s.privateMatchIntents.get? record.intentCommitment = some kept ∨
          IntentAdmitted P s record := by
  rw [addIntent_eq]
  simp only [atomic_read_bind, atomic_throwIf_bind, id]
  cases payload with
  | none =>
    refine iff_of_true (fun _ _ _ => ?_) fun _ h => (by cases h)
    exact (atomic_bind_of_returns ((@returns_keep H s s record.order none ()).mpr
      ⟨fun _ h => (by cases h), rfl⟩)).mpr (atomic_admitIntent now s record)
  | some kept =>
    simp only [Option.some.injEq, forall_eq']
    by_cases hfits : PayloadFits H record.order kept
    · have hkeep : Returns (keepPrivateMatchIntent H record.order (some kept)) s () { s with
          privateMatchIntents := s.privateMatchIntents.set record.intentCommitment kept } :=
        returns_keep.mpr ⟨fun _ h => Option.some.inj h ▸ hfits, rfl⟩
      have hsame : { s with
          privateMatchIntents := s.privateMatchIntents.set record.intentCommitment kept } = s ↔
            s.privateMatchIntents.get? record.intentCommitment = some kept := by
        rw [← OrderedMap.set_eq_self_iff]
        exact ⟨fun h => congrArg ProtocolStore.privateMatchIntents h, fun h => by rw [h]⟩
      have hadmitted := @returns_admitIntent P { s with
        privateMatchIntents := s.privateMatchIntents.set record.intentCommitment kept } now s record
          rfl
      rw [atomic_write_iff hkeep (atomic_admitIntent now s record), hsame, hadmitted]
      constructor
      · intro h hkept
        refine h ?_ hkept.bound hkept.committed
        rw [hkept.fresh]
        exact Bool.false_ne_true
      · exact fun h hfresh hbound hcommitted =>
          h ⟨Option.not_isSome_iff_eq_none.mp hfresh, hbound, hcommitted, hfits⟩
    · refine iff_of_true (fun _ _ _ => ?_) fun h => absurd h.fits hfits
      exact atomic_bind_of_throws (throws_keep.mpr ⟨rfl, kept, rfl, hfits⟩)

theorem atomic_addResidualOrder (record : ResidualOrderRecord)
    (payload : Option PrivateMatchIntent) : Atomic (addResidualOrder H record payload) s := by
  unfold addResidualOrder
  simp only [atomic_read_bind, atomic_throwIf_bind]
  intro _ _ s' h
  simp only [throws_bind, not_throws_update, exists_false, or_false, and_false] at h
  exact (throws_keep.mp h).1

/-! ## Closes -/

/-- The checks of a close before its first write. -/
structure CloseKept (s : ProtocolStore) (record : PositionCloseRecord) : Prop where
  fresh : s.positionCloses.get? record.closeCommitment = none
  proof : hasProof s record.proof
  unspent : record.positionNullifier ∉ s.spentNullifiers

variable (P) in
/-- The root of the tree with the new commitment of a close. -/
def closeRoot (s : ProtocolStore) (record : PositionCloseRecord) : Option Text :=
  positionMerkleRoot P (s.positionCommitments.add record.newPositionCommitment).elems
    positionMerkleDepth

/-- What a close leaves of the parts of the store that the checks of a close read. -/
structure CloseWritten (s : ProtocolStore) (record : PositionCloseRecord) (s' : ProtocolStore) :
    Prop where
  extent : s.extent < s'.extent
  proofs : s'.proofs = s.proofs
  spent : s'.spentNullifiers = s.spentNullifiers.add record.positionNullifier
  positions : s'.positionCommitments = s.positionCommitments.add record.newPositionCommitment
  closes : ∀ k, k ≠ record.closeCommitment → s'.positionCloses.get? k = s.positionCloses.get? k

variable (P) in
/-- What a close does after its checks. -/
def writeClose (store : ProtocolStore) (record : PositionCloseRecord) : StoreScript Unit := do
  update fun store => { store with
    positionCommitments := store.positionCommitments.add record.newPositionCommitment
    marginCommitments := store.marginCommitments.add record.marginOutputCommitment }
  markPositionClosed record
  let root ← (do
    let store ← read id
    orThrow (store.positionMembershipRoot P) "position merkle tree is full")
  update fun store' => { store' with
    positionCloses := store'.positionCloses.set record.closeCommitment { record with
      outputPositionIndex := some store.positionCommitments.size
      outputPositionRoot := some root } }

theorem addPositionCloseRecord_eq (record : PositionCloseRecord) :
    addPositionCloseRecord P record = (do
      let store ← read id
      throwIf (store.positionCloses.get? record.closeCommitment).isSome
        "position close already exists"
      assertProof record.proof
      spend record.positionNullifier
      writeClose P store record) := rfl

/-- The parts that a mark leaves alone. -/
structure SameBesidesPositions (s s' : ProtocolStore) : Prop where
  extent : s.extent ≤ s'.extent
  proofs : s'.proofs = s.proofs
  spent : s'.spentNullifiers = s.spentNullifiers
  positions : s'.positionCommitments = s.positionCommitments
  closes : s'.positionCloses = s.positionCloses

theorem markPositionClosed_eq (record : PositionCloseRecord) : ∃ f : ProtocolStore → ProtocolStore,
    markPositionClosed record = update f ∧ ∀ s, SameBesidesPositions s (f s) := by
  refine ⟨_, rfl, fun store => ?_⟩
  dsimp only
  cases store.findPosition record.positionCommitment record.positionNullifier with
  | none => exact ⟨Nat.le_refl _, rfl, rfl, rfl, rfl⟩
  | some position =>
    refine ⟨?_, rfl, rfl, rfl, rfl⟩
    exact extent_le le_rfl le_rfl le_rfl (OrderedMap.size_le_set ..) le_rfl le_rfl

theorem writeClose_cases (store : ProtocolStore) (record : PositionCloseRecord) :
    (Succeeds (writeClose P store record) s ↔ (closeRoot P s record).isSome) ∧
      ∀ u s', Returns (writeClose P store record) s u s' → s.extent ≤ s'.extent ∧
        s'.proofs = s.proofs ∧ s'.spentNullifiers = s.spentNullifiers ∧
        s'.positionCommitments = s.positionCommitments.add record.newPositionCommitment ∧
        ∀ k, k ≠ record.closeCommitment → s'.positionCloses.get? k = s.positionCloses.get? k := by
  obtain ⟨mark, hmark, hsame⟩ := markPositionClosed_eq record
  unfold writeClose Succeeds
  rw [hmark]
  simp only [returns_bind, returns_update, returns_read, returns_orThrow]
  have hs := hsame { s with
    positionCommitments := s.positionCommitments.add record.newPositionCommitment
    marginCommitments := s.marginCommitments.add record.marginOutputCommitment }
  have hroot : ∀ root, (mark { s with
      positionCommitments := s.positionCommitments.add record.newPositionCommitment
      marginCommitments := s.marginCommitments.add record.marginOutputCommitment
      }).positionMembershipRoot P = some root ↔ closeRoot P s record = some root := by
    intro root
    unfold ProtocolStore.positionMembershipRoot closeRoot
    rw [hs.positions]
  constructor
  · constructor
    · rintro ⟨_, _, _, _, rfl, _, _, rfl, root, _, ⟨_, _, ⟨rfl, rfl⟩, hsome, rfl⟩, -⟩
      rw [(hroot root).mp hsome]
      rfl
    · intro hsome
      obtain ⟨root, hsome⟩ := Option.isSome_iff_exists.mp hsome
      exact ⟨(), _, (), _, rfl, (), _, rfl, root, _,
        ⟨_, _, ⟨rfl, rfl⟩, (hroot root).mpr hsome, rfl⟩, rfl⟩
  · rintro _ _ ⟨_, _, rfl, _, _, rfl, root, _, ⟨_, _, ⟨rfl, rfl⟩, -, rfl⟩, rfl⟩
    refine ⟨le_trans ?_ hs.extent, hs.proofs, hs.spent, hs.positions, fun k hk => ?_⟩
    · exact extent_le (OrderedSet.size_le_addAll _ [_]) (OrderedSet.size_le_addAll _ [_]) le_rfl
        le_rfl le_rfl le_rfl
    · rw [OrderedMap.get?_set_of_ne hk, hs.closes]

instance (store : ProtocolStore) (record : PositionCloseRecord) :
    Maintains (NoSmaller ProtocolStore.extent) (writeClose P store record) := by
  obtain ⟨mark, hmark, hsame⟩ := markPositionClosed_eq record
  unfold writeClose
  rw [hmark]
  refine .andThen (.update fun s => ?_) fun _ => .andThen (.update fun s => (hsame s).extent)
    fun _ => .andThen inferInstance fun _ => .update fun s => le_refl s.extent
  exact extent_le (OrderedSet.size_le_addAll _ [_]) (OrderedSet.size_le_addAll _ [_]) le_rfl le_rfl
    le_rfl le_rfl

instance (proof : ProofRecord) :
    Maintains (Grows ProtocolStore.extent) (assertProof proof) := by
  unfold assertProof; infer_instance

instance (record : PositionCloseRecord) :
    Maintains (NoSmaller ProtocolStore.extent) (addPositionCloseRecord P record) := by
  rw [addPositionCloseRecord_eq]; infer_instance

theorem returns_addPositionCloseRecord_iff {record : PositionCloseRecord} {u : Unit} :
    Returns (addPositionCloseRecord P record) s u s' ↔ CloseKept s record ∧
      Returns (writeClose P s record)
        { s with spentNullifiers := s.spentNullifiers.add record.positionNullifier } u s' := by
  rw [addPositionCloseRecord_eq]
  simp only [returns_bind, returns_read, returns_throwIf, returns_spend_iff, id,
    (checks_assertProof record.proof).returns_iff]
  constructor
  · rintro ⟨_, _, ⟨rfl, rfl⟩, _, _, ⟨hfresh, rfl⟩, _, _, ⟨hproof, rfl⟩, _, _, ⟨hunspent, rfl⟩, h⟩
    exact ⟨⟨Option.not_isSome_iff_eq_none.mp hfresh, hproof, hunspent⟩, h⟩
  · rintro ⟨hkept, h⟩
    refine ⟨_, _, ⟨rfl, rfl⟩, (), _, ⟨?_, rfl⟩, (), _, ⟨hkept.proof, rfl⟩, (), _,
      ⟨hkept.unspent, rfl⟩, h⟩
    rw [hkept.fresh]
    exact Bool.false_ne_true

theorem returns_addPositionCloseRecord {record : PositionCloseRecord} {u : Unit}
    (h : Returns (addPositionCloseRecord P record) s u s') :
    CloseKept s record ∧ CloseWritten s record s' := by
  obtain ⟨hkept, h⟩ := returns_addPositionCloseRecord_iff.mp h
  obtain ⟨hextent, hproofs, hspent, hpositions, hcloses⟩ := (writeClose_cases _ record).2 _ _ h
  exact ⟨hkept, (extent_spend hkept.unspent).trans_le hextent, hproofs, hspent, hpositions, hcloses⟩

theorem succeeds_addPositionCloseRecord_iff {record : PositionCloseRecord} :
    Succeeds (addPositionCloseRecord P record) s ↔
      CloseKept s record ∧ (closeRoot P s record).isSome := by
  have hwrite := (@writeClose_cases P { s with
    spentNullifiers := s.spentNullifiers.add record.positionNullifier } s record).1
  unfold Succeeds at hwrite ⊢
  simp only [returns_addPositionCloseRecord_iff, exists_and_left, hwrite]
  exact Iff.rfl

/-- A close that throws has spent the nullifier if its checks pass. -/
theorem throws_addPositionCloseRecord {record : PositionCloseRecord}
    (h : Throws (addPositionCloseRecord P record) s s') :
    ¬ CloseKept s record ∧ s' = s ∨ CloseKept s record ∧ s.extent < s'.extent := by
  rw [addPositionCloseRecord_eq] at h
  simp only [throws_bind, not_throws_read, false_or, returns_read, throws_throwIf, returns_throwIf,
    (checks_assertProof record.proof).throws_iff, (checks_assertProof record.proof).returns_iff,
    throws_spend, returns_spend_iff, id] at h
  obtain ⟨_, _, ⟨rfl, rfl⟩, ⟨hused, rfl⟩ | ⟨_, _, ⟨hfresh, rfl⟩, ⟨hproof, rfl⟩ |
    ⟨_, _, ⟨hproof, rfl⟩, ⟨hspent, rfl⟩ | ⟨_, _, ⟨hunspent, rfl⟩, hthrows⟩⟩⟩⟩ := h
  · refine Or.inl ⟨fun hkept => ?_, rfl⟩
    rw [hkept.fresh] at hused
    exact Bool.false_ne_true hused
  · exact Or.inl ⟨fun hkept => hproof hkept.proof, rfl⟩
  · exact Or.inl ⟨fun hkept => hkept.unspent hspent, rfl⟩
  · have hgrows : NoSmaller ProtocolStore.extent _ s' := Maintains.of_throws inferInstance hthrows
    exact Or.inr ⟨⟨Option.not_isSome_iff_eq_none.mp hfresh, hproof, hunspent⟩,
      (extent_spend hunspent).trans_le hgrows⟩

theorem throws_self_addPositionCloseRecord_iff {record : PositionCloseRecord} :
    Throws (addPositionCloseRecord P record) s s ↔ ¬ CloseKept s record := by
  constructor
  · intro h
    rcases throws_addPositionCloseRecord h with ⟨hnot, -⟩ | ⟨-, hlt⟩
    · exact hnot
    · exact absurd hlt (lt_irrefl _)
  · intro hnot
    rcases throws_or_returns (addPositionCloseRecord P record) s with ⟨s', h⟩ | ⟨u, s', h⟩
    · rcases throws_addPositionCloseRecord h with ⟨-, rfl⟩ | ⟨hkept, -⟩
      · exact h
      · exact absurd hkept hnot
    · exact absurd (returns_addPositionCloseRecord h).1 hnot

/-- **A close is atomic** unless the tree is full once its checks have passed. -/
theorem atomic_addPositionCloseRecord_iff {record : PositionCloseRecord} :
    Atomic (addPositionCloseRecord P record) s ↔
      (CloseKept s record → (closeRoot P s record).isSome) := by
  rw [atomic_iff_succeeds_or_throws, succeeds_addPositionCloseRecord_iff,
    throws_self_addPositionCloseRecord_iff]
  constructor
  · rintro (⟨-, hroot⟩ | hnot) hkept
    · exact hroot
    · exact absurd hkept hnot
  · intro h
    by_cases hkept : CloseKept s record
    · exact Or.inl ⟨hkept, h hkept⟩
    · exact Or.inr hkept

theorem atomic_addPositionClose_iff {record : PositionCloseRecord} :
    Atomic (addPositionClose P record) s ↔
      (s.triggered record → CloseKept s record → (closeRoot P s record).isSome) := by
  unfold addPositionClose
  rw [atomic_read_bind, atomic_throwIf_bind, atomic_addPositionCloseRecord_iff, not_not]
  exact Iff.rfl

/-- The checks of a pair of closes before its first write. -/
structure PairKept (s : ProtocolStore) (trader maker : PositionCloseRecord) (conditional : Bool) :
    Prop where
  paired : ¬ (trader.marketId ≠ maker.marketId ∨ trader.markPrice ≠ maker.markPrice ∨
    trader.positionNullifier = maker.positionNullifier ∨
    trader.closeCommitment = maker.closeCommitment ∨
    trader.marginOutputCommitment = maker.marginOutputCommitment)
  unclosed : ¬ ((s.positionCloses.get? trader.closeCommitment).isSome ∨
    (s.positionCloses.get? maker.closeCommitment).isSome ∨
    trader.positionNullifier ∈ s.spentNullifiers ∨ maker.positionNullifier ∈ s.spentNullifiers)
  traderProof : hasProof s trader.proof
  makerProof : hasProof s maker.proof
  triggered : ¬ (conditional ∧ ¬ s.triggered trader)

theorem PairKept.trader {trader maker : PositionCloseRecord} {conditional : Bool}
    (h : PairKept s trader maker conditional) : CloseKept s trader := by
  have hunclosed := h.unclosed
  push Not at hunclosed
  exact ⟨Option.not_isSome_iff_eq_none.mp hunclosed.1, h.traderProof, hunclosed.2.2.1⟩

/-- The close of the trader does not get in the way of the one of the maker. -/
theorem PairKept.maker {trader maker : PositionCloseRecord} {conditional : Bool}
    (h : PairKept s trader maker conditional) (hwritten : CloseWritten s trader s') :
    CloseKept s' maker := by
  have hunclosed := h.unclosed
  have hpaired := h.paired
  push Not at hunclosed hpaired
  obtain ⟨-, hmaker, -, hunspent⟩ := hunclosed
  obtain ⟨-, -, hnullifier, hclose, -⟩ := hpaired
  refine ⟨?_, ?_, ?_⟩
  · rw [hwritten.closes _ hclose.symm]
    exact Option.not_isSome_iff_eq_none.mp hmaker
  · unfold hasProof
    rw [hwritten.proofs]
    exact h.makerProof
  · rw [hwritten.spent, OrderedSet.mem_add, not_or]
    exact ⟨hunspent, hnullifier.symm⟩

variable (P) in
/-- The root of the tree with the new commitments of both closes. -/
def pairRoot (s : ProtocolStore) (trader maker : PositionCloseRecord) : Option Text :=
  positionMerkleRoot P ((s.positionCommitments.add trader.newPositionCommitment).add
    maker.newPositionCommitment).elems positionMerkleDepth

/-- Once its checks have passed, a pair is atomic exactly when it returns. -/
theorem PairKept.atomic_closes_iff {trader maker : PositionCloseRecord} {conditional : Bool}
    (h : PairKept s trader maker conditional) :
    Atomic (do addPositionCloseRecord P trader; addPositionCloseRecord P maker) s ↔
      (closeRoot P s trader).isSome ∧ (pairRoot P s trader maker).isSome := by
  have hmaker : ∀ u s₁, Returns (addPositionCloseRecord P trader) s u s₁ →
      (Succeeds (addPositionCloseRecord P maker) s₁ ↔ (pairRoot P s trader maker).isSome) := by
    intro u s₁ hfirst
    have hwritten := (returns_addPositionCloseRecord hfirst).2
    have hroot : closeRoot P s₁ maker = pairRoot P s trader maker := by
      unfold closeRoot pairRoot
      rw [hwritten.positions]
    rw [succeeds_addPositionCloseRecord_iff, hroot]
    exact and_iff_right (h.maker hwritten)
  have hstays : ¬ Throws (do
      addPositionCloseRecord P trader
      addPositionCloseRecord P maker) s s := by
    intro hthrows
    rcases throws_bind.mp hthrows with hfirst | ⟨u, s₁, hfirst, hsecond⟩
    · exact throws_self_addPositionCloseRecord_iff.mp hfirst h.trader
    · have hgrows : NoSmaller ProtocolStore.extent s₁ s := Maintains.of_throws inferInstance hsecond
      have hlt := (returns_addPositionCloseRecord hfirst).2.extent
      exact absurd (hlt.trans_le hgrows) (lt_irrefl _)
  rw [atomic_iff_succeeds_or_throws, or_iff_left hstays, succeeds_bind_iff hmaker,
    succeeds_addPositionCloseRecord_iff]
  exact and_congr_left' (and_iff_right h.trader)

/-- **A pair of closes is atomic** unless the tree is full once its checks have passed. -/
theorem atomic_addPairedPositionCloses_iff {trader maker : PositionCloseRecord}
    {conditional : Bool} :
    Atomic (addPairedPositionCloses P trader maker conditional) s ↔
      (PairKept s trader maker conditional →
        (closeRoot P s trader).isSome ∧ (pairRoot P s trader maker).isSome) := by
  unfold addPairedPositionCloses
  simp only [atomic_read_bind, atomic_throwIf_bind, (checks_assertProof _).atomic_bind, id]
  refine ⟨fun h hkept => ?_, fun h hpaired hunclosed htrader hmaker htriggered => ?_⟩
  · exact hkept.atomic_closes_iff.mp
      (h hkept.paired hkept.unclosed hkept.traderProof hkept.makerProof hkept.triggered)
  · have hkept : PairKept s trader maker conditional :=
      ⟨hpaired, hunclosed, htrader, hmaker, htriggered⟩
    exact hkept.atomic_closes_iff.mpr (h hkept)

end Pnlx.Server
