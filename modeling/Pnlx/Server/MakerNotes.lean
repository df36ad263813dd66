import Pnlx.Lib.Ordered
import Pnlx.Server.Texts

/-!
# The maker notes in the database

The notes of the maker are documents with a status, and `vault_maker_allocations` says which of them
are backed by the vault. Every request changes documents one at a time, and only if they match its
filter. Times are left out, since nothing here reads them.
-/

namespace Pnlx.Server

open BatchMatch (Text)

inductive MakerNoteStatus where
  | pending
  | available
  | locked
  | draining
  | withdrawing
  | spent
  deriving DecidableEq

/-- `StoredMakerNote`. -/
structure MakerNote where
  commitment : Text
  noteNullifier : Text
  amount : ℕ
  assetDigest : Text
  blinding : Text
  ownerCommitment : Option Text
  ownerDigest : Text
  rhoDigest : Text
  spendSecretDigest : Text
  token : Option Text
  walletAddress : Text
  depositTxHash : Option Text
  status : MakerNoteStatus
  lockedByIntentCommitment : Option Text
  sourceIntentCommitment : Option Text
  vaultAllocationId : Option Text
  vaultParentCommitment : Option Text
  deriving DecidableEq

inductive AllocationStatus where
  | outstanding
  | draining
  | closed
  deriving DecidableEq

structure VaultMakerAllocation where
  amount : ℕ
  asset : Text
  maker : Text
  noteCommitments : List Text
  remainingPrincipal : Option ℕ
  registeredAmount : ℕ
  series : ℤ
  status : AllocationStatus
  vault : Text
  deriving DecidableEq

/-! ## Requests -/

section Documents

variable {ν : Type} {documents : OrderedMap Text ν} {id id' : Text} {filter : ν → Bool}
  {update : ν → ν}

/-- `updateOne` of a document, and whether it matched. -/
def updateOne (documents : OrderedMap Text ν) (id : Text) (filter : ν → Bool) (update : ν → ν) :
    OrderedMap Text ν × Bool :=
  match (documents.get? id).filter filter with
  | some document => (documents.set id (update document), true)
  | none => (documents, false)

/-- `updateMany`. -/
def updateMany (documents : OrderedMap Text ν) (filter : ν → Bool) (update : ν → ν) :
    OrderedMap Text ν :=
  documents.mapValues fun document => if filter document then update document else document

/-- An update either finds its document or changes nothing. -/
theorem updateOne_cases (documents : OrderedMap Text ν) (id : Text) (filter : ν → Bool)
    (update : ν → ν) :
    (∃ document, documents.get? id = some document ∧ filter document = true ∧
      updateOne documents id filter update = (documents.set id (update document), true)) ∨
    ((∀ document, documents.get? id = some document → filter document = false) ∧
      updateOne documents id filter update = (documents, false)) := by
  unfold updateOne
  cases hget : documents.get? id with
  | none => exact Or.inr ⟨nofun, rfl⟩
  | some document =>
    by_cases hfilter : filter document = true
    · rw [Option.filter_some_pos hfilter]
      exact Or.inl ⟨document, rfl, hfilter, rfl⟩
    · rw [Bool.not_eq_true] at hfilter
      rw [Option.filter_some_neg hfilter]
      refine Or.inr ⟨?_, rfl⟩
      rintro other ⟨⟩
      exact hfilter

/-- What a document is after an update. -/
theorem get?_updateOne {document : ν}
    (h : (updateOne documents id filter update).1.get? id' = some document) :
    documents.get? id' = some document ∨
      id' = id ∧ ∃ old, documents.get? id = some old ∧ filter old = true ∧
        document = update old := by
  rcases updateOne_cases documents id filter update with ⟨old, hold, hfilter, he⟩ | ⟨-, he⟩
  · rw [he] at h
    by_cases hid : id' = id
    · subst hid
      rw [OrderedMap.get?_set_self] at h
      exact Or.inr ⟨rfl, old, hold, hfilter, (Option.some.inj h).symm⟩
    · rw [OrderedMap.get?_set_of_ne hid] at h
      exact Or.inl h
  · rw [he] at h
    exact Or.inl h

/-- An update removes nothing. -/
theorem isSome_updateOne (h : (documents.get? id').isSome) :
    ((updateOne documents id filter update).1.get? id').isSome := by
  rcases updateOne_cases documents id filter update with ⟨old, -, -, he⟩ | ⟨-, he⟩
  · rw [he, OrderedMap.get?_set]
    split_ifs
    · rfl
    · exact h
  · rw [he]
    exact h

theorem get?_updateMany :
    (updateMany documents filter update).get? id =
      (documents.get? id).map fun document =>
        if filter document then update document else document :=
  OrderedMap.get?_mapValues ..

end Documents

/-- `claimMakerNote`: the filter of its update. -/
def claimable (vaultAllocationId : Option Text) (note : MakerNote) : Bool :=
  note.status = .available ∧
    (given vaultAllocationId).all fun id => note.vaultAllocationId = some id

/-- `claimMakerNote`: its update. -/
def claimedBy (intentCommitment sourceIntentCommitment : Text) (note : MakerNote) : MakerNote :=
  { note with
    status := .locked
    lockedByIntentCommitment := some intentCommitment
    sourceIntentCommitment := some sourceIntentCommitment }

/-- `beginVaultMakerDrain`: the filter of its update of the notes. -/
def drainable (vaultAllocationId : Text) (note : MakerNote) : Bool :=
  note.vaultAllocationId = some vaultAllocationId ∧ note.status = .available

end Pnlx.Server
