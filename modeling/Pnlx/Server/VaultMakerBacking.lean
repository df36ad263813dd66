import Pnlx.Lib.Interleaving
import Pnlx.Server.MakerNotes

/-!
# Vault backing of the maker notes

`registerVaultMakerNote` reserves a part of an allocation for a note and then tags the note with the
allocation. `beginVaultMakerDrain` and `closeVaultMakerAllocation` end an allocation, and
`claimMakerNote` locks a note for an intent. The calls share a database and make their requests in
any order between each other.
-/

namespace Pnlx.Server

open BatchMatch (Text)
open Interleaving (Routine)
open Interleaving.Routine

/-! ## Texts -/

/-- `normalizedHash`. -/
def normalizedHash (value : Text) : Except String Text :=
  let digits := match value with
    | '0' :: x :: digits => if x = 'x' ∨ x = 'X' then digits else value
    | _ => value
  let hash := digits.map Char.toLower
  if hash.length = 64 ∧ hash.all (· ∈ "0123456789abcdef".toList) then .ok hash
  else .error "invalid transaction hash"

/-- The text is `C` and 55 characters of the base32 alphabet. -/
def isContractAddress (vault : Text) : Bool :=
  vault.head? = some 'C' ∧ vault.length = 56 ∧
    vault.tail.all (· ∈ "ABCDEFGHIJKLMNOPQRSTUVWXYZ234567".toList)

def allocationId (vault txHash : Text) : Except String Text :=
  if isContractAddress vault then (normalizedHash txHash).map fun hash => vault ++ ':' :: hash
  else .error "invalid vault contract address"

/-- `positiveAmount`: a decimal numeral that does not begin with a zero. -/
def positiveAmount (value : Text) : Except String ℕ :=
  if value ≠ [] ∧ value.head? ≠ some '0' ∧ value.all (·.isDigit) then
    .ok ((Numerals.readDigits 10 0 value).getD 0)
  else .error "amount must be positive base units"

/-- `Number.isSafeInteger` of an integer. -/
def isSafeInteger (value : ℤ) : Bool := value.natAbs < 2 ^ 53

/-! ## Requests -/

/-- The collections `vault_maker_allocations` and `maker_notes`. -/
structure MakerDatabase where
  allocations : OrderedMap Text VaultMakerAllocation
  notes : OrderedMap Text MakerNote

/-- The part of a registration that the filter of the tag reads. -/
structure NoteTag where
  id : Text
  asset : Text
  commitment : Text
  depositTxHash : Option Text
  maker : Text
  noteAmount : ℕ
  deriving DecidableEq

inductive BackingRequest where
  | findNote (commitment : Text)
  | findAllocation (id : Text)
  | findOutstanding (id : Text)
  | reserve (id : Text) (registeredAmount : ℕ) (commitment : Text) (nextAmount : ℕ)
  | tagNote (tag : NoteTag)
  | drainAllocation (id : Text)
  | drainNotes (id : Text)
  | countActive (id : Text)
  | closeAllocation (id : Text)
  | claimNote (commitment intentCommitment sourceIntentCommitment : Text)
    (vaultAllocationId : Option Text)

/-- What a request is answered with. An update says whether it found its document. -/
abbrev BackingReply : BackingRequest → Type
  | .findNote _ => Option MakerNote
  | .findAllocation _ | .findOutstanding _ => Option VaultMakerAllocation
  | .countActive _ => ℕ
  | .drainAllocation _ | .drainNotes _ => Unit
  | .reserve .. | .tagNote _ | .closeAllocation _ | .claimNote .. => Bool

/-- `status: { $in: ["pending", "available", "locked", "draining", "withdrawing"] }`. -/
def isActive (status : MakerNoteStatus) : Bool := status ≠ .spent

/-- The filter of the count of the notes that belong to an allocation. -/
def belongsTo (id : Text) (note : MakerNote) : Bool :=
  note.vaultAllocationId = some id ∧ isActive note.status

/-- The filter of the reservation of a part of an allocation. -/
def reservable (registeredAmount : ℕ) (commitment : Text) (allocation : VaultMakerAllocation) :
    Bool :=
  allocation.registeredAmount = registeredAmount ∧ commitment ∉ allocation.noteCommitments ∧
    allocation.status = .outstanding

def reserved (commitment : Text) (nextAmount : ℕ) (allocation : VaultMakerAllocation) :
    VaultMakerAllocation :=
  { allocation with
    registeredAmount := nextAmount
    noteCommitments := allocation.noteCommitments ++ [commitment] }

/-- The filter of the update that tags a note. -/
def taggable (tag : NoteTag) (note : MakerNote) : Bool :=
  note.status = .available ∧ note.walletAddress = tag.maker ∧ note.token = some tag.asset ∧
    note.amount = tag.noteAmount ∧ note.depositTxHash = tag.depositTxHash ∧
    note.vaultParentCommitment = none ∧ note.vaultAllocationId.all fun id => id = tag.id

def tagged (id : Text) (note : MakerNote) : MakerNote := { note with vaultAllocationId := some id }

/-- An allocation that is not closed. -/
def isOpen (allocation : VaultMakerAllocation) : Bool := allocation.status ≠ .closed

def performBacking : (req : BackingRequest) → MakerDatabase → MakerDatabase × BackingReply req
  | .findNote commitment, db => (db, db.notes.get? commitment)
  | .findAllocation id, db => (db, db.allocations.get? id)
  | .findOutstanding id, db =>
    (db, (db.allocations.get? id).filter fun allocation => allocation.status = .outstanding)
  | .reserve id registeredAmount commitment nextAmount, db =>
    let result := updateOne db.allocations id (reservable registeredAmount commitment)
      (reserved commitment nextAmount)
    ({ db with allocations := result.1 }, result.2)
  | .tagNote tag, db =>
    let result := updateOne db.notes tag.commitment (taggable tag) (tagged tag.id)
    ({ db with notes := result.1 }, result.2)
  | .drainAllocation id, db =>
    ({ db with
      allocations := (updateOne db.allocations id (fun allocation =>
        allocation.status = .outstanding) fun allocation =>
          { allocation with status := .draining }).1 }, ())
  | .drainNotes id, db =>
    ({ db with notes := updateMany db.notes (drainable id) fun note =>
      { note with status := .draining } }, ())
  | .countActive id, db => (db, db.notes.values.countP (belongsTo id))
  | .closeAllocation id, db =>
    let result := updateOne db.allocations id isOpen fun allocation =>
      { allocation with status := .closed, remainingPrincipal := some 0 }
    ({ db with allocations := result.1 }, result.2)
  | .claimNote commitment intentCommitment sourceIntentCommitment vaultAllocationId, db =>
    let result := updateOne db.notes commitment (claimable vaultAllocationId)
      (claimedBy intentCommitment sourceIntentCommitment)
    ({ db with notes := result.1 }, result.2)

/-! ## Calls -/

abbrev BackingRoutine := Routine BackingRequest BackingReply String

def closeVaultMakerAllocation (id : Text) : BackingRoutine Unit := do
  let activeNotes : ℕ ← ask (BackingRequest.countActive id)
  throwIf (activeNotes ≠ 0) "maker notes still belong to the vault allocation"
  let closed : Bool ← ask (BackingRequest.closeAllocation id)
  throwIf (closed = false) "outstanding vault allocation was not found"

def beginVaultMakerDrain (id : Text) : BackingRoutine Unit := do
  let found : Option VaultMakerAllocation ← ask (BackingRequest.findAllocation id)
  throwIf (found.all fun allocation => allocation.status = .closed)
    "outstanding vault allocation was not found for draining"
  let _ ← ask (BackingRequest.drainAllocation id)
  let _ ← ask (BackingRequest.drainNotes id)

structure RegisterInput where
  allocationTxHash : Text
  asset : Text
  commitment : Text
  depositTxHash : Text
  maker : Text
  noteAmount : Text
  vault : Text

/-- An allocation that a note may be registered for. -/
def registrable (input : RegisterInput) (allocation : VaultMakerAllocation) : Bool :=
  allocation.vault = input.vault ∧ allocation.asset = input.asset ∧
    allocation.maker = input.maker ∧ isSafeInteger allocation.series ∧ 0 ≤ allocation.series ∧
    allocation.status = .outstanding

/-- The attempts to reserve a part of the allocation. -/
def reserveNote (input : RegisterInput) (id : Text) (noteAmount : ℕ) : ℕ → BackingRoutine Unit
  | 0 => throws "vault allocation changed during registration"
  | attempts + 1 => do
    let found : Option VaultMakerAllocation ← ask (BackingRequest.findAllocation id)
    let current ← orThrow (found.filter (registrable input))
      "recorded vault allocation was not found for registration"
    if input.commitment ∈ current.noteCommitments then returns ()
    else do
      let nextAmount := current.registeredAmount + noteAmount
      throwIf (current.amount < nextAmount) "maker notes exceed vault allocation"
      let updated : Bool ←
        ask (BackingRequest.reserve id current.registeredAmount input.commitment nextAmount)
      if updated then returns () else reserveNote input id noteAmount attempts

/-- A note that matches the verified deposit, but for the hash of the deposit. -/
def matchesDeposit (input : RegisterInput) (noteAmount : ℕ) (note : MakerNote) : Bool :=
  note.status = .available ∧ note.walletAddress = input.maker ∧ note.token = some input.asset ∧
    note.amount = noteAmount ∧ given note.vaultParentCommitment = none

def registerVaultMakerNote (input : RegisterInput) : BackingRoutine VaultMakerAllocation := do
  let id ← ofExcept (allocationId input.vault input.allocationTxHash)
  let noteAmount ← ofExcept (positiveAmount input.noteAmount)
  let depositTxHash ← ofExcept (normalizedHash input.depositTxHash)
  let found : Option MakerNote ← ask (BackingRequest.findNote input.commitment)
  let note ← orThrow (found.filter (matchesDeposit input noteAmount))
    "maker note does not match the verified vault deposit"
  let hash ← ofExcept (normalizedHash (note.depositTxHash.getD []))
  throwIf (hash ≠ depositTxHash) "maker note does not match the verified vault deposit"
  throwIf ((given note.vaultAllocationId).any (· ≠ id))
    "maker note already belongs to another allocation"
  reserveNote input id noteAmount 5
  let tagged : Bool ← ask (BackingRequest.tagNote
    { id, asset := input.asset, commitment := input.commitment, maker := input.maker, noteAmount
      depositTxHash := note.depositTxHash })
  throwIf (tagged = false) "maker note changed before vault backing could be attached"
  let registered : Option VaultMakerAllocation ← ask (BackingRequest.findAllocation id)
  orThrow registered "vault allocation registration disappeared"

def claimMakerNote (commitment intentCommitment sourceIntentCommitment : Text)
    (vaultAllocationId : Option Text) : BackingRoutine Bool := do
  match given vaultAllocationId with
  | none => ask (BackingRequest.claimNote commitment intentCommitment sourceIntentCommitment none)
  | some id =>
    let allocation : Option VaultMakerAllocation ← ask (BackingRequest.findOutstanding id)
    if allocation.isNone then returns false
    else ask (BackingRequest.claimNote commitment intentCommitment sourceIntentCommitment (some id))

inductive BackingCall where
  | register (input : RegisterInput)
  | drain (id : Text)
  | close (id : Text)
  | claim (commitment intentCommitment sourceIntentCommitment : Text)
    (vaultAllocationId : Option Text)

def BackingCall.routine : BackingCall → BackingRoutine Unit
  | register input => do
    let _ ← registerVaultMakerNote input
  | drain id => beginVaultMakerDrain id
  | close id => closeVaultMakerAllocation id
  | claim commitment intentCommitment sourceIntentCommitment vaultAllocationId => do
    let _ ← claimMakerNote commitment intentCommitment sourceIntentCommitment vaultAllocationId

/-- The database and the calls that are running. -/
abbrev BackingWorld :=
  Interleaving.World BackingCall BackingRequest BackingReply String Unit MakerDatabase

/-- A step of a call: its next request, or its end. -/
def backingStep (w : BackingWorld) (act : Interleaving.Act BackingCall) :
    Except String BackingWorld :=
  w.step performBacking BackingCall.routine act

end Pnlx.Server
