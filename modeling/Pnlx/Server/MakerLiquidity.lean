import Pnlx.Server.OrderBook
import Pnlx.Server.VaultMakerBacking

/-!
# Maker liquidity

A run of `MakerLiquidityService` reads all notes of the maker, releases those whose lock is stale,
and offers the rest to the open orders. Another run finalizes a settlement. Both write whole notes
back, one after the other, while claims, drains and withdrawals change single fields.

Which available notes are offered to which orders is an input here, since it depends on the chain,
and so is the order of the notes that are read, which goes by the time of their last change.
-/

namespace Pnlx.Server

open BatchMatch (Text fieldHex)
open Interleaving (Routine)
open Interleaving.Routine

/-- `this.executor.store.orderLifecycle.get(intentCommitment)?.status === status`. -/
def ProtocolStore.hasStatus (store : ProtocolStore) (intentCommitment status : Text) : Bool :=
  store.orderStatus intentCommitment = some status

/-! ## Stale locks -/

/-- The note without its lock. -/
def released (note : MakerNote) : MakerNote :=
  { note with
    lockedByIntentCommitment := none
    sourceIntentCommitment := none
    status := .available }

/-- `unlockStaleMakerLocks`: whether the lock of a note is stale. -/
def isStaleLock (intents : OrderedMap Text IntentRecord) (note : MakerNote) : Bool :=
  note.status = .locked ∧ given note.vaultAllocationId = none ∧
    (given note.lockedByIntentCommitment).any fun intent => (intents.get? intent).isNone

/-- `unlockStaleMakerLocks`. -/
def unlockStaleMakerLocks (notes : List MakerNote) (intents : OrderedMap Text IntentRecord) :
    List MakerNote :=
  notes.map fun note => if isStaleLock intents note then released note else note

/-- The notes that an update of the list has changed. -/
def changedNotes (notes next : List MakerNote) : List MakerNote :=
  ((notes.zip next).filter fun pair => pair.1 ≠ pair.2).map Prod.snd

/-- `reapOrphanedMakerIntents` for one note, whose intent is cancelled when the order that it was
offered to is no longer open, at the time `now` of that intent. -/
def reapMakerIntent (now : Text → ℤ) (note : MakerNote) : StoreScript MakerNote := do
  let store ← Script.read id
  match given note.lockedByIntentCommitment, given note.sourceIntentCommitment with
  | some intent, some source =>
    if note.status ≠ .locked ∨ store.hasStatus source statusOpen ∨
        store.hasStatus intent statusFilled then pure note
    else do
      Script.doIf ((store.orderLifecycle.get? intent).isSome ∧
        store.hasStatus intent statusCancelled = false) (cancelOrder (now intent) intent none)
      pure (released note)
  | _, _ => pure note

def reapOrphanedMakerIntents (now : Text → ℤ) : List MakerNote → StoreScript (List MakerNote)
  | [] => pure []
  | note :: notes => do
    let next ← reapMakerIntent now note
    let rest ← reapOrphanedMakerIntents now notes
    pure (next :: rest)

/-! ## Change notes -/

section Change

variable (H : Host) (poseidon2Hash : Fr → Fr → Fr)

def circuitMarginCommitment (amount : ℤ) (assetDigest blinding ownerDigest rhoDigest : Text) :
    Option Text := do
  let left ← fieldHashPair poseidon2Hash (.hex assetDigest) (.hex (fieldHex (mod amount)))
  let inner ← fieldHashPair poseidon2Hash (.hex rhoDigest) (.hex blinding)
  let right ← fieldHashPair poseidon2Hash (.hex ownerDigest) (.hex inner)
  fieldHashPair poseidon2Hash (.hex left) (.hex right)

def circuitNullifier (rhoDigest spendSecretDigest : Text) : Option Text :=
  fieldHashPair poseidon2Hash (.hex spendSecretDigest) (.hex rhoDigest)

def noteOwnerCommitment (note : MakerNote) : Text :=
  note.ownerCommitment.getD (hashFields H "owner" [.text note.walletAddress])

/-- `buildMakerChangeNote`. -/
def buildMakerChangeNote (note : MakerNote) (margin : ℤ) (sourceIntentCommitment : Text) :
    Except String (Option MakerNote) := do
  let amount := note.amount - margin
  if amount < 0 then .error "maker note change exceeds note amount"
  else if amount = 0 then .ok none
  else do
    let scope := List.intercalate [':'] [sourceIntentCommitment, note.commitment, note.rhoDigest,
      note.blinding, note.spendSecretDigest]
    let rhoDigest := digestToFieldHex H ("maker-change-rho-v1:".toList ++ scope)
    let blinding := digestToFieldHex H ("maker-change-blinding-v1:".toList ++ scope)
    let spendSecretDigest := digestToFieldHex H ("maker-change-spend-v1:".toList ++ scope)
    match circuitMarginCommitment poseidon2Hash amount note.assetDigest blinding note.ownerDigest
        rhoDigest, circuitNullifier poseidon2Hash rhoDigest spendSecretDigest with
    | some commitment, some noteNullifier =>
      .ok (some
        { commitment, noteNullifier, blinding, rhoDigest, spendSecretDigest
          amount := amount.toNat
          assetDigest := note.assetDigest
          ownerCommitment := some (noteOwnerCommitment H note)
          ownerDigest := note.ownerDigest
          token := given note.token
          walletAddress := note.walletAddress
          depositTxHash := none
          status := .available
          lockedByIntentCommitment := none
          sourceIntentCommitment := none
          vaultAllocationId := given note.vaultAllocationId
          vaultParentCommitment := (given note.vaultAllocationId).map fun _ => note.commitment })
    | _, _ => .error "Cannot convert to a BigInt"

/-- The change of a note whose intent has been filled. -/
def settledChange (payloads : OrderedMap Text PrivateMatchIntent) (note : MakerNote)
    (intent : Text) : Except String (Option MakerNote) :=
  match payloads.get? intent, given note.sourceIntentCommitment with
  | some payload, some source => buildMakerChangeNote H poseidon2Hash note payload.margin source
  | _, _ => .ok none

/-- The loop of `finalizeSettlement`: the notes that are written, in order. The notes that have been
passed are `next`. -/
def finalizedNotes (payloads : OrderedMap Text PrivateMatchIntent) (filled : List Text) :
    (notes next : List MakerNote) → Except String (List MakerNote)
  | [], _ => .ok []
  | note :: notes, next =>
    match (given note.lockedByIntentCommitment).filter (· ∈ filled) with
    | none => finalizedNotes payloads filled notes (next ++ [note])
    | some intent => do
      let spent := { note with status := .spent }
      let settled ← settledChange H poseidon2Hash payloads note intent
      let change := settled.filter fun change =>
        (next ++ [spent]).all fun candidate => candidate.commitment ≠ change.commitment
      let rest ← finalizedNotes payloads filled notes (next ++ spent :: change.toList)
      .ok (spent :: change.toList ++ rest)

end Change

/-! ## Requests -/

/-- The documents of the maker and the store of the server. -/
structure LiquidityState where
  db : MakerDatabase
  store : ProtocolStore

/-- An order of notes. -/
structure Arrangement where
  arrange : List MakerNote → List MakerNote
  perm : ∀ notes, (arrange notes).Perm notes

inductive LiquidityRequest where
  | backing (req : BackingRequest)
  | readNotes (order : Arrangement)
  | readStore
  | reap (now : Text → ℤ) (notes : List MakerNote)
  | release (note : MakerNote)
  | save (note : MakerNote)
  | transition (commitment : Text) (source target : MakerNoteStatus)
  | recordRecovery (commitment : Text) (amount : ℕ)
  | call (call : StoreCall)

abbrev LiquidityReply : LiquidityRequest → Type
  | .backing req => BackingReply req
  | .readNotes _ => List MakerNote
  | .readStore => ProtocolStore
  | .reap _ _ => Except String (List MakerNote)
  | .release _ | .save _ => Unit
  | .transition .. | .recordRecovery .. => Bool
  | .call _ => Except String Unit

/-- `$set` with the fields of a note: the document keeps its own where the note has none. A release
sets the fields of the lock to nothing. -/
def mergedNote (clears : Bool) (note old : MakerNote) : MakerNote :=
  { note with
    ownerCommitment := note.ownerCommitment.or old.ownerCommitment
    token := note.token.or old.token
    depositTxHash := note.depositTxHash.or old.depositTxHash
    vaultAllocationId := note.vaultAllocationId.or old.vaultAllocationId
    vaultParentCommitment := note.vaultParentCommitment.or old.vaultParentCommitment
    lockedByIntentCommitment :=
      if clears then none else note.lockedByIntentCommitment.or old.lockedByIntentCommitment
    sourceIntentCommitment :=
      if clears then none else note.sourceIntentCommitment.or old.sourceIntentCommitment }

/-- `saveMakerNotes` for one note. -/
def writeNote (clears : Bool) (note : MakerNote) (documents : OrderedMap Text MakerNote) :
    OrderedMap Text MakerNote :=
  documents.set note.commitment
    (((documents.get? note.commitment).map (mergedNote clears note)).getD note)

section Calls

variable (H : Host) (poseidon2Hash : Fr → Fr → Fr)

def performLiquidity :
    (req : LiquidityRequest) → LiquidityState → LiquidityState × LiquidityReply req
  | .backing req, s =>
    let result := performBacking req s.db
    ({ s with db := result.1 }, result.2)
  | .readNotes order, s => (s, order.arrange s.db.notes.values)
  | .readStore, s => (s, s.store)
  | .reap now notes, s =>
    let result := reapOrphanedMakerIntents now notes s.store
    ({ s with store := result.2 }, result.1)
  | .release note, s => ({ s with db.notes := writeNote true note s.db.notes }, ())
  | .save note, s => ({ s with db.notes := writeNote false note s.db.notes }, ())
  | .transition commitment source target, s =>
    let result := updateOne s.db.notes commitment (fun note => note.status = source) fun note =>
      { note with status := target }
    ({ s with db.notes := result.1 }, result.2)
  | .recordRecovery commitment amount, s =>
    let result := updateOne s.db.notes commitment
      (fun note => note.status = .withdrawing ∧ note.amount = amount) fun note =>
        { note with status := .spent }
    ({ s with db.notes := result.1 }, result.2)
  | .call call, s =>
    let result := call.script H poseidon2Hash s.store
    ({ s with store := result.2 }, result.1)

/-! ## Runs of the service -/

abbrev LiquidityRoutine := Routine LiquidityRequest LiquidityReply String

def releaseAll : List MakerNote → LiquidityRoutine Unit
  | [] => returns ()
  | note :: notes => do
    let _ ← ask (LiquidityRequest.release note)
    releaseAll notes

def saveAll : List MakerNote → LiquidityRoutine Unit
  | [] => returns ()
  | note :: notes => do
    let _ ← ask (LiquidityRequest.save note)
    saveAll notes

/-- `indexMakerMarginCommitments`. -/
def indexMakerMarginCommitments : List MakerNote → LiquidityRoutine Unit
  | [] => returns ()
  | note :: notes => do
    if note.status = .spent ∨ note.status = .pending then indexMakerMarginCommitments notes
    else
      let _ ← ask (LiquidityRequest.call (.addMarginCommitment note.commitment))
      indexMakerMarginCommitments notes

/-- An allocation of a note to an order: the note, and the intent that is submitted for it with the
time of its submission. -/
structure MakerOffer where
  commitment : Text
  submittedAt : ℤ
  record : IntentRecord
  payload : Option PrivateMatchIntent

/-- An open order with the notes that are offered to it. -/
structure ClientOffer where
  source : Text
  offers : List MakerOffer

def hasLockedMakerForSource (notes : List MakerNote) (source : Text) : Bool :=
  notes.any fun note => note.status = .locked ∧ note.sourceIntentCommitment = some source ∧
    (given note.lockedByIntentCommitment).isSome

def lockMakerNote (notes : List MakerNote) (commitment intentCommitment source : Text) :
    List MakerNote :=
  notes.map fun note =>
    if note.commitment = commitment then claimedBy intentCommitment source note else note

/-- The allocations of an order whose note is available. -/
def ClientOffer.allocations (client : ClientOffer) (notes : List MakerNote) :
    List (MakerOffer × MakerNote) :=
  client.offers.filterMap fun offer =>
    (notes.find? fun note => note.commitment = offer.commitment ∧ note.status = .available).map
      fun note => (offer, note)

/-- The loop over the allocations of an order, with the rest of the run. -/
def offerNotes (source : Text) (continues : List MakerNote → LiquidityRoutine Unit) :
    List (MakerOffer × MakerNote) → List MakerNote → LiquidityRoutine Unit
  | [], notes => continues notes
  | (offer, note) :: allocations, notes => do
    let record := { offer.record with noteNullifier := note.noteNullifier }
    let claimed ← (claimMakerNote note.commitment record.intentCommitment source
      note.vaultAllocationId).embed LiquidityRequest.backing
    if claimed then
      let added : Except String Unit ←
        ask (LiquidityRequest.call (.addIntent offer.submittedAt record offer.payload))
      ofExcept added
      let next := lockMakerNote notes note.commitment record.intentCommitment source
      saveAll (next.filter fun other => other.commitment = note.commitment)
      offerNotes source continues allocations next
    else offerNotes source continues allocations notes

def offerClients : List ClientOffer → List MakerNote → LiquidityRoutine Unit
  | [], _ => returns ()
  | client :: clients, notes =>
    if hasLockedMakerForSource notes client.source then offerClients clients notes
    else offerNotes client.source (offerClients clients) (client.allocations notes) notes

def ensureForMarket (order : Arrangement) (now : Text → ℤ) (clients : List ClientOffer) :
    LiquidityRoutine Unit := do
  let notes : List MakerNote ← ask (LiquidityRequest.readNotes order)
  let store : ProtocolStore ← ask LiquidityRequest.readStore
  let unlocked := unlockStaleMakerLocks notes store.intents
  releaseAll (changedNotes notes unlocked)
  let reaped : Except String (List MakerNote) ← ask (LiquidityRequest.reap now unlocked)
  let next ← ofExcept reaped
  releaseAll (changedNotes unlocked next)
  indexMakerMarginCommitments next
  offerClients clients next

def finalizeSettlement (order : Arrangement) (filled : List Text) : LiquidityRoutine Unit := do
  let notes : List MakerNote ← ask (LiquidityRequest.readNotes order)
  let store : ProtocolStore ← ask LiquidityRequest.readStore
  let writes ← ofExcept
    (finalizedNotes H poseidon2Hash store.privateMatchIntents filled notes [])
  saveAll writes

/-- The loop over the notes that the maker withdraws. -/
def withdrawEach : List MakerNote → LiquidityRoutine Unit
  | [] => returns ()
  | note :: notes => do
    if note.status = .available ∨ note.status = .draining then
      let claimed : Bool ←
        ask (LiquidityRequest.transition note.commitment note.status .withdrawing)
      throwIf (claimed = false) "maker note changed before withdrawal"
    let recovered : Bool ← ask (LiquidityRequest.recordRecovery note.commitment note.amount)
    throwIf (recovered = false) "maker note changed before recovery could be recorded"
    withdrawEach notes

/-- The withdrawal of the notes among `commitments`. -/
def withdrawMakerNotes (order : Arrangement) (commitments : List Text) : LiquidityRoutine Unit := do
  let notes : List MakerNote ← ask (LiquidityRequest.readNotes order)
  withdrawEach (notes.filter fun note => note.commitment ∈ commitments ∧
    (note.status = .available ∨ note.status = .draining ∨ note.status = .withdrawing))

inductive LiquidityCall where
  | ensure (order : Arrangement) (now : Text → ℤ) (clients : List ClientOffer)
  | finalize (order : Arrangement) (filled : List Text)
  | backing (call : BackingCall)
  | withdraw (order : Arrangement) (commitments : List Text)
  | server (call : StoreCall)

def LiquidityCall.routine : LiquidityCall → LiquidityRoutine Unit
  | ensure order now clients => ensureForMarket order now clients
  | finalize order filled => finalizeSettlement H poseidon2Hash order filled
  | backing call => call.routine.embed LiquidityRequest.backing
  | withdraw order commitments => withdrawMakerNotes order commitments
  | server call => do
    let result : Except String Unit ← ask (LiquidityRequest.call call)
    ofExcept result

/-- The database, the store and the calls that are running. -/
abbrev LiquidityWorld :=
  Interleaving.World LiquidityCall LiquidityRequest LiquidityReply String Unit LiquidityState

/-- A step of a call: its next request, or its end. -/
def liquidityStep (w : LiquidityWorld) (act : Interleaving.Act LiquidityCall) :
    Except String LiquidityWorld :=
  w.step (performLiquidity H poseidon2Hash) (LiquidityCall.routine H poseidon2Hash) act

end Calls

end Pnlx.Server
