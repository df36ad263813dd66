import Pnlx.Lib.Ancestry
import Pnlx.Server.VaultMakerBacking

/-!
# Maker notes that the vault backs

`eligibleVaultMakerNotes` selects the notes of the maker that come from deposits registered for
allocations of the vault. It walks from a note through spent parents to a registered one, and leaves
out allocations and series whose notes or allocations exceed their principal.
-/

namespace Pnlx.Server

open BatchMatch (Text)
open Ancestry (Link climb)

/-- An allocation with its identifier. -/
structure ListedAllocation extends VaultMakerAllocation where
  id : Text
  deriving DecidableEq

/-- The last parameter of `eligibleVaultMakerNotes`. The principals have been read from the chain as
decimal digits. -/
structure BackingInput where
  asset : Text
  deployedPrincipal : ℕ
  maker : Text
  seriesPrincipals : ℤ → Option ℕ
  vault : Text

def remainingVaultMakerPrincipal (allocation : VaultMakerAllocation) : Except String ℕ :=
  let remaining := allocation.remainingPrincipal.getD allocation.amount
  if allocation.amount < remaining then
    .error "vault maker allocation has invalid remaining principal"
  else .ok remaining

/-- What `remainingVaultMakerPrincipal` returns once it has not thrown. -/
def VaultMakerAllocation.remaining (allocation : VaultMakerAllocation) : ℕ :=
  allocation.remainingPrincipal.getD allocation.amount

/-- The checks of a candidate before its remaining principal is read. -/
def isOutstanding (input : BackingInput) (allocation : ListedAllocation) : Bool :=
  allocation.status = .outstanding ∧ allocation.vault = input.vault ∧
    allocation.maker = input.maker ∧ allocation.asset = input.asset ∧
    isSafeInteger allocation.series ∧ 0 ≤ allocation.series

/-- The filter of the candidates. -/
def isBacking (input : BackingInput) (allocation : ListedAllocation) : Except String Bool :=
  if isOutstanding input allocation then do
    let remaining ← remainingVaultMakerPrincipal allocation.toVaultMakerAllocation
    .ok (remaining ≤ (input.seriesPrincipals allocation.series).getD 0 ∧ 0 < remaining ∧
      allocation.registeredAmount ≤ allocation.amount)
  else .ok false

/-- `filter` with a test that may throw. -/
def filterOrThrow {α : Type} (test : α → Except String Bool) : List α → Except String (List α)
  | [] => .ok []
  | x :: xs => do
    let keep ← test x
    let rest ← filterOrThrow test xs
    .ok (if keep then x :: rest else rest)

/-- The remaining principals of allocations together. -/
def principalOf (allocations : List ListedAllocation) : ℕ :=
  (allocations.map fun allocation => allocation.remaining).sum

/-- `bySeries.get(series)`. -/
def seriesTotal (candidates : List ListedAllocation) (series : ℤ) : ℕ :=
  principalOf (candidates.filter fun allocation => allocation.series = series)

/-- The candidates by identifier, without the series that exceed their principal. -/
def activeAllocations (input : BackingInput) (candidates : List ListedAllocation) :
    OrderedMap Text ListedAllocation :=
  OrderedMap.empty.setAll ((candidates.filter fun allocation =>
    seriesTotal candidates allocation.series ≤
      (input.seriesPrincipals allocation.series).getD 0).map fun allocation =>
        (allocation.id, allocation))

/-- `byCommitment`. -/
def notesByCommitment (notes : List MakerNote) : OrderedMap Text MakerNote :=
  OrderedMap.empty.setAll (notes.map fun note => (note.commitment, note))

/-- A round of the loop from a note to its parent, with the check after the loop. -/
def parentLink (notes : List MakerNote) (input : BackingInput) (allocation : ListedAllocation)
    (id : Text) (candidate : MakerNote) : Link MakerNote :=
  match given candidate.vaultParentCommitment with
  | none =>
    if candidate.vaultAllocationId = some id ∧
      candidate.commitment ∈ allocation.noteCommitments then .root
    else .broken
  | some parentCommitment =>
    if candidate.vaultAllocationId ≠ some id then .broken
    else
      match (notesByCommitment notes).get? parentCommitment with
      | none => .broken
      | some parent =>
        if parent.status ≠ .spent ∨ parent.walletAddress ≠ input.maker ∨
          parent.token ≠ some input.asset ∨ parent.amount < candidate.amount then .broken
        else .parent parent

/-- The filter of the eligible notes. There is no answer if a walk has used up its fuel. -/
def isEligible (fuel : ℕ) (notes : List MakerNote) (input : BackingInput)
    (active : OrderedMap Text ListedAllocation) (note : MakerNote) : Option Bool :=
  if note.status ≠ .available ∨ note.walletAddress ≠ input.maker ∨
    note.token ≠ some input.asset then some false
  else
    let id := note.vaultAllocationId.getD []
    match active.get? id with
    | none => some false
    | some allocation =>
      (climb (·.commitment) (parentLink notes input allocation id) fuel [] note).map (·.isSome)

/-- The amounts of notes together. -/
def amountOf (notes : List MakerNote) : ℕ := (notes.map (·.amount)).sum

/-- `availableByAllocation.get(id)`. -/
def allocatedTotal (eligible : List MakerNote) (id : Text) : ℕ :=
  amountOf (eligible.filter fun note => note.vaultAllocationId.getD [] = id)

/-- The notes of an allocation exceed what remains of it. -/
def isOverloaded (active : OrderedMap Text ListedAllocation) (eligible : List MakerNote)
    (id : Text) : Bool :=
  (active.get? id).any fun allocation => allocation.remaining < allocatedTotal eligible id

/-- `eligibleVaultMakerNotes`. A walk through the parents has `fuel` rounds at most; without enough
of it there is no answer. -/
def eligibleVaultMakerNotes (fuel : ℕ) (notes : List MakerNote)
    (allocations : List ListedAllocation) (input : BackingInput) :
    Except String (Option (List MakerNote)) := do
  let candidates ← filterOrThrow (isBacking input) allocations
  let active := activeAllocations input candidates
  let totalOutstanding := principalOf active.values
  if totalOutstanding = 0 ∨ input.deployedPrincipal < totalOutstanding then .ok (some [])
  else if notes.all fun note => (isEligible fuel notes input active note).isSome then
    let eligible := notes.filter fun note => isEligible fuel notes input active note = some true
    .ok (some (eligible.filter fun note =>
      ¬ isOverloaded active eligible (note.vaultAllocationId.getD [])))
  else .ok none

end Pnlx.Server
