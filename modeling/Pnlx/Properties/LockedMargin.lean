import Pnlx.Lib.Runs
import Pnlx.SampleHost
import Pnlx.Server.StoreLocks

/-!
# The notes of open orders

An order that is submitted names an unspent note that no other order locks. A withdrawal checks
neither. As long as no call spends the note of an order that stays open, and none opens an order
whose note is spent, every open order is backed (`openOrders_backed`).
-/

namespace Pnlx.Server

open BatchMatch (Text)
open Script Runs

variable {H : Host} {P : Fr → Fr → Fr} {s s' : ProtocolStore} {call : StoreCall}
  {now : ℤ}

/-- A call of the store that is rejected when it throws. -/
def acceptStep (H : Host) (P : Fr → Fr → Fr) (store : ProtocolStore) (call : StoreCall) :
    Except String ProtocolStore := (call.script H P).commit store

/-- The note of every open order is unspent, so a settlement can spend it. -/
def Backed (store : ProtocolStore) : Prop :=
  ∀ k n, store.orderStatus k = some statusOpen → store.Locks k n →
    n ∉ store.spentNullifiers ∧ ∃ store', Returns (spend n) store () store'

/-- The orders and their notes with those that a call adds. -/
def LocksWith (store : ProtocolStore) (call : StoreCall) (k n : Text) : Prop :=
  store.Locks k n ∨ (k, n) ∈ call.locks

/-- The order is open after what a call writes. -/
def LeftOpen (store : ProtocolStore) (call : StoreCall) (k : Text) : Prop :=
  writeStatuses store.orderStatus call.writes k = some statusOpen

/-- The call spends no note of an order that it leaves open, and opens no order whose note is spent
already. -/
structure RespectsLocks (store : ProtocolStore) (call : StoreCall) : Prop where
  spends : ∀ n ∈ call.spends, ∀ k, LocksWith store call k n → ¬ LeftOpen store call k
  opens : ∀ k ∈ call.writes.map Prod.fst, LeftOpen store call k →
    ∀ n, LocksWith store call k n → n ∉ store.spentNullifiers

/-! ## One call -/

theorem returns_spend {n : Text} (h : n ∉ s.spentNullifiers) :
    ∃ s', Returns (spend n) s () s' := by
  unfold spend
  simp only [returns_bind, returns_read, returns_throwIf, returns_update, id, exists_eq_left,
    exists_and_left, exists_const, and_assoc]
  exact ⟨h, _, rfl⟩

theorem backed_iff :
    Backed s ↔ ∀ k n, s.orderStatus k = some statusOpen → s.Locks k n → n ∉ s.spentNullifiers :=
  ⟨fun h k n hopen hlock => (h k n hopen hlock).1,
    fun h k n hopen hlock => ⟨h k n hopen hlock, returns_spend (h k n hopen hlock)⟩⟩

theorem writeStatuses_of_notMem {status : Text → Option Text} {writes : List (Text × Text)}
    {k : Text} (hk : k ∉ writes.map Prod.fst) : writeStatuses status writes k = status k := by
  induction writes generalizing status with
  | nil => rfl
  | cons write writes ih =>
    rw [List.map_cons, List.mem_cons, not_or] at hk
    have hrest : writeStatuses status (write :: writes) k =
        Function.update status write.1 (some write.2) k := ih hk.2
    rw [hrest, Function.update_of_ne hk.1]

/-- An order that a call adds has its status written by the call. -/
theorem mem_writes_of_mem_locks {k n : Text} (h : (k, n) ∈ call.locks) :
    k ∈ call.writes.map Prod.fst := by
  cases call with
  | addIntent now record payload =>
    obtain ⟨rfl, -⟩ := Prod.mk.inj (List.mem_singleton.mp h)
    exact List.mem_singleton_self _
  | addSettlement now settlement openings residuals events payloads =>
    obtain ⟨residual, hmem, heq⟩ := List.mem_map.mp h
    obtain ⟨rfl, -⟩ := Prod.mk.inj heq
    rw [StoreCall.writes, List.map_append, List.mem_append, List.map_map, List.map_map]
    exact Or.inr (List.mem_map_of_mem hmem)
  | _ => exact absurd h List.not_mem_nil

/-- The orders that are open after a call are backed if their notes were neither spent before nor
by the call. -/
theorem backed_post_iff (h : Returns (call.script H P) s () s') :
    Backed s' ↔ ∀ k n, LeftOpen s call k → LocksWith s call k n →
      n ∉ s.spentNullifiers ∧ n ∉ call.spends := by
  have heffects := effects_of_returns h
  unfold LeftOpen LocksWith
  rw [backed_iff, heffects.status]
  simp only [heffects.locks, heffects.spent, not_or]

/-- **The step lemma.** From a store whose open orders are backed, a call that returns leaves such
a store if and only if it respects the locks. -/
theorem respectsLocks_iff (hpre : Backed s) (h : Returns (call.script H P) s () s') :
    RespectsLocks s call ↔ Backed s' := by
  rw [backed_post_iff h]
  constructor
  · intro hrespects k n hopen hlock
    refine ⟨?_, fun hspend => hrespects.spends n hspend k hlock hopen⟩
    by_cases hk : k ∈ call.writes.map Prod.fst
    · exact hrespects.opens k hk hopen n hlock
    · -- the call leaves this order as it was
      have hold : s.Locks k n := hlock.resolve_right fun hmem => hk (mem_writes_of_mem_locks hmem)
      unfold LeftOpen at hopen
      rw [writeStatuses_of_notMem hk] at hopen
      exact backed_iff.mp hpre k n hopen hold
  · intro hpost
    constructor
    · intro n hspend k hlock hopen
      exact (hpost k n hopen hlock).2 hspend
    · intro k _ hopen n hlock
      exact (hpost k n hopen hlock).1

/-- A cancellation respects the locks. -/
theorem respectsLocks_cancelOrder (k : Text) (txHash : Option Text) :
    RespectsLocks s (.cancelOrder now k txHash) := by
  refine ⟨fun n hspend => absurd hspend List.not_mem_nil, fun k' hk' hopen => ?_⟩
  obtain rfl : k' = k := List.mem_singleton.mp hk'
  have hstatus : Function.update s.orderStatus k' (some statusCancelled) k' = some statusOpen :=
    hopen
  rw [Function.update_self] at hstatus
  exact absurd (Option.some.inj hstatus) (by decide)

/-- A submission that returns respects the locks, unless its commitment is that of a residual
order. -/
theorem respectsLocks_addIntent {record : IntentRecord} {payload : Option PrivateMatchIntent}
    (hresidual : s.residualOrders.get? record.intentCommitment = none)
    (h : Returns (addIntent H P now record payload) s () s') :
    RespectsLocks s (.addIntent now record payload) := by
  unfold addIntent at h
  simp only [returns_bind, returns_read, returns_throwIf, returns_update, returns_orThrow, id,
    exists_eq_left, exists_and_left, exists_const, and_assoc] at h
  obtain ⟨hfresh, -, -, _, _, -, _, _, -, root, -, -, hunspent, -, -⟩ := h
  refine ⟨fun n hspend => absurd hspend List.not_mem_nil, fun k hk _ n hlock => ?_⟩
  obtain rfl : k = record.intentCommitment := List.mem_singleton.mp hk
  rcases hlock with (⟨record', hget, -⟩ | ⟨record', hget, -⟩) | hadded
  · rw [hget] at hfresh
    exact absurd rfl hfresh
  · rw [hget] at hresidual
    cases hresidual
  · obtain ⟨-, rfl⟩ := Prod.mk.inj (List.mem_singleton.mp hadded)
    exact hunspent

/-! ## Runs -/

theorem backed_empty : Backed .empty := backed_iff.mpr fun k n hopen => by
  cases hopen

/-- **The notes of open orders stay unspent exactly as long as the calls respect the locks.** -/
theorem openOrders_backed (H : Host) (P : Fr → Fr → Fr) (calls : List StoreCall) :
    (∀ x ∈ accepted (acceptStep H P) .empty calls, RespectsLocks x.pre x.act) ↔
      Backed .empty ∧ ∀ x ∈ accepted (acceptStep H P) .empty calls, Backed x.post := by
  constructor
  · intro hrespects
    refine ⟨backed_empty, fun x hx => (around_of_accepted (fun x hrespects h hpre => ?_)
      backed_empty hrespects x hx).2⟩
    exact (respectsLocks_iff hpre (commit_eq_ok.mp h)).mp hrespects
  · rintro ⟨-, hbacked⟩ x hx
    have hpre : Backed x.pre :=
      (around_of_accepted (fun _ hpost _ _ => hpost) backed_empty hbacked x hx).1
    exact (respectsLocks_iff hpre (commit_eq_ok.mp (accepted_ok x hx).1)).mpr (hbacked x hx)

/-! ## The withdrawal of a locked note -/

section Examples

open SampleHost

def sampleNoteNullifier : Text := "0x51".toList

def sampleNoteCommitment : Text := "0x52".toList

def noteRoot : Text :=
  (fieldMerkleRoot pairHash [sampleNoteCommitment] fieldMerkleDepth).getD []

def noteProof (circuitKey : Text) : ProofRecord where
  circuitId := circuitKey
  circuitKey := circuitKey
  verifierHash := "0x1".toList
  publicInputHash := "0x2".toList
  proofDigest := "0x3".toList
  proofSystem := none
  imageId := none
  journalDigest := none
  sealDigest := none

def noteIntent : IntentRecord where
  batchId := "b".toList
  batchDigest := "0x4".toList
  marketId := "A".toList
  marketDigest := "0x5".toList
  marginRoot := noteRoot
  ownerCommitmentField := "0x6".toList
  ownerCommitment := "0x7".toList
  intentCommitment := "0x8".toList
  matchingPayloadCommitment := "0x9".toList
  noteChangeCommitment := "0x0".toList
  proof := noteProof "intent-validity".toList
  noteNullifier := sampleNoteNullifier
  submissionSequence := none

def noteWithdrawal : WithdrawalRecord where
  root := noteRoot
  nullifier := sampleNoteNullifier
  recipient := "0xa".toList
  tokenDigest := "0xb".toList
  withdrawAmount := 5
  changeCommitment := "0x0".toList
  proof := noteProof "withdraw".toList

/-- A note is deposited, locked by an order and withdrawn. -/
def withdrawLocked : List StoreCall :=
  [.addMarginCommitment sampleNoteCommitment, .recordProof noteIntent.proof,
    .addIntent 0 noteIntent none, .recordProof noteWithdrawal.proof, .addWithdrawal noteWithdrawal]

/-- **The note of an open order is withdrawn.** The order stays open, and no settlement can spend
its note. -/
theorem withdrawLocked_not_backed :
    (accepted (acceptStep sampleHost pairHash) .empty withdrawLocked).length =
        withdrawLocked.length ∧
      ¬ ∀ x ∈ accepted (acceptStep sampleHost pairHash) .empty withdrawLocked, Backed x.post := by
  have hrun :
      (accepted (acceptStep sampleHost pairHash) .empty withdrawLocked).length =
        withdrawLocked.length ∧
      ∃ x ∈ accepted (acceptStep sampleHost pairHash) .empty withdrawLocked,
        x.post.orderStatus noteIntent.intentCommitment = some statusOpen ∧
          x.post.intents.get? noteIntent.intentCommitment = some noteIntent ∧
          sampleNoteNullifier ∈ x.post.spentNullifiers := by
    decide +kernel
  obtain ⟨haccepted, x, hx, hopen, hget, hspent⟩ := hrun
  refine ⟨haccepted, fun hbacked => ?_⟩
  have hlock : x.post.Locks noteIntent.intentCommitment sampleNoteNullifier :=
    Or.inl ⟨noteIntent, hget, rfl⟩
  exact (hbacked x hx _ _ hopen hlock).1 hspent

end Examples

end Pnlx.Server
