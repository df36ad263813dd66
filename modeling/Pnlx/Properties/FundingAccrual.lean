import Mathlib.Data.List.Flatten
import Pnlx.Lib.Accrual
import Pnlx.Properties.FundingCircuit
import Pnlx.Properties.FundingUpdates

/-!
# The time that funding is charged for

A settlement charges a market for the elapsed time among its arguments, which is bound to nothing
but a proof.

1. `chronological_charges`: in a run whose ledger time does not go back, the charges of a
   market are in the order of time. `charge_pos`: none of them is zero.
2. `charges_bounded_iff`: funding accrues only for time that has passed, and for no time twice,
   exactly when every settlement compares its elapsed time with the time since the last one.
3. `exists_overcharge`: an hour is charged twice in the moment in which the market is created.
-/

namespace Pnlx

open Accrual Program Runs

variable {H : Host}

/-- The ledger times of an action. -/
def Action.timestamps : Action H → List ℕ
  | .invoke tx => [tx.timestamp]
  | .external _ => []

/-- The ledger time of a run does not go back, and begins with `start`. -/
structure InLedgerOrder (start : ℕ) (as : List (Action H)) : Prop where
  sorted : (as.flatMap Action.timestamps).Pairwise (· ≤ ·)
  start_le : ∀ t ∈ as.flatMap Action.timestamps, start ≤ t

namespace FundingSettlement

/-- The charge of an accepted action against a market of a market contract, in milliseconds. -/
def chargesOf (market : Address × BytesN32) (x : Step (Chain H) (Action H)) : List Charge :=
  match x.act with
  | .invoke ⟨_, timestamp, target, .fundingSettle args⟩ =>
    if (x.pre.storage .fundingSettlement target).marketContract = some market.1 ∧
        args.marketId = market.2 then
      [⟨timestamp, args.elapsedMs.toNat⟩]
    else
      []
  | _ => []

/-- The charges of a run against a market. -/
def charges (e : H.State) (as : List (Action H)) (market : Address × BytesN32) : List Charge :=
  (accepted step (Chain.blank e) as).flatMap (chargesOf market)

/-- A charge is made at the ledger time of its action. -/
theorem times_chargesOf (market : Address × BytesN32) (x : Step (Chain H) (Action H)) :
    ((chargesOf market x).map Charge.time).Sublist x.act.timestamps := by
  obtain ⟨pre, act, post⟩ := x
  cases act with
  | external state => exact List.Sublist.slnil
  | invoke tx =>
    obtain ⟨signers, timestamp, target, call⟩ := tx
    cases call
    case fundingSettle args =>
      unfold chargesOf
      dsimp only
      split_ifs
      · exact List.Sublist.refl _
      · exact List.nil_sublist _
    all_goals exact List.nil_sublist _

theorem times_charges (e : H.State) (as : List (Action H)) (market : Address × BytesN32) :
    ((charges e as market).map Charge.time).Sublist (as.flatMap Action.timestamps) := by
  have hsteps : ((charges e as market).map Charge.time).Sublist
      (((accepted step (Chain.blank e) as).map Step.act).flatMap Action.timestamps) := by
    unfold charges
    rw [List.map_flatMap, List.flatMap_map]
    exact List.Sublist.flatMap_right _ fun x _ => times_chargesOf market x
  exact hsteps.trans (accepted_sublist.flatMap _)

theorem chronological_charges {e : H.State} {start : ℕ} {as : List (Action H)}
    (h : InLedgerOrder start as) (market : Address × BytesN32) :
    Chronological start (charges e as market) := by
  have hsub := times_charges e as market
  refine ⟨?_, fun c hc => h.start_le _ (hsub.subset (List.mem_map_of_mem hc))⟩
  exact List.pairwise_map.mp (h.sorted.sublist hsub)

theorem length_chargesOf (market : Address × BytesN32) (x : Step (Chain H) (Action H)) :
    (chargesOf market x).length ≤ 1 := by
  unfold chargesOf
  split
  · split_ifs
    · exact le_refl 1
    · exact Nat.zero_le 1
  · exact Nat.zero_le 1

/-- A settlement checks that some time has elapsed. -/
theorem charge_pos {e : H.State} {as : List (Action H)} {market : Address × BytesN32} {c : Charge}
    (hc : c ∈ charges e as market) : 0 < c.amount := by
  obtain ⟨⟨pre, act, post⟩, hx, hc⟩ := List.mem_flatMap.mp hc
  have hstep : step pre act = .ok post := (accepted_ok _ hx).1
  unfold chargesOf at hc
  dsimp only at hc
  split at hc
  · split_ifs at hc
    · rw [List.mem_singleton.mp hc]
      have hvalid := (returns_settle.mp (step_invoke_eq_ok.mp hstep)).1
      exact Nat.pos_of_ne_zero fun hzero => hvalid.elapsedMs (BitVec.eq_of_toNat_eq hzero)
    · exact absurd hc List.not_mem_nil
  · exact absurd hc List.not_mem_nil

/-- The ledger time of the last of some settlements of a market, or else the start. -/
def lastSettled (start : ℕ) (market : Address × BytesN32)
    (before : List (Step (Chain H) (Action H))) : ℕ :=
  lastTime start (before.flatMap (chargesOf market))

/-- A settlement charges at most the time since the last settlement of its market. -/
def OnTime (start : ℕ) (before : List (Step (Chain H) (Action H))) (x : Step (Chain H) (Action H)) :
    Prop :=
  match x.act with
  | .invoke ⟨_, timestamp, target, .fundingSettle args⟩ =>
    ∀ m, (x.pre.storage .fundingSettlement target).marketContract = some m →
      args.elapsedMs.toNat ≤ 1000 * (timestamp - lastSettled start (m, args.marketId) before)
  | _ => True

theorem onTime_iff {start : ℕ} {before : List (Step (Chain H) (Action H))}
    {x : Step (Chain H) (Action H)} : OnTime start before x ↔ ∀ market, ∀ c ∈ chargesOf market x,
      Accrual.Due 1000 start (before.flatMap (chargesOf market)) c := by
  unfold OnTime chargesOf
  split
  · constructor
    · intro h market c hc
      split_ifs at hc with hmarket
      · obtain rfl := List.mem_singleton.mp hc
        have honTime := h _ hmarket.1
        rw [hmarket.2] at honTime
        exact honTime
      · exact absurd hc List.not_mem_nil
    · intro h m hm
      refine h (m, _) ⟨_, _⟩ ?_
      rw [if_pos ⟨hm, rfl⟩]
      exact List.mem_singleton_self _
  · exact iff_of_true trivial fun _ c hc => absurd hc List.not_mem_nil

/-- **Accrual.** In every run, the settlements of a market in any stretch of ledger time charge at
most its length and the time since the settlement before it, and no time is charged for twice,
exactly when each settlement charges at most the time since the last one. -/
theorem charges_bounded_iff {e : H.State} {start : ℕ} {as : List (Action H)}
    (h : InLedgerOrder start as) :
    (∀ before x after, accepted step (Chain.blank e) as = before ++ x :: after →
      OnTime start before x) ↔
    ∀ market, Bounded 1000 start (charges e as market) ∧ Apart 1000 (charges e as market) := by
  have htimely : (∀ before x after, accepted step (Chain.blank e) as = before ++ x :: after →
      OnTime start before x) ↔ ∀ market, Timely 1000 start (charges e as market) := by
    unfold charges
    simp only [onTime_iff, timely_flatMap_iff (length_chargesOf _)]
    exact ⟨fun honTime market before x after he => honTime before x after he market,
      fun hdue before x after he market => hdue market before x after he⟩
  rw [htimely]
  refine forall_congr' fun market => ?_
  have hl := chronological_charges (e := e) h market
  constructor
  · exact fun htimely => ⟨htimely.bounded hl, htimely.apart hl⟩
  · exact fun ⟨hbounded, hapart⟩ => hbounded.timely hl (hapart.moments fun c hc => charge_pos hc)

/-! ## Overcharged funding -/

section Examples

open SampleHost

/-- The premium of half a minute, and the one of the next half. -/
def halfPremium : FundingArgs := updateOf 0 15 1200000 30000

def nextPremium : FundingArgs := updateOf 15 30 1200000 30000

/-- The first minute of a market is charged for in two halves, each when it is over. -/
def firstMinute : List (Action sampleHost) :=
  deployFunding ++
    [recordUpdate halfPremium, recordUpdate nextPremium,
      .invoke ⟨[], 30, .contract 9, .fundingSettle halfPremium⟩,
      .invoke ⟨[], 60, .contract 9, .fundingSettle nextPremium⟩]

instance (start : ℕ) (before : List (Step (Chain sampleHost) (Action sampleHost)))
    (x : Step (Chain sampleHost) (Action sampleHost)) : Decidable (OnTime start before x) := by
  unfold OnTime
  split
  · infer_instance
  · infer_instance

theorem bounded_firstMinute :
    charges oracleLedger.external firstMinute (.contract 6, halfPremium.marketId) =
      [⟨30, 30000⟩, ⟨60, 30000⟩] ∧
    ∀ market, Bounded 1000 0 (charges oracleLedger.external firstMinute market) ∧
      Apart 1000 (charges oracleLedger.external firstMinute market) := by
  have hrun : charges oracleLedger.external firstMinute (.contract 6, halfPremium.marketId) =
      [⟨30, 30000⟩, ⟨60, 30000⟩] ∧ (firstMinute.flatMap Action.timestamps).Pairwise (· ≤ ·) := by
    decide +kernel
  have honTime : ∀ i, ∀ h : i < (accepted step oracleLedger firstMinute).length,
      OnTime 0 ((accepted step oracleLedger firstMinute).take i)
        (accepted step oracleLedger firstMinute)[i] := by
    decide +kernel
  have horder : InLedgerOrder 0 firstMinute := ⟨hrun.2, fun _ _ => Nat.zero_le _⟩
  refine ⟨hrun.1, (charges_bounded_iff (e := oracleLedger.external) horder).mp
    fun before x after he => ?_⟩
  replace he : accepted step oracleLedger firstMinute = before ++ x :: after := he
  have hstep := honTime before.length (by rw [he]; simp)
  simpa only [he, List.take_left, List.getElem_append_right (le_refl _), Nat.sub_self,
    List.getElem_cons_zero] using hstep

/-- The arguments of the circuit for an update by `delta` from zero, or back to it. -/
def assignmentOf (args : FundingArgs) (delta : U128) (back : Bool) : FundingUpdate.Assignment :=
  ⟨toField args.marketId, if back then delta else 0, false, if back then 0 else delta, false, 1500,
    10000, back, 3600000, 3600000, 0, 0⟩

/-- A premium and a discount for an hour each, in the moment in which the market is created. -/
def twoHours : List (Action sampleHost) :=
  deployFunding ++ settleUpdate premium ++ settleUpdate discount

/-- **Time is charged for twice.** The two updates satisfy the circuit, and charge two hours
before any time has passed. -/
theorem exists_overcharge :
    (∃ a, premium.Encodes a ∧ FundingUpdate.main a = some ()) ∧
    (∃ a, discount.Encodes a ∧ FundingUpdate.main a = some ()) ∧
    ¬ ∀ (e : sampleHost.State) (start : ℕ) (as : List (Action sampleHost))
      (market : Address × BytesN32), InLedgerOrder start as →
      Bounded 1000 start (charges e as market) := by
  have hpremium : premium.Encodes (assignmentOf premium 15 false) ∧
      FundingUpdate.main (assignmentOf premium 15 false) = some () := by
    unfold FundingArgs.Encodes
    decide +kernel
  have hdiscount : discount.Encodes (assignmentOf discount 15 true) ∧
      FundingUpdate.main (assignmentOf discount 15 true) = some () := by
    unfold FundingArgs.Encodes
    decide +kernel
  refine ⟨⟨_, hpremium⟩, ⟨_, hdiscount⟩, fun h => ?_⟩
  have hfacts : charges oracleLedger.external twoHours (.contract 6, premium.marketId) =
      [⟨0, 3600000⟩, ⟨0, 3600000⟩] ∧ (twoHours.flatMap Action.timestamps).Pairwise (· ≤ ·) := by
    decide +kernel
  have hbound := h oracleLedger.external 0 twoHours (.contract 6, premium.marketId)
    ⟨hfacts.2, fun _ _ => Nat.zero_le _⟩ 0 0 (le_refl 0)
  rw [hfacts.1] at hbound
  exact absurd hbound (by decide)

end Examples

end FundingSettlement

end Pnlx
