import Pnlx.Circuits.IntentValidity
import Pnlx.Circuits.LiquidationCheck
import Pnlx.Circuits.PositionClose
import Pnlx.Circuits.Withdraw
import Pnlx.SampleHost

/-!
# Nullifiers of one commitment

The four circuits that spend something expose `hashPair spendSecretDigest rhoDigest` as the
nullifier. The commitment binds `rhoDigest`, but no circuit binds `spendSecretDigest` to it. Two
proofs that spend one commitment therefore expose one nullifier exactly when their provers chose
the same secret (`nullifier_eq_iff`).
-/

namespace Pnlx

/-- The arguments of a circuit that spends a margin note or a position. -/
inductive Spend where
  | withdraw (a : Withdraw.Assignment)
  | intentValidity (a : IntentValidity.Assignment)
  | positionClose (a : PositionCloseCircuit.Assignment)
  | liquidationCheck (a : LiquidationCheck.Assignment)

namespace Spend

def main (H : Host) : Spend → Option Unit
  | withdraw a => Withdraw.main H a
  | intentValidity a => IntentValidity.main H a
  | positionClose a => PositionCloseCircuit.main H a
  | liquidationCheck a => LiquidationCheck.main H a

def spendsPosition : Spend → Bool
  | withdraw _ | intentValidity _ => false
  | positionClose _ | liquidationCheck _ => true

/-- The commitment that is opened. Only the withdraw circuit keeps it private. -/
def commitment (H : Host) : Spend → Fr
  | withdraw a => a.note.commitment H
  | intentValidity a => a.noteCommitmentPublic
  | positionClose a => a.positionCommitmentPublic
  | liquidationCheck a => a.positionCommitmentPublic

def nullifier : Spend → Fr
  | withdraw a => a.nullifier
  | intentValidity a => a.noteNullifier
  | positionClose a => a.positionNullifier
  | liquidationCheck a => a.positionNullifier

def rhoDigest : Spend → Fr
  | withdraw a => a.rhoDigest
  | intentValidity a => a.rhoDigest
  | positionClose a => a.rhoDigest
  | liquidationCheck a => a.rhoDigest

def spendSecretDigest : Spend → Fr
  | withdraw a => a.spendSecretDigest
  | intentValidity a => a.spendSecretDigest
  | positionClose a => a.spendSecretDigest
  | liquidationCheck a => a.spendSecretDigest

/-- The pairs that the circuit hashes for its commitments and its nullifier. -/
def queries (H : Host) : Spend → List (Fr × Fr)
  | withdraw a => a.queries H
  | intentValidity a => a.queries H
  | positionClose a => a.queries H
  | liquidationCheck a => a.queries H

/-- All pairs of the circuit lie in `Q`. -/
def Within (H : Host) (Q : Set (Fr × Fr)) (s : Spend) : Prop := ∀ q ∈ s.queries H, q ∈ Q

variable {H : Host} {Q : Set (Fr × Fr)} {s t : Spend}

theorem nullifier_eq (h : s.main H = some ()) :
    s.nullifier = hashPair H s.spendSecretDigest s.rhoDigest := by
  cases s with
  | withdraw a => exact (Withdraw.facts h).nullifier.symm
  | intentValidity a => exact (IntentValidity.facts h).nullifier.symm
  | positionClose a => exact (PositionCloseCircuit.facts h).nullifier.symm
  | liquidationCheck a => exact (LiquidationCheck.facts h).nullifier.symm

theorem nullifier_within (h : s.Within H Q) : (s.spendSecretDigest, s.rhoDigest) ∈ Q := by
  cases s with
  | withdraw a => exact Withdraw.Assignment.nullifier_within h
  | intentValidity a => exact IntentValidity.Assignment.nullifier_within h
  | positionClose a => exact PositionCloseCircuit.Assignment.nullifier_within h
  | liquidationCheck a => exact LiquidationCheck.Assignment.nullifier_within h

/-- The margin note that is opened. -/
theorem exists_note (h : s.main H = some ()) (hs : s.Within H Q) (hk : s.spendsPosition = false) :
    ∃ n : Note, n.commitment H = s.commitment H ∧ n.rhoDigest = s.rhoDigest ∧ n.Within H Q := by
  cases s with
  | withdraw a => exact ⟨a.note, rfl, rfl, Withdraw.Assignment.note_within hs⟩
  | intentValidity a =>
    exact ⟨a.note, (IntentValidity.facts h).note, rfl, IntentValidity.Assignment.note_within hs⟩
  | positionClose a => exact Bool.noConfusion hk
  | liquidationCheck a => exact Bool.noConfusion hk

/-- The position that is opened. -/
theorem exists_position (h : s.main H = some ()) (hs : s.Within H Q)
    (hk : s.spendsPosition = true) :
    ∃ p : Position, p.commitment H = s.commitment H ∧ p.rhoDigest = s.rhoDigest ∧
      p.Within H Q := by
  cases s with
  | withdraw a => exact Bool.noConfusion hk
  | intentValidity a => exact Bool.noConfusion hk
  | positionClose a =>
    exact ⟨a.position, (PositionCloseCircuit.facts h).position, rfl,
      PositionCloseCircuit.Assignment.position_within hs⟩
  | liquidationCheck a =>
    exact ⟨a.position, (LiquidationCheck.facts h).position, rfl,
      LiquidationCheck.Assignment.position_within hs⟩

/-- The commitment binds the randomness of the nullifier. -/
theorem rhoDigest_eq (hQ : CollisionFree (hashPair H) Q) (hs : s.main H = some ())
    (ht : t.main H = some ()) (hsQ : s.Within H Q) (htQ : t.Within H Q)
    (hkind : s.spendsPosition = t.spendsPosition) (hc : s.commitment H = t.commitment H) :
    s.rhoDigest = t.rhoDigest := by
  cases hk : s.spendsPosition with
  | false =>
    obtain ⟨m, hm, hmrho, hmQ⟩ := exists_note hs hsQ hk
    obtain ⟨n, hn, hnrho, hnQ⟩ := exists_note ht htQ (hkind ▸ hk)
    have hmn : m = n := Note.commitment_inj hQ hmQ hnQ (by rw [hm, hn, hc])
    rw [← hmrho, ← hnrho, hmn]
  | true =>
    obtain ⟨p, hp, hprho, hpQ⟩ := exists_position hs hsQ hk
    obtain ⟨q, hq, hqrho, hqQ⟩ := exists_position ht htQ (hkind ▸ hk)
    have hpq : p = q := Position.commitment_inj hQ hpQ hqQ (by rw [hp, hq, hc])
    rw [← hprho, ← hqrho, hpq]

/-- **When one commitment has one nullifier.** Two satisfying assignments that open the same
commitment expose the same nullifier exactly when their spend secrets agree. -/
theorem nullifier_eq_iff (hQ : CollisionFree (hashPair H) Q) (hs : s.main H = some ())
    (ht : t.main H = some ()) (hsQ : s.Within H Q) (htQ : t.Within H Q)
    (hkind : s.spendsPosition = t.spendsPosition) (hc : s.commitment H = t.commitment H) :
    s.nullifier = t.nullifier ↔ s.spendSecretDigest = t.spendSecretDigest := by
  have hrho : s.rhoDigest = t.rhoDigest := rhoDigest_eq hQ hs ht hsQ htQ hkind hc
  rw [nullifier_eq hs, nullifier_eq ht]
  constructor
  · intro h
    exact (hQ.pair_inj (nullifier_within hsQ) (nullifier_within htQ) h).1
  · intro h
    rw [h, hrho]

section Examples

open SampleHost

/-- Two withdrawals of one note with the given secrets. -/
def sampleWithdraw (amount : U128) (secret : Fr) : Spend :=
  .withdraw (withdrawNote ⟨3, 100, 5, 6, 7⟩ amount 9 secret)

/-- The pairs that two spends hash. -/
def pairs (s t : Spend) : List (Fr × Fr) := s.queries sampleHost ++ t.queries sampleHost

theorem nullifier_eq_sample :
    (sampleWithdraw 40 11).nullifier = (sampleWithdraw 100 11).nullifier ↔
      (sampleWithdraw 40 11).spendSecretDigest = (sampleWithdraw 100 11).spendSecretDigest :=
  nullifier_eq_iff (H := sampleHost)
    (Q := {q | q ∈ pairs (sampleWithdraw 40 11) (sampleWithdraw 100 11)})
    (collisionFree_of_list (by decide +kernel)) (by decide +kernel) (by decide +kernel)
    (fun _ hq => List.mem_append_left _ hq) (fun _ hq => List.mem_append_right _ hq) rfl rfl

/-- One note is spent under two nullifiers. -/
theorem exists_two_nullifiers : ∃ s t : Spend, s.main sampleHost = some () ∧
    t.main sampleHost = some () ∧ s.spendsPosition = t.spendsPosition ∧
    s.commitment sampleHost = t.commitment sampleHost ∧
    CollisionFree (hashPair sampleHost) {q | q ∈ pairs s t} ∧ s.nullifier ≠ t.nullifier :=
  ⟨sampleWithdraw 40 11, sampleWithdraw 40 12, by decide +kernel, by decide +kernel, rfl, rfl,
    collisionFree_of_list (by decide +kernel), by decide +kernel⟩

end Examples

end Spend

end Pnlx
