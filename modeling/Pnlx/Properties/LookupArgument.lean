import Pnlx.Properties.SumcheckSoundness
import Pnlx.UltraHonk.Lookups

/-!
# Lookups read the tables

`count_lookups_le`: if a row reads an entry that no table has, then for few of the challenges there
are inverses with which the trace satisfies the circuit, although the counts and tags of the reads
may depend on the challenges that compress the entries.
-/

open Polynomial Challenges Openings

namespace Pnlx.UltraHonk

/-- The challenges that compress the entries. -/
abbrev Etas := Fin 3 → HalfDigest

/-- Another trace with the same lookups. -/
def SameLookups (logN : ℕ) (trace trace' : Trace) : Prop :=
  ∀ i < 2 ^ logN, readEntry (trace i) = readEntry (trace' i) ∧
    tableEntry (trace i) = tableEntry (trace' i) ∧ trace i .qLookup = trace' i .qLookup

/-- The counts and tags of the reads in a trace. -/
def CountsReads (logN : ℕ) (counts tags : ℕ → Fr) (trace : Trace) : Prop :=
  ∀ i < 2 ^ logN, trace i .lookupReadCounts = counts i ∧ trace i .lookupReadTags = tags i

/-- The relation parameters have these challenges. -/
def Drawn (etas : Etas) (γ : HalfDigest) (rp : RelationParameters Fr) : Prop :=
  rp.eta = ofChallenge (etas 0) ∧ rp.etaTwo = ofChallenge (etas 1) ∧
    rp.etaThree = ofChallenge (etas 2) ∧ rp.gamma = ofChallenge γ

section Lookups

variable {logN : ℕ} {cells : Trace}

/-- A row reads an entry that no table has. -/
def ReadsMissing (logN : ℕ) (cells : Trace) (i : ℕ) : Prop :=
  i < 2 ^ logN ∧ cells i .qLookup = 1 ∧
    ∀ j < 2 ^ logN, readEntry (cells i) ≠ tableEntry (cells j)

/-- The compressed entry, as an affine form of the challenges. -/
def compressed (etas : Etas) (entry : Fin 4 → Fr) : Fr :=
  ∑ k, (Fin.cons 1 fun k => ofChallenge (etas k) : Fin 4 → Fr) k * entry k

theorem compressed_eq (etas : Etas) (entry : Fin 4 → Fr) : compressed etas entry =
    entry 0 + ∑ k : Fin 3, ofChallenge (etas k) * entry k.succ := by
  rw [compressed, Fin.sum_univ_succ, Fin.cons_zero, one_mul]
  simp only [Fin.cons_succ]

theorem compress_of_drawn {etas : Etas} {γ : HalfDigest} {rp : RelationParameters Fr}
    (h : Drawn etas γ rp) (entry : Fin 4 → Fr) : compress rp entry = compressed etas entry := by
  rw [compress_eq, compressed_eq, h.1, h.2.1, h.2.2.1, Fin.sum_univ_three]
  change _ = entry 0 + (_ * entry 1 + _ * entry 2 + _ * entry 3)
  ring

/-- A missing entry is not compressed to one of the tables for most challenges. -/
theorem count_compressed_le {i : ℕ} (hmissing : ReadsMissing logN cells i) :
    count (fun etas : Etas => ∃ j : Fin (2 ^ logN),
      compressed etas (readEntry (cells i)) = compressed etas (tableEntry (cells j))) ≤
      2 ^ logN * (2 ^ 128) ^ 2 := by
  refine (count_exists_le _).trans ((Finset.sum_le_card_nsmul _ _ ((2 ^ 128) ^ 2)
    fun j _ => ?_).trans (le_of_eq ?_))
  · have hdiffer : readEntry (cells i) 0 - tableEntry (cells j) 0 ≠ 0 ∨
        ∃ k : Fin 3, readEntry (cells i) k.succ - tableEntry (cells j) k.succ ≠ 0 := by
      by_contra! hsame
      refine hmissing.2.2 j j.isLt (funext fun k => ?_)
      cases k using Fin.cases with
      | zero => exact sub_eq_zero.mp hsame.1
      | succ k => exact sub_eq_zero.mp (hsame.2 k)
    have hcard := card_affine_le ofChallenge_injective hdiffer
    simp only [Fintype.card_fin] at hcard
    refine le_trans (count_mono fun etas h => ?_) hcard
    simp only [mul_sub, Finset.sum_sub_distrib]
    rw [compressed_eq, compressed_eq] at h
    linear_combination h
  · rw [Finset.card_univ, Fintype.card_fin, smul_eq_mul]

/-- The poles that the cells, the counts and the tags have at the challenges. -/
def readPlace (cells : Trace) (etas : Etas) : LookupSide logN → Fr
  | .inl i => -compressed etas (readEntry (cells i))
  | .inr i => -compressed etas (tableEntry (cells i))

def readExists (cells : Trace) (tags : ℕ → Fr) (i : ℕ) : Fr :=
  tags i + cells i .qLookup - tags i * cells i .qLookup

def readWeight (cells : Trace) (counts tags : ℕ → Fr) : LookupSide logN → Fr
  | .inl i => cells i .qLookup * readExists cells tags i
  | .inr i => -(counts i * readExists cells tags i)

/-- Away from the poles the challenge is a zero of the difference of the derivatives. -/
theorem sum_readWeight_eq_zero {counts tags : ℕ → Fr} {etas : Etas} {γ : HalfDigest}
    {trace : Trace} {rp : RelationParameters Fr} (hsame : SameLookups logN trace cells)
    (hcounts : CountsReads logN counts tags trace) (hdrawn : Drawn etas γ rp)
    (hsat : Satisfies logN rp trace)
    (hpole : ∀ k : LookupSide logN, ofChallenge γ ≠ readPlace cells etas k) :
    ∑ k : LookupSide logN, readWeight cells counts tags k *
      (ofChallenge γ - readPlace cells etas k)⁻¹ = 0 := by
  have hplace : lookupPlace logN rp trace = readPlace cells etas := by
    funext k
    cases k with
    | inl i => rw [lookupPlace, readPlace, (hsame i i.isLt).1, compress_of_drawn hdrawn]
    | inr i => rw [lookupPlace, readPlace, (hsame i i.isLt).2.1, compress_of_drawn hdrawn]
  have hweight : lookupWeight logN trace = readWeight cells counts tags := by
    funext k
    cases k with
    | inl i =>
      rw [lookupWeight, readWeight, inverseExists, readExists, (hsame i i.isLt).2.2,
        (hcounts i i.isLt).2]
    | inr i =>
      rw [lookupWeight, readWeight, inverseExists, readExists, (hsame i i.isLt).2.2,
        (hcounts i i.isLt).2, (hcounts i i.isLt).1]
  have hsum := sum_poles_eq_zero hsat (by rwa [hplace, hdrawn.2.2.2])
  rwa [hplace, hweight, hdrawn.2.2.2] at hsum

/-- The reads of a missing entry do not cancel. -/
theorem residue_readWeight_ne_zero (hlogN : logN ≤ constProofSizeLogN)
    (hselector : ∀ i < 2 ^ logN, cells i .qLookup = 0 ∨ cells i .qLookup = 1)
    {i : ℕ} (hi : i < 2 ^ logN) (hread : cells i .qLookup = 1) {etas : Etas}
    (hmissing : ¬ ∃ j : Fin (2 ^ logN),
      compressed etas (readEntry (cells i)) = compressed etas (tableEntry (cells j)))
    (counts tags : ℕ → Fr) :
    residue (readWeight cells counts tags) (readPlace cells etas) (fun _ : LookupSide logN => 1)
      (readPlace cells etas (.inl ⟨i, hi⟩ : LookupSide logN)) ≠ 0 := by
  have hone : ∀ j : Fin (2 ^ logN), cells j .qLookup * readExists cells tags j =
      if cells j .qLookup = 1 then 1 else 0 := by
    intro j
    rcases hselector j j.isLt with h | h
    · rw [h, zero_mul, if_neg zero_ne_one]
    · rw [readExists, h, if_pos rfl]
      ring
  have htables : ∀ j : Fin (2 ^ logN), ¬ readPlace cells etas (.inr j : LookupSide logN) =
      readPlace cells etas (.inl ⟨i, hi⟩ : LookupSide logN) := fun j h =>
    hmissing ⟨j, (neg_injective h).symm⟩
  -- only reads of the same entry are at the place
  have hreads : residue (readWeight cells counts tags) (readPlace cells etas)
      (fun _ : LookupSide logN => 1) (readPlace cells etas (.inl ⟨i, hi⟩ : LookupSide logN)) =
      ((Finset.univ.filter fun j : Fin (2 ^ logN) =>
        readPlace cells etas (.inl j : LookupSide logN) =
          readPlace cells etas (.inl ⟨i, hi⟩ : LookupSide logN) ∧ cells j .qLookup = 1).card : Fr) := by
    rw [residue, Fintype.sum_sum_type, Finset.card_filter, Nat.cast_sum,
      Finset.sum_eq_zero (s := (Finset.univ : Finset (Fin (2 ^ logN))))
        (f := fun j => if readPlace cells etas (.inr j) = _ then _ else _)
        fun j _ => if_neg (htables j), add_zero]
    refine Finset.sum_congr rfl fun j _ => ?_
    rw [eval_one, mul_one, readWeight, hone]
    split_ifs <;> simp_all
  rw [hreads, ne_eq, ZMod.natCast_eq_zero_iff]
  intro hdvd
  have hpos : 0 < (Finset.univ.filter fun j : Fin (2 ^ logN) =>
      readPlace cells etas (.inl j : LookupSide logN) =
        readPlace cells etas (.inl ⟨i, hi⟩ : LookupSide logN) ∧ cells j .qLookup = 1).card :=
    Finset.card_pos.mpr ⟨⟨i, hi⟩, by simp [hread]⟩
  have hcard := (Nat.le_of_dvd hpos hdvd).trans (Finset.card_le_univ _)
  rw [Fintype.card_fin] at hcard
  have hmodulus : 2 ^ constProofSizeLogN < bn254ScalarModulus := by decide
  exact absurd (hcard.trans (Nat.pow_le_pow_right two_pos hlogN)) (not_le.mpr hmodulus)

theorem count_place_le (c : Fr) : count (fun γ : HalfDigest => ofChallenge γ = c) ≤ 1 := by
  refine (count_mono fun γ h => ?_).trans
    (card_line_le ofChallenge_injective (a := -c) (Or.inr one_ne_zero))
  rw [h, mul_one, neg_add_cancel]

theorem card_lookupSide : Fintype.card (LookupSide logN) = 2 * 2 ^ logN := by
  rw [Fintype.card_sum, Fintype.card_fin, two_mul]

/-- A read of an entry that no table has can be completed for few of the challenges. -/
theorem count_lookups_le (hlogN : logN ≤ constProofSizeLogN)
    (hselector : ∀ i < 2 ^ logN, cells i .qLookup = 0 ∨ cells i .qLookup = 1)
    (hmissing : ∃ i, ReadsMissing logN cells i) (counts tags : Etas → ℕ → Fr) :
    count (fun c : Etas × HalfDigest => ∃ trace rp, SameLookups logN trace cells ∧
      CountsReads logN (counts c.1) (tags c.1) trace ∧ Drawn c.1 c.2 rp ∧
        Satisfies logN rp trace) ≤ 5 * 2 ^ logN * (2 ^ 128) ^ 3 := by
  obtain ⟨i, hi⟩ := hmissing
  rw [count_prod]
  refine (sum_count_le (4 * 2 ^ logN) (count_compressed_le hi) fun etas hetas => ?_).trans
    (le_of_eq ?_)
  · have hresidue := residue_readWeight_ne_zero hlogN hselector hi.1 hi.2.1 hetas (counts etas)
      (tags etas)
    have hquotient := count_quotient_le ofChallenge_injective hresidue
      (natDegree_zero (R := Fr)).le fun _ => natDegree_one.le
    have hpoles : count (fun γ : HalfDigest => ∃ k : LookupSide logN,
        ofChallenge γ = readPlace cells etas k) ≤ 2 * 2 ^ logN := by
      refine (count_exists_le _).trans ((Finset.sum_le_card_nsmul _ _ 1 fun k _ =>
        count_place_le _).trans (le_of_eq ?_))
      rw [Finset.card_univ, card_lookupSide, smul_eq_mul, mul_one]
    rw [card_lookupSide, zero_add] at hquotient
    refine (count_mono fun γ h => ?_).trans ((count_or_le _ _).trans
      ((add_le_add hpoles hquotient).trans (le_of_eq (by ring))))
    obtain ⟨trace, rp, hsame, hcounts, hdrawn, hsat⟩ := h
    by_cases hpole : ∃ k : LookupSide logN, ofChallenge γ = readPlace cells etas k
    · exact Or.inl hpole
    · refine Or.inr ⟨fun k h => hpole ⟨k, h⟩, ?_⟩
      rw [eval_zero]
      simp only [eval_one, mul_one]
      exact (sum_readWeight_eq_zero hsame hcounts hdrawn hsat fun k h => hpole ⟨k, h⟩).symm
  · rw [Fintype.card_fun, Fintype.card_fin, Fintype.card_fin]
    generalize 2 ^ 128 = K
    ring

end Lookups

/-! ## A read from empty tables -/

def emptyTables : Trace := fun i w => if i = 0 ∧ (w = .qLookup ∨ w = .wl) then 1 else 0

theorem emptyTables_selector :
    ∀ i < 2 ^ 1, emptyTables i .qLookup = 0 ∨ emptyTables i .qLookup = 1 := by
  decide +kernel

theorem readsMissing_emptyTables : ReadsMissing 1 emptyTables 0 := by
  refine ⟨by decide, by decide +kernel, fun j _ h => ?_⟩
  have hfirst := congrFun h 0
  have htable : tableEntry (emptyTables j) 0 = 0 := if_neg (by rintro ⟨-, h | h⟩ <;> cases h)
  rw [htable] at hfirst
  exact absurd hfirst (by decide +kernel)

theorem count_lookups_le_emptyTables :
    count (fun c : Etas × HalfDigest => ∃ trace rp, SameLookups 1 trace emptyTables ∧
      CountsReads 1 (fun _ => 0) (fun _ => 0) trace ∧ Drawn c.1 c.2 rp ∧ Satisfies 1 rp trace) ≤
      5 * 2 ^ 1 * (2 ^ 128) ^ 3 :=
  count_lookups_le (by decide) emptyTables_selector ⟨0, readsMissing_emptyTables⟩
    (fun _ _ => 0) fun _ _ => 0

end Pnlx.UltraHonk
