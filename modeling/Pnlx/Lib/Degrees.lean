import Mathlib.Algebra.Polynomial.Degree.Lemmas

/-!
# Degrees by instance

A bound on the degree of a polynomial that is written with sums, products and constants, found by
instance resolution from the bounds on its parts.
-/

open Polynomial

namespace Degrees

variable {R : Type*} [CommRing R] {f g : R[X]} {m n : ℕ}

/-- The degree of the polynomial is at most `n`. -/
class Bounded (f : R[X]) (n : outParam ℕ) : Prop where
  natDegree_le : f.natDegree ≤ n

theorem natDegree_le [h : Bounded f m] (hmn : m ≤ n) : f.natDegree ≤ n := h.natDegree_le.trans hmn

instance [hf : Bounded f m] [hg : Bounded g n] : Bounded (f + g) (max m n) :=
  ⟨natDegree_add_le_of_le hf.natDegree_le hg.natDegree_le⟩

instance [hf : Bounded f m] [hg : Bounded g n] : Bounded (f - g) (max m n) :=
  ⟨(natDegree_sub_le f g).trans (max_le_max hf.natDegree_le hg.natDegree_le)⟩

instance [hf : Bounded f m] [hg : Bounded g n] : Bounded (f * g) (m + n) :=
  ⟨natDegree_mul_le_of_le hf.natDegree_le hg.natDegree_le⟩

instance (k : ℕ) [hf : Bounded f m] : Bounded (f ^ k) (k * m) :=
  ⟨natDegree_pow_le_of_le k hf.natDegree_le⟩

instance (k : ℕ) : Bounded (k : R[X]) 0 := ⟨(natDegree_natCast k).le⟩

instance (k : ℕ) [k.AtLeastTwo] : Bounded (ofNat(k) : R[X]) 0 := ⟨(natDegree_natCast k).le⟩

instance : Bounded (1 : R[X]) 0 := ⟨natDegree_one.le⟩

instance (a : R) : Bounded (C a) 0 := ⟨(natDegree_C a).le⟩

instance : Bounded (X : R[X]) 1 := ⟨natDegree_X_le⟩

end Degrees
