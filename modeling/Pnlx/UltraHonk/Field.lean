import Mathlib.Algebra.Field.ZMod
import Mathlib.Algebra.GroupWithZero.Basic
import Pnlx.Lib.Lucas
import Pnlx.Words

/-!
# The scalar field of the verifier

`contracts/ultrahonk-verifier/src/field.rs`.

1. The modulus is prime, by Lucas's test. `Fr` is the field of that order.
2. `batchInverse`: all inverses of a list for one inversion, `batchInverse_eq`.
-/

namespace Pnlx.UltraHonk

/-! ## The modulus -/

/-- The primes below a thousand that the certificate uses. -/
def smallPrimes : List ℕ :=
  [2, 3, 5, 7, 11, 13, 17, 19, 29, 31, 41, 47, 83, 107, 223, 229, 379, 409, 449, 661, 823, 853, 983]

theorem prime_of_mem_smallPrimes : ∀ q ∈ smallPrimes, q.Prime := by
  simp only [smallPrimes, List.forall_mem_cons, List.not_mem_nil, false_imp_iff, implies_true,
    and_true]
  norm_num

/-- Lucas's test for the modulus, after the tests of the factors that it needs. -/
def modulusCertificate : List Lucas.Entry :=
  [⟨5501, 2, [(2, 2), (5, 3), (11, 1)]⟩,
    ⟨11003, 2, [(2, 1), (5501, 1)]⟩,
    ⟨237073, 15, [(2, 4), (3, 1), (11, 1), (449, 1)]⟩,
    ⟨3691, 2, [(2, 1), (3, 2), (5, 1), (41, 1)]⟩,
    ⟨4999, 3, [(2, 1), (3, 1), (7, 2), (17, 1)]⟩,
    ⟨405928799, 22, [(2, 1), (11, 1), (3691, 1), (4999, 1)]⟩,
    ⟨93001, 14, [(2, 3), (3, 1), (5, 3), (31, 1)]⟩,
    ⟨12048837557, 2, [(2, 2), (7, 2), (661, 1), (93001, 1)]⟩,
    ⟨5156902474397, 2, [(2, 2), (107, 1), (12048837557, 1)]⟩,
    ⟨1670836401704629, 2, [(2, 2), (3, 4), (5156902474397, 1)]⟩,
    ⟨20963, 2, [(2, 1), (47, 1), (223, 1)]⟩,
    ⟨41927, 5, [(2, 1), (20963, 1)]⟩,
    ⟨1593227, 2, [(2, 1), (19, 1), (41927, 1)]⟩,
    ⟨1637, 2, [(2, 2), (409, 1)]⟩,
    ⟨639533339, 2, [(2, 1), (229, 1), (853, 1), (1637, 1)]⟩,
    ⟨65865678001877903, 5, [(2, 1), (83, 1), (379, 1), (1637, 1), (639533339, 1)]⟩,
    ⟨13818364434197438864469338081, 3,
      [(2, 5), (5, 1), (823, 1), (1593227, 1), (65865678001877903, 1)]⟩,
    ⟨bn254ScalarModulus, 5, [(2, 28), (3, 2), (13, 1), (29, 1), (983, 1), (11003, 1), (237073, 1),
      (405928799, 1), (1670836401704629, 1), (13818364434197438864469338081, 1)]⟩]

theorem modulusCertificate_passes : Lucas.AllPass 254 smallPrimes modulusCertificate := by
  decide +kernel

instance : Fact bn254ScalarModulus.Prime :=
  ⟨Lucas.all_prime prime_of_mem_smallPrimes modulusCertificate_passes
    ⟨bn254ScalarModulus, 5, _⟩ (List.getLast_mem (List.cons_ne_nil _ _))⟩

/-- The scalars of BN254. -/
abbrev Fr := ZMod bn254ScalarModulus

/-- `Fr::from_u64`. -/
abbrev fromU64 (x : ℕ) : Fr := x

/-! ## Inversion in batches -/

section Inverse

variable {K : Type*} [Field K]

/-- The products of the values up to each of them. -/
def prefixProducts (v : K) (vals : List K) : List K := vals.scanl (· * ·) v

/-- The sweep back: with the product of the values before it and the inverse of the product up to
it, a value has its inverse. -/
def sweepBack (products vals : List K) (invAcc : K) : K × List K :=
  (products.zip vals).foldr (fun pv acc => (acc.1 * pv.2, acc.1 * pv.1 :: acc.2)) (invAcc, [])

/-- `batch_inverse`: one inversion, of the product of all values. -/
def batchInverse [DecidableEq K] (vals : List K) : Except String (List K) :=
  match vals with
  | [] => .ok []
  | v :: vals =>
    let products := prefixProducts v vals
    let product := products.getLastD v
    if product = 0 then .error "denominator is zero"
    else
      let swept := sweepBack products vals product⁻¹
      .ok (swept.1 :: swept.2)

theorem getLastD_prefixProducts (v x : K) (vals : List K) :
    (prefixProducts v vals).getLastD x = v * vals.prod := by
  induction vals generalizing v x with
  | nil => simp [prefixProducts]
  | cons w vals ih =>
    rw [prefixProducts, List.scanl_cons, List.getLastD_cons, List.prod_cons, ← mul_assoc]
    exact ih (v * w) v

theorem sweepBack_eq {v : K} {vals : List K} (hv : v ≠ 0) (hvals : (0 : K) ∉ vals) :
    sweepBack (prefixProducts v vals) vals (v * vals.prod)⁻¹ = (v⁻¹, vals.map (·⁻¹)) := by
  induction vals generalizing v with
  | nil => simp [sweepBack, prefixProducts]
  | cons w vals ih =>
    rw [List.mem_cons, not_or] at hvals
    have hw : w ≠ 0 := fun h => hvals.1 h.symm
    have hrest := ih (mul_ne_zero hv hw) hvals.2
    simp only [sweepBack, prefixProducts, List.scanl_cons, List.zip_cons_cons, List.foldr_cons]
      at hrest ⊢
    rw [List.prod_cons, ← mul_assoc, hrest, List.map_cons]
    refine Prod.ext ?_ (congrArg (· :: _) ?_)
    · field_simp
    · field_simp

/-- The inverses, or an error where one of the values has none. -/
theorem batchInverse_eq [DecidableEq K] (vals : List K) :
    batchInverse vals =
      if (0 : K) ∈ vals then .error "denominator is zero" else .ok (vals.map (·⁻¹)) := by
  cases vals with
  | nil => simp [batchInverse]
  | cons v vals =>
    have hzero : v * vals.prod = 0 ↔ (0 : K) ∈ v :: vals := by
      rw [← List.prod_cons, List.prod_eq_zero_iff]
    simp only [batchInverse, getLastD_prefixProducts, hzero]
    split_ifs with h
    · rfl
    · rw [List.mem_cons, not_or] at h
      rw [sweepBack_eq (fun hv => h.1 hv.symm) h.2, List.map_cons]

end Inverse

end Pnlx.UltraHonk
