import Mathlib.Data.List.Prime
import Mathlib.NumberTheory.LucasPrimality
import Mathlib.Tactic.NormNum.Prime

/-!
# Primes by Lucas's test

1. `powMod`: powers modulo a number by repeated squaring, `powMod_eq`.
2. `Lucas.Passes`: Lucas's test of one number with the factors of its predecessor.
   `Lucas.all_prime`: a chain of tests, each with factors that are known before it, proves all its
   numbers prime.
-/

namespace Lucas

/-! ## Powers -/

/-- `acc * a ^ n` modulo `m`, in as many squarings as there is fuel. -/
def powMod (m : ℕ) : (fuel acc a n : ℕ) → ℕ
  | 0, acc, _, _ => acc % m
  | fuel + 1, acc, a, n =>
    powMod m fuel (if n % 2 = 1 then acc * a % m else acc) (a * a % m) (n / 2)

theorem powMod_eq (m : ℕ) {fuel : ℕ} (acc a n : ℕ) (hn : n < 2 ^ fuel) :
    powMod m fuel acc a n = acc * a ^ n % m := by
  induction fuel generalizing acc a n with
  | zero =>
    obtain rfl : n = 0 := by simpa using hn
    simp [powMod]
  | succ fuel ih =>
    have hhalf : n / 2 < 2 ^ fuel := by omega
    have hsquare : (a * a % m) ^ (n / 2) % m = a ^ (2 * (n / 2)) % m := by
      rw [← Nat.pow_mod, pow_mul, sq]
    rw [powMod, ih _ _ _ hhalf, Nat.mul_mod, hsquare]
    split_ifs with hodd
    · have hsplit : n = 2 * (n / 2) + 1 := by omega
      rw [Nat.mod_mod, ← Nat.mul_mod, mul_assoc, ← pow_succ', ← hsplit]
    · have hsplit : n = 2 * (n / 2) := by omega
      rw [← Nat.mul_mod, ← hsplit]

/-! ## The test -/

/-- A number with the base of its test and the factors of its predecessor, each with its
exponent. -/
structure Entry where
  number : ℕ
  base : ℕ
  factors : List (ℕ × ℕ)

/-- The powers that Lucas's test computes, with exponents of at most `bits` bits. -/
def Entry.power (bits : ℕ) (e : Entry) (n : ℕ) : ℕ := powMod e.number bits 1 e.base n

/-- Lucas's test, with factors that are known to be prime. -/
def Passes (bits : ℕ) (known : List ℕ) (e : Entry) : Prop :=
  2 ≤ e.number ∧ e.number ≤ 2 ^ bits ∧
  (e.factors.map fun f => f.1 ^ f.2).prod = e.number - 1 ∧
  e.power bits (e.number - 1) = 1 ∧
  ∀ f ∈ e.factors, f.1 ∈ known ∧ e.power bits ((e.number - 1) / f.1) ≠ 1

/-- The entries pass one after the other, each with the numbers before it. -/
def AllPass (bits : ℕ) : List ℕ → List Entry → Prop
  | _, [] => True
  | known, e :: es => Passes bits known e ∧ AllPass bits (e.number :: known) es

instance (bits : ℕ) (known : List ℕ) (e : Entry) : Decidable (Passes bits known e) := by
  unfold Passes
  infer_instance

instance decidableAllPass (bits : ℕ) :
    (known : List ℕ) → (es : List Entry) → Decidable (AllPass bits known es)
  | _, [] => isTrue trivial
  | known, e :: es =>
    haveI := decidableAllPass bits (e.number :: known) es
    inferInstanceAs (Decidable (Passes bits known e ∧ AllPass bits (e.number :: known) es))

theorem pow_eq_one_iff {bits : ℕ} {e : Entry} (hlarge : 2 ≤ e.number)
    (hbits : e.number ≤ 2 ^ bits) {n : ℕ} (hn : n ≤ e.number - 1) :
    (e.base : ZMod e.number) ^ n = 1 ↔ e.power bits n = 1 := by
  rw [Entry.power, powMod_eq _ _ _ _ (by omega), one_mul, ← Nat.cast_pow, ← Nat.cast_one,
    ZMod.natCast_eq_natCast_iff', Nat.mod_eq_of_lt (by omega : 1 < e.number)]

theorem prime_of_passes {bits : ℕ} {known : List ℕ} {e : Entry} (hknown : ∀ q ∈ known, q.Prime)
    (h : Passes bits known e) : e.number.Prime := by
  obtain ⟨hlarge, hbits, hprod, hpow, hfactors⟩ := h
  refine lucas_primality e.number (e.base : ZMod e.number)
    ((pow_eq_one_iff hlarge hbits le_rfl).mpr hpow) fun q hq hdvd => ?_
  -- a prime factor of the predecessor is one of the factors of the entry
  rw [← hprod] at hdvd
  obtain ⟨power, hmem, hdvd⟩ := (Prime.dvd_prod_iff hq.prime).mp hdvd
  obtain ⟨f, hf, rfl⟩ := List.mem_map.mp hmem
  obtain ⟨hfknown, hne⟩ := hfactors f hf
  obtain rfl : q = f.1 :=
    (Nat.prime_dvd_prime_iff_eq hq (hknown _ hfknown)).mp (hq.dvd_of_dvd_pow hdvd)
  exact fun h => hne ((pow_eq_one_iff hlarge hbits (Nat.div_le_self _ _)).mp h)

theorem all_prime {bits : ℕ} {known : List ℕ} {es : List Entry} (hknown : ∀ q ∈ known, q.Prime)
    (h : AllPass bits known es) : ∀ e ∈ es, e.number.Prime := by
  induction es generalizing known with
  | nil => exact fun e he => absurd he List.not_mem_nil
  | cons e es ih =>
    have hprime : e.number.Prime := prime_of_passes hknown h.1
    have hrest : ∀ q ∈ e.number :: known, q.Prime := List.forall_mem_cons.mpr ⟨hprime, hknown⟩
    exact List.forall_mem_cons.mpr ⟨hprime, ih hrest h.2⟩

end Lucas
