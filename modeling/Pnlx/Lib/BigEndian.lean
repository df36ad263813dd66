import Mathlib.Data.List.Basic
import Mathlib.Data.List.Induction
import Mathlib.Data.Nat.Basic
import Mathlib.Tactic.Ring

/-!
# Fixed-width big-endian encodings

`bytes k n` is the `k`-byte big-endian encoding of `n`. It has length `k`, is injective below
`256 ^ k`, and so is the concatenation of such encodings (`flatMap_bytes_inj`).
-/

namespace BigEndian

/-- The `k`-byte big-endian encoding of `n`. -/
def bytes : ℕ → ℕ → List UInt8
  | 0, _ => []
  | k + 1, n => bytes k (n / 256) ++ [UInt8.ofNat n]

/-- The number a big-endian byte string denotes. -/
def value (bs : List UInt8) : ℕ := bs.foldl (fun acc b => 256 * acc + b.toNat) 0

@[simp] theorem length_bytes (k n : ℕ) : (bytes k n).length = k := by
  induction k generalizing n with
  | zero => rfl
  | succ k ih => rw [bytes, List.length_append, ih, List.length_singleton]

theorem value_append_singleton (bs : List UInt8) (b : UInt8) :
    value (bs ++ [b]) = 256 * value bs + b.toNat := by
  unfold value; rw [List.foldl_append]; rfl

theorem value_bytes (k n : ℕ) : value (bytes k n) = n % 256 ^ k := by
  induction k generalizing n with
  | zero => rw [bytes, pow_zero, Nat.mod_one]; rfl
  | succ k ih =>
    have hbyte : n % 2 ^ 8 = n % 256 := rfl
    rw [bytes, value_append_singleton, ih, UInt8.toNat_ofNat', hbyte, pow_succ', Nat.mod_mul]
    ring

/-- A byte string is the encoding of the number it denotes. -/
theorem bytes_value (bs : List UInt8) : bytes bs.length (value bs) = bs := by
  induction bs using List.reverseRecOn with
  | nil => rfl
  | append_singleton bs b ih =>
    have hlt : b.toNat < 256 := b.toNat_lt
    have hquotient : (256 * value bs + b.toNat) / 256 = value bs := by omega
    have hbyte : UInt8.ofNat (256 * value bs + b.toNat) = b := by
      refine UInt8.toNat_inj.mp ?_
      rw [UInt8.toNat_ofNat']
      omega
    rw [List.length_append, List.length_singleton, bytes, value_append_singleton, hquotient, ih,
      hbyte]

theorem bytes_inj {k m n : ℕ} (hm : m < 256 ^ k) (hn : n < 256 ^ k)
    (h : bytes k m = bytes k n) : m = n := by
  have hv := congrArg value h
  rwa [value_bytes, value_bytes, Nat.mod_eq_of_lt hm, Nat.mod_eq_of_lt hn] at hv

/-- A concatenation of encodings of one positive width determines the encoded numbers. -/
theorem flatMap_bytes_inj {k : ℕ} (hk : 0 < k) {xs ys : List ℕ}
    (hxs : ∀ x ∈ xs, x < 256 ^ k) (hys : ∀ y ∈ ys, y < 256 ^ k)
    (h : xs.flatMap (bytes k) = ys.flatMap (bytes k)) : xs = ys := by
  induction xs generalizing ys with
  | nil =>
    cases ys with
    | nil => rfl
    | cons y ys =>
      have hlen := congrArg List.length h
      rw [List.flatMap_nil, List.flatMap_cons, List.length_append, length_bytes] at hlen
      simp only [List.length_nil] at hlen
      omega
  | cons x xs ih =>
    cases ys with
    | nil =>
      have hlen := congrArg List.length h
      rw [List.flatMap_nil, List.flatMap_cons, List.length_append, length_bytes] at hlen
      simp only [List.length_nil] at hlen
      omega
    | cons y ys =>
      rw [List.flatMap_cons, List.flatMap_cons] at h
      obtain ⟨hhd, htl⟩ := List.append_inj h (by rw [length_bytes, length_bytes])
      have hxy : x = y :=
        bytes_inj (hxs x List.mem_cons_self) (hys y List.mem_cons_self) hhd
      rw [hxy, ih (fun z hz => hxs z (List.mem_cons_of_mem _ hz))
        (fun z hz => hys z (List.mem_cons_of_mem _ hz)) htl]

end BigEndian
