import Mathlib.Algebra.GroupWithZero.Nat
import Mathlib.Data.List.Basic
import Mathlib.Data.Nat.Basic

/-!
# Numerals

Digits are read from the most significant one; `Nat.toDigits` writes them.

1. `readDigits_toDigits`: the digits of a number read back as the number, in every base up to 16.
2. `readDigits_leftpad`: leading zeros do not matter.
-/

namespace Numerals

/-- The value of a digit of a base up to 36. -/
def digitValue (c : Char) : Option ℕ :=
  if 48 ≤ c.toNat ∧ c.toNat ≤ 57 then some (c.toNat - 48)
  else if 97 ≤ c.toNat ∧ c.toNat ≤ 122 then some (c.toNat - 87)
  else if 65 ≤ c.toNat ∧ c.toNat ≤ 90 then some (c.toNat - 55)
  else none

/-- Continue the number `acc` with the digits of a text. -/
def readDigits (b : ℕ) : ℕ → List Char → Option ℕ
  | acc, [] => some acc
  | acc, c :: cs =>
    match digitValue c with
    | some d => if d < b then readDigits b (acc * b + d) cs else none
    | none => none

theorem digitValue_digitChar {d : ℕ} (hd : d < 16) : digitValue d.digitChar = some d := by
  have hall : ∀ d < 16, digitValue d.digitChar = some d := by decide
  exact hall d hd

theorem readDigits_cons_digitChar {b d : ℕ} (hb : b ≤ 16) (hd : d < b) (acc : ℕ) (cs : List Char) :
    readDigits b acc (d.digitChar :: cs) = readDigits b (acc * b + d) cs := by
  rw [readDigits, digitValue_digitChar (by omega)]
  exact if_pos hd

theorem readDigits_append {b acc n : ℕ} {cs ds : List Char} (h : readDigits b acc cs = some n) :
    readDigits b acc (cs ++ ds) = readDigits b n ds := by
  induction cs generalizing acc with
  | nil =>
    rw [readDigits, Option.some.injEq] at h
    rw [h, List.nil_append]
  | cons c cs ih =>
    rw [List.cons_append, readDigits]
    rw [readDigits] at h
    split at h
    · split_ifs at h with hd
      rw [if_pos hd]
      exact ih h
    · exact (nomatch h)

/-- The digits of a number read back as the number. -/
theorem readDigits_toDigits {b : ℕ} (hb : 1 < b) (hb' : b ≤ 16) (n : ℕ) :
    readDigits b 0 (Nat.toDigits b n) = some n := by
  induction n using Nat.strongRecOn with
  | _ n ih =>
    by_cases hn : n < b
    · rw [Nat.toDigits_of_lt_base hn, readDigits_cons_digitChar hb' hn, readDigits, Nat.zero_mul,
        Nat.zero_add]
    · have hdiv : n / b < n := Nat.div_lt_self (by omega) hb
      have hmod : n % b < b := Nat.mod_lt n (by omega)
      rw [Nat.toDigits_of_base_le hb (by omega), readDigits_append (ih _ hdiv),
        readDigits_cons_digitChar hb' hmod, readDigits, Nat.div_add_mod']

theorem readDigits_replicate_zero {b : ℕ} (hb : 0 < b) (k : ℕ) :
    readDigits b 0 (List.replicate k '0') = some 0 := by
  induction k with
  | zero => rfl
  | succ k ih =>
    have hzero : digitValue '0' = some 0 := by decide
    rw [List.replicate_succ, readDigits, hzero]
    show (if 0 < b then readDigits b (0 * b + 0) (List.replicate k '0') else none) = some 0
    rw [if_pos hb, Nat.zero_mul, ih]

/-- Leading zeros do not matter. -/
theorem readDigits_leftpad {b : ℕ} (hb : 0 < b) (k : ℕ) (cs : List Char) :
    readDigits b 0 (List.leftpad k '0' cs) = readDigits b 0 cs := by
  unfold List.leftpad
  exact readDigits_append (readDigits_replicate_zero hb _)

/-- Digits make a number below the power of their count. -/
theorem readDigits_lt {b acc n : ℕ} {cs : List Char} (h : readDigits b acc cs = some n) :
    n < (acc + 1) * b ^ cs.length := by
  induction cs generalizing acc with
  | nil =>
    obtain rfl := Option.some.inj h
    rw [List.length_nil, Nat.pow_zero]
    omega
  | cons c cs ih =>
    rw [readDigits] at h
    split at h
    · next d hd =>
      split_ifs at h with hlt
      calc n < (acc * b + d + 1) * b ^ cs.length := ih h
        _ ≤ ((acc + 1) * b) * b ^ cs.length := by
          refine Nat.mul_le_mul_right _ ?_
          rw [Nat.add_mul, Nat.one_mul]
          omega
        _ = (acc + 1) * b ^ (c :: cs).length := by
          rw [List.length_cons, Nat.pow_succ', Nat.mul_assoc]
    · exact nomatch h

/-- Digits of the base make a number. -/
theorem readDigits_isSome {b : ℕ} {cs : List Char} (h : ∀ c ∈ cs, ∃ d < b, digitValue c = some d)
    (acc : ℕ) : (readDigits b acc cs).isSome := by
  induction cs generalizing acc with
  | nil => rfl
  | cons c cs ih =>
    obtain ⟨d, hd, hvalue⟩ := h c List.mem_cons_self
    rw [readDigits, hvalue]
    show (if d < b then readDigits b (acc * b + d) cs else none).isSome
    rw [if_pos hd]
    exact ih (fun x hx => h x (List.mem_cons_of_mem _ hx)) _

/-- The characters of a number written in a base are its digits. -/
theorem mem_toDigits {b n : ℕ} (hb : 1 < b) {c : Char} (hc : c ∈ Nat.toDigits b n) :
    ∃ d < b, c = d.digitChar := by
  induction n using Nat.strongRecOn with
  | _ n ih =>
    by_cases hn : n < b
    · rw [Nat.toDigits_of_lt_base hn, List.mem_singleton] at hc
      exact ⟨n, hn, hc⟩
    · rw [Nat.toDigits_of_base_le hb (by omega), List.mem_append, List.mem_singleton] at hc
      rcases hc with hc | hc
      · exact ih _ (Nat.div_lt_self (by omega) hb) hc
      · exact ⟨n % b, Nat.mod_lt n (by omega), hc⟩

end Numerals
