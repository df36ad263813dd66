import Pnlx.Host

/-!
# Assertions and arithmetic of the circuits

A circuit is a function to `Option Unit` that is `some ()` on its satisfying assignments. The
integers of Noir are checked: an operation that overflows has no witness.
-/

namespace Pnlx

/-- `assert(p)`: a circuit whose assertion fails has no witness. -/
def assert (p : Prop) [Decidable p] : Option Unit := if p then some () else none

@[simp] theorem assert_eq_some {p : Prop} [Decidable p] {u : Unit} : assert p = some u ↔ p := by
  unfold assert; split_ifs with hp <;> simp [hp]

/-! ## Checked arithmetic on `u128` -/

def checkedAdd (x y : U128) : Option U128 :=
  if x.toNat + y.toNat < 2 ^ 128 then some (x + y) else none

def checkedSub (x y : U128) : Option U128 := if y.toNat ≤ x.toNat then some (x - y) else none

def checkedMul (x y : U128) : Option U128 :=
  if x.toNat * y.toNat < 2 ^ 128 then some (x * y) else none

def checkedDiv (x y : U128) : Option U128 := if 0 < y.toNat then some (x / y) else none

theorem checkedAdd_eq_some {x y z : U128} :
    checkedAdd x y = some z ↔ z.toNat = x.toNat + y.toNat := by
  unfold checkedAdd
  split_ifs with h
  · rw [Option.some.injEq, ← BitVec.toNat_inj, BitVec.toNat_add, Nat.mod_eq_of_lt h, eq_comm]
  · have := z.isLt
    exact ⟨fun h' => (nomatch h'), fun h' => absurd (h' ▸ this) h⟩

theorem checkedSub_eq_some {x y z : U128} :
    checkedSub x y = some z ↔ z.toNat + y.toNat = x.toNat := by
  unfold checkedSub
  split_ifs with h
  · rw [Option.some.injEq, ← BitVec.toNat_inj, BitVec.toNat_sub_of_le (BitVec.le_def.mpr h)]
    omega
  · exact ⟨fun h' => (nomatch h'), fun h' => by omega⟩

theorem checkedMul_eq_some {x y z : U128} :
    checkedMul x y = some z ↔ z.toNat = x.toNat * y.toNat := by
  unfold checkedMul
  split_ifs with h
  · rw [Option.some.injEq, ← BitVec.toNat_inj, BitVec.toNat_mul, Nat.mod_eq_of_lt h, eq_comm]
  · have := z.isLt
    exact ⟨fun h' => (nomatch h'), fun h' => absurd (h' ▸ this) h⟩

theorem checkedDiv_eq_some {x y z : U128} :
    checkedDiv x y = some z ↔ 0 < y.toNat ∧ z.toNat = x.toNat / y.toNat := by
  unfold checkedDiv
  split_ifs with h
  · rw [Option.some.injEq, ← BitVec.toNat_inj, BitVec.toNat_udiv]
    exact ⟨fun h' => ⟨h, h'.symm⟩, fun h' => h'.2.symm⟩
  · exact ⟨fun h' => (nomatch h'), fun h' => absurd h'.1 h⟩

/-- Every number below `2 ^ 128` is a `u128`. -/
theorem exists_toNat_eq {n : ℕ} (h : n < 2 ^ 128) : ∃ x : U128, x.toNat = n :=
  ⟨BitVec.ofNat 128 n, by rw [BitVec.toNat_ofNat, Nat.mod_eq_of_lt h]⟩

end Pnlx
