import Pnlx.Lib.Program

/-!
# A program on a state and on an enlarged state

An overlay enlarges states by records that others have made. A program that makes records of its
own follows the overlay when it does the same on the enlarged state, unless it makes a record that
is already there: then it fails.

1. `Overlay`: how a state is enlarged, and when a run clashes with what was added.
2. `Follows O x`: the runs of `x` on the enlarged state are its runs without a clash. A program
   follows an overlay when its parts do.
-/

namespace Program

/-- An enlargement of states. A run from `s` to `t` clashes with it when it makes one of the records
that the enlargement adds. -/
structure Overlay (σ : Type) where
  enlarge : σ → σ
  Grows : σ → σ → Prop
  Clash : σ → σ → Prop
  grows_refl : ∀ s, Grows s s
  grows_trans : ∀ s t u, Grows s t → Grows t u → Grows s u
  not_clash : ∀ s, ¬ Clash s s
  clash_iff : ∀ s t u, Grows s t → Grows t u → (Clash s u ↔ Clash s t ∨ Clash t u)

variable {ρ σ ε α β : Type} {r : ρ} {s s' : σ} {a : α} {e : ε} {O : Overlay σ}

/-- The runs of the program on an enlarged state are those that do not clash. -/
class Follows (O : Overlay σ) (x : Program ρ σ ε α) : Prop where
  grows : ∀ {r s a s'}, Returns x r s a s' → O.Grows s s'
  enlarged : ∀ r s a t, Returns x r (O.enlarge s) a t ↔
    ∃ s', Returns x r s a s' ∧ ¬ O.Clash s s' ∧ t = O.enlarge s'

namespace Follows

theorem andThen {x : Program ρ σ ε α} {f : α → Program ρ σ ε β} (hx : Follows O x)
    (hf : ∀ a, Follows O (f a)) : Follows O (x >>= f) where
  grows h := by
    obtain ⟨a, s₁, hxa, hfa⟩ := returns_bind.mp h
    exact O.grows_trans _ _ _ (hx.grows hxa) ((hf a).grows hfa)
  enlarged r s b t := by
    have hclash {a : α} {s₁ s' : σ} (hxa : Returns x r s a s₁) (hfa : Returns (f a) r s₁ b s') :
        ¬ O.Clash s s' ↔ ¬ O.Clash s s₁ ∧ ¬ O.Clash s₁ s' := by
      rw [O.clash_iff _ _ _ (hx.grows hxa) ((hf a).grows hfa), not_or]
    constructor
    · intro h
      obtain ⟨a, t₁, hxt, hft⟩ := returns_bind.mp h
      obtain ⟨s₁, hxa, hfirst, rfl⟩ := (hx.enlarged r s a t₁).mp hxt
      obtain ⟨s', hfa, hsecond, rfl⟩ := ((hf a).enlarged r s₁ b t).mp hft
      exact ⟨s', returns_bind.mpr ⟨a, s₁, hxa, hfa⟩, (hclash hxa hfa).mpr ⟨hfirst, hsecond⟩, rfl⟩
    · rintro ⟨s', h, hboth, rfl⟩
      obtain ⟨a, s₁, hxa, hfa⟩ := returns_bind.mp h
      obtain ⟨hfirst, hsecond⟩ := (hclash hxa hfa).mp hboth
      exact returns_bind.mpr ⟨a, O.enlarge s₁, (hx.enlarged r s a _).mpr ⟨s₁, hxa, hfirst, rfl⟩,
        ((hf a).enlarged r s₁ b _).mpr ⟨s', hfa, hsecond, rfl⟩⟩

instance bind {x : Program ρ σ ε α} {f : α → Program ρ σ ε β} [hx : Follows O x]
    [hf : ∀ a, Follows O (f a)] : Follows O (x >>= f) := andThen hx hf

/-- A program that commutes with the enlargement and makes none of its records. -/
theorem of_write {x : Program ρ σ ε α}
    (hx : ∀ r s a t, Returns x r (O.enlarge s) a t ↔ ∃ s', Returns x r s a s' ∧ t = O.enlarge s')
    (hgrows : ∀ {r s a s'}, Returns x r s a s' → O.Grows s s' ∧ ¬ O.Clash s s') : Follows O x where
  grows h := (hgrows h).1
  enlarged r s a t := by
    rw [hx]
    constructor
    · rintro ⟨s', h, ht⟩
      exact ⟨s', h, (hgrows h).2, ht⟩
    · rintro ⟨s', h, -, ht⟩
      exact ⟨s', h, ht⟩

/-- A program that leaves every state as it is and returns the same on the enlarged state. -/
theorem of_read {x : Program ρ σ ε α} {P : ρ → σ → α → Prop}
    (hx : ∀ r s a s', Returns x r s a s' ↔ P r s a ∧ s' = s)
    (hP : ∀ r s a, P r (O.enlarge s) a ↔ P r s a) : Follows O x := by
  refine of_write (fun r s a t => ?_) fun {r s a s'} h => ?_
  · rw [hx, hP]
    constructor
    · rintro ⟨ha, rfl⟩
      exact ⟨s, (hx r s a s).mpr ⟨ha, rfl⟩, rfl⟩
    · rintro ⟨s', h, rfl⟩
      obtain ⟨ha, rfl⟩ := (hx r s a s').mp h
      exact ⟨ha, rfl⟩
  · rw [((hx r s a s').mp h).2]
    exact ⟨O.grows_refl s, O.not_clash s⟩

instance pure {a : α} : Follows O (pure a : Program ρ σ ε α) :=
  of_read (fun _ _ _ _ => returns_pure) fun _ _ _ => Iff.rfl

instance environment : Follows O (environment : Program ρ σ ε ρ) :=
  of_read (P := fun r _ r' => r' = r) (fun _ _ _ _ => returns_environment) fun _ _ _ => Iff.rfl

instance fail : Follows O (fail e : Program ρ σ ε α) :=
  of_read (P := fun _ _ _ => False)
    (fun _ _ _ _ => by rw [returns_fail, false_and]) fun _ _ _ => Iff.rfl

instance failIf {p : Prop} [Decidable p] : Follows O (failIf p e : Program ρ σ ε Unit) :=
  of_read (P := fun _ _ _ => ¬ p) (fun _ _ _ _ => returns_failIf) fun _ _ _ => Iff.rfl

instance unwrapOr {o : Option α} : Follows O (unwrapOr o e : Program ρ σ ε α) :=
  of_read (P := fun _ _ a => o = some a) (fun _ _ _ _ => returns_unwrapOr) fun _ _ _ => Iff.rfl

instance lift {x : Except ε α} : Follows O (lift x : Program ρ σ ε α) :=
  of_read (P := fun _ _ a => x = .ok a) (fun _ _ _ _ => returns_lift) fun _ _ _ => Iff.rfl

instance within {ρ' : Type} {g : ρ → ρ'} {x : Program ρ' σ ε α} [hx : Follows O x] :
    Follows O (within g x : Program ρ σ ε α) where
  grows h := hx.grows (returns_within.mp h)
  enlarged r s a t := hx.enlarged (g r) s a t

instance ite {p : Prop} [Decidable p] {x y : Program ρ σ ε α} [hx : Follows O x]
    [hy : Follows O y] : Follows O (if p then x else y) := by
  by_cases hp : p
  · rw [if_pos hp]; exact hx
  · rw [if_neg hp]; exact hy

instance doIf {p : Prop} [Decidable p] {x : Program ρ σ ε Unit} [Follows O x] :
    Follows O (doIf p x) := by
  unfold Program.doIf
  exact ite

instance forEach {body : β → Program ρ σ ε Unit} [hbody : ∀ b, Follows O (body b)] (bs : List β) :
    Follows O (forEach body bs) := by
  induction bs with
  | nil => exact pure
  | cons b bs ih => exact andThen (hbody b) fun _ => ih

end Follows

end Program
