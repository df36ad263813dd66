import Mathlib.Order.Defs.Unbundled

/-!
# Programs that read an environment, update a state and may fail

`Program ρ σ ε α` reads an environment of type `ρ`, updates a state of type `σ` and returns a
value of type `α` or fails with an error of type `ε`. A failed program leaves no state.

1. `Returns x r s a s'`: in the environment `r`, from the state `s`, the program `x` returns `a`
   and leaves `s'`. Each primitive has its rule, so that `simp only` with the rules turns the
   success of a program into the conjunction of what its statements require.
2. `Fails x r s e`: the program fails with the error `e`. Its rules say which statement failed.
3. `Respects R x`: every successful run of `x` relates its start and its end by the preorder `R`.
   A program respects `R` when its primitives do.
-/

/-- Programs that read an environment, update a state and may fail. -/
abbrev Program (ρ σ ε : Type) := ReaderT ρ (StateT σ (Except ε))

namespace Program

variable {ρ σ ε α β : Type}

/-! ## Primitives -/

/-- The environment. -/
def environment : Program ρ σ ε ρ := fun r s => .ok (r, s)

/-- The state. -/
def state : Program ρ σ ε σ := fun _ s => .ok (s, s)

def update (f : σ → σ) : Program ρ σ ε Unit := fun _ s => .ok ((), f s)

def fail (e : ε) : Program ρ σ ε α := fun _ _ => .error e

def failIf (p : Prop) [Decidable p] (e : ε) : Program ρ σ ε Unit :=
  fun _ s => if p then .error e else .ok ((), s)

/-- The value of an option, or the error. -/
def unwrapOr (o : Option α) (e : ε) : Program ρ σ ε α :=
  fun _ s => match o with
    | some a => .ok (a, s)
    | none => .error e

/-- A computation that neither reads nor writes the state. -/
def lift (x : Except ε α) : Program ρ σ ε α :=
  fun _ s => match x with
    | .ok a => .ok (a, s)
    | .error e => .error e

/-- `x` in another environment. -/
def within {ρ' : Type} (g : ρ → ρ') (x : Program ρ' σ ε α) : Program ρ σ ε α := fun r => x (g r)

/-- `x` if `p` holds, and nothing otherwise. -/
def doIf (p : Prop) [Decidable p] (x : Program ρ σ ε Unit) : Program ρ σ ε Unit :=
  if p then x else pure ()

/-- `body` on each element of a list, in order. -/
def forEach (body : β → Program ρ σ ε Unit) : List β → Program ρ σ ε Unit
  | [] => pure ()
  | b :: bs => do
    body b
    forEach body bs

/-! ## Success -/

/-- In the environment `r`, from the state `s`, the program returns `a` and leaves `s'`. -/
def Returns (x : Program ρ σ ε α) (r : ρ) (s : σ) (a : α) (s' : σ) : Prop := x r s = .ok (a, s')

variable {r : ρ} {s s' : σ} {a : α} {b : β} {e : ε}

theorem exists_returns {x : Program ρ σ ε α} (h : (x r s).isOk) : ∃ a s', Returns x r s a s' := by
  unfold Returns
  cases hx : x r s with
  | error e =>
    rw [hx] at h
    exact absurd h Bool.false_ne_true
  | ok out => exact ⟨out.1, out.2, rfl⟩

@[simp] theorem returns_bind {x : Program ρ σ ε α} {f : α → Program ρ σ ε β} :
    Returns (x >>= f) r s b s' ↔ ∃ a s₁, Returns x r s a s₁ ∧ Returns (f a) r s₁ b s' := by
  have hbind : (x >>= f) r s = x r s >>= fun p => f p.1 r p.2 := rfl
  unfold Returns
  rw [hbind]
  cases hx : x r s with
  | error e =>
    refine ⟨fun h => (nomatch h), ?_⟩
    rintro ⟨a, s₁, h, -⟩
    exact nomatch h
  | ok p =>
    refine ⟨fun h => ⟨p.1, p.2, rfl, h⟩, ?_⟩
    rintro ⟨a, s₁, h, hf⟩
    rw [Except.ok.inj h]
    exact hf

@[simp] theorem returns_pure {a' : α} :
    Returns (pure a' : Program ρ σ ε α) r s a s' ↔ a = a' ∧ s' = s := by
  have hpure : (pure a' : Program ρ σ ε α) r s = .ok (a', s) := rfl
  unfold Returns
  rw [hpure, Except.ok.injEq, Prod.mk.injEq, eq_comm, eq_comm (a := s)]

@[simp] theorem returns_environment {r' : ρ} :
    Returns (environment : Program ρ σ ε ρ) r s r' s' ↔ r' = r ∧ s' = s :=
  returns_pure (r := r)

@[simp] theorem returns_state {t : σ} :
    Returns (state : Program ρ σ ε σ) r s t s' ↔ t = s ∧ s' = s :=
  returns_pure (r := r)

@[simp] theorem returns_update {f : σ → σ} {u : Unit} :
    Returns (update f : Program ρ σ ε Unit) r s u s' ↔ s' = f s := by
  unfold Returns update
  rw [Except.ok.injEq, Prod.mk.injEq, eq_comm (a := f s)]
  exact and_iff_right rfl

@[simp] theorem returns_fail : Returns (fail e : Program ρ σ ε α) r s a s' ↔ False :=
  ⟨fun h => (nomatch h), False.elim⟩

@[simp] theorem returns_failIf {p : Prop} [Decidable p] {u : Unit} :
    Returns (failIf p e : Program ρ σ ε Unit) r s u s' ↔ ¬ p ∧ s' = s := by
  unfold Returns failIf
  by_cases hp : p
  · rw [if_pos hp]
    exact ⟨fun h => (nomatch h), fun h => absurd hp h.1⟩
  · rw [if_neg hp, Except.ok.injEq, Prod.mk.injEq, eq_comm (a := s)]
    exact ⟨fun h => ⟨hp, h.2⟩, fun h => ⟨rfl, h.2⟩⟩

@[simp] theorem returns_unwrapOr {o : Option α} :
    Returns (unwrapOr o e : Program ρ σ ε α) r s a s' ↔ o = some a ∧ s' = s := by
  unfold Returns unwrapOr
  cases o with
  | none => exact ⟨fun h => (nomatch h), fun h => (nomatch h.1)⟩
  | some a' =>
    show Except.ok (a', s) = Except.ok (a, s') ↔ _
    rw [Except.ok.injEq, Prod.mk.injEq, Option.some.injEq, eq_comm (a := s)]

@[simp] theorem returns_lift {x : Except ε α} :
    Returns (lift x : Program ρ σ ε α) r s a s' ↔ x = .ok a ∧ s' = s := by
  unfold Returns lift
  cases x with
  | error e => exact ⟨fun h => (nomatch h), fun h => (nomatch h.1)⟩
  | ok a' =>
    show Except.ok (a', s) = Except.ok (a, s') ↔ _
    rw [Except.ok.injEq, Prod.mk.injEq, Except.ok.injEq, eq_comm (a := s)]

@[simp] theorem returns_within {ρ' : Type} {g : ρ → ρ'} {x : Program ρ' σ ε α} :
    Returns (within g x : Program ρ σ ε α) r s a s' ↔ Returns x (g r) s a s' := Iff.rfl

theorem returns_ite {p : Prop} [Decidable p] {x y : Program ρ σ ε α} :
    Returns (if p then x else y) r s a s' ↔
      (p ∧ Returns x r s a s') ∨ (¬ p ∧ Returns y r s a s') := by
  by_cases hp : p
  · simp [hp]
  · simp [hp]

@[simp] theorem returns_doIf {p : Prop} [Decidable p] {x : Program ρ σ ε Unit} {u : Unit} :
    Returns (doIf p x) r s u s' ↔ (p ∧ Returns x r s u s') ∨ (¬ p ∧ s' = s) := by
  unfold doIf
  rw [returns_ite, returns_pure]
  simp only [true_and]

@[simp] theorem returns_forEach_nil {body : β → Program ρ σ ε Unit} {u : Unit} :
    Returns (forEach body []) r s u s' ↔ s' = s := by
  unfold forEach
  rw [returns_pure]
  exact and_iff_right rfl

@[simp] theorem returns_forEach_cons {body : β → Program ρ σ ε Unit} {bs : List β} {u : Unit} :
    Returns (forEach body (b :: bs)) r s u s' ↔
      ∃ s₁, Returns (body b) r s () s₁ ∧ Returns (forEach body bs) r s₁ u s' := by
  rw [forEach, returns_bind]
  exact ⟨fun ⟨_, s₁, h⟩ => ⟨s₁, h⟩, fun ⟨s₁, h⟩ => ⟨(), s₁, h⟩⟩

/-- A loop of checks succeeds when every check does. -/
theorem returns_forEach_check {body : β → Program ρ σ ε Unit} {P : β → Prop}
    (hbody : ∀ b s u s', Returns (body b) r s u s' ↔ P b ∧ s' = s) {bs : List β} {u : Unit} :
    Returns (forEach body bs) r s u s' ↔ (∀ b ∈ bs, P b) ∧ s' = s := by
  induction bs generalizing s with
  | nil => simp
  | cons b bs ih =>
    rw [returns_forEach_cons]
    simp only [hbody, ih, List.mem_cons, forall_eq_or_imp]
    constructor
    · rintro ⟨_, ⟨hb, rfl⟩, hbs, rfl⟩
      exact ⟨⟨hb, hbs⟩, rfl⟩
    · rintro ⟨⟨hb, hbs⟩, rfl⟩
      exact ⟨_, ⟨hb, rfl⟩, hbs, rfl⟩

/-! ## Failure -/

/-- In the environment `r`, from the state `s`, the program fails with the error `e'`. -/
def Fails (x : Program ρ σ ε α) (r : ρ) (s : σ) (e' : ε) : Prop := x r s = .error e'

section Failure

variable {e' : ε}

@[simp] theorem fails_bind {x : Program ρ σ ε α} {f : α → Program ρ σ ε β} :
    Fails (x >>= f) r s e ↔ Fails x r s e ∨ ∃ a s₁, Returns x r s a s₁ ∧ Fails (f a) r s₁ e := by
  have hbind : (x >>= f) r s = x r s >>= fun p => f p.1 r p.2 := rfl
  unfold Fails Returns
  rw [hbind]
  cases hx : x r s with
  | error e' =>
    show Except.error e' = Except.error e ↔ _
    rw [Except.error.injEq, Except.error.injEq]
    refine ⟨Or.inl, ?_⟩
    rintro (h | ⟨a, s₁, h, -⟩)
    · exact h
    · cases h
  | ok p =>
    refine ⟨fun h => Or.inr ⟨p.1, p.2, rfl, h⟩, ?_⟩
    rintro (h | ⟨a, s₁, h, hf⟩)
    · cases h
    · rw [Except.ok.inj h]
      exact hf

@[simp] theorem fails_pure : Fails (pure a : Program ρ σ ε α) r s e ↔ False :=
  ⟨fun h => (by cases h), False.elim⟩

@[simp] theorem fails_failIf {p : Prop} [Decidable p] :
    Fails (failIf p e : Program ρ σ ε Unit) r s e' ↔ p ∧ e = e' := by
  unfold Fails failIf
  by_cases hp : p
  · rw [if_pos hp, Except.error.injEq]
    exact (and_iff_right hp).symm
  · rw [if_neg hp]
    exact ⟨fun h => (by cases h), fun h => absurd h.1 hp⟩

@[simp] theorem fails_unwrapOr {o : Option α} :
    Fails (unwrapOr o e : Program ρ σ ε α) r s e' ↔ o = none ∧ e = e' := by
  unfold Fails unwrapOr
  cases o with
  | none =>
    show Except.error e = Except.error e' ↔ _
    rw [Except.error.injEq]
    exact (and_iff_right rfl).symm
  | some a' => exact ⟨fun h => (by cases h), fun h => (by cases h.1)⟩

@[simp] theorem fails_environment : Fails (environment : Program ρ σ ε ρ) r s e ↔ False :=
  ⟨fun h => (by cases h), False.elim⟩

@[simp] theorem fails_update {f : σ → σ} : Fails (update f : Program ρ σ ε Unit) r s e ↔ False :=
  ⟨fun h => (by cases h), False.elim⟩

@[simp] theorem fails_ite {p : Prop} [Decidable p] {x y : Program ρ σ ε α} :
    Fails (if p then x else y) r s e ↔ p ∧ Fails x r s e ∨ ¬ p ∧ Fails y r s e := by
  by_cases hp : p
  · rw [if_pos hp]
    exact ⟨fun h => Or.inl ⟨hp, h⟩, fun h => h.elim And.right fun h => absurd hp h.1⟩
  · rw [if_neg hp]
    exact ⟨fun h => Or.inr ⟨hp, h⟩, fun h => h.elim (fun h => absurd h.1 hp) And.right⟩

@[simp] theorem fails_doIf {p : Prop} [Decidable p] {x : Program ρ σ ε Unit} :
    Fails (doIf p x) r s e ↔ p ∧ Fails x r s e := by
  unfold doIf
  rw [fails_ite, fails_pure, and_false, or_false]

/-- A loop fails at one of its elements. -/
theorem Fails.of_forEach {body : β → Program ρ σ ε Unit} {bs : List β}
    (h : Fails (forEach body bs) r s e) : ∃ b ∈ bs, ∃ s', Fails (body b) r s' e := by
  induction bs generalizing s with
  | nil => cases fails_pure.mp h
  | cons b bs ih =>
    rcases fails_bind.mp h with hb | ⟨_, s₁, -, hbs⟩
    · exact ⟨b, List.mem_cons_self, s, hb⟩
    · obtain ⟨b', hmem, s', hfail⟩ := ih hbs
      exact ⟨b', List.mem_cons_of_mem _ hmem, s', hfail⟩

end Failure

/-! ## Preorders that a program respects

`Respects` is a class, so that instance search composes the facts about the parts of a program. -/

/-- Every successful run of `x` relates its start and its end by `R`. -/
class Respects (R : σ → σ → Prop) (x : Program ρ σ ε α) : Prop where
  rel : ∀ {r s a s'}, Returns x r s a s' → R s s'

/-- A program that leaves the state as it is. -/
abbrev ReadOnly (x : Program ρ σ ε α) : Prop := Respects Eq x

theorem ReadOnly.eq {x : Program ρ σ ε α} [ReadOnly x] (h : Returns x r s a s') : s' = s :=
  (Respects.rel h : s = s').symm

/-- A read-only program returns its value in the state it was started in. -/
theorem ReadOnly.returns_iff {x : Program ρ σ ε α} [ReadOnly x] :
    Returns x r s a s' ↔ Returns x r s a s ∧ s' = s := by
  constructor
  · intro h
    have hs := ReadOnly.eq h
    exact ⟨hs ▸ h, hs⟩
  · rintro ⟨h, rfl⟩
    exact h

namespace Respects

variable {R : σ → σ → Prop}

instance bind [IsTrans σ R] {x : Program ρ σ ε α} {f : α → Program ρ σ ε β} [hx : Respects R x]
    [hf : ∀ a, Respects R (f a)] : Respects R (x >>= f) where
  rel h := by
    obtain ⟨a, s₁, hxa, hfa⟩ := returns_bind.mp h
    exact trans_of R (hx.rel hxa) ((hf a).rel hfa)

/-- `bind` with the rest of the program as an explicit argument. -/
theorem andThen [IsTrans σ R] {x : Program ρ σ ε α} {f : α → Program ρ σ ε β} (hx : Respects R x)
    (hf : ∀ a, Respects R (f a)) : Respects R (x >>= f) := bind

instance fail : Respects R (fail e : Program ρ σ ε α) where
  rel h := (returns_fail.mp h).elim

theorem update {f : σ → σ} (hf : ∀ s, R s (f s)) :
    Respects R (update f : Program ρ σ ε Unit) where
  rel h := by rw [returns_update.mp h]; exact hf _

instance within {ρ' : Type} {g : ρ → ρ'} {x : Program ρ' σ ε α} [hx : Respects R x] :
    Respects R (within g x : Program ρ σ ε α) where
  rel h := hx.rel (returns_within.mp h)

instance ite {p : Prop} [Decidable p] {x y : Program ρ σ ε α} [hx : Respects R x]
    [hy : Respects R y] : Respects R (if p then x else y) := by
  by_cases hp : p
  · rw [if_pos hp]; exact hx
  · rw [if_neg hp]; exact hy

/-- A program that respects a preorder respects every weaker one. -/
theorem mono {R' : σ → σ → Prop} (hR : ∀ s s', R s s' → R' s s') {x : Program ρ σ ε α}
    (hx : Respects R x) : Respects R' x where
  rel h := hR _ _ (hx.rel h)

variable [Std.Refl R]

theorem of_eq {x : Program ρ σ ε α} (hx : ∀ {r s a s'}, Returns x r s a s' → s' = s) :
    Respects R x where
  rel {_ _ _ s'} h := by rw [hx h]; exact refl_of R _

instance pure {a : α} : Respects R (pure a : Program ρ σ ε α) :=
  of_eq fun h => (returns_pure.mp h).2

instance environment : Respects R (environment : Program ρ σ ε ρ) :=
  of_eq fun h => (returns_environment.mp h).2

instance state : Respects R (state : Program ρ σ ε σ) := of_eq fun h => (returns_state.mp h).2

instance failIf {p : Prop} [Decidable p] : Respects R (failIf p e : Program ρ σ ε Unit) :=
  of_eq fun h => (returns_failIf.mp h).2

instance unwrapOr {o : Option α} : Respects R (unwrapOr o e : Program ρ σ ε α) :=
  of_eq fun h => (returns_unwrapOr.mp h).2

instance lift {x : Except ε α} : Respects R (lift x : Program ρ σ ε α) :=
  of_eq fun h => (returns_lift.mp h).2

instance doIf {p : Prop} [Decidable p] {x : Program ρ σ ε Unit} [Respects R x] :
    Respects R (doIf p x) := by
  unfold Program.doIf
  exact ite

instance forEach [IsTrans σ R] {body : β → Program ρ σ ε Unit} [hbody : ∀ b, Respects R (body b)]
    (bs : List β) : Respects R (forEach body bs) := by
  induction bs with
  | nil => exact pure
  | cons b bs ih => exact andThen (hbody b) fun _ => ih

end Respects

end Program
