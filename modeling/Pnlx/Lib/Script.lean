import Mathlib.Order.Defs.Unbundled

/-!
# Scripts that update a state and may throw

A script that throws keeps what it has done to the state before. So its state is left in one of two
ways: by a script that returns, which `Returns` describes, and by a script that returns or throws,
which `after` computes.

1. `Returns x s a s'`: from the state `s` the script `x` returns `a` and leaves `s'`.
2. `Maintains R x`: what `x` leaves, whether it returns or throws, is related to where it started by
   the preorder `R`.
-/

/-- Scripts that update a state and may throw. -/
abbrev Script (σ ε : Type) := ExceptT ε (StateM σ)

namespace Script

variable {σ ε α β : Type}

/-! ## Primitives -/

/-- A part of the state. -/
def read (f : σ → α) : Script σ ε α := fun s => (.ok (f s), s)

def update (f : σ → σ) : Script σ ε Unit := fun s => (.ok (), f s)

def throwIf (p : Prop) [Decidable p] (e : ε) : Script σ ε Unit :=
  fun s => (if p then .error e else .ok (), s)

/-- The value of an option, or the error. -/
def orThrow (o : Option α) (e : ε) : Script σ ε α :=
  fun s => (match o with
    | some a => .ok a
    | none => .error e, s)

/-- `x` if `p` holds, and nothing otherwise. -/
def doIf (p : Prop) [Decidable p] (x : Script σ ε Unit) : Script σ ε Unit :=
  if p then x else pure ()

/-- `x` if `p` holds, and `y` otherwise. -/
def branch (p : Prop) [Decidable p] (x y : Script σ ε α) : Script σ ε α := if p then x else y

/-- A result that is computed without the state. -/
def ofExcept (result : Except ε α) : Script σ ε α := fun s => (result, s)

/-- The script with its error changed. -/
def mapError (f : ε → ε) (x : Script σ ε α) : Script σ ε α := fun s => ((x s).1.mapError f, (x s).2)

/-- The script, with a value to return when it throws. -/
def recover (x : Script σ ε α) (a : α) : Script σ ε α :=
  fun s => (.ok ((x s).1.toOption.getD a), (x s).2)

/-- A script on a part of the state. -/
def onPart {τ : Type} (get : σ → τ) (set : σ → τ → σ) (x : Script τ ε α) : Script σ ε α :=
  fun s => ((x (get s)).1, set s (x (get s)).2)

/-- `body` on each element of a list, in order. -/
def forEach (body : β → Script σ ε Unit) : List β → Script σ ε Unit
  | [] => pure ()
  | b :: bs => do
    body b
    forEach body bs

/-- What a script leaves, whether it returns or throws. -/
def after (x : Script σ ε α) (s : σ) : σ := (x s).2

/-- What a script leaves if it returns, or its error. -/
def commit (x : Script σ ε Unit) (s : σ) : Except ε σ :=
  match x s with
  | (.ok _, s') => .ok s'
  | (.error e, _) => .error e

theorem except_bind_eq_ok {x : Except ε α} {f : α → Except ε β} {b : β} :
    x >>= f = .ok b ↔ ∃ a, x = .ok a ∧ f a = .ok b := by
  cases x with
  | error e => exact ⟨fun h => (by cases h), fun ⟨_, h, _⟩ => (by cases h)⟩
  | ok a => exact ⟨fun h => ⟨a, rfl, h⟩, fun ⟨_, h, hf⟩ => Except.ok.inj h ▸ hf⟩

theorem mapError_eq_ok {ε' : Type} {x : Except ε α} {f : ε → ε'} {a : α} :
    x.mapError f = .ok a ↔ x = .ok a := by
  cases x with
  | error e => exact iff_of_false (fun h => by cases h) fun h => by cases h
  | ok b => exact ⟨fun h => congrArg _ (Except.ok.inj h), fun h => congrArg _ (Except.ok.inj h)⟩

/-! ## Scripts that return -/

/-- From the state `s` the script returns `a` and leaves `s'`. -/
def Returns (x : Script σ ε α) (s : σ) (a : α) (s' : σ) : Prop := x s = (.ok a, s')

variable {s s' : σ} {a : α} {b : β} {e : ε}

theorem bind_apply (x : Script σ ε α) (f : α → Script σ ε β) (s : σ) :
    (x >>= f) s = match x s with
      | (.ok a, s') => f a s'
      | (.error e, s') => (.error e, s') := by
  show ExceptT.bindCont f (x s).1 (x s).2 = _
  rcases x s with ⟨_ | _, _⟩ <;> rfl

theorem Returns.after {x : Script σ ε α} (h : Returns x s a s') : x.after s = s' := by
  unfold Script.after
  rw [h]

theorem commit_eq_ok {x : Script σ ε Unit} : x.commit s = .ok s' ↔ Returns x s () s' := by
  unfold commit Returns
  rcases x s with ⟨e | u, s₁⟩
  · exact ⟨fun h => (by cases h), fun h => (by cases h)⟩
  · rw [Except.ok.injEq, Prod.mk.injEq]
    exact (and_iff_right rfl).symm

@[simp] theorem returns_bind {x : Script σ ε α} {f : α → Script σ ε β} :
    Returns (x >>= f) s b s' ↔ ∃ a s₁, Returns x s a s₁ ∧ Returns (f a) s₁ b s' := by
  unfold Returns
  rw [bind_apply]
  rcases hx : x s with ⟨e | a, s₁⟩
  · refine ⟨fun h => (by cases h), ?_⟩
    rintro ⟨a, s₂, h, -⟩
    cases h
  · refine ⟨fun h => ⟨a, s₁, rfl, h⟩, ?_⟩
    rintro ⟨a', s₂, h, hf⟩
    cases h
    exact hf

/-- What a script leaves, from what its first part leaves and what follows when that returns. -/
theorem after_bind {p : σ → Prop} {x : Script σ ε α} {f : α → Script σ ε β} (hx : p (x.after s))
    (hf : ∀ a s₁, Returns x s a s₁ → p ((f a).after s₁)) : p ((x >>= f).after s) := by
  unfold Script.after at hx hf ⊢
  rw [bind_apply]
  rcases h : x s with ⟨e | a, s₁⟩
  · rwa [h] at hx
  · exact hf a s₁ h

/-- A preorder between where a script starts and what it leaves, from its parts. -/
theorem rel_after_bind {R : σ → σ → Prop} [IsTrans σ R] {x : Script σ ε α} {f : α → Script σ ε β}
    (hx : R s (x.after s)) (hf : ∀ a s₁, Returns x s a s₁ → R s₁ ((f a).after s₁)) :
    R s ((x >>= f).after s) := by
  unfold Script.after at hx hf ⊢
  rw [bind_apply]
  rcases h : x s with ⟨e | a, s₁⟩
  · rwa [h] at hx
  · rw [h] at hx
    exact trans_of R hx (hf a s₁ h)

@[simp] theorem returns_pure {a' : α} :
    Returns (pure a' : Script σ ε α) s a s' ↔ a = a' ∧ s' = s := by
  have hpure : (pure a' : Script σ ε α) s = (.ok a', s) := rfl
  unfold Returns
  rw [hpure, Prod.mk.injEq, Except.ok.injEq, eq_comm, eq_comm (a := s)]

@[simp] theorem returns_read {f : σ → α} :
    Returns (read f : Script σ ε α) s a s' ↔ a = f s ∧ s' = s := by
  unfold Returns read
  rw [Prod.mk.injEq, Except.ok.injEq, eq_comm, eq_comm (a := s)]

@[simp] theorem returns_update {f : σ → σ} {u : Unit} :
    Returns (update f : Script σ ε Unit) s u s' ↔ s' = f s := by
  unfold Returns update
  rw [Prod.mk.injEq, eq_comm (a := f s)]
  exact and_iff_right rfl

@[simp] theorem returns_throwIf {p : Prop} [Decidable p] {u : Unit} :
    Returns (throwIf p e : Script σ ε Unit) s u s' ↔ ¬ p ∧ s' = s := by
  unfold Returns throwIf
  rw [Prod.mk.injEq, eq_comm (a := s)]
  by_cases hp : p
  · rw [if_pos hp]
    exact ⟨fun h => (by cases h.1), fun h => absurd hp h.1⟩
  · rw [if_neg hp]
    exact ⟨fun h => ⟨hp, h.2⟩, fun h => ⟨rfl, h.2⟩⟩

@[simp] theorem returns_orThrow {o : Option α} :
    Returns (orThrow o e : Script σ ε α) s a s' ↔ o = some a ∧ s' = s := by
  unfold Returns orThrow
  rw [Prod.mk.injEq, eq_comm (a := s)]
  cases o with
  | none => exact ⟨fun h => (by cases h.1), fun h => (by cases h.1)⟩
  | some a' =>
    show Except.ok a' = Except.ok a ∧ s' = s ↔ _
    rw [Except.ok.injEq, Option.some.injEq]

@[simp] theorem returns_forEach_nil {body : β → Script σ ε Unit} {u : Unit} :
    Returns (forEach body []) s u s' ↔ s' = s := by
  unfold forEach
  rw [returns_pure]
  exact and_iff_right rfl

@[simp] theorem returns_forEach_cons {body : β → Script σ ε Unit} {bs : List β} {u : Unit} :
    Returns (forEach body (b :: bs)) s u s' ↔
      ∃ s₁, Returns (body b) s () s₁ ∧ Returns (forEach body bs) s₁ u s' := by
  rw [forEach, returns_bind]
  exact ⟨fun ⟨_, s₁, h⟩ => ⟨s₁, h⟩, fun ⟨s₁, h⟩ => ⟨(), s₁, h⟩⟩

/-- A loop whose rounds are related by a preorder is related by it. -/
theorem returns_forEach_rel {R : σ → σ → Prop} [Std.Refl R] [IsTrans σ R]
    {body : β → Script σ ε Unit} {bs : List β}
    (hbody : ∀ b ∈ bs, ∀ s s', Returns (body b) s () s' → R s s') {u : Unit}
    (h : Returns (forEach body bs) s u s') : R s s' := by
  induction bs generalizing s with
  | nil =>
    rw [returns_forEach_nil.mp h]
    exact refl_of R s
  | cons b bs ih =>
    obtain ⟨s₁, hb, hbs⟩ := returns_forEach_cons.mp h
    have hrest := ih (fun b' hmem => hbody b' (List.mem_cons_of_mem _ hmem)) hbs
    exact trans_of R (hbody b List.mem_cons_self s s₁ hb) hrest

@[simp] theorem returns_doIf {p : Prop} [Decidable p] {x : Script σ ε Unit} {u : Unit} :
    Returns (doIf p x) s u s' ↔ (p ∧ Returns x s u s') ∨ (¬ p ∧ s' = s) := by
  unfold doIf
  by_cases hp : p
  · simp [hp]
  · simp [hp]

@[simp] theorem returns_branch {p : Prop} [Decidable p] {x y : Script σ ε α} :
    Returns (branch p x y) s a s' ↔ (p ∧ Returns x s a s') ∨ (¬ p ∧ Returns y s a s') := by
  unfold branch
  by_cases hp : p
  · simp [hp]
  · simp [hp]

@[simp] theorem returns_ofExcept {result : Except ε α} :
    Returns (ofExcept result : Script σ ε α) s a s' ↔ result = .ok a ∧ s' = s := by
  unfold Returns ofExcept
  rw [Prod.mk.injEq, eq_comm (a := s)]

@[simp] theorem returns_mapError {f : ε → ε} {x : Script σ ε α} :
    Returns (mapError f x) s a s' ↔ Returns x s a s' := by
  unfold Returns mapError
  rcases x s with ⟨e | a, s₁⟩
  · exact ⟨fun h => (by cases h), fun h => (by cases h)⟩
  · exact Iff.rfl

theorem Returns.recover {x : Script σ ε α} (h : Returns x s a s') (b : α) :
    Returns (x.recover b) s a s' := by
  unfold Returns Script.recover
  rw [h]
  rfl

/-- A value other than the one for errors has been returned by the script. -/
theorem returns_of_recover {x : Script σ ε α} {b : α} (h : Returns (x.recover b) s a s')
    (hne : a ≠ b) : Returns x s a s' := by
  unfold Returns Script.recover at *
  rcases hx : x s with ⟨e | a', s₁⟩
  · rw [hx] at h
    cases h
    exact absurd rfl hne
  · rw [hx] at h
    cases h
    rfl

@[simp] theorem returns_onPart {τ : Type} {get : σ → τ} {set : σ → τ → σ} {x : Script τ ε α} :
    Returns (onPart get set x) s a s' ↔ ∃ t, Returns x (get s) a t ∧ s' = set s t := by
  unfold Returns onPart
  rcases x (get s) with ⟨e | a', t⟩
  · exact ⟨fun h => (by cases h), fun ⟨_, h, _⟩ => (by cases h)⟩
  · constructor
    · intro h
      cases h
      exact ⟨t, rfl, rfl⟩
    · rintro ⟨_, h, rfl⟩
      cases h
      rfl

/-! ## Preorders that a script maintains

`Maintains` is a class, so that instance search composes the facts about the parts of a script. -/

/-- What the script leaves, whether it returns or throws, is related by `R` to where it started. -/
class Maintains (R : σ → σ → Prop) (x : Script σ ε α) : Prop where
  rel : ∀ s, R s (x.after s)

theorem Maintains.of_returns {R : σ → σ → Prop} {x : Script σ ε α} (hx : Maintains R x)
    (h : Returns x s a s') : R s s' := by
  have hrel := hx.rel s
  rwa [h.after] at hrel

namespace Maintains

variable {R : σ → σ → Prop}

/-- A script maintains what a finer preorder keeps. -/
theorem mono {R' : σ → σ → Prop} {x : Script σ ε α} (hx : Maintains R x)
    (h : ∀ s s', R s s' → R' s s') : Maintains R' x := ⟨fun s => h _ _ (hx.rel s)⟩

instance bind [IsTrans σ R] {x : Script σ ε α} {f : α → Script σ ε β} [hx : Maintains R x]
    [hf : ∀ a, Maintains R (f a)] : Maintains R (x >>= f) :=
  ⟨fun s => rel_after_bind (hx.rel s) fun a s₁ _ => (hf a).rel s₁⟩

/-- `bind` with the parts of the script as explicit arguments. -/
theorem andThen [IsTrans σ R] {x : Script σ ε α} {f : α → Script σ ε β} (hx : Maintains R x)
    (hf : ∀ a, Maintains R (f a)) : Maintains R (x >>= f) := bind

theorem update {f : σ → σ} (hf : ∀ s, R s (f s)) : Maintains R (update f : Script σ ε Unit) := ⟨hf⟩

theorem mapError {f : ε → ε} {x : Script σ ε α} (hx : Maintains R x) : Maintains R (x.mapError f) :=
  ⟨hx.rel⟩

theorem recover {x : Script σ ε α} {a : α} (hx : Maintains R x) : Maintains R (x.recover a) :=
  ⟨hx.rel⟩

variable [Std.Refl R]

instance pure (a : α) : Maintains R (Pure.pure a : Script σ ε α) := ⟨fun s => refl_of R s⟩

instance read (f : σ → α) : Maintains R (read f : Script σ ε α) := ⟨fun s => refl_of R s⟩

instance throwIf (p : Prop) [Decidable p] (e : ε) : Maintains R (throwIf p e : Script σ ε Unit) :=
  ⟨fun s => refl_of R s⟩

instance orThrow (o : Option α) (e : ε) : Maintains R (orThrow o e : Script σ ε α) :=
  ⟨fun s => refl_of R s⟩

instance doIf {p : Prop} [Decidable p] {x : Script σ ε Unit} [hx : Maintains R x] :
    Maintains R (doIf p x) := by
  unfold Script.doIf
  by_cases hp : p
  · rwa [if_pos hp]
  · rw [if_neg hp]
    exact pure ()

instance branch {p : Prop} [Decidable p] {x y : Script σ ε α} [hx : Maintains R x]
    [hy : Maintains R y] : Maintains R (branch p x y) := by
  unfold Script.branch
  by_cases hp : p
  · rwa [if_pos hp]
  · rwa [if_neg hp]

instance ofExcept (result : Except ε α) : Maintains R (ofExcept result : Script σ ε α) :=
  ⟨fun s => refl_of R s⟩

/-- A loop maintains what its rounds do. -/
theorem forEach_of_mem [IsTrans σ R] {body : β → Script σ ε Unit} {bs : List β}
    (hbody : ∀ b ∈ bs, Maintains R (body b)) : Maintains R (forEach body bs) := by
  induction bs with
  | nil => exact pure ()
  | cons b bs ih =>
    exact andThen (hbody b List.mem_cons_self) fun _ =>
      ih fun b' h => hbody b' (List.mem_cons_of_mem _ h)

instance forEach [IsTrans σ R] {body : β → Script σ ε Unit} [hbody : ∀ b, Maintains R (body b)]
    {bs : List β} : Maintains R (forEach body bs) := forEach_of_mem fun b _ => hbody b

end Maintains

/-- A part of the state is the same. -/
def Same (f : σ → β) (s s' : σ) : Prop := f s' = f s

instance (f : σ → β) : Std.Refl (Same f) := ⟨fun _ => rfl⟩

instance (f : σ → β) : IsTrans σ (Same f) := ⟨fun _ _ _ h h' => h'.trans h⟩

/-- The rounds of a loop that leave the state as it is all return from it. -/
theorem returns_of_forEach {body : β → Script σ ε Unit} {bs : List β} {u : Unit}
    (hbody : ∀ b ∈ bs, Maintains (Same id) (body b)) (h : Returns (forEach body bs) s u s') :
    ∀ b ∈ bs, Returns (body b) s () s := by
  induction bs with
  | nil => exact fun b hb => absurd hb List.not_mem_nil
  | cons b bs ih =>
    obtain ⟨s₁, hb, hbs⟩ := returns_forEach_cons.mp h
    obtain rfl : s₁ = s := (hbody b List.mem_cons_self).of_returns hb
    intro b' hmem
    obtain rfl | hmem := List.mem_cons.mp hmem
    · exact hb
    · exact ih (fun b hb => hbody b (List.mem_cons_of_mem _ hb)) hbs b' hmem

end Script
