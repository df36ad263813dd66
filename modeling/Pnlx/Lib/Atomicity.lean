import Mathlib.Data.Nat.Notation
import Pnlx.Lib.Script

/-!
# Scripts that throw

A script that throws keeps what it has done before. It is atomic when that is nothing.

1. `Throws x s s'`: from the state `s` the script `x` throws and leaves `s'`. `Atomic x s`: then
   `s'` is `s`. `atomic_throwIf_bind` and the like: checks that come before the first write.
   `throws_self_bind`: a script whose parts make a measure of the state grow.
2. `Checks x p`: `x` only checks `p`.
3. `Inserts`: the rounds of a loop insert keys and throw at a key that is there. The loop throws
   unless its keys are distinct and new (`Inserts.exists_throws`). It has changed nothing by then
   only if it throws in its first round (`Inserts.head_of_throws`).
-/

namespace Script

variable {σ ε α β : Type}

/-- From the state `s` the script throws and leaves `s'`. -/
def Throws (x : Script σ ε α) (s s' : σ) : Prop := ∃ e, x s = (.error e, s')

/-- The script leaves the state as it is if it throws. -/
def Atomic (x : Script σ ε α) (s : σ) : Prop := ∀ s', Throws x s s' → s' = s

variable {s s' s₁ s₂ : σ} {a : α} {e : ε}

theorem throws_or_returns (x : Script σ ε α) (s : σ) :
    (∃ s', Throws x s s') ∨ ∃ a s', Returns x s a s' := by
  rcases h : x s with ⟨e | a, s'⟩
  · exact Or.inl ⟨s', e, h⟩
  · exact Or.inr ⟨a, s', h⟩

theorem Returns.not_throws {x : Script σ ε α} (h : Returns x s a s') : ¬ Throws x s s₁ := by
  rintro ⟨e, he⟩
  cases (show x s = _ from h).symm.trans he

theorem Returns.unique {x : Script σ ε α} {a' : α} (h : Returns x s a s₁)
    (h' : Returns x s a' s₂) : a = a' ∧ s₁ = s₂ := by
  cases (show x s = _ from h).symm.trans h'
  exact ⟨rfl, rfl⟩

theorem Throws.unique {x : Script σ ε α} (h : Throws x s s₁) (h' : Throws x s s₂) : s₁ = s₂ := by
  obtain ⟨e, he⟩ := h
  obtain ⟨e', he'⟩ := h'
  cases he.symm.trans he'
  rfl

theorem throws_after {x : Script σ ε α} (h : (x s).1 = .error e) : Throws x s (x.after s) :=
  ⟨e, Prod.ext h rfl⟩

@[simp] theorem throws_bind {x : Script σ ε α} {f : α → Script σ ε β} :
    Throws (x >>= f) s s' ↔ Throws x s s' ∨ ∃ a s₁, Returns x s a s₁ ∧ Throws (f a) s₁ s' := by
  unfold Throws Returns
  rw [bind_apply]
  rcases hx : x s with ⟨e | a, s₁⟩
  · constructor
    · rintro ⟨e', he⟩
      cases he
      exact Or.inl ⟨e, rfl⟩
    · rintro (⟨e', he⟩ | ⟨a, s₂, he, -⟩)
      · cases he
        exact ⟨e, rfl⟩
      · cases he
  · constructor
    · exact fun h => Or.inr ⟨a, s₁, rfl, h⟩
    · rintro (⟨e', he⟩ | ⟨a', s₂, he, h⟩)
      · cases he
      · cases he
        exact h

@[simp] theorem not_throws_pure {a : α} : ¬ Throws (pure a : Script σ ε α) s s' := by
  rintro ⟨e, he⟩
  cases he

@[simp] theorem not_throws_read {f : σ → α} : ¬ Throws (read f : Script σ ε α) s s' := by
  rintro ⟨e, he⟩
  cases he

@[simp] theorem not_throws_update {f : σ → σ} : ¬ Throws (update f : Script σ ε Unit) s s' := by
  rintro ⟨e, he⟩
  cases he

@[simp] theorem throws_throwIf {p : Prop} [Decidable p] :
    Throws (throwIf p e : Script σ ε Unit) s s' ↔ p ∧ s' = s := by
  unfold Throws throwIf
  by_cases hp : p
  · rw [if_pos hp]
    refine ⟨?_, fun h => ⟨e, by rw [h.2]⟩⟩
    rintro ⟨e', he⟩
    cases he
    exact ⟨hp, rfl⟩
  · rw [if_neg hp]
    refine ⟨?_, fun h => absurd h.1 hp⟩
    rintro ⟨e', he⟩
    cases he

@[simp] theorem throws_orThrow {o : Option α} :
    Throws (orThrow o e : Script σ ε α) s s' ↔ o = none ∧ s' = s := by
  unfold Throws orThrow
  cases o with
  | none =>
    refine ⟨?_, fun h => ⟨e, by rw [h.2]⟩⟩
    rintro ⟨e', he⟩
    cases he
    exact ⟨rfl, rfl⟩
  | some a =>
    refine ⟨?_, fun h => (by cases h.1)⟩
    rintro ⟨e', he⟩
    cases he

@[simp] theorem throws_doIf {p : Prop} [Decidable p] {x : Script σ ε Unit} :
    Throws (doIf p x) s s' ↔ p ∧ Throws x s s' := by
  unfold doIf
  by_cases hp : p
  · simp [hp]
  · simp [hp]

@[simp] theorem not_throws_forEach_nil {body : β → Script σ ε Unit} :
    ¬ Throws (forEach body []) s s' := not_throws_pure

@[simp] theorem throws_forEach_cons {body : β → Script σ ε Unit} {b : β} {bs : List β} :
    Throws (forEach body (b :: bs)) s s' ↔
      Throws (body b) s s' ∨ ∃ s₁, Returns (body b) s () s₁ ∧ Throws (forEach body bs) s₁ s' := by
  rw [forEach, throws_bind]
  refine or_congr_right ⟨?_, ?_⟩
  · rintro ⟨_, s₁, h⟩
    exact ⟨s₁, h⟩
  · rintro ⟨s₁, h⟩
    exact ⟨(), s₁, h⟩

/-! ## Atomic scripts -/

theorem atomic_update {f : σ → σ} : Atomic (update f : Script σ ε Unit) s :=
  fun _ h => absurd h not_throws_update

theorem atomic_bind_iff {x : Script σ ε α} {f : α → Script σ ε β} (h : Returns x s a s₁) :
    Atomic (x >>= f) s ↔ ∀ s', Throws (f a) s₁ s' → s' = s := by
  refine forall_congr' fun s' => imp_congr_left ?_
  rw [throws_bind]
  constructor
  · rintro (hx | ⟨a', s₂, hx, hf⟩)
    · exact absurd hx h.not_throws
    · obtain ⟨rfl, rfl⟩ := h.unique hx
      exact hf
  · exact fun hf => Or.inr ⟨a, s₁, h, hf⟩

/-- A write that only checks come after. -/
theorem atomic_write_iff {x : Script σ ε α} {f : α → Script σ ε β} (h : Returns x s a s₁)
    (hf : Atomic (f a) s₁) :
    Atomic (x >>= f) s ↔ s₁ = s ∨ ∃ b s', Returns (f a) s₁ b s' := by
  rw [atomic_bind_iff h]
  rcases throws_or_returns (f a) s₁ with ⟨s', hthrows⟩ | hreturns
  · obtain rfl := hf s' hthrows
    refine ⟨fun hall => Or.inl (hall _ hthrows), ?_⟩
    rintro (rfl | ⟨b, s₂, hreturns⟩)
    · exact hf
    · exact absurd hthrows hreturns.not_throws
  · obtain ⟨b, s', hreturns⟩ := hreturns
    exact iff_of_true (fun _ hthrows => absurd hthrows hreturns.not_throws)
      (Or.inr ⟨b, s', hreturns⟩)

theorem atomic_bind_of_returns {x : Script σ ε α} {f : α → Script σ ε β} (h : Returns x s a s) :
    Atomic (x >>= f) s ↔ Atomic (f a) s := atomic_bind_iff h

theorem atomic_bind_of_throws {x : Script σ ε α} {f : α → Script σ ε β} (h : Throws x s s) :
    Atomic (x >>= f) s := by
  intro s' hthrows
  rcases throws_bind.mp hthrows with hx | ⟨a, s₁, hx, -⟩
  · exact hx.unique h
  · exact absurd h hx.not_throws

@[simp] theorem atomic_read_bind {f : σ → α} {g : α → Script σ ε β} :
    Atomic (read f >>= g) s ↔ Atomic (g (f s)) s :=
  atomic_bind_of_returns (returns_read.mpr ⟨rfl, rfl⟩)

@[simp] theorem atomic_throwIf_bind {p : Prop} [Decidable p] {g : Unit → Script σ ε β} :
    Atomic (throwIf p e >>= g) s ↔ (¬ p → Atomic (g ()) s) := by
  by_cases hp : p
  · exact iff_of_true (atomic_bind_of_throws (throws_throwIf.mpr ⟨hp, rfl⟩)) fun h => absurd hp h
  · rw [atomic_bind_of_returns (returns_throwIf.mpr ⟨hp, rfl⟩)]
    exact ⟨fun h _ => h, fun h => h hp⟩

@[simp] theorem atomic_orThrow_bind {o : Option α} {g : α → Script σ ε β} :
    Atomic (orThrow o e >>= g) s ↔ ∀ a, o = some a → Atomic (g a) s := by
  cases o with
  | none =>
    refine iff_of_true (atomic_bind_of_throws (throws_orThrow.mpr ⟨rfl, rfl⟩)) fun _ h => ?_
    cases h
  | some a =>
    rw [atomic_bind_of_returns (returns_orThrow.mpr ⟨rfl, rfl⟩)]
    exact ⟨fun h a' ha => Option.some.inj ha ▸ h, fun h => h a rfl⟩

/-! ## Where a script stops -/

/-- From the state `s` the script returns. -/
def Succeeds (x : Script σ ε α) (s : σ) : Prop := ∃ a s', Returns x s a s'

/-- **A script is atomic** exactly when it returns or throws where it has started. -/
theorem atomic_iff_succeeds_or_throws {x : Script σ ε α} :
    Atomic x s ↔ Succeeds x s ∨ Throws x s s := by
  rcases throws_or_returns x s with ⟨s', hthrows⟩ | ⟨a, s', hreturns⟩
  · constructor
    · exact fun h => Or.inr (h s' hthrows ▸ hthrows)
    · rintro (⟨a, s₁, hreturns⟩ | hself)
      · exact absurd hthrows hreturns.not_throws
      · exact fun s₁ hs₁ => hs₁.unique hself
  · exact iff_of_true (fun s₁ hthrows => absurd hthrows hreturns.not_throws)
      (Or.inl ⟨a, s', hreturns⟩)

theorem succeeds_bind_iff {x : Script σ ε α} {f : α → Script σ ε β} {q : Prop}
    (h : ∀ a s₁, Returns x s a s₁ → (Succeeds (f a) s₁ ↔ q)) :
    Succeeds (x >>= f) s ↔ Succeeds x s ∧ q := by
  constructor
  · rintro ⟨b, s', hreturns⟩
    obtain ⟨a, s₁, hx, hf⟩ := returns_bind.mp hreturns
    exact ⟨⟨a, s₁, hx⟩, (h a s₁ hx).mp ⟨b, s', hf⟩⟩
  · rintro ⟨⟨a, s₁, hx⟩, hq⟩
    obtain ⟨b, s', hf⟩ := (h a s₁ hx).mpr hq
    exact ⟨b, s', returns_bind.mpr ⟨a, s₁, hx, hf⟩⟩

theorem succeeds_bind_congr {x : Script σ ε α} {f g : α → Script σ ε β}
    (h : ∀ a s₁, Returns x s a s₁ → (Succeeds (f a) s₁ ↔ Succeeds (g a) s₁)) :
    Succeeds (x >>= f) s ↔ Succeeds (x >>= g) s := by
  unfold Succeeds at h ⊢
  simp only [returns_bind]
  constructor
  · rintro ⟨b, s', a, s₁, hx, hf⟩
    obtain ⟨b', s'', hg⟩ := (h a s₁ hx).mp ⟨b, s', hf⟩
    exact ⟨b', s'', a, s₁, hx, hg⟩
  · rintro ⟨b, s', a, s₁, hx, hg⟩
    obtain ⟨b', s'', hf⟩ := (h a s₁ hx).mpr ⟨b, s', hg⟩
    exact ⟨b', s'', a, s₁, hx, hf⟩

theorem succeeds_update {f : σ → σ} : Succeeds (update f : Script σ ε Unit) s :=
  ⟨(), f s, returns_update.mpr rfl⟩

/-- The measure of the state does not get smaller. -/
def NoSmaller (μ : σ → ℕ) (s s' : σ) : Prop := μ s ≤ μ s'

instance (μ : σ → ℕ) : Std.Refl (NoSmaller μ) := ⟨fun s => Nat.le_refl (μ s)⟩

instance (μ : σ → ℕ) : IsTrans σ (NoSmaller μ) := ⟨fun _ _ _ => Nat.le_trans⟩

/-- The measure of the state grows if the state changes. -/
def Grows (μ : σ → ℕ) (s s' : σ) : Prop := s' = s ∨ μ s < μ s'

instance (μ : σ → ℕ) : Std.Refl (Grows μ) := ⟨fun _ => Or.inl rfl⟩

theorem Grows.noSmaller {μ : σ → ℕ} (h : Grows μ s s') : NoSmaller μ s s' := by
  rcases h with rfl | h
  · exact Nat.le_refl _
  · exact Nat.le_of_lt h

instance (μ : σ → ℕ) : IsTrans σ (Grows μ) where
  trans s₁ s₂ s₃ h h' := by
    rcases h with rfl | h
    · exact h'
    · exact Or.inr (Nat.lt_of_lt_of_le h h'.noSmaller)

instance {μ : σ → ℕ} {x : Script σ ε α} [hx : Maintains (Grows μ) x] :
    Maintains (NoSmaller μ) x := hx.mono fun _ _ h => h.noSmaller

theorem Maintains.of_throws {R : σ → σ → Prop} {x : Script σ ε α} (hx : Maintains R x)
    (h : Throws x s s') : R s s' := by
  obtain ⟨e, he⟩ := h
  have hrel := hx.rel s
  unfold after at hrel
  rwa [he] at hrel

theorem grows_of_atomic {μ : σ → ℕ} {x : Script σ ε α} (hthrows : ∀ s, Atomic x s)
    (hreturns : ∀ s a s', Returns x s a s' → μ s < μ s') : Maintains (Grows μ) x where
  rel s := by
    unfold after
    rcases hx : x s with ⟨e | a, s'⟩
    · exact Or.inl (hthrows s s' ⟨e, hx⟩)
    · exact Or.inr (hreturns s a s' hx)

/-- A script whose first part grows if it changes anything. It throws where it has started only if
its first part changes nothing. -/
theorem throws_self_bind {x : Script σ ε α} {f : α → Script σ ε β} (μ : σ → ℕ)
    [hf : ∀ a, Maintains (NoSmaller μ) (f a)]
    (hx : ∀ a s₁, Returns x s a s₁ → μ s₁ ≤ μ s → s₁ = s) :
    Throws (x >>= f) s s ↔ Throws x s s ∨ ∃ a, Returns x s a s ∧ Throws (f a) s s := by
  rw [throws_bind]
  refine or_congr_right (exists_congr fun a => ⟨?_, fun h => ⟨s, h⟩⟩)
  rintro ⟨s₁, hreturns, hthrows⟩
  obtain rfl := hx a s₁ hreturns ((hf a).of_throws hthrows)
  exact ⟨hreturns, hthrows⟩

/-- A script whose first part does not grow, and whose second part does if it changes anything. -/
theorem throws_self_bind_of_same {x : Script σ ε α} {f : α → Script σ ε β} (μ : σ → ℕ)
    [hf : ∀ a, Maintains (Grows μ) (f a)] (hx : ∀ a s₁, Returns x s a s₁ → μ s₁ = μ s) :
    Throws (x >>= f) s s ↔ Throws x s s ∨ ∃ a, Returns x s a s ∧ Throws (f a) s s := by
  rw [throws_bind]
  refine or_congr_right (exists_congr fun a => ⟨?_, fun h => ⟨s, h⟩⟩)
  rintro ⟨s₁, hreturns, hthrows⟩
  rcases (hf a).of_throws hthrows with rfl | hlt
  · exact ⟨hreturns, hthrows⟩
  · exact absurd (hx a s₁ hreturns ▸ hlt) (Nat.lt_irrefl _)

/-! ## Checks -/

/-- The script only checks a property. -/
structure Checks (x : Script σ ε Unit) (p : σ → Prop) : Prop where
  returns : ∀ s, p s → Returns x s () s
  throws : ∀ s, ¬ p s → Throws x s s

namespace Checks

variable {x : Script σ ε Unit} {p q : σ → Prop}

theorem returns_iff (h : Checks x p) {u : Unit} : Returns x s u s' ↔ p s ∧ s' = s := by
  by_cases hp : p s
  · refine ⟨fun hx => ⟨hp, (hx.unique (h.returns s hp)).2⟩, fun hs' => ?_⟩
    rw [hs'.2]
    exact h.returns s hp
  · exact iff_of_false (fun hx => hx.not_throws (h.throws s hp)) fun hs' => hp hs'.1

theorem throws_iff (h : Checks x p) : Throws x s s' ↔ ¬ p s ∧ s' = s := by
  by_cases hp : p s
  · exact iff_of_false (h.returns s hp).not_throws fun hs' => hs'.1 hp
  · refine ⟨fun hx => ⟨hp, hx.unique (h.throws s hp)⟩, fun hs' => ?_⟩
    rw [hs'.2]
    exact h.throws s hp

theorem atomic_bind (h : Checks x p) {g : Unit → Script σ ε β} :
    Atomic (x >>= g) s ↔ (p s → Atomic (g ()) s) := by
  by_cases hp : p s
  · rw [atomic_bind_of_returns (h.returns s hp)]
    exact ⟨fun h _ => h, fun h => h hp⟩
  · exact iff_of_true (atomic_bind_of_throws (h.throws s hp)) fun h => absurd h hp

theorem congr (h : Checks x p) (hpq : ∀ s, q s ↔ p s) : Checks x q where
  returns s hq := h.returns s ((hpq s).mp hq)
  throws s hq := h.throws s fun hp => hq ((hpq s).mpr hp)

/-- A check of a part of the state. -/
theorem read {f : σ → α} {y : α → Script σ ε Unit} (h : ∀ s, (p s → Returns (y (f s)) s () s) ∧
    (¬ p s → Throws (y (f s)) s s)) : Checks (read f >>= y) p where
  returns s hp := returns_bind.mpr ⟨f s, s, returns_read.mpr ⟨rfl, rfl⟩, (h s).1 hp⟩
  throws s hp := throws_bind.mpr (Or.inr ⟨f s, s, returns_read.mpr ⟨rfl, rfl⟩, (h s).2 hp⟩)

theorem throwIf (p : σ → Prop) {c : Prop} [Decidable c] (hc : ∀ s, p s ↔ ¬ c) :
    Checks (throwIf c e : Script σ ε Unit) p where
  returns s hp := returns_throwIf.mpr ⟨(hc s).mp hp, rfl⟩
  throws s hp := throws_throwIf.mpr ⟨Classical.not_not.mp fun h => hp ((hc s).mpr h), rfl⟩

theorem bind (h : Checks x p) {y : Unit → Script σ ε Unit} (hy : Checks (y ()) q) :
    Checks (x >>= y) fun s => p s ∧ q s where
  returns s hpq := returns_bind.mpr ⟨(), s, h.returns s hpq.1, hy.returns s hpq.2⟩
  throws s hpq := by
    rw [throws_bind]
    by_cases hp : p s
    · exact Or.inr ⟨(), s, h.returns s hp, hy.throws s fun hq => hpq ⟨hp, hq⟩⟩
    · exact Or.inl (h.throws s hp)

theorem forEach {body : β → Script σ ε Unit} {p : β → σ → Prop} (h : ∀ b, Checks (body b) (p b))
    (bs : List β) : Checks (forEach body bs) fun s => ∀ b ∈ bs, p b s := by
  induction bs with
  | nil => exact ⟨fun s _ => returns_forEach_nil.mpr rfl, fun s hs => absurd nofun hs⟩
  | cons b bs ih =>
    refine ⟨fun s hs => ?_, fun s hs => ?_⟩
    · obtain ⟨hb, hbs⟩ := List.forall_mem_cons.mp hs
      exact returns_forEach_cons.mpr ⟨s, (h b).returns s hb, ih.returns s hbs⟩
    · rw [List.forall_mem_cons] at hs
      rw [throws_forEach_cons]
      by_cases hb : p b s
      · exact Or.inr ⟨s, (h b).returns s hb, ih.throws s fun hbs => hs ⟨hb, hbs⟩⟩
      · exact Or.inl ((h b).throws s hb)

end Checks

/-! ## Loops that insert keys -/

/-- The elements fit, and their keys are distinct and new. -/
def Insertable {κ : Type} (s : σ) (has : σ → κ → Prop) (fits : β → Prop) (key : β → κ)
    (bs : List β) : Prop :=
  (bs.map key).Nodup ∧ ∀ b ∈ bs, fits b ∧ ¬ has s (key b)

theorem insertable_congr {κ : Type} {has : σ → κ → Prop} {fits : β → Prop} {key : β → κ}
    {bs : List β} (h : ∀ k, has s k ↔ has s' k) :
    Insertable s has fits key bs ↔ Insertable s' has fits key bs := by
  unfold Insertable
  simp only [h]

/-- The first element does not fit, or its key is there. -/
def HeadFails {κ : Type} (s : σ) (has : σ → κ → Prop) (fits : β → Prop) (key : β → κ)
    (bs : List β) : Prop :=
  ∃ b ∈ bs.head?, ¬ (fits b ∧ ¬ has s (key b))

/-- The rounds of a loop insert keys. A round throws, and changes nothing, if its element does not
fit or its key is there. Otherwise it adds the key, and the measure of the state grows. -/
structure Inserts {κ : Type} (inv : σ → Prop) (μ : σ → ℕ) (has : σ → κ → Prop) (fits : β → Prop)
    (key : β → κ) (body : β → Script σ ε Unit) : Prop where
  throws : ∀ b s s', inv s → (Throws (body b) s s' ↔ s' = s ∧ ¬ (fits b ∧ ¬ has s (key b)))
  returns : ∀ b s s', inv s → Returns (body b) s () s' →
    inv s' ∧ μ s < μ s' ∧ ∀ k, has s' k ↔ has s k ∨ k = key b

namespace Inserts

variable {κ : Type} {inv : σ → Prop} {μ : σ → ℕ} {has : σ → κ → Prop} {fits : β → Prop}
  {key : β → κ} {body : β → Script σ ε Unit} {bs : List β}

/-- A round whose element fits and whose key is new returns. -/
theorem exists_returns (h : Inserts inv μ has fits key body) (hs : inv s) {b : β}
    (hb : fits b ∧ ¬ has s (key b)) : ∃ s₁, Returns (body b) s () s₁ := by
  rcases throws_or_returns (body b) s with ⟨s', hthrows⟩ | ⟨_, s₁, hreturns⟩
  · exact absurd hb ((h.throws b s s' hs).mp hthrows).2
  · exact ⟨s₁, hreturns⟩

/-- **The loop throws** unless its elements fit and their keys are distinct and new. -/
theorem exists_throws (h : Inserts inv μ has fits key body) (hs : inv s) :
    (∃ s', Throws (forEach body bs) s s') ↔ ¬ Insertable s has fits key bs := by
  unfold Insertable
  induction bs generalizing s with
  | nil => exact iff_of_false (fun ⟨_, hx⟩ => not_throws_forEach_nil hx) fun hx => hx ⟨.nil, nofun⟩
  | cons b bs ih =>
    by_cases hb : fits b ∧ ¬ has s (key b)
    · obtain ⟨s₁, hfirst⟩ := h.exists_returns hs hb
      obtain ⟨hs₁, -, hhas⟩ := h.returns b s s₁ hs hfirst
      have hrest : (∃ s', Throws (forEach body (b :: bs)) s s') ↔
          ∃ s', Throws (forEach body bs) s₁ s' := by
        refine exists_congr fun s' => ?_
        rw [throws_forEach_cons]
        constructor
        · rintro (hx | ⟨s₂, hx, hbs⟩)
          · exact absurd hx hfirst.not_throws
          · exact (hfirst.unique hx).2 ▸ hbs
        · exact fun hbs => Or.inr ⟨s₁, hfirst, hbs⟩
      rw [hrest, ih hs₁, List.map_cons, List.nodup_cons, List.forall_mem_cons]
      refine not_congr ⟨?_, ?_⟩
      · rintro ⟨hnodup, hnew⟩
        refine ⟨⟨fun hmem => ?_, hnodup⟩, hb, fun b' hmem => ?_⟩
        · obtain ⟨b', hmem, hkey⟩ := List.mem_map.mp hmem
          exact (hnew b' hmem).2 ((hhas _).mpr (Or.inr hkey))
        · exact ⟨(hnew b' hmem).1, fun hhad => (hnew b' hmem).2 ((hhas _).mpr (Or.inl hhad))⟩
      · rintro ⟨⟨hnotMem, hnodup⟩, -, hnew⟩
        refine ⟨hnodup, fun b' hmem => ⟨(hnew b' hmem).1, fun hhas' => ?_⟩⟩
        rcases (hhas _).mp hhas' with hhad | hkey
        · exact (hnew b' hmem).2 hhad
        · exact hnotMem (List.mem_map.mpr ⟨b', hmem, hkey⟩)
    · refine iff_of_true ⟨s, ?_⟩ fun hx => hb (hx.2 b List.mem_cons_self)
      exact throws_forEach_cons.mpr (Or.inl ((h.throws b s s hs).mpr ⟨rfl, hb⟩))

/-- The loop returns exactly when its elements fit and their keys are distinct and new. -/
theorem succeeds_iff (h : Inserts inv μ has fits key body) (hs : inv s) :
    Succeeds (forEach body bs) s ↔ Insertable s has fits key bs := by
  rcases throws_or_returns (forEach body bs) s with hthrows | hreturns
  · refine iff_of_false ?_ ((h.exists_throws hs).mp hthrows)
    rintro ⟨_, _, hreturns⟩
    exact hreturns.not_throws hthrows.choose_spec
  · refine iff_of_true hreturns (Classical.not_not.mp fun hnot => ?_)
    obtain ⟨s', hthrows⟩ := (h.exists_throws hs).mpr hnot
    obtain ⟨_, _, hreturns⟩ := hreturns
    exact hreturns.not_throws hthrows

theorem le_of_returns (h : Inserts inv μ has fits key body) (hs : inv s) {u : Unit}
    (hx : Returns (forEach body bs) s u s') : inv s' ∧ μ s ≤ μ s' := by
  induction bs generalizing s with
  | nil =>
    rw [returns_forEach_nil.mp hx]
    exact ⟨hs, Nat.le_refl _⟩
  | cons b bs ih =>
    obtain ⟨s₁, hfirst, hrest⟩ := returns_forEach_cons.mp hx
    obtain ⟨hs₁, hlt, -⟩ := h.returns b s s₁ hs hfirst
    exact ⟨(ih hs₁ hrest).1, Nat.le_of_lt (Nat.lt_of_lt_of_le hlt (ih hs₁ hrest).2)⟩

/-- A loop that returns without growth has no rounds. -/
theorem nil_of_returns (h : Inserts inv μ has fits key body) (hs : inv s) {u : Unit}
    (hx : Returns (forEach body bs) s u s') (hle : μ s' ≤ μ s) : bs = [] := by
  cases bs with
  | nil => rfl
  | cons b bs =>
    obtain ⟨s₁, hfirst, hrest⟩ := returns_forEach_cons.mp hx
    obtain ⟨hs₁, hlt, -⟩ := h.returns b s s₁ hs hfirst
    exact absurd (Nat.lt_of_lt_of_le hlt (Nat.le_trans (h.le_of_returns hs₁ hrest).2 hle))
      (Nat.lt_irrefl _)

theorem returns_self_iff (h : Inserts inv μ has fits key body) (hs : inv s) {u : Unit} :
    Returns (forEach body bs) s u s ↔ bs = [] := by
  refine ⟨fun hx => h.nil_of_returns hs hx (Nat.le_refl _), ?_⟩
  rintro rfl
  exact returns_forEach_nil.mpr rfl

/-- A loop that returns without growth has changed nothing. -/
theorem eq_of_returns (h : Inserts inv μ has fits key body) (hs : inv s) {u : Unit}
    (hx : Returns (forEach body bs) s u s') (hle : μ s' ≤ μ s) : s' = s := by
  obtain rfl := h.nil_of_returns hs hx hle
  exact returns_forEach_nil.mp hx

theorem le_of_throws (h : Inserts inv μ has fits key body) (hs : inv s)
    (hx : Throws (forEach body bs) s s') : μ s ≤ μ s' := by
  induction bs generalizing s with
  | nil => exact absurd hx not_throws_forEach_nil
  | cons b bs ih =>
    rcases throws_forEach_cons.mp hx with hfirst | ⟨s₁, hfirst, hrest⟩
    · exact Nat.le_of_eq (congrArg μ ((h.throws b s s' hs).mp hfirst).1.symm)
    · obtain ⟨hs₁, hlt, -⟩ := h.returns b s s₁ hs hfirst
      exact Nat.le_of_lt (Nat.lt_of_lt_of_le hlt (ih hs₁ hrest))

/-- **A loop that throws has changed nothing** exactly when its first round throws. -/
theorem throws_self_iff (h : Inserts inv μ has fits key body) (hs : inv s) :
    Throws (forEach body bs) s s ↔ HeadFails s has fits key bs := by
  cases bs with
  | nil => exact iff_of_false not_throws_forEach_nil fun ⟨_, hb, _⟩ => (by cases hb)
  | cons b bs =>
    rw [throws_forEach_cons, h.throws b s s hs]
    constructor
    · rintro (⟨-, hfails⟩ | ⟨s₁, hfirst, hrest⟩)
      · exact ⟨b, rfl, hfails⟩
      · obtain ⟨hs₁, hlt, -⟩ := h.returns b s s₁ hs hfirst
        exact absurd (Nat.lt_of_lt_of_le hlt (h.le_of_throws hs₁ hrest)) (Nat.lt_irrefl _)
    · rintro ⟨b', hb', hfails⟩
      cases hb'
      exact Or.inl ⟨rfl, hfails⟩

end Inserts

end Script
