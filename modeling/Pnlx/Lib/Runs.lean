import Mathlib.Data.List.Nodup
import Mathlib.Data.List.Pairwise

/-!
# Runs of a partial step function

A step function `step : σ → α → Except ε σ` either accepts an action and moves to a new state,
or rejects it and leaves the state as it was. `accepted` lists the accepted steps of a run with
the states around them, `final` is the state after it.

1. `accepted_ok`, `accepted_of_inv`, `final_of_inv`, `final_of_steps`, `final_of_accepted`,
   `final_of_log`: an invariant of the step function, one of the accepted steps, and one of what
   they log, holds around every accepted step and at the end.
2. `exists_earlier`, `exists_flip`: what holds before an accepted step, or at the end of a run, was
   brought about by a step of the run. `related_of_mem`: steps that respect a preorder.
3. `ReplayGuard`: the accepted steps mark their keys in a set that only grows and that they find
   unmarked. Then no key is used twice in a run (`ReplayGuard.nodup`).
-/

namespace Runs

variable {σ α ε κ : Type*}

/-- An accepted action with the states before and after it. -/
structure Step (σ α : Type*) where
  pre : σ
  act : α
  post : σ

/-- The accepted steps of a run. -/
def accepted (step : σ → α → Except ε σ) : σ → List α → List (Step σ α)
  | _, [] => []
  | s, a :: as =>
    match step s a with
    | .ok s' => ⟨s, a, s'⟩ :: accepted step s' as
    | .error _ => accepted step s as

/-- The state after a run. -/
def final (step : σ → α → Except ε σ) : σ → List α → σ
  | s, [] => s
  | s, a :: as =>
    match step s a with
    | .ok s' => final step s' as
    | .error _ => final step s as

section Basic

variable {step : σ → α → Except ε σ}

@[simp] theorem accepted_nil (s : σ) : accepted step s [] = [] := rfl

@[simp] theorem final_nil (s : σ) : final step s [] = s := rfl

theorem accepted_cons_ok {s s' : σ} {a : α} (h : step s a = .ok s') (as : List α) :
    accepted step s (a :: as) = ⟨s, a, s'⟩ :: accepted step s' as := by
  rw [accepted, h]

theorem accepted_cons_error {s : σ} {a : α} {e : ε} (h : step s a = .error e) (as : List α) :
    accepted step s (a :: as) = accepted step s as := by
  rw [accepted, h]

theorem final_cons_ok {s s' : σ} {a : α} (h : step s a = .ok s') (as : List α) :
    final step s (a :: as) = final step s' as := by
  rw [final, h]

theorem final_cons_error {s : σ} {a : α} {e : ε} (h : step s a = .error e) (as : List α) :
    final step s (a :: as) = final step s as := by
  rw [final, h]

theorem final_append (s : σ) (as bs : List α) :
    final step s (as ++ bs) = final step (final step s as) bs := by
  induction as generalizing s with
  | nil => rfl
  | cons a as ih =>
    cases h : step s a with
    | error e => rw [List.cons_append, final_cons_error h, final_cons_error h, ih]
    | ok s' => rw [List.cons_append, final_cons_ok h, final_cons_ok h, ih]

theorem final_cons (s : σ) (a : α) (as : List α) :
    final step s (a :: as) = final step (final step s [a]) as := final_append s [a] as

/-- An invariant of the step function holds before and after every accepted step. The step may
use that its action satisfies `good`. -/
theorem accepted_of_inv {good : α → Prop} {inv : σ → Prop}
    (hstep : ∀ s a s', good a → inv s → step s a = .ok s' → inv s') {s : σ} {as : List α}
    (hs : inv s) (has : ∀ a ∈ as, good a) :
    ∀ x ∈ accepted step s as, inv x.pre ∧ inv x.post := by
  induction as generalizing s with
  | nil => simp
  | cons a as ih =>
    have hrest : ∀ b ∈ as, good b := fun b hb => has b (List.mem_cons_of_mem _ hb)
    cases h : step s a with
    | error e => rw [accepted_cons_error h]; exact ih hs hrest
    | ok s' =>
      have hs' : inv s' := hstep s a s' (has a List.mem_cons_self) hs h
      rw [accepted_cons_ok h]
      intro x hx
      rcases List.mem_cons.mp hx with rfl | hx
      · exact ⟨hs, hs'⟩
      · exact ih hs' hrest x hx

/-- Every accepted step is a step. -/
theorem accepted_ok {s : σ} {as : List α} :
    ∀ x ∈ accepted step s as, step x.pre x.act = .ok x.post ∧ x.act ∈ as := by
  induction as generalizing s with
  | nil => simp
  | cons a as ih =>
    cases h : step s a with
    | error e =>
      rw [accepted_cons_error h]
      exact fun x hx => ⟨(ih x hx).1, List.mem_cons_of_mem _ (ih x hx).2⟩
    | ok s' =>
      rw [accepted_cons_ok h]
      intro x hx
      rcases List.mem_cons.mp hx with rfl | hx
      · exact ⟨h, List.mem_cons_self⟩
      · exact ⟨(ih x hx).1, List.mem_cons_of_mem _ (ih x hx).2⟩

/-- A run splits at each of its accepted steps. -/
theorem exists_split {s : σ} {as : List α} {x : Step σ α} (hx : x ∈ accepted step s as) :
    ∃ before after, as = before ++ [x.act] ++ after ∧ final step s before = x.pre ∧
      final step s (before ++ [x.act]) = x.post := by
  induction as generalizing s with
  | nil => exact absurd hx List.not_mem_nil
  | cons a as ih =>
    cases h : step s a with
    | error e =>
      rw [accepted_cons_error h] at hx
      obtain ⟨before, after, has, hpre, hpost⟩ := ih hx
      refine ⟨a :: before, after, congrArg (a :: ·) has, ?_, ?_⟩
      · rwa [final_cons_error h]
      · rwa [List.cons_append, final_cons_error h]
    | ok s' =>
      rw [accepted_cons_ok h] at hx
      rcases List.mem_cons.mp hx with rfl | hx
      · refine ⟨[], as, rfl, rfl, ?_⟩
        rw [List.nil_append, final_cons_ok h, final_nil]
      · obtain ⟨before, after, has, hpre, hpost⟩ := ih hx
        refine ⟨a :: before, after, congrArg (a :: ·) has, ?_, ?_⟩
        · rwa [final_cons_ok h]
        · rwa [List.cons_append, final_cons_ok h]

theorem accepted_append (s : σ) (as bs : List α) :
    accepted step s (as ++ bs) = accepted step s as ++ accepted step (final step s as) bs := by
  induction as generalizing s with
  | nil => rfl
  | cons a as ih =>
    cases h : step s a with
    | error e =>
      rw [List.cons_append, accepted_cons_error h, accepted_cons_error h, final_cons_error h, ih]
    | ok s' =>
      rw [List.cons_append, accepted_cons_ok h, accepted_cons_ok h, final_cons_ok h, ih]
      rfl

/-- The accepted actions come in the order of the run. -/
theorem accepted_sublist {s : σ} {as : List α} :
    ((accepted step s as).map Step.act).Sublist as := by
  induction as generalizing s with
  | nil => exact List.Sublist.slnil
  | cons a as ih =>
    cases h : step s a with
    | error e =>
      rw [accepted_cons_error h]
      exact ih.cons a
    | ok s' =>
      rw [accepted_cons_ok h]
      exact ih.cons_cons a

/-- What holds before an accepted step but not at the start, an earlier step has brought about. -/
theorem exists_earlier {P : σ → Prop} {s : σ} {as : List α} {x : Step σ α} (hs : ¬ P s)
    (hx : x ∈ accepted step s as) (hpre : P x.pre) :
    ∃ before after, accepted step s as = before ++ x :: after ∧
      ∃ y ∈ before, ¬ P y.pre ∧ P y.post := by
  induction as generalizing s with
  | nil => exact absurd hx List.not_mem_nil
  | cons a as ih =>
    cases h : step s a with
    | error e =>
      rw [accepted_cons_error h] at hx ⊢
      exact ih hs hx
    | ok s' =>
      rw [accepted_cons_ok h] at hx ⊢
      rcases List.mem_cons.mp hx with rfl | hx
      · exact absurd hpre hs
      · by_cases hs' : P s'
        · obtain ⟨before, after, hsplit⟩ := List.append_of_mem hx
          rw [hsplit]
          exact ⟨_ :: before, after, rfl, _, List.mem_cons_self, hs, hs'⟩
        · obtain ⟨before, after, hsplit, y, hy, hflip⟩ := ih hs' hx
          rw [hsplit]
          exact ⟨_ :: before, after, rfl, y, List.mem_cons_of_mem _ hy, hflip⟩

/-- What holds at the end of a run but not at its start, a step of the run has brought about. -/
theorem exists_flip {P : σ → Prop} {s : σ} {as : List α} (hs : ¬ P s) (h : P (final step s as)) :
    ∃ x ∈ accepted step s as, ¬ P x.pre ∧ P x.post := by
  induction as generalizing s with
  | nil => exact absurd h hs
  | cons a as ih =>
    cases hstep : step s a with
    | error e =>
      rw [final_cons_error hstep] at h
      rw [accepted_cons_error hstep]
      exact ih hs h
    | ok s' =>
      rw [final_cons_ok hstep] at h
      rw [accepted_cons_ok hstep]
      by_cases hs' : P s'
      · exact ⟨_, List.mem_cons_self, hs, hs'⟩
      · obtain ⟨x, hx, hflip⟩ := ih hs' h
        exact ⟨x, List.mem_cons_of_mem _ hx, hflip⟩

/-- Steps that respect a preorder relate the start of the run, their own ends and its end. -/
theorem related_of_mem {R : σ → σ → Prop} [Std.Refl R] [IsTrans σ R]
    (hR : ∀ s a s', step s a = .ok s' → R s s') {s : σ} {as : List α} :
    R s (final step s as) ∧
      ∀ x ∈ accepted step s as, R s x.pre ∧ R x.post (final step s as) := by
  induction as generalizing s with
  | nil => exact ⟨refl_of R s, fun x hx => absurd hx List.not_mem_nil⟩
  | cons a as ih =>
    cases hstep : step s a with
    | error e =>
      rw [final_cons_error hstep, accepted_cons_error hstep]
      exact ih
    | ok s' =>
      rw [final_cons_ok hstep, accepted_cons_ok hstep]
      have hfirst := hR s a s' hstep
      refine ⟨trans_of R hfirst ih.1, fun x hx => ?_⟩
      rcases List.mem_cons.mp hx with rfl | hx
      · exact ⟨refl_of R s, ih.1⟩
      · exact ⟨trans_of R hfirst (ih.2 x hx).1, (ih.2 x hx).2⟩

theorem final_of_inv {good : α → Prop} {inv : σ → Prop}
    (hstep : ∀ s a s', good a → inv s → step s a = .ok s' → inv s') {s : σ} {as : List α}
    (hs : inv s) (has : ∀ a ∈ as, good a) : inv (final step s as) := by
  induction as generalizing s with
  | nil => exact hs
  | cons a as ih =>
    have hrest : ∀ b ∈ as, good b := fun b hb => has b (List.mem_cons_of_mem _ hb)
    cases h : step s a with
    | error e => rw [final_cons_error h]; exact ih hs hrest
    | ok s' =>
      rw [final_cons_ok h]
      exact ih (hstep s a s' (has a List.mem_cons_self) hs h) hrest

/-- An invariant of the state and of the steps accepted so far, which every accepted step of the
run keeps, holds at its end. -/
theorem final_of_steps {ok : Step σ α → Prop} {inv : σ → List (Step σ α) → Prop}
    (hstep : ∀ x : Step σ α, ok x → step x.pre x.act = .ok x.post →
      ∀ l, inv x.pre l → inv x.post (l ++ [x])) {s : σ} {as : List α} {l : List (Step σ α)}
    (hs : inv s l) (hok : ∀ x ∈ accepted step s as, ok x) :
    inv (final step s as) (l ++ accepted step s as) := by
  induction as generalizing s l with
  | nil =>
    rw [accepted_nil, List.append_nil]
    exact hs
  | cons a as ih =>
    cases h : step s a with
    | error e =>
      rw [accepted_cons_error h] at hok ⊢
      rw [final_cons_error h]
      exact ih hs hok
    | ok s' =>
      rw [accepted_cons_ok h] at hok ⊢
      rw [final_cons_ok h, List.append_cons]
      exact ih (hstep ⟨s, a, s'⟩ (hok _ List.mem_cons_self) h l hs)
        fun x hx => hok x (List.mem_cons_of_mem _ hx)

/-- Such an invariant holds before every accepted step, with the steps accepted before it. -/
theorem pre_of_steps {ok : Step σ α → Prop} {inv : σ → List (Step σ α) → Prop}
    (hstep : ∀ x : Step σ α, ok x → step x.pre x.act = .ok x.post →
      ∀ l, inv x.pre l → inv x.post (l ++ [x])) {s : σ} {as : List α} {l : List (Step σ α)}
    (hs : inv s l) (hok : ∀ x ∈ accepted step s as, ok x) {before after : List (Step σ α)}
    {x : Step σ α} (hsplit : accepted step s as = before ++ x :: after) :
    inv x.pre (l ++ before) := by
  induction as generalizing s l before with
  | nil =>
    rw [accepted_nil] at hsplit
    exact absurd hsplit.symm (List.append_ne_nil_of_right_ne_nil _ (List.cons_ne_nil _ _))
  | cons a as ih =>
    cases h : step s a with
    | error e =>
      rw [accepted_cons_error h] at hok hsplit
      exact ih hs hok hsplit
    | ok s' =>
      rw [accepted_cons_ok h] at hok hsplit
      cases before with
      | nil =>
        obtain ⟨rfl, -⟩ := List.cons.inj hsplit
        rw [List.append_nil]
        exact hs
      | cons y before =>
        obtain ⟨rfl, hrest⟩ := List.cons.inj hsplit
        rw [List.append_cons]
        exact ih (hstep ⟨s, a, s'⟩ (hok _ List.mem_cons_self) h l hs)
          (fun x hx => hok x (List.mem_cons_of_mem _ hx)) hrest

/-- An invariant that every accepted step of the run keeps holds at its end. -/
theorem final_of_accepted {ok : Step σ α → Prop} {inv : σ → Prop}
    (hstep : ∀ x : Step σ α, ok x → step x.pre x.act = .ok x.post → inv x.pre → inv x.post)
    {s : σ} {as : List α} (hs : inv s) (hok : ∀ x ∈ accepted step s as, ok x) :
    inv (final step s as) :=
  @final_of_steps _ _ _ step ok (fun s _ => inv s) (fun x hx h _ => hstep x hx h) s as [] hs hok

/-- Such an invariant holds before and after every accepted step. -/
theorem around_of_accepted {ok : Step σ α → Prop} {inv : σ → Prop}
    (hstep : ∀ x : Step σ α, ok x → step x.pre x.act = .ok x.post → inv x.pre → inv x.post)
    {s : σ} {as : List α} (hs : inv s) (hok : ∀ x ∈ accepted step s as, ok x) :
    ∀ x ∈ accepted step s as, inv x.pre ∧ inv x.post := by
  intro x hx
  obtain ⟨before, after, hsplit⟩ := List.append_of_mem hx
  have hpre : inv x.pre := @pre_of_steps _ _ _ step ok (fun s _ => inv s)
    (fun x hx h _ => hstep x hx h) s as [] hs hok before after x hsplit
  exact ⟨hpre, hstep x (hok x hx) (accepted_ok x hx).1 hpre⟩

/-- An invariant of the state and of what its steps have logged so far holds at the end of a run
with everything that the run has logged. -/
theorem final_of_log {β : Type*} {log : Step σ α → List β} {good : α → Prop}
    {inv : σ → List β → Prop}
    (hstep : ∀ x : Step σ α, good x.act → step x.pre x.act = .ok x.post →
      ∀ l, inv x.pre l → inv x.post (l ++ log x)) {s : σ} {as : List α} {l : List β}
    (hs : inv s l) (has : ∀ a ∈ as, good a) :
    inv (final step s as) (l ++ (accepted step s as).flatMap log) := by
  refine @final_of_steps _ _ _ step (fun x => good x.act) (fun s xs => inv s (l ++ xs.flatMap log))
    (fun x hx h xs hxs => ?_) s as [] ?_ fun x hx => has _ (accepted_ok x hx).2
  · rw [List.flatMap_append, List.flatMap_singleton, ← List.append_assoc]
    exact hstep x hx h _ hxs
  · rw [List.flatMap_nil, List.append_nil]
    exact hs

end Basic

/-! ## Replay guards -/

/-- `spent` guards the keys of the accepted steps that satisfy `ok`: it only grows, and such a
step finds its keys distinct and unspent and leaves them spent. -/
structure ReplayGuard (step : σ → α → Except ε σ) (ok : Step σ α → Prop)
    (keys : Step σ α → List κ) (spent : σ → κ → Prop) : Prop where
  mono : ∀ s a s' k, step s a = .ok s' → spent s k → spent s' k
  fresh : ∀ x : Step σ α, step x.pre x.act = .ok x.post → ok x →
    (keys x).Nodup ∧ ∀ k ∈ keys x, ¬ spent x.pre k ∧ spent x.post k

namespace ReplayGuard

variable {step : σ → α → Except ε σ} {ok : Step σ α → Prop} {keys : Step σ α → List κ}
  {spent : σ → κ → Prop}

/-- A key that is spent at the start of a run is used by none of its steps. -/
theorem not_spent (hG : ReplayGuard step ok keys spent) {s : σ} {as : List α}
    (hok : ∀ x ∈ accepted step s as, ok x) :
    ∀ x ∈ accepted step s as, ∀ k ∈ keys x, ¬ spent s k := by
  induction as generalizing s with
  | nil => simp
  | cons a as ih =>
    cases h : step s a with
    | error e =>
      rw [accepted_cons_error h] at hok ⊢
      exact ih hok
    | ok s' =>
      rw [accepted_cons_ok h] at hok ⊢
      intro x hx k hk
      rcases List.mem_cons.mp hx with rfl | hx
      · exact ((hG.fresh _ h (hok _ List.mem_cons_self)).2 k hk).1
      · have := ih (fun y hy => hok y (List.mem_cons_of_mem _ hy)) x hx k hk
        exact fun hsp => this (hG.mono s a s' k h hsp)

/-- The keys of two accepted steps of a run are disjoint. -/
theorem pairwise_disjoint (hG : ReplayGuard step ok keys spent) {s : σ} {as : List α}
    (hok : ∀ x ∈ accepted step s as, ok x) :
    (accepted step s as).Pairwise fun x y => List.Disjoint (keys x) (keys y) := by
  induction as generalizing s with
  | nil => exact List.Pairwise.nil
  | cons a as ih =>
    cases h : step s a with
    | error e =>
      rw [accepted_cons_error h] at hok ⊢
      exact ih hok
    | ok s' =>
      rw [accepted_cons_ok h] at hok ⊢
      have hrest : ∀ y ∈ accepted step s' as, ok y := fun y hy => hok y (List.mem_cons_of_mem _ hy)
      refine List.Pairwise.cons ?_ (ih hrest)
      intro y hy k hk hky
      have hspent : spent s' k := ((hG.fresh _ h (hok _ List.mem_cons_self)).2 k hk).2
      exact hG.not_spent hrest y hy k hky hspent

/-- No key is used twice in a run. -/
theorem nodup (hG : ReplayGuard step ok keys spent) {s : σ} {as : List α}
    (hok : ∀ x ∈ accepted step s as, ok x) : ((accepted step s as).flatMap keys).Nodup := by
  rw [List.nodup_flatMap]
  exact ⟨fun x hx => (hG.fresh x (accepted_ok x hx).1 (hok x hx)).1, hG.pairwise_disjoint hok⟩

end ReplayGuard

/-- If equal values of `f` force equal values of `g` and `g` takes no value twice, nor does `f`. -/
theorem nodup_map_of_imp {β γ : Type*} {l : List α} {f : α → β} {g : α → γ}
    (hfg : ∀ x ∈ l, ∀ y ∈ l, f x = f y → g x = g y) (hg : (l.map g).Nodup) : (l.map f).Nodup := by
  rw [List.Nodup, List.pairwise_map] at hg ⊢
  exact hg.imp_of_mem fun hx hy hne he => hne (hfg _ hx _ hy he)

end Runs
