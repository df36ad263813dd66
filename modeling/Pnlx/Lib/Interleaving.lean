import Pnlx.Lib.Runs

/-!
# Interleaved routines

A routine is a program that makes requests of a shared state, one at a time. Routines run side by
side: a step of a run is the next request of one of them, and a routine may end between any two
requests.

1. `Routine`: programs of requests, a monad. `World.step`: the steps of a run.
2. `Keeps`: every request of a routine is made under its precondition. What a routine knows of the
   state while the others run is `Stable`: no request under its precondition makes it false.
   `keeps_bind`, `keeps_ask`, `Keeps.weaken`: the rules.
3. `World.requests_of_keeps`: in a run of such routines every request is made under its
   precondition, and a stable property that holds at the start always holds.
-/

namespace Interleaving

/-- A program that makes requests, with what follows a request given its reply. -/
inductive Routine (ρ : Type) (Reply : ρ → Type) (ε α : Type) where
  | returns (value : α)
  | throws (error : ε)
  | request (req : ρ) (resume : Reply req → Routine ρ Reply ε α)

variable {ρ σ κ ε α β : Type} {Reply : ρ → Type}

namespace Routine

def bind (f : α → Routine ρ Reply ε β) : Routine ρ Reply ε α → Routine ρ Reply ε β
  | returns value => f value
  | throws error => throws error
  | request req resume => request req fun reply => (resume reply).bind f

instance : Monad (Routine ρ Reply ε) where
  pure := returns
  bind routine f := routine.bind f

/-- A routine as one with more kinds of requests. -/
def embed {ρ' : Type} {Reply' : ρ' → Type} (f : ρ → ρ') :
    Routine ρ (fun req => Reply' (f req)) ε α → Routine ρ' Reply' ε α
  | returns value => returns value
  | throws error => throws error
  | request req resume => request (f req) fun reply => (resume reply).embed f

/-- A request alone. -/
def ask (req : ρ) : Routine ρ Reply ε (Reply req) := request req returns

def throwIf (p : Prop) [Decidable p] (error : ε) : Routine ρ Reply ε Unit :=
  if p then throws error else returns ()

/-- A result that is computed without a request. -/
def ofExcept : Except ε α → Routine ρ Reply ε α
  | .ok value => returns value
  | .error error => throws error

/-- The value of an option, or the error. -/
def orThrow (o : Option α) (error : ε) : Routine ρ Reply ε α :=
  match o with
  | some value => returns value
  | none => throws error

end Routine

/-- A call that is running, with its requests so far and the states that they met. -/
structure Thread (κ ρ : Type) (Reply : ρ → Type) (ε α σ : Type) where
  call : κ
  log : List (ρ × σ)
  rest : Routine ρ Reply ε α

/-- The shared state and the calls that are running. -/
structure World (κ ρ : Type) (Reply : ρ → Type) (ε α σ : Type) where
  state : σ
  threads : ℕ → Option (Thread κ ρ Reply ε α σ)

/-- A call is made, makes its next request, or ends where it is. -/
inductive Act (κ : Type) where
  | start (p : ℕ) (call : κ)
  | next (p : ℕ)
  | stop (p : ℕ)

namespace World

variable (perform : (req : ρ) → σ → σ × Reply req) (program : κ → Routine ρ Reply ε α)

def setThread (w : World κ ρ Reply ε α σ) (p : ℕ) (thread : Option (Thread κ ρ Reply ε α σ)) :
    World κ ρ Reply ε α σ :=
  { w with threads := Function.update w.threads p thread }

/-- The next request of a call. -/
def next (w : World κ ρ Reply ε α σ) (p : ℕ) (thread : Thread κ ρ Reply ε α σ) (req : ρ)
    (resume : Reply req → Routine ρ Reply ε α) : World κ ρ Reply ε α σ :=
  { w.setThread p (some
      { thread with
        log := thread.log ++ [(req, w.state)]
        rest := resume (perform req w.state).2 }) with
    state := (perform req w.state).1 }

def step (w : World κ ρ Reply ε α σ) : Act κ → Except String (World κ ρ Reply ε α σ)
  | .start p call =>
    match w.threads p with
    | some _ => .error "thread is in use"
    | none => .ok (w.setThread p (some ⟨call, [], program call⟩))
  | .next p =>
    match w.threads p with
    | none => .error "no such thread"
    | some thread =>
      match thread.rest with
      | .request req resume => .ok (w.next perform p thread req resume)
      | _ => .error "thread has ended"
  | .stop p => .ok (w.setThread p none)

end World

/-! ## Preconditions -/

section Logic

variable (perform : (req : ρ) → σ → σ × Reply req) (Pre Ok : List (ρ × σ) → ρ → σ → Prop)

/-- No request under its precondition makes the property false. -/
def Stable (P : σ → Prop) : Prop :=
  ∀ log req s, Pre log req s → Ok log req s → P s → P (perform req s).1

/-- From a state with `P`, which the other routines keep, every request of the routine is made under
its precondition, and what it returns satisfies `Q`. The requests so far are `log`; only requests
with `Ok` are followed. -/
def Keeps : Routine ρ Reply ε α → List (ρ × σ) → (σ → Prop) →
    (α → List (ρ × σ) → σ → Prop) → Prop
  | .returns value, log, P, Q => ∀ s, P s → Q value log s
  | .throws _, _, _, _ => True
  | .request req resume, log, P, Q => ∀ s, P s → Pre log req s ∧ (Ok log req s →
      ∃ P', Stable perform Pre Ok P' ∧ P' (perform req s).1 ∧
        Keeps (resume (perform req s).2) (log ++ [(req, s)]) P' Q)

variable {perform Pre Ok} {log : List (ρ × σ)} {P P' : σ → Prop}
  {Q : α → List (ρ × σ) → σ → Prop} {Q' : β → List (ρ × σ) → σ → Prop}

theorem Stable.and (hP : Stable perform Pre Ok P) (hP' : Stable perform Pre Ok P') :
    Stable perform Pre Ok fun s => P s ∧ P' s :=
  fun log req s hpre hok h => ⟨hP log req s hpre hok h.1, hP' log req s hpre hok h.2⟩

theorem Keeps.weaken {routine : Routine ρ Reply ε α} (h : Keeps perform Pre Ok routine log P Q)
    (hP : ∀ s, P' s → P s) : Keeps perform Pre Ok routine log P' Q := by
  cases routine with
  | returns value => exact fun s hs => h s (hP s hs)
  | throws error => trivial
  | request req resume => exact fun s hs => h s (hP s hs)

/-- The rule of consequence. -/
theorem Keeps.mono {routine : Routine ρ Reply ε α} {Q₁ : α → List (ρ × σ) → σ → Prop}
    (h : Keeps perform Pre Ok routine log P Q)
    (hQ : ∀ value log s, Q value log s → Q₁ value log s) :
    Keeps perform Pre Ok routine log P Q₁ := by
  induction routine generalizing log P with
  | returns value => exact fun s hs => hQ value log s (h s hs)
  | throws error => trivial
  | request req resume ih =>
    intro s hs
    obtain ⟨hpre, hrest⟩ := h s hs
    refine ⟨hpre, fun hok => ?_⟩
    obtain ⟨P', hstable, hP', hresume⟩ := hrest hok
    exact ⟨P', hstable, hP', ih _ hresume⟩

/-- The rule of sequencing. -/
theorem keeps_bind {routine : Routine ρ Reply ε α} {f : α → Routine ρ Reply ε β}
    (h : Keeps perform Pre Ok routine log P Q)
    (hf : ∀ value log, Keeps perform Pre Ok (f value) log (Q value log) Q') :
    Keeps perform Pre Ok (routine >>= f) log P Q' := by
  induction routine generalizing log P with
  | returns value => exact (hf value log).weaken h
  | throws error => trivial
  | request req resume ih =>
    intro s hs
    obtain ⟨hpre, hrest⟩ := h s hs
    refine ⟨hpre, fun hok => ?_⟩
    obtain ⟨P', hstable, hP', hresume⟩ := hrest hok
    exact ⟨P', hstable, hP', ih _ hresume⟩

/-- The rule of a request: what follows it knows something stable of the state after it. -/
theorem keeps_ask {req : ρ} {f : Reply req → Routine ρ Reply ε β}
    (h : ∀ s, P s → Pre log req s ∧ (Ok log req s →
      ∃ P', Stable perform Pre Ok P' ∧ P' (perform req s).1 ∧
        Keeps perform Pre Ok (f (perform req s).2) (log ++ [(req, s)]) P' Q')) :
    Keeps perform Pre Ok (Routine.ask req >>= f) log P Q' := h

theorem stable_true : Stable perform Pre Ok fun _ => True := fun _ _ _ _ _ h => h

/-- The rule of a request without a precondition, if what follows it needs nothing. -/
theorem keeps_ask_free {req : ρ} {resume : Reply req → Routine ρ Reply ε α}
    (hpre : ∀ s, Pre log req s) (h : ∀ reply s,
      Keeps perform Pre Ok (resume reply) (log ++ [(req, s)]) (fun _ => True) Q) :
    Keeps perform Pre Ok (.request req resume) log P Q :=
  fun s _ => ⟨hpre s, fun _ => ⟨fun _ => True, stable_true, trivial, h _ s⟩⟩

/-- The rule of an embedded routine whose requests have no precondition. -/
theorem keeps_embed {ρ' : Type} {f : ρ' → ρ} (hpre : ∀ log req s, Pre log (f req) s)
    (routine : Routine ρ' (fun req => Reply (f req)) ε α) :
    Keeps perform Pre Ok (routine.embed f) log P fun _ _ _ => True := by
  induction routine generalizing log P with
  | returns value => exact fun _ _ => trivial
  | throws error => trivial
  | request req resume ih => exact keeps_ask_free (fun s => hpre log req s) fun reply s => ih reply

theorem keeps_throwIf {p : Prop} {_ : Decidable p} {error : ε}
    {Q : Unit → List (ρ × σ) → σ → Prop} (h : ¬ p → ∀ s, P s → Q () log s) :
    Keeps perform Pre Ok (Routine.throwIf p error) log P Q := by
  by_cases hp : p
  · rw [Routine.throwIf, if_pos hp]
    trivial
  · rw [Routine.throwIf, if_neg hp]
    exact h hp

theorem keeps_throwIf_bind {p : Prop} {_ : Decidable p} {error : ε} {f : Unit → Routine ρ Reply ε β}
    (h : ¬ p → Keeps perform Pre Ok (f ()) log P Q') :
    Keeps perform Pre Ok (Routine.throwIf p error >>= f) log P Q' := by
  by_cases hp : p
  · rw [Routine.throwIf, if_pos hp]
    trivial
  · rw [Routine.throwIf, if_neg hp]
    exact h hp

theorem keeps_ofExcept_bind {result : Except ε α} {f : α → Routine ρ Reply ε β}
    (h : ∀ value, result = .ok value → Keeps perform Pre Ok (f value) log P Q') :
    Keeps perform Pre Ok (Routine.ofExcept result >>= f) log P Q' := by
  cases result with
  | ok value => exact h value rfl
  | error error => trivial

theorem keeps_orThrow_bind {o : Option α} {error : ε} {f : α → Routine ρ Reply ε β}
    (h : ∀ value, o = some value → Keeps perform Pre Ok (f value) log P Q') :
    Keeps perform Pre Ok (Routine.orThrow o error >>= f) log P Q' := by
  cases o with
  | none => trivial
  | some value => exact h value rfl

end Logic

/-! ## Runs -/

namespace World

variable {perform : (req : ρ) → σ → σ × Reply req} {program : κ → Routine ρ Reply ε α}
  {Pre Ok : List (ρ × σ) → ρ → σ → Prop} {I : σ → Prop} {w w' : World κ ρ Reply ε α σ} {act : Act κ}

/-- The request that a step makes, with the requests that its call has made before. -/
def Requests (w : World κ ρ Reply ε α σ) (act : Act κ) (log : List (ρ × σ)) (req : ρ) : Prop :=
  ∃ p thread, act = .next p ∧ w.threads p = some thread ∧ thread.log = log ∧
    ∃ resume, thread.rest = .request req resume

/-- The steps of a world, one by one. -/
inductive Moves (perform : (req : ρ) → σ → σ × Reply req) (program : κ → Routine ρ Reply ε α)
    (w : World κ ρ Reply ε α σ) : Act κ → World κ ρ Reply ε α σ → Prop
  | start (p : ℕ) (call : κ) :
    Moves perform program w (.start p call) (w.setThread p (some ⟨call, [], program call⟩))
  | next (p : ℕ) (thread : Thread κ ρ Reply ε α σ) (req : ρ)
    (resume : Reply req → Routine ρ Reply ε α) : w.threads p = some thread →
    thread.rest = .request req resume →
    Moves perform program w (.next p) (w.next perform p thread req resume)
  | stop (p : ℕ) : Moves perform program w (.stop p) (w.setThread p none)

theorem moves_of_step (h : w.step perform program act = .ok w') :
    w.Moves perform program act w' := by
  cases act with
  | start p call =>
    unfold step at h
    cases hp : w.threads p with
    | some thread => simp [hp] at h
    | none =>
      simp only [hp, Except.ok.injEq] at h
      exact h ▸ .start p call
  | next p =>
    unfold step at h
    cases hp : w.threads p with
    | none => simp [hp] at h
    | some thread =>
      cases hrest : thread.rest <;> simp only [hp, hrest, reduceCtorEq] at h
      exact Except.ok.inj h ▸ .next p thread _ _ hp hrest
  | stop p => exact Except.ok.inj h ▸ .stop p

theorem of_setThread {p q : ℕ} {thread : Option (Thread κ ρ Reply ε α σ)}
    {thread' : Thread κ ρ Reply ε α σ} (h : (w.setThread p thread).threads q = some thread') :
    thread = some thread' ∨ w.threads q = some thread' := by
  unfold setThread at h
  dsimp only at h
  by_cases hq : q = p
  · subst hq
    rw [Function.update_self] at h
    exact Or.inl h
  · rw [Function.update_of_ne hq] at h
    exact Or.inr h

/-- Each running call knows something stable of the state under which it keeps its
preconditions. -/
def Known (perform : (req : ρ) → σ → σ × Reply req) (Pre Ok : List (ρ × σ) → ρ → σ → Prop)
    (I : σ → Prop) (w : World κ ρ Reply ε α σ) : Prop :=
  I w.state ∧ ∀ p thread, w.threads p = some thread → ∃ P, Stable perform Pre Ok P ∧ P w.state ∧
    Keeps perform Pre Ok thread.rest thread.log P fun _ _ _ => True

theorem Known.moves (hI : Stable perform Pre Ok I)
    (hprogram : ∀ call, Keeps perform Pre Ok (program call) [] I fun _ _ _ => True)
    (h : w.Known perform Pre Ok I)
    (hmoves : w.Moves perform program act w')
    (hok : ∀ log req, w.Requests act log req → Ok log req w.state) :
    w'.Known perform Pre Ok I ∧ ∀ log req, w.Requests act log req →
      Pre log req w.state ∧ w'.state = (perform req w.state).1 := by
  cases hmoves with
  | start p call =>
    refine ⟨⟨h.1, fun q thread hq => ?_⟩, ?_⟩
    · rcases of_setThread hq with hthread | hq
      · obtain rfl := Option.some.inj hthread
        exact ⟨I, hI, h.1, hprogram call⟩
      · exact h.2 q thread hq
    · rintro log req ⟨q, thread, hact, -⟩
      cases hact
  | next p thread req resume hp hrest =>
    have hrequests : w.Requests (.next p) thread.log req :=
      ⟨p, thread, rfl, hp, rfl, resume, hrest⟩
    have hreq := hok thread.log req hrequests
    obtain ⟨P, hP, hs, hkeeps⟩ := h.2 p thread hp
    rw [hrest] at hkeeps
    obtain ⟨hpre, hnext⟩ := hkeeps w.state hs
    refine ⟨⟨hI _ _ _ hpre hreq h.1, fun q other hq => ?_⟩, ?_⟩
    · rcases of_setThread hq with hother | hq
      · obtain rfl := Option.some.inj hother
        exact hnext hreq
      · obtain ⟨P', hP', hs', hkeeps'⟩ := h.2 q other hq
        exact ⟨P', hP', hP' _ _ _ hpre hreq hs', hkeeps'⟩
    · rintro log req' ⟨q, other, hact, hq, rfl, resume', hother⟩
      cases hact
      obtain rfl := Option.some.inj (hp.symm.trans hq)
      obtain ⟨rfl, -⟩ := Routine.request.inj (hrest.symm.trans hother)
      exact ⟨hpre, rfl⟩
  | stop p =>
    refine ⟨⟨h.1, fun q thread hq => ?_⟩, ?_⟩
    · rcases of_setThread hq with hthread | hq
      · cases hthread
      · exact h.2 q thread hq
    · rintro log req ⟨q, thread, hact, -⟩
      cases hact

/-- **Every request of a run is made under its precondition**, and what is stable and holds at the
start always holds. -/
theorem requests_of_keeps (hI : Stable perform Pre Ok I)
    (hprogram : ∀ call, Keeps perform Pre Ok (program call) [] I fun _ _ _ => True)
    (hs : I w.state) (hthreads : ∀ p, w.threads p = none) {acts : List (Act κ)}
    (hok : ∀ x ∈ Runs.accepted (step perform program) w acts, ∀ log req,
      x.pre.Requests x.act log req → Ok log req x.pre.state) :
    ∀ x ∈ Runs.accepted (step perform program) w acts, I x.pre.state ∧ I x.post.state ∧
      ∀ log req, x.pre.Requests x.act log req →
        Pre log req x.pre.state ∧ x.post.state = (perform req x.pre.state).1 := by
  have hknown : w.Known perform Pre Ok I :=
    ⟨hs, fun p thread hp => absurd ((hthreads p).symm.trans hp) nofun⟩
  intro x hx
  have haround := @Runs.around_of_accepted _ _ _ (step perform program)
    (fun x => ∀ log req, x.pre.Requests x.act log req → Ok log req x.pre.state)
    (Known perform Pre Ok I)
    (fun x hx hstep h => (h.moves hI hprogram (moves_of_step hstep) hx).1) w acts hknown hok x hx
  have hmoves := haround.1.moves hI hprogram (moves_of_step (Runs.accepted_ok x hx).1) (hok x hx)
  exact ⟨haround.1.1, haround.2.1, hmoves.2⟩

/-- A step that makes no request leaves the state as it is. -/
theorem state_of_moves (hmoves : w.Moves perform program act w')
    (hne : w'.state ≠ w.state) : ∃ log req, w.Requests act log req ∧
      w'.state = (perform req w.state).1 := by
  cases hmoves with
  | start p call => exact absurd rfl hne
  | next p thread req resume hp hrest =>
    exact ⟨thread.log, req, ⟨p, thread, rfl, hp, rfl, resume, hrest⟩, rfl⟩
  | stop p => exact absurd rfl hne

end World

end Interleaving
