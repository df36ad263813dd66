import Mathlib.Data.List.Forall2

/-!
# Loops of computations that abort

A computation that can abort returns an `Option`. `loop next body` runs `body` as long as `next`
finds work in the state, at most `fuel` times.

1. `Agrees`: where one computation returns, another returns the same (`loop_agrees`).
2. `loop_inv`: what every round preserves, the loop preserves.
3. `loop_stops`: when every round decreases a measure, enough fuel leaves no work.
4. `loop_iff`: two loops whose rounds differ by a condition differ by it in every round.
5. `loop_simulates`: the rounds of one loop follow those of another.
6. `loop_inv_worked`: what every round preserves of the state and of the work done so far.
-/

/-! ## Computations that abort -/

/-- Where `x` returns, `y` returns the same. -/
def Agrees {α : Type*} (x y : Option α) : Prop := ∀ v, x = some v → y = some v

section Agrees

variable {α β : Type*}

theorem Agrees.refl (x : Option α) : Agrees x x := fun _ h => h

theorem Agrees.eq_some_iff {x y : Option α} (h : Agrees x y) {v : α} (hy : y = some v) :
    x = some v ↔ x.isSome := by
  constructor
  · intro hx
    rw [hx]
    rfl
  · intro hx
    obtain ⟨w, hw⟩ := Option.isSome_iff_exists.mp hx
    rw [hw, ← h w hw, hy]

theorem Agrees.bind {x y : Option α} {f g : α → Option β} (hxy : Agrees x y)
    (hfg : ∀ a, Agrees (f a) (g a)) : Agrees (x.bind f) (y.bind g) := by
  intro v h
  obtain ⟨a, ha, hv⟩ := Option.bind_eq_some_iff.mp h
  exact Option.bind_eq_some_iff.mpr ⟨a, hxy a ha, hfg a v hv⟩

theorem Agrees.ite {p : Prop} [Decidable p] {x y x' y' : Option α} (h : Agrees x y)
    (h' : Agrees x' y') : Agrees (if p then x else x') (if p then y else y') := by
  split_ifs
  · exact h
  · exact h'

theorem Agrees.foldlM {f g : α → β → Option α} (h : ∀ a b, Agrees (f a b) (g a b)) (xs : List β)
    (a : α) : Agrees (xs.foldlM f a) (xs.foldlM g a) := by
  induction xs generalizing a with
  | nil => exact Agrees.refl _
  | cons x xs ih =>
    rw [List.foldlM_cons, List.foldlM_cons]
    exact (h a x).bind fun b => ih b

theorem Agrees.mapM {f g : α → Option β} (h : ∀ a, Agrees (f a) (g a)) (xs : List α) :
    Agrees (xs.mapM f) (xs.mapM g) := by
  induction xs with
  | nil => exact Agrees.refl _
  | cons x xs ih =>
    rw [List.mapM_cons, List.mapM_cons]
    exact (h x).bind fun b => ih.bind fun bs => Agrees.refl _

end Agrees

/-- A computation over a list returns when it returns for every element. -/
theorem mapM_eq_some {α β : Type*} {f : α → Option β} {xs : List α} {ys : List β} :
    xs.mapM f = some ys ↔ List.Forall₂ (fun x y => f x = some y) xs ys := by
  induction xs generalizing ys with
  | nil =>
    rw [List.mapM_nil, List.forall₂_nil_left_iff]
    exact ⟨fun h => (Option.some.inj h).symm, fun h => congrArg some h.symm⟩
  | cons x xs ih =>
    rw [List.mapM_cons, List.forall₂_cons_left_iff]
    constructor
    · intro h
      obtain ⟨y, hy, h⟩ := Option.bind_eq_some_iff.mp h
      obtain ⟨ys', hys, h⟩ := Option.bind_eq_some_iff.mp h
      exact ⟨y, ys', hy, ih.mp hys, (Option.some.inj h).symm⟩
    · rintro ⟨y, ys', hy, hys, rfl⟩
      rw [hy, ih.mpr hys]
      rfl

/-- Every element of the second list comes from one of the first. -/
theorem mapM_congr {α β : Type*} {f g : α → Option β} {xs : List α} (h : ∀ x ∈ xs, f x = g x) :
    xs.mapM f = xs.mapM g := by
  induction xs with
  | nil => rfl
  | cons x xs ih =>
    rw [List.mapM_cons, List.mapM_cons, h x List.mem_cons_self,
      ih fun y hy => h y (List.mem_cons_of_mem _ hy)]

theorem mapM_eq_map {α β : Type*} {f : α → Option β} {g : α → β} {xs : List α}
    (h : ∀ x ∈ xs, f x = some (g x)) : xs.mapM f = some (xs.map g) := by
  rw [mapM_congr h]
  exact List.mapM_pure

theorem mapM_option_map {α β γ : Type*} (f : α → Option β) (g : β → γ) (xs : List α) :
    xs.mapM (fun x => (f x).map g) = (xs.mapM f).map (List.map g) := by
  induction xs with
  | nil => rfl
  | cons x xs ih =>
    rw [List.mapM_cons, List.mapM_cons, ih]
    cases f x with
    | none => rfl
    | some y => cases xs.mapM f <;> rfl

theorem mapM_isSome {α β : Type*} {f : α → Option β} {xs : List α} :
    (xs.mapM f).isSome ↔ ∀ x ∈ xs, (f x).isSome := by
  induction xs with
  | nil => exact iff_of_true rfl fun x hx => absurd hx List.not_mem_nil
  | cons x xs ih =>
    rw [List.mapM_cons, List.forall_mem_cons, ← ih]
    cases f x with
    | none => exact ⟨fun h => absurd h Bool.false_ne_true, fun h => h.1⟩
    | some y => cases xs.mapM f <;> simp

theorem length_of_mapM {α β : Type*} {f : α → Option β} {xs : List α} {ys : List β}
    (h : xs.mapM f = some ys) : ys.length = xs.length :=
  (mapM_eq_some.mp h).length_eq.symm

theorem List.Forall₂.exists_of_mem_right {α β : Type*} {R : α → β → Prop} {xs : List α} {ys : List β}
    (h : List.Forall₂ R xs ys) {y : β} (hy : y ∈ ys) : ∃ x ∈ xs, R x y := by
  induction h with
  | nil => exact absurd hy List.not_mem_nil
  | cons hxy _ ih =>
    rcases List.mem_cons.mp hy with rfl | hy
    · exact ⟨_, List.mem_cons_self, hxy⟩
    · obtain ⟨x, hx, hxy⟩ := ih hy
      exact ⟨x, List.mem_cons_of_mem _ hx, hxy⟩

/-! ## Loops -/

variable {S T W V : Type*}

/-- Run `body` while `next` finds work, at most `fuel` times. -/
def loop (next : S → Option W) (body : S → W → Option S) : ℕ → S → Option S
  | 0, s => some s
  | fuel + 1, s =>
    match next s with
    | none => some s
    | some w => (body s w).bind (loop next body fuel)

/-- `P` holds of the state and the work of every round. -/
def EachRound (next : S → Option W) (body : S → W → Option S) (P : S → W → Prop) : ℕ → S → Prop
  | 0, _ => True
  | fuel + 1, s => ∀ w ∈ next s, P s w ∧ ∀ s' ∈ body s w, EachRound next body P fuel s'

/-- The work of the rounds, in their order. -/
def worked (next : S → Option W) (body : S → W → Option S) : ℕ → S → List W
  | 0, _ => []
  | fuel + 1, s =>
    match next s with
    | none => []
    | some w => w :: (body s w).elim [] (worked next body fuel)

section Rules

variable {next : S → Option W} {body body' : S → W → Option S} {fuel : ℕ} {s s' : S}

theorem loop_of_none (h : next s = none) : loop next body fuel s = some s := by
  cases fuel with
  | zero => rfl
  | succ fuel => rw [loop, h]

theorem loop_of_some {w : W} (h : next s = some w) :
    loop next body (fuel + 1) s = (body s w).bind (loop next body fuel) := by
  rw [loop, h]

/-- What every round preserves, the loop preserves. -/
theorem loop_inv {I : S → Prop}
    (hround : ∀ s w s', I s → next s = some w → body s w = some s' → I s') (hs : I s)
    (h : loop next body fuel s = some s') : I s' := by
  induction fuel generalizing s with
  | zero =>
    obtain rfl := Option.some.inj h
    exact hs
  | succ fuel ih =>
    cases hw : next s with
    | none =>
      rw [loop_of_none hw] at h
      obtain rfl := Option.some.inj h
      exact hs
    | some w =>
      rw [loop_of_some hw] at h
      obtain ⟨t, ht, hloop⟩ := Option.bind_eq_some_iff.mp h
      exact ih (hround s w t hs hw ht) hloop

/-- When every round decreases a measure, enough fuel leaves no work. -/
theorem loop_stops {I : S → Prop} {size : S → ℕ}
    (hround : ∀ s w s', I s → next s = some w → body s w = some s' → I s' ∧ size s' < size s)
    (hs : I s) (hfuel : size s ≤ fuel) (h : loop next body fuel s = some s')
    (hzero : ∀ s, size s = 0 → next s = none) : next s' = none := by
  induction fuel generalizing s with
  | zero =>
    obtain rfl := Option.some.inj h
    exact hzero s (by omega)
  | succ fuel ih =>
    cases hw : next s with
    | none =>
      rw [loop_of_none hw] at h
      obtain rfl := Option.some.inj h
      exact hw
    | some w =>
      rw [loop_of_some hw] at h
      obtain ⟨t, ht, hloop⟩ := Option.bind_eq_some_iff.mp h
      obtain ⟨hinv, hlt⟩ := hround s w t hs hw ht
      exact ih hinv (by omega) hloop

theorem loop_agrees (hbody : ∀ s w, Agrees (body s w) (body' s w)) :
    Agrees (loop next body fuel s) (loop next body' fuel s) := by
  induction fuel generalizing s with
  | zero => exact Agrees.refl _
  | succ fuel ih =>
    cases hw : next s with
    | none =>
      rw [loop_of_none hw, loop_of_none hw]
      exact Agrees.refl _
    | some w =>
      rw [loop_of_some hw, loop_of_some hw]
      exact (hbody s w).bind fun t => ih

/-- Two loops whose rounds differ by a condition differ by it in every round. -/
theorem loop_iff {I : S → Prop} {P : S → W → Prop}
    (hinv : ∀ s w s', I s → next s = some w → body s w = some s' → P s w → I s')
    (hround : ∀ s w s', I s → next s = some w → body s w = some s' →
      (body' s w = some s' ↔ P s w))
    (hagree : ∀ s w, Agrees (body' s w) (body s w)) (hs : I s)
    (h : loop next body fuel s = some s') :
    loop next body' fuel s = some s' ↔ EachRound next body P fuel s := by
  induction fuel generalizing s with
  | zero => exact ⟨fun _ => trivial, fun _ => h⟩
  | succ fuel ih =>
    cases hw : next s with
    | none =>
      rw [loop_of_none hw] at h ⊢
      refine ⟨fun _ w hmem => ?_, fun _ => h⟩
      rw [hw] at hmem
      exact absurd hmem (Option.not_mem_none w)
    | some w =>
      rw [loop_of_some hw] at h ⊢
      obtain ⟨t, ht, hloop⟩ := Option.bind_eq_some_iff.mp h
      have hP := hround s w t hs hw ht
      have hrest (hPw : P s w) := ih (hinv s w t hs hw ht hPw) hloop
      constructor
      · intro h' v hv
        obtain rfl : w = v := by rw [hw] at hv; exact Option.some.inj hv
        obtain ⟨t', ht', hloop'⟩ := Option.bind_eq_some_iff.mp h'
        obtain rfl : t = t' := Option.some.inj (ht.symm.trans (hagree s w t' ht'))
        refine ⟨hP.mp ht', fun u hu => ?_⟩
        obtain rfl : t = u := Option.some.inj (ht.symm.trans hu)
        exact (hrest (hP.mp ht')).mp hloop'
      · intro heach
        obtain ⟨hw', hnext⟩ := heach w hw
        rw [hP.mpr hw']
        exact (hrest hw').mpr (hnext t ht)

theorem EachRound.and {P Q : S → W → Prop} :
    EachRound next body (fun s w => P s w ∧ Q s w) fuel s ↔
      EachRound next body P fuel s ∧ EachRound next body Q fuel s := by
  induction fuel generalizing s with
  | zero => exact ⟨fun _ => ⟨trivial, trivial⟩, fun _ => trivial⟩
  | succ fuel ih =>
    constructor
    · intro h
      refine ⟨fun w hw => ⟨(h w hw).1.1, fun t ht => ?_⟩, fun w hw => ⟨(h w hw).1.2, fun t ht => ?_⟩⟩
      · exact (ih.mp ((h w hw).2 t ht)).1
      · exact (ih.mp ((h w hw).2 t ht)).2
    · rintro ⟨hP, hQ⟩ w hw
      exact ⟨⟨(hP w hw).1, (hQ w hw).1⟩, fun t ht => ih.mpr ⟨(hP w hw).2 t ht, (hQ w hw).2 t ht⟩⟩

/-- Where every round keeps the invariant under its condition, so does the loop. -/
theorem loop_inv_of_eachRound {I : S → Prop} {P : S → W → Prop}
    (hinv : ∀ s w s', I s → next s = some w → body s w = some s' → P s w → I s') (hs : I s)
    (heach : EachRound next body P fuel s) (h : loop next body fuel s = some s') : I s' := by
  induction fuel generalizing s with
  | zero =>
    obtain rfl := Option.some.inj h
    exact hs
  | succ fuel ih =>
    cases hw : next s with
    | none =>
      rw [loop_of_none hw] at h
      obtain rfl := Option.some.inj h
      exact hs
    | some w =>
      rw [loop_of_some hw] at h
      obtain ⟨t, ht, hloop⟩ := Option.bind_eq_some_iff.mp h
      obtain ⟨hPw, hnext⟩ := heach w hw
      exact ih (hinv s w t hs hw ht hPw) (hnext t ht) hloop

/-- In a loop that returns every round returns, and a quantity that no round decreases stays below
its final value. -/
theorem eachRound_le {I : S → Prop} {m : S → ℕ}
    (hinv : ∀ s w s', I s → next s = some w → body s w = some s' → I s' ∧ m s ≤ m s')
    (hs : I s) (h : loop next body fuel s = some s') :
    m s ≤ m s' ∧ EachRound next body (fun s w => ∃ t, body s w = some t ∧ m t ≤ m s') fuel s := by
  induction fuel generalizing s with
  | zero =>
    obtain rfl := Option.some.inj h
    exact ⟨Nat.le_refl _, trivial⟩
  | succ fuel ih =>
    cases hw : next s with
    | none =>
      rw [loop_of_none hw] at h
      obtain rfl := Option.some.inj h
      refine ⟨Nat.le_refl _, fun w hmem => ?_⟩
      rw [hw] at hmem
      exact absurd hmem (Option.not_mem_none w)
    | some w =>
      rw [loop_of_some hw] at h
      obtain ⟨t, ht, hloop⟩ := Option.bind_eq_some_iff.mp h
      obtain ⟨hI, hle⟩ := hinv s w t hs hw ht
      obtain ⟨hle', heach⟩ := ih hI hloop
      refine ⟨Nat.le_trans hle hle', fun v hv => ?_⟩
      obtain rfl : w = v := by rw [hw] at hv; exact Option.some.inj hv
      refine ⟨⟨t, ht, hle'⟩, fun u hu => ?_⟩
      obtain rfl : t = u := Option.some.inj (ht.symm.trans hu)
      exact heach

theorem worked_of_none (h : next s = none) : worked next body fuel s = [] := by
  cases fuel with
  | zero => rfl
  | succ fuel => rw [worked, h]

theorem worked_of_some {w : W} (hw : next s = some w) (ht : body s w = some s') :
    worked next body (fuel + 1) s = w :: worked next body fuel s' := by
  rw [worked, hw]
  show w :: (body s w).elim [] _ = _
  rw [ht]
  rfl

theorem length_worked_le : (worked next body fuel s).length ≤ fuel := by
  induction fuel generalizing s with
  | zero => exact Nat.le_refl _
  | succ fuel ih =>
    rw [worked]
    cases next s with
    | none => exact Nat.zero_le _
    | some w =>
      show (_ :: _).length ≤ fuel + 1
      rw [List.length_cons]
      cases body s w with
      | none => exact Nat.succ_le_succ (Nat.zero_le _)
      | some t => exact Nat.succ_le_succ ih

/-- What every round preserves of the state and of the work done so far, the loop preserves. -/
theorem loop_inv_worked {I : S → List W → Prop}
    (hround : ∀ s w s' done, I s done → next s = some w → body s w = some s' → I s' (done ++ [w]))
    {done : List W} (hs : I s done) (h : loop next body fuel s = some s') :
    I s' (done ++ worked next body fuel s) := by
  induction fuel generalizing s done with
  | zero =>
    obtain rfl := Option.some.inj h
    rw [worked, List.append_nil]
    exact hs
  | succ fuel ih =>
    cases hw : next s with
    | none =>
      rw [loop_of_none hw] at h
      obtain rfl := Option.some.inj h
      rw [worked_of_none hw, List.append_nil]
      exact hs
    | some w =>
      rw [loop_of_some hw] at h
      obtain ⟨t, ht, hloop⟩ := Option.bind_eq_some_iff.mp h
      rw [worked_of_some hw ht, List.append_cons]
      exact ih (hround s w t done hs hw ht) hloop

/-- Where a loop returns, another that agrees with it does the same work. -/
theorem worked_agrees (hbody : ∀ s w, Agrees (body s w) (body' s w))
    (h : loop next body fuel s = some s') : worked next body fuel s = worked next body' fuel s := by
  induction fuel generalizing s with
  | zero => rfl
  | succ fuel ih =>
    cases hw : next s with
    | none => rw [worked_of_none hw, worked_of_none hw]
    | some w =>
      rw [loop_of_some hw] at h
      obtain ⟨t, ht, hloop⟩ := Option.bind_eq_some_iff.mp h
      rw [worked_of_some hw ht, worked_of_some hw (hbody s w t ht), ih hloop]

theorem EachRound.imp {P Q : S → W → Prop} (hPQ : ∀ s w, P s w → Q s w)
    (h : EachRound next body P fuel s) : EachRound next body Q fuel s := by
  induction fuel generalizing s with
  | zero => trivial
  | succ fuel ih => exact fun w hw => ⟨hPQ s w (h w hw).1, fun t ht => ih ((h w hw).2 t ht)⟩

end Rules

/-- A loop that follows another: related states have related work, and where the first loop makes a
round, the second makes one to a related state. -/
theorem loop_simulates {next : S → Option W} {body : S → W → Option S} {next' : T → Option V}
    {body' : T → V → Option T} {R : S → T → Prop}
    (hnone : ∀ s t, R s t → next s = none → next' t = none)
    (hround : ∀ s t w s', R s t → next s = some w → body s w = some s' →
      ∃ v t', next' t = some v ∧ body' t v = some t' ∧ R s' t')
    {fuel : ℕ} {s s' : S} {t : T} (hR : R s t) (h : loop next body fuel s = some s') :
    ∃ t', loop next' body' fuel t = some t' ∧ R s' t' := by
  induction fuel generalizing s t with
  | zero =>
    obtain rfl := Option.some.inj h
    exact ⟨t, rfl, hR⟩
  | succ fuel ih =>
    cases hw : next s with
    | none =>
      rw [loop_of_none hw] at h
      obtain rfl := Option.some.inj h
      exact ⟨t, loop_of_none (hnone s t hR hw), hR⟩
    | some w =>
      rw [loop_of_some hw] at h
      obtain ⟨r, hr, hloop⟩ := Option.bind_eq_some_iff.mp h
      obtain ⟨v, r', hv, hr', hR'⟩ := hround s t w r hR hw hr
      obtain ⟨t', ht', hR''⟩ := ih hR' hloop
      refine ⟨t', ?_, hR''⟩
      rw [loop_of_some hv, hr']
      exact ht'
