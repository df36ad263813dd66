import Mathlib.Algebra.GroupWithZero.Nat
import Mathlib.Algebra.Order.Group.Nat
import Mathlib.Data.List.Induction
import Mathlib.Data.List.Pairwise

/-!
# Charges for elapsed time

Amounts are charged for elapsed time, at moments that never go backwards. A stretch of time may be
charged for itself and for the time since the last charge before it.

1. `Bounded`: every stretch of time is charged for at most that. `Apart`: no charge is for time
   before the moment of another.
2. `Timely`: every charge is for at most the time since the one before it.
3. `Timely.bounded`, `Timely.apart`: timely charges are bounded and apart. `Bounded.timely`: at
   moments of their own, bounded charges are timely.
4. `timely_flatMap_iff`: the charges of events.
-/

namespace Accrual

structure Charge where
  time : ℕ
  amount : ℕ
  deriving DecidableEq

variable {rate start : ℕ} {l l' : List Charge} {c d : Charge}

def total (l : List Charge) : ℕ := (l.map Charge.amount).sum

/-- The charges of a stretch of time. -/
def during (l : List Charge) (a b : ℕ) : List Charge := l.filter fun c => a ≤ c.time ∧ c.time ≤ b

/-- The moment of the last charge, or else the start. -/
def lastTime (start : ℕ) (l : List Charge) : ℕ := (l.map Charge.time).getLastD start

/-- The moment of the last charge before `t`, or else the start. -/
def lastBefore (start : ℕ) (l : List Charge) (t : ℕ) : ℕ :=
  lastTime start (l.filter fun c => c.time < t)

/-- No stretch of time is charged for more than its length and the time since the last charge. -/
def Bounded (rate start : ℕ) (l : List Charge) : Prop :=
  ∀ a b, a ≤ b → total (during l a b) ≤ rate * (b - lastBefore start l a)

/-- Each charge is for time after the moments of those before it. -/
def Apart (rate : ℕ) (l : List Charge) : Prop :=
  l.Pairwise fun c d => rate * c.time + d.amount ≤ rate * d.time

/-- A charge after those of `l` is for at most the time since the last of them. -/
def Due (rate start : ℕ) (l : List Charge) (c : Charge) : Prop :=
  c.amount ≤ rate * (c.time - lastTime start l)

instance : Decidable (Due rate start l c) := by unfold Due; infer_instance

def Timely (rate start : ℕ) (l : List Charge) : Prop :=
  ∀ before c after, l = before ++ c :: after → Due rate start before c

/-- The moments of the charges do not go backwards, from the start on. -/
structure Chronological (start : ℕ) (l : List Charge) : Prop where
  sorted : l.Pairwise fun c d => c.time ≤ d.time
  start_le : ∀ c ∈ l, start ≤ c.time

/-! ## Totals -/

theorem total_append (l l' : List Charge) : total (l ++ l') = total l + total l' := by
  unfold total
  rw [List.map_append, List.sum_append]

@[simp] theorem total_nil : total [] = 0 := rfl

@[simp] theorem total_singleton (c : Charge) : total [c] = c.amount := List.sum_singleton

theorem during_append (l l' : List Charge) (a b : ℕ) :
    during (l ++ l') a b = during l a b ++ during l' a b := List.filter_append _ _

theorem during_singleton {a b : ℕ} (ha : a ≤ c.time) (hb : c.time ≤ b) : during [c] a b = [c] :=
  List.filter_cons_of_pos (decide_eq_true ⟨ha, hb⟩)

theorem during_eq_nil {a b : ℕ} (h : ∀ c ∈ l, ¬ (a ≤ c.time ∧ c.time ≤ b)) : during l a b = [] :=
  List.filter_eq_nil_iff.mpr fun c hc he => h c hc (of_decide_eq_true he)

theorem during_congr {a b a' b' : ℕ}
    (h : ∀ c ∈ l, (a ≤ c.time ∧ c.time ≤ b) ↔ (a' ≤ c.time ∧ c.time ≤ b')) :
    during l a b = during l a' b' :=
  List.filter_congr fun c hc => decide_eq_decide.mpr (h c hc)

/-! ## The last charge -/

@[simp] theorem lastTime_concat : lastTime start (l ++ [c]) = c.time := by
  unfold lastTime
  rw [List.map_append, List.map_singleton, List.getLastD_concat]

theorem lastTime_cases (start : ℕ) (l : List Charge) :
    lastTime start l = start ∨ ∃ c ∈ l, c.time = lastTime start l := by
  cases l using List.reverseRecOn with
  | nil => exact Or.inl rfl
  | append_singleton l c =>
    exact Or.inr ⟨c, List.mem_append_right _ (List.mem_singleton_self c), lastTime_concat.symm⟩

theorem Chronological.init (h : Chronological start (l ++ l')) : Chronological start l :=
  ⟨(List.pairwise_append.mp h.sorted).1, fun c hc => h.start_le c (List.mem_append_left _ hc)⟩

theorem Chronological.le_last (h : Chronological start (l ++ [c])) (hd : d ∈ l) :
    d.time ≤ c.time :=
  (List.pairwise_append.mp h.sorted).2.2 d hd c (List.mem_singleton_self c)

theorem Chronological.le_lastTime (h : Chronological start l) (hd : d ∈ l) :
    d.time ≤ lastTime start l := by
  induction l using List.reverseRecOn with
  | nil => exact absurd hd List.not_mem_nil
  | append_singleton l c _ =>
    rw [lastTime_concat]
    rcases List.mem_append.mp hd with hd | hd
    · exact h.le_last hd
    · rw [List.mem_singleton.mp hd]

theorem Chronological.lastTime_le (h : Chronological start (l ++ [c])) :
    lastTime start l ≤ c.time := by
  rcases lastTime_cases start l with he | ⟨d, hd, he⟩
  · rw [he]
    exact h.start_le c (List.mem_append_right _ (List.mem_singleton_self c))
  · rw [← he]
    exact h.le_last hd

/-- Charges from `t` on do not change the last charge before it. -/
theorem lastBefore_append {t : ℕ} (h : ∀ c ∈ l', t ≤ c.time) :
    lastBefore start (l ++ l') t = lastBefore start l t := by
  have hnil : l'.filter (fun c => c.time < t) = [] :=
    List.filter_eq_nil_iff.mpr fun c hc he =>
      absurd (of_decide_eq_true he) (not_lt.mpr (h c hc))
  unfold lastBefore
  rw [List.filter_append, hnil, List.append_nil]

theorem lastBefore_eq_lastTime {t : ℕ} (h : ∀ c ∈ l, c.time < t) :
    lastBefore start l t = lastTime start l := by
  unfold lastBefore
  rw [List.filter_eq_self.mpr fun c hc => decide_eq_true (h c hc)]

theorem Chronological.lastBefore_le (h : Chronological start l) (hd : d ∈ l) (t : ℕ) :
    lastBefore start l t ≤ lastTime start l := by
  rcases lastTime_cases start (l.filter fun c => c.time < t) with he | ⟨c, hc, he⟩
  · exact (he.le.trans (h.start_le d hd)).trans (h.le_lastTime hd)
  · exact he.ge.trans (h.le_lastTime (List.mem_filter.mp hc).1)

/-! ## Timely charges -/

theorem timely_nil : Timely rate start [] := fun _ _ _ he => absurd he.symm (by simp)

/-- One more charge has to be due. -/
theorem timely_concat :
    Timely rate start (l ++ [c]) ↔ Timely rate start l ∧ Due rate start l c := by
  constructor
  · intro h
    exact ⟨fun before d after he => h before d (after ++ [c]) (by rw [he, List.append_assoc]; rfl),
      h l c [] rfl⟩
  · rintro ⟨h, hc⟩ before d after he
    rcases List.eq_nil_or_concat after with rfl | ⟨after, x, rfl⟩
    · obtain ⟨rfl, hcd⟩ := List.append_inj' he rfl
      obtain rfl : c = d := List.head_eq_of_cons_eq hcd
      exact hc
    · refine h before d after ?_
      rw [List.concat_eq_append, ← List.cons_append, ← List.append_assoc] at he
      exact (List.append_inj' he rfl).1

/-- The stretch up to a charge that is due. -/
theorem Bounded.up_to {a : ℕ} (h : Bounded rate start l) (hl : Chronological start (l ++ [c]))
    (hc : Due rate start l c) :
    total (during l a c.time) + c.amount ≤ rate * (c.time - lastBefore start l a) := by
  unfold Due at hc
  by_cases hinside : ∃ d ∈ l, a ≤ d.time
  · -- the last charge is inside the stretch, and the bound holds up to it
    obtain ⟨d, hd, had⟩ := hinside
    have hle : lastBefore start l a ≤ lastTime start l := hl.init.lastBefore_le hd a
    have hlast : lastTime start l ≤ c.time := hl.lastTime_le
    have hsame : during l a c.time = during l a (lastTime start l) := during_congr fun e he => by
      have := hl.init.le_lastTime he
      omega
    calc total (during l a c.time) + c.amount
        ≤ rate * (lastTime start l - lastBefore start l a) +
            rate * (c.time - lastTime start l) :=
          add_le_add (hsame ▸ h a _ (had.trans (hl.init.le_lastTime hd))) hc
      _ = rate * (c.time - lastBefore start l a) := by
          rw [← Nat.mul_add]
          congr 1
          omega
  · have hbefore : ∀ d ∈ l, d.time < a := fun d hd => not_le.mp fun had => hinside ⟨d, hd, had⟩
    rw [during_eq_nil fun d hd => by have := hbefore d hd; omega, total_nil, Nat.zero_add,
      lastBefore_eq_lastTime hbefore]
    exact hc

/-- **Accrual.** Charges in the order of time that are timely are bounded. -/
theorem Timely.bounded (hl : Chronological start l) (h : Timely rate start l) :
    Bounded rate start l := by
  induction l using List.reverseRecOn with
  | nil => exact fun a b _ => Nat.zero_le _
  | append_singleton l c ih =>
    obtain ⟨htimely, hdue⟩ := timely_concat.mp h
    have hbounded : Bounded rate start l := ih hl.init htimely
    intro a b hab
    rw [during_append, total_append]
    rcases Nat.lt_or_ge c.time a with hlt | hge
    · rw [during_eq_nil fun d hd => by have := hl.le_last hd; omega,
        during_eq_nil fun d hd => by rw [List.mem_singleton.mp hd]; omega]
      exact Nat.zero_le _
    · rw [lastBefore_append fun d hd => by rw [List.mem_singleton.mp hd]; exact hge]
      rcases Nat.lt_or_ge b c.time with hbefore | hafter
      · rw [during_eq_nil (l := [c]) fun d hd => by rw [List.mem_singleton.mp hd]; omega]
        exact hbounded a b hab
      · have hall : during l a b = during l a c.time := during_congr fun d hd => by
          have := hl.le_last hd
          omega
        rw [hall, during_singleton hge hafter, total_singleton]
        exact (hbounded.up_to hl hdue).trans
          (Nat.mul_le_mul_left _ (Nat.sub_le_sub_right hafter _))

theorem Timely.apart (hl : Chronological start l) (h : Timely rate start l) : Apart rate l := by
  induction l using List.reverseRecOn with
  | nil => exact List.Pairwise.nil
  | append_singleton l c ih =>
    obtain ⟨htimely, hdue⟩ := timely_concat.mp h
    refine List.pairwise_append.mpr ⟨ih hl.init htimely, List.pairwise_singleton _ _,
      fun d hd e he => ?_⟩
    obtain rfl := List.mem_singleton.mp he
    have hlast : lastTime start l ≤ e.time := hl.lastTime_le
    calc rate * d.time + e.amount
        ≤ rate * lastTime start l + rate * (e.time - lastTime start l) :=
          add_le_add (Nat.mul_le_mul_left _ (hl.init.le_lastTime hd)) hdue
      _ = rate * e.time := by rw [← Nat.mul_add, Nat.add_sub_cancel' hlast]

/-- Charges of some amount that are apart have moments of their own. -/
theorem Apart.moments (h : Apart rate l) (hpos : ∀ c ∈ l, 0 < c.amount) :
    l.Pairwise fun c d => c.time < d.time := by
  refine List.Pairwise.imp_of_mem (fun {c d} _ hd hapart => ?_) h
  have := hpos d hd
  exact Nat.lt_of_mul_lt_mul_left (show rate * c.time < rate * d.time by omega)

/-- At moments of their own, bounded charges are timely. -/
theorem Bounded.timely (hl : Chronological start l)
    (hmoments : l.Pairwise fun c d => c.time < d.time) (h : Bounded rate start l) :
    Timely rate start l := by
  rintro before c after rfl
  obtain ⟨-, hrest, hcross⟩ := List.pairwise_append.mp hmoments
  have hbefore : ∀ d ∈ before, d.time < c.time := fun d hd => hcross d hd c List.mem_cons_self
  have hafter : ∀ d ∈ c :: after, c.time ≤ d.time := by
    intro d hd
    rcases List.mem_cons.mp hd with rfl | hd
    · exact le_refl _
    · exact (List.rel_of_pairwise_cons hrest hd).le
  have hbound := h c.time c.time (le_refl _)
  rw [lastBefore_append hafter, lastBefore_eq_lastTime hbefore, ← List.singleton_append,
    during_append, during_append, total_append, total_append,
    during_singleton (le_refl _) (le_refl _), total_singleton] at hbound
  unfold Due
  omega

/-! ## Events that charge -/

section Events

variable {α : Type*} {f : α → List Charge} {xs : List α}

/-- When every event makes at most one charge, the charges are timely exactly when each is due after
the events before it. -/
theorem timely_flatMap_iff (hone : ∀ x, (f x).length ≤ 1) :
    Timely rate start (xs.flatMap f) ↔ ∀ before x after, xs = before ++ x :: after →
      ∀ c ∈ f x, Due rate start (before.flatMap f) c := by
  constructor
  · rintro h before x after rfl c hc
    obtain ⟨left, right, hsplit⟩ := List.append_of_mem hc
    have hleft : left = [] := List.eq_nil_of_length_eq_zero (by
      have := hsplit ▸ hone x
      rw [List.length_append, List.length_cons] at this
      omega)
    refine h _ c (right ++ after.flatMap f) ?_
    rw [List.flatMap_append, List.flatMap_cons, hsplit, hleft]
    rfl
  · intro h
    induction xs using List.reverseRecOn with
    | nil => exact timely_nil
    | append_singleton xs x ih =>
      have hinit : Timely rate start (xs.flatMap f) := ih fun before y after he =>
        h before y (after ++ [x]) (by rw [he, List.append_assoc]; rfl)
      rw [List.flatMap_append, List.flatMap_singleton]
      match hx : f x, hone x with
      | [], _ =>
        rw [List.append_nil]
        exact hinit
      | [c], _ =>
        exact timely_concat.mpr ⟨hinit, h xs x [] rfl c (hx ▸ List.mem_singleton_self c)⟩

end Events

end Accrual
