import Mathlib.Algebra.BigOperators.Group.List.Basic
import Mathlib.Algebra.Ring.Int.Defs
import Pnlx.Lib.Runs

/-!
# Numbers that are added to and overwritten

Some steps of a run add to a number and others overwrite it, along with the record that holds it.
An addition is lost when a later step overwrites the number with one from before.

`Tallies.total_iff`: in every state that a run reaches, the number is the initial one plus all
additions exactly when every step that overwrites the number writes the one that is there.
-/

namespace Runs

variable {σ α ε : Type*}

/-- On states with `good`, a step writes a number or adds to the one that is there. -/
structure Tallies (step : σ → α → Except ε σ) (good : σ → Prop) (value : σ → ℤ)
    (added : Step σ α → ℤ) (written : Step σ α → Option ℤ) : Prop where
  keeps : ∀ s a s', good s → step s a = .ok s' → good s'
  effect : ∀ x : Step σ α, good x.pre → step x.pre x.act = .ok x.post →
    value x.post = (written x).getD (value x.pre + added x)
  added_eq : ∀ (x : Step σ α) (v : ℤ), written x = some v → added x = 0

namespace Tallies

variable {step : σ → α → Except ε σ} {good : σ → Prop} {value : σ → ℤ} {added : Step σ α → ℤ}
  {written : Step σ α → Option ℤ}

/-- **The step lemma.** A step adds what it says unless it writes another number. -/
theorem value_post_iff (h : Tallies step good value added written) {x : Step σ α} (hx : good x.pre)
    (hstep : step x.pre x.act = .ok x.post) :
    value x.post = value x.pre + added x ↔ ∀ v, written x = some v → v = value x.pre := by
  rw [h.effect x hx hstep]
  cases hwritten : written x with
  | none => exact ⟨fun _ v hv => absurd hv (Option.some_ne_none v).symm, fun _ => rfl⟩
  | some w =>
    rw [h.added_eq x w hwritten, add_zero, Option.getD_some]
    exact ⟨fun he v hv => Option.some.inj hv ▸ he, fun he => he w rfl⟩

/-- **The run lemma.** -/
theorem total_iff (h : Tallies step good value added written) {s : σ} (hs : good s) (as : List α) :
    (∀ before, before <+: as →
      value (final step s before) = value s + ((accepted step s before).map added).sum) ↔
    ∀ x ∈ accepted step s as, ∀ v, written x = some v → v = value x.pre := by
  induction as generalizing s with
  | nil =>
    constructor
    · exact fun _ x hx => absurd hx List.not_mem_nil
    · intro _ before hbefore
      rw [List.prefix_nil.mp hbefore, final_nil, accepted_nil, List.map_nil, List.sum_nil, add_zero]
  | cons a as ih =>
    cases hstep : step s a with
    | error e =>
      rw [accepted_cons_error hstep, ← ih hs]
      constructor
      · intro htotal before hbefore
        have hcons := htotal (a :: before) (List.cons_prefix_cons.mpr ⟨rfl, hbefore⟩)
        rwa [final_cons_error hstep, accepted_cons_error hstep] at hcons
      · intro htotal before hbefore
        rcases List.prefix_cons_iff.mp hbefore with rfl | ⟨rest, rfl, hrest⟩
        · exact htotal [] List.nil_prefix
        · rw [final_cons_error hstep, accepted_cons_error hstep]
          exact htotal rest hrest
    | ok s' =>
      have hfirst := h.value_post_iff (x := ⟨s, a, s'⟩) hs hstep
      rw [accepted_cons_ok hstep, List.forall_mem_cons, ← hfirst, ← ih (h.keeps s a s' hs hstep)]
      have hcons (before : List α) : value (final step s (a :: before)) =
          value s + ((accepted step s (a :: before)).map added).sum ↔
          value (final step s' before) =
            value s + added ⟨s, a, s'⟩ + ((accepted step s' before).map added).sum := by
        rw [final_cons_ok hstep, accepted_cons_ok hstep, List.map_cons, List.sum_cons, add_assoc]
      constructor
      · intro htotal
        have hone : value s' = value s + added ⟨s, a, s'⟩ := by
          have hsingle := (hcons []).mp
            (htotal [a] (List.cons_prefix_cons.mpr ⟨rfl, List.nil_prefix⟩))
          rwa [final_nil, accepted_nil, List.map_nil, List.sum_nil, add_zero] at hsingle
        refine ⟨hone, fun before hbefore => ?_⟩
        rw [hone]
        exact (hcons before).mp (htotal _ (List.cons_prefix_cons.mpr ⟨rfl, hbefore⟩))
      · rintro ⟨hone, htotal⟩ before hbefore
        rcases List.prefix_cons_iff.mp hbefore with rfl | ⟨rest, rfl, hrest⟩
        · rw [final_nil, accepted_nil, List.map_nil, List.sum_nil, add_zero]
        · rw [hcons, ← hone]
          exact htotal rest hrest

end Tallies

end Runs
