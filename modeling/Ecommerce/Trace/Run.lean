import Mathlib.Data.List.Induction
import Mathlib.Data.List.Basic

/-!
# Runs of a machine on events

A machine is a partial function that takes a state and an event to the next state. An event that
cannot happen in a state has no result, and a run is a list of events each of which can happen.

## Main definitions

* `Trace.run`: the state after a list of events.
* `Trace.run_induct`: what holds at the start and is kept by each event that meets a condition holds
  after every run whose events all meet it.
-/

namespace Trace

variable {σ ε : Type*} {step : σ → ε → Option σ} {s t u : σ} {e : ε} {es fs : List ε}

/-- The state after some events, if each of them can happen. -/
def run (step : σ → ε → Option σ) (s : σ) : List ε → Option σ
  | [] => some s
  | e :: es => (step s e).bind fun t => run step t es

@[simp] theorem run_nil : run step s [] = some s := rfl

theorem run_cons : run step s (e :: es) = (step s e).bind fun t => run step t es := rfl

theorem run_append : run step s (es ++ fs) = (run step s es).bind fun t => run step t fs := by
  induction es generalizing s with
  | nil => rfl
  | cons e es ih =>
    rw [List.cons_append, run_cons, run_cons]
    cases step s e with
    | none => rfl
    | some t => exact ih

theorem run_concat : run step s (es ++ [e]) = (run step s es).bind fun t => step t e := by
  rw [run_append]
  simp [run]

theorem run_append_eq_some :
    run step s (es ++ fs) = some u ↔ ∃ t, run step s es = some t ∧ run step t fs = some u := by
  rw [run_append, Option.bind_eq_some_iff]

theorem run_concat_eq_some :
    run step s (es ++ [e]) = some u ↔ ∃ t, run step s es = some t ∧ step t e = some u := by
  rw [run_concat, Option.bind_eq_some_iff]

/-- Every event of the run meets the condition in the state in which it happens. -/
def Meets (step : σ → ε → Option σ) (ok : σ → ε → Prop) (s : σ) (es : List ε) : Prop :=
  ∀ before e after t, es = before ++ e :: after → run step s before = some t → ok t e

theorem meets_true (es : List ε) : Meets step (fun _ _ => True) s es := fun _ _ _ _ _ _ => trivial

theorem Meets.of_append {ok : σ → ε → Prop} (h : Meets step ok s (es ++ fs)) : Meets step ok s es := by
  intro before e after t hsplit hrun
  exact h before e (after ++ fs) t (by simp [hsplit]) hrun

theorem Meets.last {ok : σ → ε → Prop} (h : Meets step ok s (es ++ [e])) (hrun : run step s es = some t) :
    ok t e :=
  h es e [] t rfl hrun

theorem meets_nil {ok : σ → ε → Prop} : Meets step ok s [] := fun before e after t hsplit => by simp at hsplit

theorem meets_cons {ok : σ → ε → Prop} :
    Meets step ok s (e :: es) ↔ ok s e ∧ ∀ t, step s e = some t → Meets step ok t es := by
  constructor
  · intro h
    refine ⟨h [] e es s rfl rfl, fun t hstep before f after u hsplit hrun => ?_⟩
    refine h (e :: before) f after u (by rw [hsplit, List.cons_append]) ?_
    rw [run_cons, hstep]
    exact hrun
  · rintro ⟨hfirst, hrest⟩ before f after u hsplit hrun
    cases before with
    | nil =>
      obtain ⟨rfl, rfl⟩ := List.cons.inj hsplit
      obtain rfl : s = u := Option.some.inj hrun
      exact hfirst
    | cons g before =>
      obtain ⟨rfl, rfl⟩ := List.cons.inj hsplit
      obtain ⟨t, hstep, hbefore⟩ := Option.bind_eq_some_iff.1 hrun
      exact hrest t hstep before f after u rfl hbefore

/-- Whether the events meet the condition is found by running them. -/
instance decidableMeets {ok : σ → ε → Prop} [∀ s e, Decidable (ok s e)] :
    (es : List ε) → (s : σ) → Decidable (Meets step ok s es)
  | [], _ => isTrue meets_nil
  | e :: es, s =>
    match hstep : step s e with
    | none => decidable_of_iff (ok s e) (by simp [meets_cons, hstep])
    | some t =>
      haveI : Decidable (Meets step ok t es) := decidableMeets es t
      decidable_of_iff (ok s e ∧ Meets step ok t es) (by simp [meets_cons, hstep])

/-- What each event that meets the condition keeps holds after a run whose events all meet it. -/
theorem run_induct {ok : σ → ε → Prop} (Inv : σ → Prop) (hstart : Inv s)
    (hstep : ∀ {t e u}, Inv t → ok t e → step t e = some u → Inv u)
    (hmeets : Meets step ok s es) (hrun : run step s es = some u) : Inv u := by
  induction es using List.reverseRecOn generalizing u with
  | nil =>
    obtain rfl : s = u := by simpa using hrun
    exact hstart
  | append_singleton es e ih =>
    obtain ⟨t, hbefore, hlast⟩ := run_concat_eq_some.1 hrun
    exact hstep (ih hmeets.of_append hbefore) (hmeets.last hbefore) hlast

/-- What every event keeps holds after every run. -/
theorem run_invariant (Inv : σ → Prop) (hstart : Inv s)
    (hstep : ∀ {t e u}, Inv t → step t e = some u → Inv u) (hrun : run step s es = some u) : Inv u :=
  run_induct Inv hstart (fun hinv _ hevent => hstep hinv hevent) (meets_true es) hrun

end Trace
