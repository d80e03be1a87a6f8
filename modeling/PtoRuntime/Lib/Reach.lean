import Mathlib

/-!
# Guarded reachability

Interleaving models in this development are labelled transition systems given
by an executable step function `step : σ → α → Option σ`: the label names the
thread that moves (and whatever the environment chooses for it), `none` means
that the label is not enabled. An execution is a sequence of labels; what is
proved about every execution is proved about every reachable state.

A *guard* `ok : σ → α → Prop` restricts the executions to those whose steps all
meet a condition on the state before the step. The unrestricted executions are
those of the guard `free`.

Main results: `Reach.invariant`, `Reach.weaken`, `Reach.exists_of_run`,
`everyState_iff_everyStep`.
-/

namespace PtoRuntime.Lib

variable {σ α : Type}

/-- The guard that every step meets. -/
def free (_ : σ) (_ : α) : Prop := True

instance : DecidableRel (free : σ → α → Prop) := fun _ _ => inferInstanceAs (Decidable True)

/-- States reached from `s₀` by steps that all meet the guard `ok`. -/
inductive Reach (step : σ → α → Option σ) (ok : σ → α → Prop) (s₀ : σ) : σ → Prop
  | init : Reach step ok s₀ s₀
  | step {s s' : σ} {a : α} :
      Reach step ok s₀ s → ok s a → step s a = some s' → Reach step ok s₀ s'

section Invariants

variable {step : σ → α → Option σ} {ok ok' : σ → α → Prop} {s₀ s : σ}

/-- **Invariant rule.** The step obligation may use that the state before the
step is itself reachable, so invariants can be proved one on top of another. -/
theorem Reach.invariant {Inv : σ → Prop} (hInit : Inv s₀)
    (hStep : ∀ s a s', Reach step ok s₀ s → Inv s → ok s a → step s a = some s' → Inv s')
    (h : Reach step ok s₀ s) : Inv s := by
  induction h with
  | init => exact hInit
  | step hs hok hst ih => exact hStep _ _ _ hs ih hok hst

/-- A weaker guard allows more. -/
theorem Reach.weaken (hok : ∀ s a, ok s a → ok' s a) (h : Reach step ok s₀ s) :
    Reach step ok' s₀ s := by
  induction h with
  | init => exact .init
  | step _ ho hst ih => exact .step ih (hok _ _ ho) hst

theorem Reach.trans {t : σ} (h : Reach step ok s₀ s) (h' : Reach step ok s t) :
    Reach step ok s₀ t := by
  induction h' with
  | init => exact h
  | step _ ho hst ih => exact .step ih ho hst

theorem Reach.toFree (h : Reach step ok s₀ s) : Reach step free s₀ s :=
  h.weaken fun _ _ _ => trivial

end Invariants

/-! ## Concrete runs -/

/-- Run a list of labels, checking the guard before every step. -/
def runOk (step : σ → α → Option σ) (ok : σ → α → Prop) [DecidableRel ok] :
    σ → List α → Option σ
  | s, [] => some s
  | s, a :: as => if ok s a then (step s a).bind fun s' => runOk step ok s' as else none

section Runs

variable {step : σ → α → Option σ} {ok : σ → α → Prop} [DecidableRel ok]

private theorem reach_of_runOk_from {s₀ : σ} :
    ∀ (as : List α) (s : σ) {t : σ}, Reach step ok s₀ s → runOk step ok s as = some t →
      Reach step ok s₀ t := by
  intro as
  induction as with
  | nil =>
    intro s t hs h
    rw [runOk, Option.some.injEq] at h
    exact h ▸ hs
  | cons a as ih =>
    intro s t hs h
    rw [runOk] at h
    split_ifs at h with hok
    obtain ⟨s', hs', hrest⟩ := Option.bind_eq_some_iff.mp h
    exact ih s' (.step hs hok hs') hrest

/-- A checked run reaches its end. -/
theorem Reach.of_runOk {s₀ t : σ} {as : List α} (h : runOk step ok s₀ as = some t) :
    Reach step ok s₀ t :=
  reach_of_runOk_from as s₀ .init h

private theorem exists_of_any {o : Option σ} {P : σ → Bool} (h : o.any P = true) :
    ∃ s, o = some s ∧ P s = true := by
  cases o with
  | none => cases h
  | some s => exact ⟨s, rfl, h⟩

/-- Evaluate a run and a property of the state it ends in. -/
theorem Reach.exists_of_run {s₀ : σ} {P : σ → Prop} [DecidablePred P] (as : List α)
    (h : ((runOk step ok s₀ as).any fun s => P s) = true) : ∃ s, Reach step ok s₀ s ∧ P s := by
  obtain ⟨s, hs, hP⟩ := exists_of_any h
  exact ⟨s, .of_runOk hs, of_decide_eq_true hP⟩

theorem runOk_nil (s : σ) : runOk step ok s [] = some s := rfl

/-- In this form `simp` works out one step before it looks at the next. -/
theorem runOk_free_cons (s : σ) (a : α) (as : List α) :
    runOk step free s (a :: as) = match step s a with
      | some s' => runOk step free s' as
      | none => none := by
  rw [runOk, if_pos (show free s a from trivial)]
  cases step s a <;> rfl

/-- Work out a run and a property of the state it ends in. -/
theorem Reach.exists_of_runOk {s₀ : σ} {P : σ → Prop} (as : List α)
    (h : ∃ s, runOk step ok s₀ as = some s ∧ P s) : ∃ s, Reach step ok s₀ s ∧ P s :=
  h.imp fun _ hs => ⟨.of_runOk hs.1, hs.2⟩

/-- Evaluate a run and a property of the state it ends in, and conclude from them. -/
theorem Reach.exists_of_run_imp {s₀ : σ} {P Q : σ → Prop} [DecidablePred P] (as : List α)
    (h : ((runOk step ok s₀ as).any fun s => P s) = true)
    (himp : ∀ s, Reach step ok s₀ s → P s → Q s) : ∃ s, Reach step ok s₀ s ∧ Q s :=
  (Reach.exists_of_run as h).imp fun s hs => ⟨hs.1, himp s hs.1 hs.2⟩

/-- Evaluate a run, a step after it, and a property of the states around that step. -/
theorem Reach.exists_step_of_run {s₀ : σ} {P : σ → σ → Prop} [∀ s, DecidablePred (P s)]
    (as : List α) (a : α)
    (h : ((runOk step ok s₀ as).any fun s => (step s a).any fun s' => P s s') = true) :
    ∃ s s', Reach step ok s₀ s ∧ step s a = some s' ∧ P s s' := by
  obtain ⟨s, hs, h⟩ := exists_of_any h
  obtain ⟨s', hs', hP⟩ := exists_of_any h
  exact ⟨s, s', .of_runOk hs, hs', of_decide_eq_true hP⟩

end Runs

/-! ## Properties of all states and of all steps of a run -/

/-- Every state of the run satisfies `P`, the first and the last included. -/
def EveryState (step : σ → α → Option σ) (P : σ → Prop) : σ → List α → Prop
  | s, [] => P s
  | s, a :: as => P s ∧ ∀ s', step s a = some s' → EveryState step P s' as

/-- Every step of the run meets the guard. -/
def EveryStep (step : σ → α → Option σ) (ok : σ → α → Prop) : σ → List α → Prop
  | _, [] => True
  | s, a :: as => ∀ s', step s a = some s' → ok s a ∧ EveryStep step ok s' as

/--
If, under the auxiliary invariant `Aux`, the property `P` survives a step exactly
when the step meets the guard, then a run from a state with `P` has `P`
everywhere exactly when all its steps meet the guard.
-/
theorem everyState_iff_everyStep {step : σ → α → Option σ} {P : σ → Prop}
    {ok : σ → α → Prop} (Aux : σ → Prop)
    (hAux : ∀ s a s', Aux s → step s a = some s' → Aux s')
    (hP : ∀ s a s', Aux s → P s → step s a = some s' → (P s' ↔ ok s a)) :
    ∀ (as : List α) (s : σ), Aux s → P s →
      (EveryState step P s as ↔ EveryStep step ok s as) := by
  intro as
  induction as with
  | nil => intro s _ hs; simp [EveryState, EveryStep, hs]
  | cons a as ih =>
    intro s haux hs
    rw [EveryState, EveryStep]
    constructor
    · rintro ⟨-, h⟩ s' hst
      have hall := h s' hst
      have hs' : P s' := by cases as with
        | nil => exact hall
        | cons _ _ => exact hall.1
      exact ⟨(hP s a s' haux hs hst).mp hs',
        (ih s' (hAux s a s' haux hst) hs').mp hall⟩
    · intro h
      refine ⟨hs, fun s' hst => ?_⟩
      obtain ⟨hok, hall⟩ := h s' hst
      exact (ih s' (hAux s a s' haux hst) ((hP s a s' haux hs hst).mpr hok)).mpr hall

end PtoRuntime.Lib
