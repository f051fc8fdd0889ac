import Mathlib.Data.List.Induction

/-!
# Machines and their runs

A machine has states and actions, and an action either moves a state to the next one or is not
possible there. A run is a list of actions that are possible one after the other; the history of a
state is the run that leads to it.

An invariant may speak about the history (`run_induction`). What every action keeps, a whole run
keeps from any state on (`run_stable`).
-/

namespace Machine

universe u v

variable {State : Type u} {Action : Type v} (step : State → Action → Option State)

/-- Take the actions of a list. -/
def run (s : State) (actions : List Action) : Option State :=
  actions.foldlM step s

@[simp] theorem run_nil (s : State) : run step s [] = some s := rfl

theorem run_cons (s : State) (action : Action) (actions : List Action) :
    run step s (action :: actions) = (step s action).bind fun s' ↦ run step s' actions := by
  rw [run, List.foldlM_cons]
  rfl

theorem run_append (s : State) (actions actions' : List Action) :
    run step s (actions ++ actions') =
      (run step s actions).bind fun s' ↦ run step s' actions' := by
  rw [run, List.foldlM_append]
  rfl

theorem run_concat (s : State) (actions : List Action) (action : Action) :
    run step s (actions ++ [action]) = (run step s actions).bind fun s' ↦ step s' action := by
  rw [run_append]
  refine congrArg _ (funext fun s' ↦ ?_)
  rw [run_cons]
  exact Option.bind_fun_some _

variable {step}

/-- A run, cut at an action. -/
theorem exists_of_run_append_cons {s s' : State} {front back : List Action} {action : Action}
    (h : run step s (front ++ action :: back) = some s') :
    ∃ s₁ s₂, run step s front = some s₁ ∧ step s₁ action = some s₂ ∧
      run step s₂ back = some s' := by
  rw [run_append] at h
  obtain ⟨s₁, hfront, h⟩ := Option.bind_eq_some_iff.1 h
  rw [run_cons] at h
  obtain ⟨s₂, hstep, hback⟩ := Option.bind_eq_some_iff.1 h
  exact ⟨s₁, s₂, hfront, hstep, hback⟩

/-- **Invariants of states and their histories.** -/
theorem run_induction {s : State} {P : List Action → State → Prop} (hinit : P [] s)
    (hstep : ∀ actions s₁ action s₂, run step s actions = some s₁ → P actions s₁ →
      step s₁ action = some s₂ → P (actions ++ [action]) s₂)
    {actions : List Action} {s' : State} (h : run step s actions = some s') : P actions s' := by
  induction actions using List.reverseRecOn generalizing s' with
  | nil =>
    obtain rfl := Option.some.inj h
    exact hinit
  | append_singleton actions action ih =>
    rw [run_concat] at h
    obtain ⟨s₁, hrun, h⟩ := Option.bind_eq_some_iff.1 h
    exact hstep actions s₁ action s' hrun (ih hrun) h

/-- **What every action keeps.** -/
theorem run_stable {P : State → Prop}
    (hstep : ∀ s action s', P s → step s action = some s' → P s')
    {s s' : State} {actions : List Action} (hs : P s) (h : run step s actions = some s') :
    P s' :=
  run_induction hs (fun _ s₁ action s₂ _ hP hs₂ ↦ hstep s₁ action s₂ hP hs₂) h

end Machine
