/-
This file packages the induction over runs of a state machine.

A run feeds a list of actions to a step function. A guard restricts which
actions may be taken in which states, and a run is admissible when every action
meets the guard in the state it is taken in. An invariant that every guarded
step preserves holds at the end of every admissible run; since each prefix of an
admissible run is admissible, it holds in every state the run passes through.
A step that is itself a sequence of calls that may fail is taken apart call by call.
-/

import Mathlib.Data.List.Basic

namespace TachyonBoot.Library

variable {State Action : Type}

/-- The state a run of actions ends in. -/
def runSteps (step : State → Action → State) (start : State) (actions : List Action) : State :=
  actions.foldl step start

/-- Every action of the run meets the guard in the state it is taken in. -/
def Admissible (guard : State → Action → Prop) (step : State → Action → State) :
    State → List Action → Prop
  | _, [] => True
  | state, action :: rest => guard state action ∧ Admissible guard step (step state action) rest

instance instDecidableAdmissible (guard : State → Action → Prop) (step : State → Action → State)
    [decidableGuard : ∀ state action, Decidable (guard state action)] (start : State)
    (actions : List Action) : Decidable (Admissible guard step start actions) :=
  match actions with
  | [] => isTrue trivial
  | action :: rest =>
    have : Decidable (Admissible guard step (step start action) rest) :=
      instDecidableAdmissible guard step (step start action) rest
    inferInstanceAs (Decidable (_ ∧ _))

@[simp] theorem runSteps_cons (step : State → Action → State) (start : State) (action : Action)
    (rest : List Action) :
    runSteps step start (action :: rest) = runSteps step (step start action) rest := rfl

/-- The run rule without a guard: what every step preserves holds after every run. -/
theorem runSteps_invariant {step : State → Action → State} {Invariant : State → Prop}
    (preserved : ∀ state action, Invariant state → Invariant (step state action))
    {start : State} (initial : Invariant start) (actions : List Action) :
    Invariant (runSteps step start actions) := by
  induction actions generalizing start with
  | nil => exact initial
  | cons action rest ih =>
    exact ih (preserved start action initial)

/-- The run rule: what every guarded step preserves holds after every admissible run. -/
theorem Admissible.invariant {guard : State → Action → Prop} {step : State → Action → State}
    {Invariant : State → Prop}
    (preserved : ∀ state action, Invariant state → guard state action →
      Invariant (step state action))
    {start : State} (initial : Invariant start) {actions : List Action}
    (admissible : Admissible guard step start actions) :
    Invariant (runSteps step start actions) := by
  induction actions generalizing start with
  | nil => exact initial
  | cons action rest ih =>
    obtain ⟨guarded, restAdmissible⟩ := admissible
    exact ih (preserved start action initial guarded) restAdmissible

/-- When a guard is exact, that is, when in the states of the background invariant it tells
whether a step keeps a property, the property holds all along a run if and only if the run is
admissible. -/
theorem admissible_iff_always {guard : State → Action → Prop} {step : State → Action → State}
    {Background Property : State → Prop}
    (kept : ∀ state action, Background state → Background (step state action))
    (exactGuard : ∀ state action, Background state → Property state →
      (guard state action ↔ Property (step state action)))
    {start : State} (background : Background start) (property : Property start)
    (actions : List Action) :
    Admissible guard step start actions ↔
      ∀ before, before <+: actions → Property (runSteps step start before) := by
  induction actions generalizing start with
  | nil => simpa [Admissible, runSteps] using property
  | cons action rest ih =>
    have first := exactGuard start action background property
    have nextBackground := kept start action background
    constructor
    · rintro ⟨guarded, restAdmissible⟩ before isPrefix
      cases before with
      | nil => exact property
      | cons other before =>
        obtain ⟨rfl, restPrefix⟩ := List.cons_prefix_cons.mp isPrefix
        exact (ih nextBackground (first.mp guarded)).mp restAdmissible before
          restPrefix
    · intro always
      have next : Property (step start action) :=
        always [action] (List.cons_prefix_cons.mpr ⟨rfl, List.nil_prefix⟩)
      refine ⟨first.mpr next, (ih nextBackground next).mpr ?_⟩
      intro before restPrefix
      exact always (action :: before) (List.cons_prefix_cons.mpr ⟨rfl, restPrefix⟩)

/-! ### Calls that may fail -/

/-- Two calls in a row succeed exactly if both do. -/
theorem bind_eq_ok_iff {Error First Second : Type} {outcome : Except Error First}
    {next : First → Except Error Second} {result : Second} :
    (outcome >>= next) = .ok result ↔ ∃ value, outcome = .ok value ∧ next value = .ok result := by
  constructor
  · intro isOk
    cases outcome with
    | error fault => cases isOk
    | ok value => exact ⟨value, rfl, isOk⟩
  · rintro ⟨value, rfl, isOk⟩
    exact isOk

end TachyonBoot.Library
