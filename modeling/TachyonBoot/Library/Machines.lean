/-
This file is a small library of machines with outputs.

A machine takes a list of actions and gives an output for each of them. The machine of an
implementation may also get stuck, where that of its specification never does. When a relation
between their states is kept by every step and related states give the same output, the
implementation never gets stuck and all its outputs are those of the specification.
-/

import Mathlib.Data.List.Basic

namespace TachyonBoot.Library

variable {State Abstract Action Output : Type}

/-- The outputs of a machine that always goes on. -/
def outputsOf (step : Abstract → Action → Abstract × Output) :
    Abstract → List Action → List Output
  | _, [] => []
  | state, action :: rest =>
    (step state action).2 :: outputsOf step (step state action).1 rest

/-- The outputs of a machine that may get stuck. -/
def outputsOf? (step : State → Action → Option (State × Output)) :
    State → List Action → Option (List Output)
  | _, [] => some []
  | state, action :: rest =>
    match step state action with
    | none => none
    | some (next, output) => (outputsOf? step next rest).map (output :: ·)

/-- A step of the implementation does not get stuck and matches that of the specification. -/
def Matches (Related : State → Abstract → Prop) (outcome : Option (State × Output))
    (expected : Abstract × Output) : Prop :=
  ∃ next, outcome = some (next, expected.2) ∧ Related next expected.1

/-- A simulation step by step gives the same outputs along every run. -/
theorem outputsOf?_eq {Related : State → Abstract → Prop} {guard : Action → Prop}
    {step : State → Action → Option (State × Output)}
    {specification : Abstract → Action → Abstract × Output}
    (simulates : ∀ state abstract action, Related state abstract → guard action →
      Matches Related (step state action) (specification abstract action))
    {state : State} {abstract : Abstract} (related : Related state abstract)
    {actions : List Action} (guarded : ∀ action ∈ actions, guard action) :
    outputsOf? step state actions = some (outputsOf specification abstract actions) := by
  induction actions generalizing state abstract with
  | nil => rfl
  | cons action rest ih =>
    obtain ⟨next, stepped, nextRelated⟩ :=
      simulates state abstract action related (guarded action List.mem_cons_self)
    have onward := ih nextRelated
      fun action member => guarded action (List.mem_cons_of_mem _ member)
    rw [outputsOf?, stepped]
    dsimp only
    rw [onward]
    rfl

end TachyonBoot.Library
