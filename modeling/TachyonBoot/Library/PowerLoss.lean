/-
This file describes what a power failure leaves of a sequence of storage operations.

A sequence is cut after some of its operations were completed, either between two
of them or inside the next one, which then leaves some damage behind. A property
of the store survives every cut when it holds before each operation, after each
damage the operation can leave, and at the end. The rule below takes the sequence
apart one operation at a time.
-/

import TachyonBoot.Library.Runs

namespace TachyonBoot.Library

variable {Store Operation Damage : Type}

/-- A power failure: how many operations were completed, and the damage that the one it
interrupted left behind, if it struck inside an operation. -/
structure Cut (Damage : Type) where
  done : Nat
  inside : Option Damage
deriving DecidableEq

section

variable (apply : Store → Operation → Store) (tear : Store → Operation → Damage → Store)

/-- What the power failure leaves of the store. -/
def cutOperations (done : Nat) (inside : Option Damage) (store : Store) :
    List Operation → Store
  | [] => store
  | operation :: rest =>
    match done, inside with
    | 0, none => store
    | 0, some damage => tear store operation damage
    | done + 1, inside => cutOperations done inside (apply store operation) rest

/-- The property holds wherever the sequence of operations is cut. -/
def Survives (Property : Store → Prop) (store : Store) (operations : List Operation) : Prop :=
  ∀ cut : Cut Damage, Property (cutOperations apply tear cut.done cut.inside store operations)

variable {apply tear} {Property : Store → Prop}

@[simp] theorem survives_nil {store : Store} :
    Survives apply tear Property store [] ↔ Property store :=
  ⟨fun survives => by simpa [cutOperations] using survives ⟨0, none⟩,
    fun holds _ => by simpa [cutOperations] using holds⟩

/-- The cut rule. -/
@[simp] theorem survives_cons {store : Store} {operation : Operation} {rest : List Operation} :
    Survives apply tear Property store (operation :: rest) ↔
      Property store ∧ (∀ damage, Property (tear store operation damage)) ∧
        Survives apply tear Property (apply store operation) rest := by
  constructor
  · intro survives
    refine ⟨?_, fun damage => ?_, fun cut => ?_⟩
    · simpa [cutOperations] using survives ⟨0, none⟩
    · simpa [cutOperations] using survives ⟨0, some damage⟩
    · simpa [cutOperations] using survives ⟨cut.done + 1, cut.inside⟩
  · rintro ⟨before, torn, after⟩ ⟨done, inside⟩
    match done, inside with
    | 0, none => simpa [cutOperations] using before
    | 0, some damage => simpa [cutOperations] using torn damage
    | done + 1, inside => simpa [cutOperations] using after ⟨done, inside⟩

/-- A property that survives every cut holds after the whole sequence. -/
theorem Survives.completed {operations : List Operation} :
    ∀ {store : Store}, Survives apply tear Property store operations →
      Property (runSteps apply store operations) := by
  induction operations with
  | nil => exact fun survives => survives_nil.mp survives
  | cons operation rest ih =>
    exact fun survives => ih (survives_cons.mp survives).2.2

end

end TachyonBoot.Library
