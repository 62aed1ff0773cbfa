import SoloRun.World

/-!
Procedures: what a run does, as a tree of actions whose rest depends on what came of them.
`carryOut` does the actions in a world and records them as steps.
-/

namespace SoloRun

inductive Procedure (α : Type) where
  | done (value : α)
  | stop (reason : Stop)
  /-- Looks at the interrupt flag. -/
  | poll (next : Bool → Procedure α)
  | tell (event : Event) (next : Procedure α)
  | start (command : Command) (next : Capture → Procedure α)
  | save (dir : Path) (log : Log) (next : Path → Procedure α)

namespace Procedure

variable {α β : Type}

def bind : Procedure α → (α → Procedure β) → Procedure β
  | .done value, f => f value
  | .stop reason, _ => .stop reason
  | .poll next, f => .poll fun raised => (next raised).bind f
  | .tell event next, f => .tell event (next.bind f)
  | .start command next, f => .start command fun capture => (next capture).bind f
  | .save dir log next, f => .save dir log fun path => (next path).bind f

instance : Monad Procedure where
  pure := .done
  bind := bind

theorem bind_done (procedure : Procedure α) : procedure.bind .done = procedure := by
  induction procedure with
  | done | stop => rfl
  | poll next ih | start command next ih | save dir log next ih => simp [bind, ih]
  | tell event next ih => simp [bind, ih]

theorem bind_assoc {γ : Type} (procedure : Procedure α) (f : α → Procedure β)
    (g : β → Procedure γ) :
    (procedure.bind f).bind g = procedure.bind fun value => (f value).bind g := by
  induction procedure with
  | done | stop => rfl
  | poll next ih | start command next ih | save dir log next ih => simp [bind, ih]
  | tell event next ih => simp [bind, ih]

end Procedure

inductive Step where
  | told (event : Event) (told : Told)
  /-- A child that was started, with nothing captured if the run ended before it did. -/
  | started (command : Command) (capture? : Option Capture)
  | refused (command : Command) (error : StartError)
  | saved (path : Path) (log : Log)
  | unsaved (log : Log) (failure : Failure)
  deriving DecidableEq, Repr

namespace Step

def event? : Step → Option Event
  | .told event _ => some event
  | _ => none

def command? : Step → Option Command
  | .started command _ => some command
  | _ => none

def out : Step → Bytes
  | .told _ answer => answer.out
  | _ => []

def complaint : Step → String
  | .told _ answer => answer.complaint
  | _ => ""

end Step

/-- A procedure carried out: its steps, how it ended and the world it left. -/
structure Course (α : Type) where
  steps : List Step
  result : Except Stop α
  world : World

namespace Course

variable {α : Type}

def after (step : Step) (course : Course α) : Course α :=
  { course with steps := step :: course.steps }

/-- Goes on after a course that ended with a result. -/
def andThen {β : Type} (course : Course α) (next : α → World → Course β) : Course β :=
  match course.result with
  | .error reason => ⟨course.steps, .error reason, course.world⟩
  | .ok value =>
    let rest := next value course.world
    { rest with steps := course.steps ++ rest.steps }

theorem andThen_after {β : Type} (step : Step) (course : Course α)
    (next : α → World → Course β) :
    (course.after step).andThen next = (course.andThen next).after step := by
  obtain ⟨steps, result, world⟩ := course
  cases result <;> rfl

def events (course : Course α) : List Event :=
  course.steps.filterMap Step.event?

def commands (course : Course α) : List Command :=
  course.steps.filterMap Step.command?

def out (course : Course α) : Bytes :=
  course.steps.flatMap Step.out

def complaints (course : Course α) : String :=
  String.join (course.steps.map Step.complaint)

end Course

namespace Procedure

variable {α : Type} (setting : Setting)

def carryOut : Procedure α → World → Course α
  | .done value, world => ⟨[], .ok value, world⟩
  | .stop reason, world => ⟨[], .error reason, world⟩
  | .poll next, world => (next (world.interrupted setting)).carryOut world
  | .tell event next, world =>
    let told := world.told setting event
    let after := world.afterTold setting event
    if told.broken then ⟨[.told event told], .error .brokenConsole, after⟩
    else (next.carryOut after).after (.told event told)
  | .start command next, world =>
    match world.start setting command with
    | .refused error =>
      ⟨[.refused command error], .error (.failed (.command command.line error.message)), world⟩
    | .stopped reason after => ⟨[.started command none], .error reason, after⟩
    | .ended capture after =>
      ((next capture).carryOut after).after (.started command (some capture))
  | .save dir log next, world =>
    match log.write setting.cwd dir world.tree with
    | (tree, .error failure) =>
      ⟨[.unsaved log failure], .error (.failed failure), { world with tree }⟩
    | (tree, .ok path) => ((next path).carryOut { world with tree }).after (.saved path log)

theorem carryOut_bind {β : Type} (procedure : Procedure α) (f : α → Procedure β)
    (world : World) :
    (procedure.bind f).carryOut setting world =
      (procedure.carryOut setting world).andThen fun value => (f value).carryOut setting := by
  induction procedure generalizing world with
  | done value => simp [bind, carryOut, Course.andThen]
  | stop reason => rfl
  | poll next ih => exact ih _ world
  | tell event next ih =>
    simp only [bind, carryOut]
    split
    · rfl
    · rw [ih, Course.andThen_after]
  | start command next ih =>
    simp only [bind, carryOut]
    split
    · rfl
    · rfl
    · rw [ih, Course.andThen_after]
  | save dir log next ih =>
    simp only [bind, carryOut]
    split
    · rfl
    · rw [ih, Course.andThen_after]

end Procedure
end SoloRun
