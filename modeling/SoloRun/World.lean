import SoloRun.Log
import SoloRun.Report
import SoloRun.Reporter
import SoloRun.Script

/-!
What a run acts on: the files, the interrupts, the children so far and the sink of its reporter; and
what stays the same all through it.
-/

namespace SoloRun

/-- Raises a run's flag once `nth` events of a kind were told, but not before the first; they may be
about anything if there is no label. -/
structure Trigger where
  kind : EventKind
  label? : Option String
  nth : Nat
  deriving DecidableEq, Repr

def Trigger.fits (trigger : Trigger) (event : Event) : Bool :=
  event.kind = trigger.kind && trigger.label?.all (· = event.label)

/-- Durations go by the number of children started before. With a trigger the run's flag is one of
its own, without one it is the flag of the signals. -/
structure Setting where
  script : Script
  durations : Nat → Duration
  cwd : Place
  reporter : Reporter
  clock : Clock
  trigger? : Option Trigger

structure World where
  tree : FileTree
  signals : Signals
  raised : Bool
  fitted : Nat
  children : Nat
  sink : Sink
  deriving DecidableEq, Repr

/-- Why a procedure ended without a result. -/
inductive Stop where
  | failed (failure : Failure)
  /-- Durations did not add up. -/
  | overflow
  /-- The clock has no stamp. -/
  | unstamped
  | brokenConsole
  /-- A second interrupt ended the process. -/
  | interruptedTwice
  /-- A child never ends. -/
  | endless
  deriving DecidableEq, Repr

namespace World

def fresh (tree : FileTree) (sink : Sink) : World :=
  ⟨tree, .quiet, false, 0, 0, sink⟩

variable (setting : Setting)

def interrupted (world : World) : Bool :=
  match setting.trigger? with
  | some _ => world.raised
  | none => world.signals.flag

/-- An interrupt came, by the run's own flag or by a signal. -/
def anyInterrupt (world : World) : Bool :=
  world.raised || world.signals.flag

/-- Sets the flag that the run looks at. -/
def interrupt (world : World) : World :=
  match setting.trigger? with
  | some _ => { world with raised := true }
  | none => { world with signals := { world.signals with flag := true } }

def told (world : World) (event : Event) : Told :=
  setting.reporter.tell setting.clock world.sink event

/-- Counts an event if it fits the trigger. -/
def noted (world : World) (event : Event) : World :=
  match setting.trigger? with
  | none => world
  | some trigger =>
    if trigger.fits event then
      { world with
        fitted := world.fitted + 1
        raised := world.raised || trigger.nth ≤ world.fitted + 1 }
    else world

/-- An event that broke the reporter is not counted. -/
def afterTold (world : World) (event : Event) : World :=
  { if (world.told setting event).broken then world else world.noted setting event with
    sink := setting.reporter.sinkAfter setting.clock world.sink event }

/-- What came of a command. -/
inductive Started where
  | refused (error : StartError)
  | ended (capture : Capture) (world : World)
  | stopped (stop : Stop) (world : World)
  deriving DecidableEq, Repr

/-- Starts a child, registers it while it runs and captures what it prints. -/
def start (world : World) (command : Command) : Started :=
  match setting.script.place world.tree setting.cwd command with
  | .error error => .refused error
  | .ok dir =>
    let behaviour := setting.script.behaviour command.args
    let after := { world with children := world.children + 1 }
    match behaviour.fate world.children (world.signals.register world.children) with
    | .ended code signals =>
      .ended ⟨code, Utf8.decode (behaviour.merged dir), setting.durations world.children⟩
        { after with signals := signals.release }
    | .parentEnds => .stopped .interruptedTwice after
    | .endless => .stopped .endless after

end World
end SoloRun
