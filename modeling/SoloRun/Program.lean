import SoloRun.CommandLine
import SoloRun.Run
import SoloRun.Workspace

/-!
The whole program: a command line is read, the workspace found, the standard plan run, and what came
of it turned into an exit status and a last word on standard error.
-/

namespace SoloRun

/-- What the program finds around it. The local zone is `offset` seconds east of UTC. -/
structure Surroundings where
  script : Script
  durations : Nat → Duration
  cwd : Place
  clock : Clock
  offset : Int
  colour : Bool

/-- What is left when the program is over; there is no status if it never is. -/
structure Ended where
  status? : Option Nat
  out : Bytes
  err : String
  tree : FileTree
  deriving DecidableEq, Repr

namespace Program

/-- An interrupt outweighs whatever else a run came to. -/
def finish {α : Type} (result : Except Failure α) (interrupted : Bool) : Except Failure α :=
  if interrupted then .error .interrupted else result

/-- The status of a process that was broken off from inside. -/
def brokenStatus : Nat := 101

/-- Exit status and last word. -/
def lastly {α : Type} (colour : Bool) (result : Except Stop α) (interrupted : Bool) :
    Option Nat × String :=
  let settled (result : Except Failure α) : Option Nat × String :=
    match finish result interrupted with
    | .ok _ => (some 0, "")
    | .error failure => (some failure.exitCode, failure.report colour)
  match result with
  | .ok value => settled (.ok value)
  | .error (.failed failure) => settled (.error failure)
  | .error .overflow | .error .unstamped | .error .brokenConsole => (some brokenStatus, "")
  | .error .interruptedTwice => (some interruptedStatus, "")
  | .error .endless => (none, "")

def reporter (colour : Bool) (options : Options) : Reporter :=
  if options.json then .lines else .console ⟨options.verbose, colour⟩

def setting (around : Surroundings) (options : Options) : Setting where
  script := around.script
  durations := around.durations
  cwd := around.cwd
  reporter := reporter around.colour options
  clock := around.clock
  trigger? := none

def plan (options : Options) (root : Path) : Plan :=
  Plan.standard root options.logDir? options.integrationTest options.propertyTest

/-- Finds the workspace and runs its plan; a clock without a stamp breaks the program off. -/
def course (around : Surroundings) (options : Options) (tree : FileTree) : Course Path :=
  let setting := setting around options
  match Workspace.find setting (World.fresh tree Sink.unlimited) options.manifestPath? with
  | (.error stop, world) => ⟨[], .error stop, world⟩
  | (.ok root, world) =>
    match Stamp.ofClock? around.clock around.offset with
    | none => ⟨[], .error .unstamped, world⟩
    | some stamp => (Run.runAll (plan options root) stamp).carryOut setting world

def early (around : Surroundings) (reason : CommandLine.Early) (tree : FileTree) : Ended :=
  let text := match reason with
    | .help page => page.text around.colour
    | .version => CommandLine.version
    | .refused _ => ""
  ⟨some reason.status, Utf8.encode text, "", tree⟩

/-- Runs the program on a command line, its own name first. -/
def run (around : Surroundings) (args : List Bytes) (tree : FileTree) : Ended :=
  match CommandLine.read args with
  | .error reason => early around reason tree
  | .ok options =>
    let course := course around options tree
    let (status?, word) := lastly around.colour course.result course.world.signals.flag
    ⟨status?, course.out, course.complaints ++ word, course.world.tree⟩

end Program
end SoloRun
