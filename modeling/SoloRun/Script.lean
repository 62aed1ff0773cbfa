import SoloRun.Command
import SoloRun.FileTree.Basic
import SoloRun.Signals

/-!
What children do: a script says for each list of arguments what the child prints, whether it
interrupts its parent, and how it ends; and the reasons why a child cannot be started at all.
-/

namespace SoloRun

/-- One thing a child prints; the last is the directory it runs in, and a line break. -/
inductive Print where
  | out (bytes : Bytes)
  | err (bytes : Bytes)
  | dir
  deriving DecidableEq, Repr

namespace Print

def bytes (dir : Place) : Print → Bytes
  | .out bytes | .err bytes => bytes
  | .dir => Path.slash :: joined Path.slash dir ++ [0x0A]

def toError : Print → Bool
  | .err _ => true
  | _ => false

end Print

/-- How a child interrupts its parent: it waits to get the interrupt back and dies of it, or it is
deaf to interrupts, or it answers the one it gets back with another. -/
inductive Interrupting where
  | dies
  | ignores
  | insists
  deriving DecidableEq, Repr

inductive Ending where
  | exits (status : Int)
  | killed (signal : Nat)
  deriving DecidableEq, Repr

/-- A status keeps its low eight bits; a signal counts negative. -/
def Ending.code : Ending → Int
  | .exits status => status % 256
  | .killed signal => -signal

structure Behaviour where
  prints : List Print
  interrupting? : Option Interrupting
  hangs : Bool
  ending : Ending
  deriving DecidableEq, Repr

/-- The status of a child that an interrupt ended. -/
def interruptedChild : Int := -2

inductive Fate where
  | ended (code : Int) (signals : Signals)
  /-- The parent ends at once. -/
  | parentEnds
  | endless
  deriving DecidableEq, Repr

namespace Behaviour

def ofPrints (prints : List Print) (status : Int) : Behaviour :=
  ⟨prints, none, false, .exits status⟩

def lastly (behaviour : Behaviour) (signals : Signals) : Fate :=
  if behaviour.hangs then .endless else .ended behaviour.ending.code signals

/-- What becomes of a child, the signals being those after it was registered, if it was. -/
def fate (behaviour : Behaviour) (child : Nat) (signals : Signals) : Fate :=
  if child ∈ signals.hit ∧ behaviour.interrupting? ≠ some .ignores then
    .ended interruptedChild signals
  else
    match behaviour.interrupting? with
    | none => behaviour.lastly signals
    | some how =>
      match signals.interrupt? with
      | none => .parentEnds
      | some after =>
        match how with
        | .ignores => behaviour.lastly after
        | .dies => if child ∈ after.hit then .ended interruptedChild after else .endless
        | .insists => if child ∈ after.hit then .parentEnds else .endless

def merged (behaviour : Behaviour) (dir : Place) : Bytes :=
  behaviour.prints.flatMap (·.bytes dir)

/-- What goes to one of the two streams. -/
def stream (behaviour : Behaviour) (toError : Bool) (dir : Place) : Bytes :=
  (behaviour.prints.filter (·.toError = toError)).flatMap (·.bytes dir)

end Behaviour

/-- The one program that can be found: it is missing, or it cannot be executed, or it behaves by
the first entry for its arguments. -/
inductive Script where
  | missing
  | notExecutable
  | entries (parts : List (List Bytes × Behaviour))
  deriving DecidableEq, Repr

inductive StartError where
  | nulByte
  | os (error : OsError)
  deriving DecidableEq, Repr

def StartError.message : StartError → String
  | .nulByte => "nul byte found in provided data"
  | .os error => error.message

namespace Script

def unexpected (args : List Bytes) : Behaviour :=
  .ofPrints [.out (Utf8.encode "unexpected: " ++ joined 0x20 args ++ [0x0A])] 101

def behaviour (script : Script) (args : List Bytes) : Behaviour :=
  match script with
  | .entries parts => (parts.lookup args).getD (unexpected args)
  | _ => unexpected args

/-- An argument and the NUL after it must fit into this many bytes. -/
def maxArgument : Nat := 131072

/-- Looks for a program by its path; nothing that a path leads to can be executed. -/
def missingAt (tree : FileTree) (dir : Place) (path : Path) : OsError :=
  match tree.spot dir .target path with
  | .error error => error
  | .ok (.free _ _ _) => .noEntry
  | .ok (.taken place slashed) =>
    if slashed && tree.find? place ≠ some .directory then .notDirectory
    else .permissionDenied

def refusedProgram? (script : Script) (tree : FileTree) (dir : Place) (program : Bytes) :
    Option OsError :=
  if program.contains Path.slash then some (missingAt tree dir ⟨program⟩)
  else if program = Path.dot ∨ program = Path.dots then some .permissionDenied
  else if FileTree.maxName < program.length then some .nameTooLong
  else if program ≠ Utf8.encode Command.runner then some .noEntry
  else
    match script with
    | .missing => some .noEntry
    | .notExecutable => some .permissionDenied
    | .entries _ => none

/-- The place a command runs at, or why it cannot be started. -/
def place (script : Script) (tree : FileTree) (cwd : Place) (command : Command) :
    Except StartError Place := do
  if command.hasNul then .error .nulByte
  let dir ← match command.dir? with
    | none => .ok cwd
    | some path => (tree.directory cwd path).mapError .os
  match script.refusedProgram? tree dir command.program with
  | some error => .error (.os error)
  | none =>
    if command.args.any (maxArgument < ·.length + 1) then .error (.os .argumentsTooLong)
    else .ok dir

end Script
end SoloRun
