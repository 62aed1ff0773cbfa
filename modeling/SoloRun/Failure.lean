import SoloRun.Path
import SoloRun.Text.Ansi

/-!
Why a run could not go on: the message, the exit status and what is printed about it.
-/

namespace SoloRun

inductive Failure where
  | interrupted
  | metadata (reason : String)
  | command (line reason : String)
  | log (path : Path) (reason : String)
  /-- Any other cause; each context stands in front of what came before it. -/
  | other (cause : String) (contexts : List String)
  deriving DecidableEq, Repr

namespace Failure

def message : Failure → String
  | .interrupted => "interrupted by user"
  | .metadata reason => "failed to retrieve cargo metadata: " ++ reason
  | .command line reason => "command '" ++ line ++ "' failed: " ++ reason
  | .log path reason => "failed to write log '" ++ path.display ++ "': " ++ reason
  | .other cause contexts => contexts.getLast?.getD cause

def exitCode : Failure → Nat
  | .interrupted => 130
  | .metadata _ => 40
  | .command _ _ => 60
  | .log _ _ => 70
  | .other _ _ => 1

variable (colour : Bool)

def highlighted : Failure → String
  | .interrupted => Ansi.paint colour .bold "interrupted by user"
  | .metadata reason =>
    "failed to retrieve cargo metadata: " ++ Ansi.paint colour .bold reason
  | .command line reason =>
    "command '" ++ Ansi.paint colour .boldYellow line ++ "' failed: " ++
      Ansi.paint colour .bold reason
  | .log path reason =>
    "failed to write log '" ++ Ansi.paint colour .boldYellow path.display ++ "': " ++
      Ansi.paint colour .bold reason
  | .other cause contexts => contexts.getLast?.getD cause

def tip? : Failure → Option String
  | .metadata _ =>
    some ("run from inside a cargo workspace or pass '" ++
      Ansi.paint colour .boldYellow "--manifest-path" ++ "'")
  | .command _ _ => some "make sure 'cargo' is installed and on your PATH"
  | _ => none

/-- What is printed to standard error about a failure. -/
def report (failure : Failure) : String :=
  Ansi.paint colour .boldRed "error" ++ ": " ++ failure.highlighted colour ++ "\n" ++
    match failure.tip? colour with
    | some tip => "  " ++ Ansi.paint colour .boldCyan "tip" ++ ": " ++ tip ++ "\n"
    | none => ""

end Failure
end SoloRun
