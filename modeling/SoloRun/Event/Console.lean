import SoloRun.Event
import SoloRun.Text.Ansi

/-!
Events as a person reads them. A test or a check opens a line that its result ends; what a test
printed is shown only to those who ask for it.
-/

namespace SoloRun

def pluralize (count : Nat) (singular plural : String) : String :=
  if count = 1 then singular else plural

namespace Console

structure Look where
  verbose : Bool
  colour : Bool
  deriving DecidableEq, Repr

def status (look : Look) (success : Bool) : String :=
  if success then Ansi.paint look.colour .boldGreen "ok"
  else Ansi.paint look.colour .boldRed "FAILED"

def note (look : Look) (message : String) : String :=
  Ansi.paint look.colour .boldCyan "note" ++ ": " ++ message ++ "\n"

/-- A text between two lines of its own. -/
def quoted (name text : String) : String :=
  "---- " ++ name ++ "output ----\n" ++ text ++ "\n"

def text (look : Look) : Event → String
  | .note message => note look message
  | .runStart dir runner =>
    "running tests individually with " ++ runner ++ "; logging to " ++ dir.display ++ "\n\n"
  | .suiteStart title total =>
    Ansi.paint look.colour .bold title ++ ": discovered " ++ toString total ++ " " ++
      pluralize total "test" "tests" ++ "\n"
  | .listingFailed title exitCode output =>
    note look ("listing " ++ title ++ " exited with code " ++ toString exitCode ++
      "; no tests were run") ++
      if look.verbose then quoted (title ++ " listing ") output else ""
  | .testStart name number total =>
    "[" ++ toString number ++ "/" ++ toString total ++ "] test " ++ name ++
      if look.verbose then "\n" else " ... "
  | .testResult name success millis =>
    if look.verbose then
      "test " ++ name ++ " ... " ++ status look success ++ " (" ++ toString millis ++ "ms)\n"
    else status look success ++ "\n"
  | .testOutput name output => if look.verbose then quoted (name ++ " ") output else ""
  | .suiteSummary title passed failed seconds =>
    title ++ " result: " ++ status look (failed = 0) ++ ". " ++ toString passed ++ " passed; " ++
      toString failed ++ " failed; finished in " ++ seconds.fixed 2 ++ "s\n\n"
  | .checkStart name => "check " ++ name ++ " ... "
  | .checkResult _ success seconds =>
    status look success ++ " (" ++ seconds.fixed 2 ++ "s)\n"
  | .logWritten path => if look.verbose then note look ("wrote " ++ path.display) else ""
  | .runFinished dir => "\nLogs written to: " ++ dir.display ++ "\n"

/-- Whether the event is to be seen at once. -/
def flushes : Event → Bool
  | .testStart _ _ _ | .checkStart _ | .runFinished _ => true
  | _ => false

end Console
end SoloRun
