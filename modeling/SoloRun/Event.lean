import SoloRun.Number.Double
import SoloRun.Path

/-!
What a run tells about its progress: one event per thing that happens, of twelve kinds.
-/

namespace SoloRun

inductive EventKind where
  | note
  | runStart
  | suiteStart
  | listingFailed
  | testStart
  | testResult
  | testOutput
  | suiteSummary
  | checkStart
  | checkResult
  | logWritten
  | runFinished
  deriving DecidableEq, Repr

namespace EventKind

def all : List EventKind :=
  [.note, .runStart, .suiteStart, .listingFailed, .testStart, .testResult, .testOutput,
    .suiteSummary, .checkStart, .checkResult, .logWritten, .runFinished]

def name : EventKind → String
  | .note => "note"
  | .runStart => "run_start"
  | .suiteStart => "suite_start"
  | .listingFailed => "listing_failed"
  | .testStart => "test_start"
  | .testResult => "test_result"
  | .testOutput => "test_output"
  | .suiteSummary => "suite_summary"
  | .checkStart => "check_start"
  | .checkResult => "check_result"
  | .logWritten => "log_written"
  | .runFinished => "run_finished"

def ofName? (name : String) : Option EventKind :=
  all.find? (·.name = name)

theorem mem_all (kind : EventKind) : kind ∈ all := by
  cases kind <;> decide

theorem ofName?_name (kind : EventKind) : ofName? kind.name = some kind := by
  cases kind <;> decide

end EventKind

inductive Event where
  | note (message : String)
  | runStart (dir : Path) (runner : String)
  | suiteStart (title : String) (total : Nat)
  | listingFailed (title : String) (exitCode : Int) (output : String)
  | testStart (name : String) (number total : Nat)
  | testResult (name : String) (success : Bool) (millis : Nat)
  | testOutput (name output : String)
  | suiteSummary (title : String) (passed failed : Nat) (seconds : Double)
  | checkStart (name : String)
  | checkResult (name : String) (success : Bool) (seconds : Double)
  | logWritten (path : Path)
  | runFinished (dir : Path)
  deriving DecidableEq, Repr

namespace Event

def kind : Event → EventKind
  | .note _ => .note
  | .runStart _ _ => .runStart
  | .suiteStart _ _ => .suiteStart
  | .listingFailed _ _ _ => .listingFailed
  | .testStart _ _ _ => .testStart
  | .testResult _ _ _ => .testResult
  | .testOutput _ _ => .testOutput
  | .suiteSummary _ _ _ _ => .suiteSummary
  | .checkStart _ => .checkStart
  | .checkResult _ _ _ => .checkResult
  | .logWritten _ => .logWritten
  | .runFinished _ => .runFinished

/-- What the event is about: a runner, a suite, a test, a check or a log. -/
def label : Event → String
  | .note _ | .runFinished _ => ""
  | .runStart _ runner => runner
  | .suiteStart title _ | .listingFailed title _ _ | .suiteSummary title _ _ _ => title
  | .testStart name _ _ | .testResult name _ _ | .testOutput name _ => name
  | .checkStart name | .checkResult name _ _ => name
  | .logWritten path => Utf8.decode (path.fileName?.getD [])

end Event
end SoloRun
