import SoloRun.Clock
import SoloRun.Event
import SoloRun.Json.Basic
import SoloRun.Number.Shortest

/-!
Events as a program reads them: one JSON object on one line, with the kind of the event, what it
says under names in alphabetical order, and the time in whole milliseconds.
-/

namespace SoloRun.EventLine

/-- Seconds are positional from `0.00001` up to, but not including, ten to the sixteenth. -/
def layout : Double.Layout := ⟨-4, 16⟩

def seconds (d : Double) : Json :=
  match d.shortest? layout with
  | some text => .number text
  | none => .null

def payload : Event → List (String × Json)
  | .note message => [("message", .string message)]
  | .runStart dir runner => [("out_dir", .string dir.display), ("runner", .string runner)]
  | .suiteStart title total => [("suite", .string title), ("total_tests", .ofNat total)]
  | .listingFailed title exitCode output =>
    [("exit_code", .ofInt exitCode), ("output", .string output), ("suite", .string title)]
  | .testStart name number total =>
    [("test", .string name), ("test_number", .ofNat number), ("total_tests", .ofNat total)]
  | .testResult name success millis =>
    [("duration_ms", .ofNat millis), ("success", .bool success), ("test", .string name)]
  | .testOutput name output => [("output", .string output), ("test", .string name)]
  | .suiteSummary title passed failed secs =>
    [("duration_secs", seconds secs), ("failed", .ofNat failed), ("passed", .ofNat passed),
      ("suite", .string title)]
  | .checkStart name => [("check", .string name)]
  | .checkResult name success secs =>
    [("check", .string name), ("duration_secs", seconds secs), ("success", .bool success)]
  | .logWritten path => [("path", .string path.display)]
  | .runFinished dir => [("out_dir", .string dir.display)]

def json (millis : Nat) (event : Event) : Json :=
  .object [("event_type", .string event.kind.name), ("payload", .object (payload event)),
    ("timestamp", .ofNat millis)]

def text (millis : Nat) (event : Event) : String :=
  String.ofList ((json millis event).written ++ ['\n'])

end SoloRun.EventLine
