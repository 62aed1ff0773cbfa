import SoloRun.Duration
import SoloRun.Text.Cut

/-!
What a child left behind, the results of a suite's tests, and the report on them that makes the
body of the suite's log.
-/

namespace SoloRun

/-- Exit status, output and duration of a child that ended. A child killed by a signal has the
signal's number, negated, for its status. -/
structure Capture where
  exitCode : Int
  output : String
  duration : Duration
  deriving DecidableEq, Repr

def Capture.success (capture : Capture) : Bool :=
  capture.exitCode = 0

structure TestResult extends Capture where
  name : String
  deriving DecidableEq, Repr

namespace TestResult

def passed (result : TestResult) : Bool :=
  result.success

def line (result : TestResult) : String :=
  "- " ++ result.name ++ ": " ++ (if result.passed then "ok" else "FAIL") ++
    " (" ++ result.duration.seconds.fixed 3 ++ "s)"

end TestResult

structure Report where
  title : String
  results : List TestResult
  extraHeader? : Option String
  deriving DecidableEq, Repr

namespace Report

def passed (results : List TestResult) : Nat :=
  results.countP TestResult.passed

def total? (results : List TestResult) : Option Duration :=
  Duration.total? (results.map (·.duration))

def summary (results : List TestResult) (total : Duration) : String :=
  "Summary: passed=" ++ toString (passed results) ++
    " failed=" ++ toString (results.length - passed results) ++
    " duration=" ++ total.seconds.fixed 2 ++ "s"

def lines (report : Report) (total : Duration) : List String :=
  report.extraHeader?.toList ++
    [report.title ++ " - total tests: " ++ toString report.results.length,
      summary report.results total, "", "Per-test results:"] ++
    report.results.map TestResult.line ++ [""]

def unlines (lines : List String) : String :=
  String.ofList (joined '\n' (lines.map String.toList))

/-- The report's text, given the sum of the durations. -/
def text (report : Report) (total : Duration) : String :=
  unlines (report.lines total)

/-- The report's text; none if the durations do not add up. -/
def text? (report : Report) : Option String :=
  (total? report.results).map report.text

end Report
end SoloRun
