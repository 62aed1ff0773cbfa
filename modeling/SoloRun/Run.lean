import SoloRun.Listing
import SoloRun.Plan
import SoloRun.Procedure

/-!
A run: each suite is listed, its tests run one by one and its log saved; then each check. Failing
children are results. The run itself stops at an interrupt, at a child that cannot be started and at
a log that cannot be written; the log of the phase it stops in is not saved.
-/

namespace SoloRun

/-- What listing a suite's tests came to. -/
inductive Discovery where
  | listed (names : List String)
  | failed (exitCode : Int) (output : String)
  deriving DecidableEq, Repr

namespace Discovery

def names : Discovery → List String
  | .listed names => names
  | .failed _ _ => []

def ofCapture (listing : Capture) : Discovery :=
  if listing.success then .listed (Listing.names listing.output)
  else .failed listing.exitCode listing.output

def event (title : String) : Discovery → Event
  | .listed names => .suiteStart title names.length
  | .failed exitCode output => .listingFailed title exitCode output

def extraHeader? : Discovery → Option String
  | .listed _ => none
  | .failed exitCode _ =>
    some ("Listing failed (exit code " ++ toString exitCode ++ "); no tests were run")

end Discovery

namespace Run

open Procedure

def tell (event : Event) : Procedure Unit :=
  .tell event (.done ())

def capture (command : Command) : Procedure Capture :=
  .start command .done

def save (dir : Path) (log : Log) : Procedure Path :=
  .save dir log .done

def checkInterrupt : Procedure Unit :=
  .poll fun raised => if raised then .stop (.failed .interrupted) else .done ()

/-- The sum of the tests' durations, which ends the process if there is none. -/
def total (results : List TestResult) : Procedure Duration :=
  match Report.total? results with
  | some total => .done total
  | none => .stop .overflow

variable (plan : Plan)

def discover (dir : Path) (selector : List String) : Procedure Discovery := do
  let listing ← capture (Command.listing dir selector)
  return .ofCapture listing

def runTest (dir : Path) (selector : List String) (name : String) (number count : Nat) :
    Procedure TestResult := do
  tell (.testStart name number count)
  let test ← capture (Command.single dir selector name)
  tell (.testResult name test.success test.duration.millis)
  tell (.testOutput name test.output)
  return ⟨test, name⟩

/-- Runs the tests, the first of them being the `number`th of `count`. -/
def runTestsFrom (dir : Path) (selector : List String) (count : Nat) :
    Nat → List String → Procedure (List TestResult)
  | _, [] => do
    checkInterrupt
    return []
  | number, name :: rest => do
    checkInterrupt
    let result ← runTest dir selector name number count
    let results ← runTestsFrom dir selector count (number + 1) rest
    return result :: results

def runTests (dir : Path) (selector names : List String) : Procedure (List TestResult) :=
  runTestsFrom dir selector names.length 1 names

def suiteHeader (stamp : String) (suite : Suite) : String :=
  "Command: " ++ Command.description suite.selector ++ " (individually)\nStarted: " ++ stamp

def runSuite (stamp : String) (suite : Suite) : Procedure Path := do
  checkInterrupt
  let discovery ← discover plan.workspaceRoot suite.selector
  checkInterrupt
  tell (discovery.event suite.title)
  let names := discovery.names
  let results ← if names.isEmpty then .done []
    else runTests plan.workspaceRoot suite.selector names
  let duration ← total results
  let passed := Report.passed results
  tell (.suiteSummary suite.title passed (results.length - passed) duration.seconds)
  let report : Report := ⟨suite.title, results, discovery.extraHeader?⟩
  let path ← save (plan.outDir stamp)
    ⟨suite.logName, suiteHeader stamp suite, report.text duration⟩
  tell (.logWritten path)
  return path

def checkHeader (command : Command) (capture : Capture) : String :=
  "Command: " ++ command.line ++ "\nDuration: " ++ capture.duration.seconds.fixed 2 ++
    "s\nResult: " ++ if capture.success then "ok" else "FAIL"

def runCheck (stamp : String) (check : Check) : Procedure Path := do
  checkInterrupt
  tell (.checkStart check.logName)
  let command := check.command plan.workspaceRoot
  let output ← capture command
  tell (.checkResult check.logName output.success output.duration.seconds)
  checkInterrupt
  let path ← save (plan.outDir stamp) ⟨check.logName, checkHeader command output, output.output⟩
  tell (.logWritten path)
  return path

def runSuites (stamp : String) : List Suite → Procedure Unit
  | [] => .done ()
  | suite :: rest => do
    let _ ← runSuite plan stamp suite
    runSuites stamp rest

def runChecks (stamp : String) : List Check → Procedure Unit
  | [] => .done ()
  | check :: rest => do
    let _ ← runCheck plan stamp check
    runChecks stamp rest

/-- The whole run; its result is the directory of its logs. -/
def runAll (stamp : String) : Procedure Path := do
  tell (.runStart (plan.outDir stamp) Command.runner)
  runSuites plan stamp plan.suites
  runChecks plan stamp plan.checks
  checkInterrupt
  tell (.runFinished (plan.outDir stamp))
  return plan.outDir stamp

end Run
end SoloRun
