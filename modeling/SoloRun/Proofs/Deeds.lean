import SoloRun.Proofs.Course

/-!
The deeds of a run: what it says, the children that ran to their end and the logs it keeps. They are
told a second time here, from what the children came to. A run does them in this order, and all of
them unless it is broken off.
-/

namespace SoloRun

inductive Deed where
  | said (event : Event)
  | ran (command : Command) (capture : Capture)
  | kept (path : Path) (log : Log)
  deriving DecidableEq, Repr

namespace Deed

def event? : Deed → Option Event
  | .said event => some event
  | _ => none

def command? : Deed → Option Command
  | .ran command _ => some command
  | _ => none

def log? : Deed → Option Log
  | .kept _ log => some log
  | _ => none

end Deed

def Step.deed? : Step → Option Deed
  | .told event _ => some (.said event)
  | .started command (some capture) => some (.ran command capture)
  | .saved path log => some (.kept path log)
  | _ => none

def Course.deeds {α : Type} (course : Course α) : List Deed :=
  course.steps.filterMap Step.deed?

structure SuiteOutcome where
  listing : Capture
  results : List TestResult
  deriving DecidableEq, Repr

namespace SuiteOutcome

def discovery (outcome : SuiteOutcome) : Discovery :=
  .ofCapture outcome.listing

def Fits (outcome : SuiteOutcome) : Prop :=
  outcome.results.map (·.name) = outcome.discovery.names

def total (outcome : SuiteOutcome) : Duration :=
  (Report.total? outcome.results).getD .zero

def log (outcome : SuiteOutcome) (stamp : String) (suite : Suite) : Log :=
  ⟨suite.logName, Run.suiteHeader stamp suite,
    Report.text ⟨suite.title, outcome.results, outcome.discovery.extraHeader?⟩ outcome.total⟩

end SuiteOutcome

def Check.log (root : Path) (check : Check) (capture : Capture) : Log :=
  ⟨check.logName, Run.checkHeader (check.command root) capture, capture.output⟩

namespace Plan

variable (plan : Plan) (stamp : String)

def testDeeds (selector : List String) (count number : Nat) (result : TestResult) : List Deed :=
  [.said (.testStart result.name number count),
    .ran (Command.single plan.workspaceRoot selector result.name) result.toCapture,
    .said (.testResult result.name result.success result.duration.millis),
    .said (.testOutput result.name result.output)]

def testsDeeds (selector : List String) (count : Nat) : Nat → List TestResult → List Deed
  | _, [] => []
  | number, result :: rest =>
    plan.testDeeds selector count number result ++ testsDeeds selector count (number + 1) rest

def logDeeds (log : Log) : List Deed :=
  [.kept (log.path (plan.outDir stamp)) log, .said (.logWritten (log.path (plan.outDir stamp)))]

def suiteDeeds (suite : Suite) (outcome : SuiteOutcome) : List Deed :=
  .ran (Command.listing plan.workspaceRoot suite.selector) outcome.listing ::
    .said (outcome.discovery.event suite.title) ::
    (plan.testsDeeds suite.selector outcome.results.length 1 outcome.results ++
      .said (.suiteSummary suite.title (Report.passed outcome.results)
        (outcome.results.length - Report.passed outcome.results) outcome.total.seconds) ::
      plan.logDeeds stamp (outcome.log stamp suite))

def checkDeeds (check : Check) (capture : Capture) : List Deed :=
  .said (.checkStart check.logName) ::
    .ran (check.command plan.workspaceRoot) capture ::
    .said (.checkResult check.logName capture.success capture.duration.seconds) ::
    plan.logDeeds stamp (check.log plan.workspaceRoot capture)

def suitesDeeds : List Suite → List SuiteOutcome → List Deed
  | suite :: suites, outcome :: outcomes =>
    plan.suiteDeeds stamp suite outcome ++ suitesDeeds suites outcomes
  | _, _ => []

def checksDeeds : List Check → List Capture → List Deed
  | check :: checks, capture :: captures =>
    plan.checkDeeds stamp check capture ++ checksDeeds checks captures
  | _, _ => []

end Plan

structure RunOutcome where
  suites : List SuiteOutcome
  checks : List Capture
  deriving DecidableEq, Repr

structure RunOutcome.Fits (outcome : RunOutcome) (plan : Plan) : Prop where
  suites_length : outcome.suites.length = plan.suites.length
  checks_length : outcome.checks.length = plan.checks.length
  suites_fit : ∀ suite ∈ outcome.suites, suite.Fits

def Plan.phasesDeeds (plan : Plan) (stamp : String) (outcome : RunOutcome) : List Deed :=
  .said (.runStart (plan.outDir stamp) Command.runner) ::
    (plan.suitesDeeds stamp plan.suites outcome.suites ++
      plan.checksDeeds stamp plan.checks outcome.checks)

def Plan.deeds (plan : Plan) (stamp : String) (outcome : RunOutcome) : List Deed :=
  plan.phasesDeeds stamp outcome ++ [.said (.runFinished (plan.outDir stamp))]

end SoloRun
