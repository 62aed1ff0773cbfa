import Mathlib
import SoloRun.Proofs.Language

/-!
The grammar of what a run tells. A sentence of a plan says for every child what is told about it;
whatever a run comes to, it tells the start of a sentence, and the end of one only if it succeeds.
-/

namespace SoloRun

inductive TestsTold (root : Path) (selector : List String) (count : Nat) :
    Nat → List String → Nat → List Deed → Prop
  | none (number : Nat) : TestsTold root selector count number [] 0 []
  | one {number passed : Nat} {name : String} {rest : List String} {deeds : List Deed}
      (test : Capture) (success : Bool) (millis : Nat)
      (hsuccess : success = true ↔ test.exitCode = 0)
      (htests : TestsTold root selector count (number + 1) rest passed deeds) :
      TestsTold root selector count number (name :: rest) (passed + if success then 1 else 0)
        (.said (.testStart name number count) :: .ran (Command.single root selector name) test ::
          .said (.testResult name success millis) :: .said (.testOutput name test.output) :: deeds)

def logTold (plan : Plan) (stamp logName : String) (log : Log) : List Deed :=
  let path := (plan.outDir stamp).join (Path.ofString (logName ++ ".log"))
  [.kept path log, .said (.logWritten path)]

inductive SuiteTold (plan : Plan) (stamp : String) (suite : Suite) : List Deed → Prop
  | listed {passed failed : Nat} {deeds : List Deed} (listing : Capture) (seconds : Double)
      (log : Log) (hcode : listing.exitCode = 0)
      (htests : TestsTold plan.workspaceRoot suite.selector (Listing.names listing.output).length 1
        (Listing.names listing.output) passed deeds)
      (hcount : passed + failed = (Listing.names listing.output).length) :
      SuiteTold plan stamp suite
        (.ran (Command.listing plan.workspaceRoot suite.selector) listing ::
          .said (.suiteStart suite.title (Listing.names listing.output).length) ::
          (deeds ++ .said (.suiteSummary suite.title passed failed seconds) ::
            logTold plan stamp suite.logName log))
  | failed (listing : Capture) (seconds : Double) (log : Log) (hcode : listing.exitCode ≠ 0) :
      SuiteTold plan stamp suite
        (.ran (Command.listing plan.workspaceRoot suite.selector) listing ::
          .said (.listingFailed suite.title listing.exitCode listing.output) ::
          .said (.suiteSummary suite.title 0 0 seconds) :: logTold plan stamp suite.logName log)

inductive CheckTold (plan : Plan) (stamp : String) (check : Check) : List Deed → Prop
  | ran (output : Capture) (success : Bool) (seconds : Double) (log : Log)
      (hsuccess : success = true ↔ output.exitCode = 0) :
      CheckTold plan stamp check
        (.said (.checkStart check.logName) :: .ran (check.command plan.workspaceRoot) output ::
          .said (.checkResult check.logName success seconds) ::
          logTold plan stamp check.logName log)

inductive RunTold (plan : Plan) (stamp : String) : List Deed → Prop
  | all {suites checks : List (List Deed)}
      (hsuites : List.Forall₂ (SuiteTold plan stamp) plan.suites suites)
      (hchecks : List.Forall₂ (CheckTold plan stamp) plan.checks checks) :
      RunTold plan stamp
        (.said (.runStart (plan.outDir stamp) Command.runner) ::
          (suites.flatten ++ checks.flatten ++ [.said (.runFinished (plan.outDir stamp))]))

theorem Capture.success_iff (capture : Capture) :
    capture.success = true ↔ capture.exitCode = 0 := by
  simp [success]

theorem Discovery.ofCapture_of_success {listing : Capture} (h : listing.exitCode = 0) :
    ofCapture listing = .listed (Listing.names listing.output) := by
  simp [ofCapture, Capture.success, h]

theorem Discovery.ofCapture_of_failure {listing : Capture} (h : listing.exitCode ≠ 0) :
    ofCapture listing = .failed listing.exitCode listing.output := by
  simp [ofCapture, Capture.success, h]

theorem Report.passed_cons (result : TestResult) (rest : List TestResult) :
    passed (result :: rest) = passed rest + if result.success then 1 else 0 := by
  rw [passed, List.countP_cons]
  rfl

theorem Report.passed_le (results : List TestResult) : passed results ≤ results.length :=
  List.countP_le_length

namespace Plan

variable (plan : Plan) (stamp : String)

theorem testsTold_testsDeeds (selector : List String) (count number : Nat)
    (results : List TestResult) :
    TestsTold plan.workspaceRoot selector count number (results.map (·.name))
      (Report.passed results) (plan.testsDeeds selector count number results) := by
  induction results generalizing number with
  | nil => exact .none number
  | cons result rest ih =>
    rw [Report.passed_cons]
    exact .one result.toCapture result.success _ result.success_iff (ih (number + 1))

theorem suiteTold_suiteDeeds (suite : Suite) {outcome : SuiteOutcome} (h : outcome.Fits) :
    SuiteTold plan stamp suite (plan.suiteDeeds stamp suite outcome) := by
  obtain ⟨listing, results⟩ := outcome
  by_cases hcode : listing.exitCode = 0
  · have hnames : results.map (·.name) = Listing.names listing.output := by
      simpa [SuiteOutcome.Fits, SuiteOutcome.discovery, Discovery.ofCapture_of_success hcode,
        Discovery.names] using h
    have hlength : results.length = (Listing.names listing.output).length := by
      rw [← hnames, List.length_map]
    have htests := testsTold_testsDeeds plan suite.selector results.length 1 results
    rw [hnames, hlength] at htests
    have hcount : Report.passed results + (results.length - Report.passed results) =
        (Listing.names listing.output).length := by
      have := Report.passed_le results
      omega
    simpa [suiteDeeds, SuiteOutcome.discovery, Discovery.ofCapture_of_success hcode,
      Discovery.event, logTold, logDeeds, Log.path, SuiteOutcome.log, hlength] using
        SuiteTold.listed listing (SuiteOutcome.total ⟨listing, results⟩).seconds
          (SuiteOutcome.log ⟨listing, results⟩ stamp suite) hcode htests hcount
  · have hnone : results = [] := by
      simpa [SuiteOutcome.Fits, SuiteOutcome.discovery, Discovery.ofCapture_of_failure hcode,
        Discovery.names] using h
    subst hnone
    have hfailed : SuiteTold plan stamp suite _ :=
      .failed listing (SuiteOutcome.total ⟨listing, []⟩).seconds
        (SuiteOutcome.log ⟨listing, []⟩ stamp suite) hcode
    simpa [suiteDeeds, SuiteOutcome.discovery, Discovery.ofCapture_of_failure hcode,
      Discovery.event, logTold, logDeeds, Log.path, SuiteOutcome.log, testsDeeds,
      Report.passed] using hfailed

theorem checkTold_checkDeeds (check : Check) (output : Capture) :
    CheckTold plan stamp check (plan.checkDeeds stamp check output) :=
  .ran output output.success _ _ output.success_iff

theorem exists_suitesTold (suites : List Suite) {outcomes : List SuiteOutcome}
    (hlength : outcomes.length = suites.length) (hfits : ∀ outcome ∈ outcomes, outcome.Fits) :
    ∃ parts, List.Forall₂ (SuiteTold plan stamp) suites parts ∧
      plan.suitesDeeds stamp suites outcomes = parts.flatten := by
  induction suites generalizing outcomes with
  | nil => exact ⟨[], .nil, by simp [suitesDeeds]⟩
  | cons suite rest ih =>
    cases outcomes with
    | nil => simp at hlength
    | cons outcome outcomes =>
      obtain ⟨hfirst, hrest⟩ := List.forall_mem_cons.mp hfits
      obtain ⟨parts, hparts, heq⟩ := ih (by simpa using hlength) hrest
      exact ⟨_ :: parts, .cons (suiteTold_suiteDeeds plan stamp suite hfirst) hparts,
        by simp [suitesDeeds, heq]⟩

theorem exists_checksTold (checks : List Check) {outputs : List Capture}
    (hlength : outputs.length = checks.length) :
    ∃ parts, List.Forall₂ (CheckTold plan stamp) checks parts ∧
      plan.checksDeeds stamp checks outputs = parts.flatten := by
  induction checks generalizing outputs with
  | nil => exact ⟨[], .nil, by simp [checksDeeds]⟩
  | cons check rest ih =>
    cases outputs with
    | nil => simp at hlength
    | cons output outputs =>
      obtain ⟨parts, hparts, heq⟩ := ih (by simpa using hlength)
      exact ⟨_ :: parts, .cons (checkTold_checkDeeds plan stamp check output) hparts,
        by simp [checksDeeds, heq]⟩

theorem runTold_deeds {outcome : RunOutcome} (h : outcome.Fits plan) :
    RunTold plan stamp (plan.deeds stamp outcome) := by
  obtain ⟨suites, hsuites, hs⟩ :=
    exists_suitesTold plan stamp plan.suites h.suites_length h.suites_fit
  obtain ⟨checks, hchecks, hc⟩ := exists_checksTold plan stamp plan.checks h.checks_length
  simpa [deeds, phasesDeeds, hs, hc] using RunTold.all hsuites hchecks

def finishes (deeds : List Deed) : Nat :=
  (deeds.filterMap Deed.event?).countP (·.kind = .runFinished)

@[simp] theorem finishes_nil : finishes [] = 0 := rfl

@[simp] theorem finishes_append (first second : List Deed) :
    finishes (first ++ second) = finishes first + finishes second := by
  simp [finishes]

@[simp] theorem finishes_said (event : Event) (rest : List Deed) :
    finishes (.said event :: rest) =
      finishes rest + if event.kind = .runFinished then 1 else 0 := by
  simp [finishes, Deed.event?, List.countP_cons]

@[simp] theorem finishes_ran (command : Command) (capture : Capture) (rest : List Deed) :
    finishes (.ran command capture :: rest) = finishes rest := rfl

@[simp] theorem finishes_kept (path : Path) (log : Log) (rest : List Deed) :
    finishes (.kept path log :: rest) = finishes rest := rfl

theorem finishes_testsDeeds (selector : List String) (count number : Nat)
    (results : List TestResult) : finishes (plan.testsDeeds selector count number results) = 0 := by
  induction results generalizing number with
  | nil => rfl
  | cons result rest ih => simp [testsDeeds, testDeeds, Event.kind, ih]

theorem finishes_logDeeds (log : Log) : finishes (plan.logDeeds stamp log) = 0 := by
  simp [logDeeds, Event.kind]

theorem finishes_suiteDeeds (suite : Suite) (outcome : SuiteOutcome) :
    finishes (plan.suiteDeeds stamp suite outcome) = 0 := by
  cases h : outcome.discovery <;>
    simp [suiteDeeds, finishes_testsDeeds, finishes_logDeeds, h, Discovery.event, Event.kind]

theorem finishes_checkDeeds (check : Check) (output : Capture) :
    finishes (plan.checkDeeds stamp check output) = 0 := by
  simp [checkDeeds, finishes_logDeeds, Event.kind]

theorem finishes_suitesDeeds (suites : List Suite) (outcomes : List SuiteOutcome) :
    finishes (plan.suitesDeeds stamp suites outcomes) = 0 := by
  induction suites generalizing outcomes with
  | nil => simp [suitesDeeds]
  | cons suite rest ih =>
    cases outcomes with
    | nil => rfl
    | cons outcome outcomes => simp [suitesDeeds, finishes_suiteDeeds, ih]

theorem finishes_checksDeeds (checks : List Check) (outputs : List Capture) :
    finishes (plan.checksDeeds stamp checks outputs) = 0 := by
  induction checks generalizing outputs with
  | nil => simp [checksDeeds]
  | cons check rest ih =>
    cases outputs with
    | nil => rfl
    | cons output outputs => simp [checksDeeds, finishes_checkDeeds, ih]

theorem finishes_phasesDeeds (outcome : RunOutcome) :
    finishes (plan.phasesDeeds stamp outcome) = 0 := by
  simp [phasesDeeds, finishes_suitesDeeds, finishes_checksDeeds, Event.kind]

end Plan

theorem Course.events_eq {α : Type} (course : Course α) :
    course.events = course.deeds.filterMap Deed.event? := by
  rw [events, deeds, List.filterMap_filterMap]
  congr 1
  funext step
  rcases step with _ | ⟨_, _ | _⟩ | _ | _ | _ <;> rfl

namespace Run

variable (plan : Plan) (stamp : String) (setting : Setting) (world : World)

theorem countP_phases_finished :
    ((phases plan stamp).carryOut setting world).events.countP (·.kind = .runFinished) = 0 := by
  obtain ⟨_, _, ⟨outcome, -, rfl⟩, hstart⟩ := (phases_follows plan stamp).deeds_start setting world
  have hle := (hstart.filterMap Deed.event?).sublist.countP_le
    (p := fun event => decide (event.kind = EventKind.runFinished))
  have hzero : Plan.finishes (plan.phasesDeeds stamp outcome) = 0 :=
    plan.finishes_phasesDeeds stamp outcome
  rw [Course.events_eq]
  exact Nat.le_zero.mp (Nat.le_trans hle (Nat.le_of_eq hzero))

theorem finished_not_mem_phases (dir : Path) :
    .runFinished dir ∉ ((phases plan stamp).carryOut setting world).events := by
  intro hmem
  have hzero := countP_phases_finished plan stamp setting world
  rw [List.countP_eq_zero] at hzero
  exact hzero _ hmem (by simp [Event.kind])

theorem runAll_ends_iff :
    let course := (runAll plan stamp).carryOut setting world
    (∃ dir, course.events.getLast? = some (.runFinished dir)) ∧
      course.result ≠ .error .brokenConsole ↔ course.result = .ok (plan.outDir stamp) := by
  dsimp only
  rcases carryOut_runAll_cases plan stamp setting world rfl with
    ⟨reason, heq⟩ | ⟨-, -, told, after, heq⟩
  · rw [heq]
    constructor
    · rintro ⟨⟨dir, hlast⟩, -⟩
      have hmem := List.mem_of_getLast? hlast
      exact absurd hmem (finished_not_mem_phases plan stamp setting world dir)
    · intro hok
      cases hok
  · rw [heq, Course.events, List.filterMap_append]
    cases told.broken <;> simp [Step.event?]

theorem countP_runAll_finished :
    ((runAll plan stamp).carryOut setting world).events.countP (·.kind = .runFinished) ≤ 1 := by
  have hzero := countP_phases_finished plan stamp setting world
  rcases carryOut_runAll_cases plan stamp setting world rfl with
    ⟨reason, heq⟩ | ⟨-, -, told, after, heq⟩
  · rw [heq]
    exact Nat.le_trans (Nat.le_of_eq hzero) (Nat.zero_le 1)
  · rw [Course.events] at hzero
    rw [heq, Course.events, List.filterMap_append, List.countP_append, hzero]
    simp [Step.event?, Event.kind]

/-- Whatever the script, the durations and the interrupts are and whatever a run comes to, what it
tells is the start of a sentence. It tells that it is finished at most once, and last of all, and
just if it succeeds; a console may break over saying so. -/
theorem runAll_tells_start_of_sentence :
    let course := (runAll plan stamp).carryOut setting world
    (∃ sentence, RunTold plan stamp sentence ∧ course.deeds <+: sentence ∧
      course.events <+: sentence.filterMap Deed.event?) ∧
    ((∃ dir, course.events.getLast? = some (.runFinished dir)) ∧
      course.result ≠ .error .brokenConsole ↔ course.result = .ok (plan.outDir stamp)) ∧
    course.events.countP (·.kind = .runFinished) ≤ 1 := by
  intro course
  obtain ⟨_, _, ⟨-, outcome, hfits, rfl⟩, hstart⟩ :=
    (runAll_follows plan stamp).deeds_start setting world
  refine ⟨⟨_, plan.runTold_deeds stamp hfits, hstart, ?_⟩, runAll_ends_iff plan stamp setting world,
    countP_runAll_finished plan stamp setting world⟩
  rw [Course.events_eq]
  exact hstart.filterMap Deed.event?

end Run
end SoloRun
