import SoloRun.Run

/-!
Courses by their actions: what each action of a procedure adds to its course, and how the course of
two procedures one after the other is put together.
-/

namespace SoloRun

namespace Course

variable {α β : Type}

theorem andThen_of_error {course : Course α} {reason : Stop} (h : course.result = .error reason)
    (next : α → World → Course β) :
    course.andThen next = ⟨course.steps, .error reason, course.world⟩ := by
  simp [andThen, h]

theorem andThen_of_ok {course : Course α} {value : α} (h : course.result = .ok value)
    (next : α → World → Course β) :
    course.andThen next =
      let rest := next value course.world
      { rest with steps := course.steps ++ rest.steps } := by
  simp [andThen, h]

end Course

namespace Procedure

variable {α β : Type} (setting : Setting)

theorem bind_eq (procedure : Procedure α) (f : α → Procedure β) :
    procedure >>= f = procedure.bind f := rfl

theorem pure_eq (value : α) : (pure value : Procedure α) = .done value := rfl

theorem ite_bind {condition : Prop} [Decidable condition] (first second : Procedure α)
    (f : α → Procedure β) :
    (if condition then first else second).bind f =
      if condition then first.bind f else second.bind f := by
  split <;> rfl

theorem carryOut_bind_cases (procedure : Procedure α) (f : α → Procedure β) (world : World) :
    (∃ reason, (procedure.carryOut setting world).result = .error reason ∧
      (procedure.bind f).carryOut setting world =
        ⟨(procedure.carryOut setting world).steps, .error reason,
          (procedure.carryOut setting world).world⟩) ∨
    ∃ value, (procedure.carryOut setting world).result = .ok value ∧
      (procedure.bind f).carryOut setting world =
        let rest := (f value).carryOut setting (procedure.carryOut setting world).world
        { rest with steps := (procedure.carryOut setting world).steps ++ rest.steps } := by
  rw [carryOut_bind]
  cases h : (procedure.carryOut setting world).result with
  | error reason => exact .inl ⟨reason, rfl, Course.andThen_of_error h _⟩
  | ok value => exact .inr ⟨value, rfl, Course.andThen_of_ok h _⟩

end Procedure

namespace Run

open Procedure

variable (plan : Plan) (stamp : String)

def runNames (dir : Path) (selector names : List String) : Procedure (List TestResult) :=
  if names.isEmpty then .done [] else runTests dir selector names

def saveLog (log : Log) : Procedure Path :=
  (save (plan.outDir stamp) log).bind fun path => (tell (.logWritten path)).bind fun _ => .done path

def closeSuite (suite : Suite) (discovery : Discovery) (results : List TestResult) :
    Procedure Path :=
  (total results).bind fun duration =>
    (tell (.suiteSummary suite.title (Report.passed results)
      (results.length - Report.passed results) duration.seconds)).bind fun _ =>
    saveLog plan stamp ⟨suite.logName, suiteHeader stamp suite,
      Report.text ⟨suite.title, results, discovery.extraHeader?⟩ duration⟩

theorem runSuite_eq (suite : Suite) :
    runSuite plan stamp suite = checkInterrupt.bind fun _ =>
      (discover plan.workspaceRoot suite.selector).bind fun discovery =>
      checkInterrupt.bind fun _ => (tell (discovery.event suite.title)).bind fun _ =>
      (runNames plan.workspaceRoot suite.selector discovery.names).bind fun results =>
      closeSuite plan stamp suite discovery results := by
  simp only [runSuite, runNames, closeSuite, saveLog, bind_eq, pure_eq, ite_bind]

theorem runCheck_eq (check : Check) :
    runCheck plan stamp check = checkInterrupt.bind fun _ =>
      (tell (.checkStart check.logName)).bind fun _ =>
      (capture (check.command plan.workspaceRoot)).bind fun output =>
      (tell (.checkResult check.logName output.success output.duration.seconds)).bind fun _ =>
      checkInterrupt.bind fun _ => saveLog plan stamp ⟨check.logName,
        checkHeader (check.command plan.workspaceRoot) output, output.output⟩ := rfl

def phases : Procedure Unit :=
  (tell (.runStart (plan.outDir stamp) Command.runner)).bind fun _ =>
    (runSuites plan stamp plan.suites).bind fun _ => runChecks plan stamp plan.checks

theorem runAll_eq :
    runAll plan stamp = (phases plan stamp).bind fun _ => checkInterrupt.bind fun _ =>
      (tell (.runFinished (plan.outDir stamp))).bind fun _ => .done (plan.outDir stamp) := by
  simp [runAll, phases, bind_eq, bind_assoc, pure_eq]

variable (setting : Setting) (world : World)

theorem carryOut_checkInterrupt_bind {α : Type} (f : Unit → Procedure α) :
    (checkInterrupt.bind f).carryOut setting world =
      if world.interrupted setting then ⟨[], .error (.failed .interrupted), world⟩
      else (f ()).carryOut setting world := by
  simp only [checkInterrupt, Procedure.bind, carryOut]
  split <;> rfl

theorem carryOut_runAll_cases {front : Course Unit}
    (hfront : (phases plan stamp).carryOut setting world = front) :
    (∃ reason, (runAll plan stamp).carryOut setting world =
      ⟨front.steps, .error reason, front.world⟩) ∨
    (front.result = .ok () ∧ front.world.interrupted setting = false ∧ ∃ told after,
      (runAll plan stamp).carryOut setting world =
        ⟨front.steps ++ [.told (.runFinished (plan.outDir stamp)) told],
          if told.broken then .error .brokenConsole else .ok (plan.outDir stamp), after⟩) := by
  rw [runAll_eq]
  rcases carryOut_bind_cases setting (phases plan stamp) _ world with
    ⟨reason, hresult, heq⟩ | ⟨⟨⟩, hresult, heq⟩
  · rw [heq, ← hfront]
    exact .inl ⟨reason, rfl⟩
  · rw [heq, carryOut_checkInterrupt_bind]
    rw [hfront] at hresult ⊢
    cases front.world.interrupted setting with
    | true => exact .inl ⟨.failed .interrupted, by simp⟩
    | false =>
      let finished := Event.runFinished (plan.outDir stamp)
      refine .inr ⟨hresult, rfl, front.world.told setting finished,
        front.world.afterTold setting finished, ?_⟩
      simp only [tell, Procedure.bind, carryOut, Bool.false_eq_true, if_false]
      split <;> simp [Course.after, finished, *]

end Run
end SoloRun
