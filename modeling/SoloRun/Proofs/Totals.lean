import SoloRun.Proofs.Phases

/-!
Why a run would overflow: the durations of the tests of a suite, all of them run, do not add up. If
they do for every suite, it never overflows.
-/

namespace SoloRun

namespace Procedure

variable {α β : Type}

/-- If it overflows, then with the deeds done by then. -/
def Overflows : Procedure α → (List Deed → Prop) → Prop
  | .done _, _ => True
  | .stop reason, cause => reason = .overflow → cause []
  | .poll next, cause => ∀ raised, (next raised).Overflows cause
  | .tell event next, cause => next.Overflows fun deeds => cause (.said event :: deeds)
  | .start command next, cause =>
    ∀ capture, (next capture).Overflows fun deeds => cause (.ran command capture :: deeds)
  | .save dir log next, cause =>
    ∀ path, path = log.path dir → (next path).Overflows fun deeds => cause (.kept path log :: deeds)

namespace Overflows

variable {procedure : Procedure α} {cause : List Deed → Prop}

theorem mono {wider : List Deed → Prop} (hp : procedure.Overflows cause)
    (h : ∀ deeds, cause deeds → wider deeds) : procedure.Overflows wider := by
  induction procedure generalizing cause wider with
  | done value => trivial
  | stop reason => exact fun hreason => h [] (hp hreason)
  | poll next ih =>
    intro raised
    exact ih raised (hp raised) h
  | tell event next ih => exact ih hp fun deeds => h _
  | start command next ih =>
    intro capture
    exact ih capture (hp capture) fun deeds => h _
  | save dir log next ih =>
    intro path hpath
    exact ih path (hp path hpath) fun deeds => h _

theorem bind {f : α → Procedure β} {language : α → List Deed → Prop}
    (hp : procedure.Overflows cause) (hdoes : procedure.Performs language)
    (hf : ∀ value deeds, language value deeds →
      (f value).Overflows fun more => cause (deeds ++ more)) :
    (procedure.bind f).Overflows cause := by
  induction procedure generalizing cause language with
  | done value => exact hf value [] hdoes
  | stop reason => exact hp
  | poll next ih =>
    intro raised
    exact ih raised (hp raised) (hdoes raised) hf
  | tell event next ih => exact ih hp hdoes fun value deeds => hf value _
  | start command next ih =>
    intro capture
    exact ih capture (hp capture) (hdoes capture) fun value deeds => hf value _
  | save dir log next ih =>
    intro path hpath
    exact ih path (hp path hpath) (hdoes.2 path hpath) fun value deeds => hf value _

theorem cause_of_result (hp : procedure.Overflows cause) {setting : Setting} {world : World}
    (h : (procedure.carryOut setting world).result = .error .overflow) :
    cause (procedure.carryOut setting world).deeds := by
  induction procedure generalizing cause world with
  | done value => cases h
  | stop reason =>
    simp only [carryOut, Except.error.injEq] at h
    exact hp h
  | poll next ih => exact ih _ (hp _) h
  | tell event next ih =>
    simp only [carryOut] at h ⊢
    split at h
    · cases h
    · next hbroken =>
      rw [if_neg hbroken, Course.deeds_after rfl]
      exact ih hp h
  | start command next ih =>
    simp only [carryOut] at h ⊢
    cases hstart : world.start setting command with
    | refused error => simp [hstart] at h
    | stopped reason after =>
      rcases World.reason_of_stopped hstart with rfl | rfl <;> simp [hstart] at h
    | ended capture after =>
      rw [hstart] at h
      rw [Course.deeds_after rfl]
      exact ih capture (hp capture) h
  | save dir log next ih =>
    simp only [carryOut] at h ⊢
    split at h
    · cases h
    · next tree path hwrite =>
      rw [Course.deeds_after rfl]
      exact ih path (hp path (Log.eq_path_of_write hwrite)) h

end Overflows
end Procedure

/-- The last deeds are all the tests of the suite, and their durations do not add up. -/
def Plan.Unsummed (plan : Plan) (suite : Suite) (deeds : List Deed) : Prop :=
  ∃ results, plan.testsDeeds suite.selector results.length 1 results <:+ deeds ∧
    Report.total? results = none

theorem Plan.Unsummed.append {plan : Plan} {suite : Suite} {deeds : List Deed}
    (h : plan.Unsummed suite deeds) (before : List Deed) :
    plan.Unsummed suite (before ++ deeds) := by
  obtain ⟨results, hlast, htotal⟩ := h
  exact ⟨results, hlast.trans (List.suffix_append before deeds), htotal⟩

/-- The durations of the tests of each suite add up, if all of them were run. -/
def Course.Summable (course : Course Path) (plan : Plan) : Prop :=
  ∀ suite ∈ plan.suites, ∀ results,
    plan.testsDeeds suite.selector results.length 1 results <:+: course.deeds →
      (results.map (·.duration.toNanos)).sum < UInt64.size * nanosPerSecond

namespace Run

open Procedure

variable (plan : Plan) (stamp : String)

theorem checkInterrupt_overflows : checkInterrupt.Overflows fun _ => False := by
  rintro (_ | _)
  · trivial
  · intro h
    cases h

theorem total_overflows (results : List TestResult) :
    (total results).Overflows fun deeds => deeds = [] ∧ Report.total? results = none := by
  rw [total]
  split
  · trivial
  · next hnone => exact fun _ => ⟨rfl, hnone⟩

theorem runTestsFrom_overflows (selector : List String) (count number : Nat)
    (names : List String) :
    (runTestsFrom plan.workspaceRoot selector count number names).Overflows fun _ => False := by
  induction names generalizing number with
  | nil =>
    refine checkInterrupt_overflows.bind checkInterrupt_performs ?_
    intro _ _ _
    trivial
  | cons name rest ih =>
    refine checkInterrupt_overflows.bind checkInterrupt_performs ?_
    intro _ _ _
    have htest : (runTest plan.workspaceRoot selector name number count).Overflows
        fun _ => False := by
      intro test
      trivial
    refine htest.bind (runTest_performs plan selector name number count) ?_
    intro result _ _
    refine (ih (number + 1)).bind (runTestsFrom_performs plan selector count _ rest) ?_
    intro results _ _
    trivial

theorem runNames_overflows (selector names : List String) :
    (runNames plan.workspaceRoot selector names).Overflows fun _ => False := by
  rw [runNames]
  split
  · trivial
  · exact runTestsFrom_overflows plan selector _ 1 names

theorem saveLog_overflows (log : Log) : (saveLog plan stamp log).Overflows fun _ => False := by
  intro path _
  trivial

theorem closeSuite_overflows (suite : Suite) (discovery : Discovery) (results : List TestResult) :
    (closeSuite plan stamp suite discovery results).Overflows
      fun deeds => deeds = [] ∧ Report.total? results = none := by
  refine (total_overflows results).bind (total_performs results) ?_
  intro duration _ _ path _
  trivial

theorem runSuite_overflows (suite : Suite) :
    (runSuite plan stamp suite).Overflows (plan.Unsummed suite) := by
  rw [runSuite_eq]
  refine (checkInterrupt_overflows.mono fun _ => False.elim).bind checkInterrupt_performs ?_
  rintro _ _ rfl listing
  refine (checkInterrupt_overflows.mono fun _ => False.elim).bind checkInterrupt_performs ?_
  rintro _ _ rfl
  refine ((runNames_overflows plan suite.selector _).mono fun _ => False.elim).bind
    (runNames_performs plan suite.selector _) ?_
  rintro results _ ⟨hnames, rfl⟩
  refine (closeSuite_overflows plan stamp suite _ results).mono ?_
  rintro _ ⟨rfl, htotal⟩
  have hlength : results.length = (Discovery.ofCapture listing).names.length := by
    rw [← hnames, List.length_map]
  refine ⟨results, ?_, htotal⟩
  rw [hlength, List.append_nil]
  exact List.suffix_append [_, _] _

theorem runCheck_overflows (check : Check) :
    (runCheck plan stamp check).Overflows fun _ => False := by
  rw [runCheck_eq]
  refine checkInterrupt_overflows.bind checkInterrupt_performs ?_
  rintro _ _ rfl output
  refine checkInterrupt_overflows.bind checkInterrupt_performs ?_
  rintro _ _ rfl
  exact saveLog_overflows plan stamp _

theorem runSuites_overflows (suites : List Suite) :
    (runSuites plan stamp suites).Overflows fun deeds =>
      ∃ suite ∈ suites, plan.Unsummed suite deeds := by
  induction suites with
  | nil => trivial
  | cons suite rest ih =>
    have hfirst : (runSuite plan stamp suite).Overflows fun deeds =>
        ∃ other ∈ suite :: rest, plan.Unsummed other deeds :=
      (runSuite_overflows plan stamp suite).mono fun _ h => ⟨suite, List.mem_cons_self, h⟩
    refine hfirst.bind (runSuite_performs plan stamp suite) ?_
    intro _ before _
    refine ih.mono ?_
    rintro more ⟨other, hmem, hother⟩
    exact ⟨other, List.mem_cons_of_mem _ hmem, hother.append before⟩

theorem runChecks_overflows (checks : List Check) :
    (runChecks plan stamp checks).Overflows fun _ => False := by
  induction checks with
  | nil => trivial
  | cons check rest ih =>
    refine (runCheck_overflows plan stamp check).bind (runCheck_performs plan stamp check) ?_
    intro _ _ _
    exact ih

theorem runAll_overflows :
    (runAll plan stamp).Overflows fun deeds =>
      ∃ suite ∈ plan.suites, plan.Unsummed suite deeds := by
  have hphases : (phases plan stamp).Overflows fun deeds =>
      ∃ suite ∈ plan.suites, plan.Unsummed suite deeds := by
    have hsuites := (runSuites_overflows plan stamp plan.suites).bind
      (runSuites_performs plan stamp plan.suites) fun _ deeds _ =>
        (runChecks_overflows plan stamp plan.checks).mono fun _ => False.elim
    refine hsuites.mono ?_
    rintro deeds ⟨suite, hmem, hsuite⟩
    exact ⟨suite, hmem, hsuite.append [_]⟩
  rw [runAll_eq]
  refine hphases.bind (phases_performs plan stamp) ?_
  intro _ _ _
  refine (checkInterrupt_overflows.mono fun _ => False.elim).bind checkInterrupt_performs ?_
  intro _ _ _
  trivial

theorem result_ne_overflow {setting : Setting} {world : World}
    (h : ((runAll plan stamp).carryOut setting world).Summable plan) :
    ((runAll plan stamp).carryOut setting world).result ≠ .error .overflow := by
  intro hresult
  obtain ⟨suite, hmem, results, hlast, hnone⟩ :=
    (runAll_overflows plan stamp).cause_of_result hresult
  have hsum : ((results.map (·.duration)).map Duration.toNanos).sum <
      UInt64.size * nanosPerSecond := by
    rw [List.map_map]
    exact h suite hmem results hlast.isInfix
  obtain ⟨total, htotal, -⟩ := Duration.exists_total? hsum
  rw [Report.total?, htotal] at hnone
  cases hnone

end Run
end SoloRun
