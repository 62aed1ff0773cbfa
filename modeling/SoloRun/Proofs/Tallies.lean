import SoloRun.Proofs.Readback
import SoloRun.Proofs.Saving
import SoloRun.Proofs.Totals

/-!
What a report adds up to. Its durations have a sum just if their nanoseconds do, in whatever order
they are added, and the suite that is reported on breaks off just if its report would.
-/

namespace SoloRun

namespace Duration

theorem toNanos_lt (d : Duration) : d.toNanos < UInt64.size * nanosPerSecond := by
  have hsecs := d.secs_lt
  have hnanos := d.nanos_lt
  have hper : nanosPerSecond = 1000000000 := rfl
  rw [hper] at hnanos
  rw [toNanos, hper]
  omega

theorem toNanos_injective {first second : Duration} (h : first.toNanos = second.toNanos) :
    first = second := by
  obtain ⟨secs, nanos, hsecs, hnanos⟩ := first
  obtain ⟨secs', nanos', hsecs', hnanos'⟩ := second
  have hper : nanosPerSecond = 1000000000 := rfl
  have hsame : secs = secs' ∧ nanos = nanos' := by
    rw [hper] at hnanos hnanos'
    simp only [toNanos, hper] at h
    omega
  obtain ⟨rfl, rfl⟩ := hsame
  rfl

theorem toNanos_of_add? {first second sum : Duration} (h : first.add? second = some sum) :
    sum.toNanos = first.toNanos + second.toNanos := by
  have hper : nanosPerSecond = 1000000000 := rfl
  rw [add?] at h
  split at h
  · split at h <;> cases h
    simp only [toNanos, hper]
    omega
  · next hnanos =>
    split at h <;> cases h
    simp only [toNanos, hper] at hnanos ⊢
    omega

theorem toNanos_of_foldlM_add? {durations : List Duration} {start total : Duration}
    (h : durations.foldlM add? start = some total) :
    total.toNanos = start.toNanos + (durations.map toNanos).sum := by
  induction durations generalizing start with
  | nil =>
    rw [List.foldlM_nil] at h
    obtain rfl := Option.some.inj h
    exact (Nat.add_zero _).symm
  | cons first rest ih =>
    rw [List.foldlM_cons] at h
    obtain ⟨sum, hsum, hrest⟩ := Option.bind_eq_some_iff.mp h
    rw [ih hrest, toNanos_of_add? hsum, List.map_cons, List.sum_cons, Nat.add_assoc]

theorem total?_eq_some_iff {durations : List Duration} {total : Duration} :
    total? durations = some total ↔ total.toNanos = (durations.map toNanos).sum := by
  constructor
  · intro h
    rw [toNanos_of_foldlM_add? h]
    exact Nat.zero_add _
  · intro h
    obtain ⟨sum, hsum, heq⟩ := exists_total? (h ▸ total.toNanos_lt)
    rw [hsum, toNanos_injective (heq.trans h.symm)]

theorem total?_eq_none_iff {durations : List Duration} :
    total? durations = none ↔ UInt64.size * nanosPerSecond ≤ (durations.map toNanos).sum := by
  rw [← Nat.not_lt]
  constructor
  · intro hnone hlt
    obtain ⟨total, htotal, -⟩ := exists_total? hlt
    rw [hnone] at htotal
    cases htotal
  · intro hle
    rw [Option.eq_none_iff_forall_ne_some]
    intro total htotal
    exact hle (total?_eq_some_iff.mp htotal ▸ total.toNanos_lt)

theorem total?_perm {durations others : List Duration} (h : durations.Perm others) :
    total? durations = total? others := by
  have hsum := (h.map toNanos).sum_eq
  ext total
  rw [total?_eq_some_iff, total?_eq_some_iff, hsum]

end Duration

namespace Report

variable {report : Report} {others : List TestResult}

/-- The lines of a report that do not depend on the order of its results. -/
def headLines (report : Report) (total : Duration) : List String :=
  report.extraHeader?.toList ++
    [report.title ++ " - total tests: " ++ toString report.results.length,
      "Summary: passed=" ++ toString (report.results.countP (·.exitCode = 0)) ++
        " failed=" ++ toString (report.results.countP (·.exitCode ≠ 0)) ++
        " duration=" ++ total.seconds.fixed 2 ++ "s", "", "Per-test results:"]

theorem passed_eq_countP (results : List TestResult) :
    passed results = results.countP (·.exitCode = 0) := rfl

theorem countP_add_countP (results : List TestResult) :
    results.countP (·.exitCode = 0) + results.countP (·.exitCode ≠ 0) = results.length := by
  rw [List.length_eq_countP_add_countP (p := fun result : TestResult => result.exitCode = 0)]
  simp

theorem length_sub_passed (results : List TestResult) :
    results.length - passed results = results.countP (·.exitCode ≠ 0) := by
  rw [passed_eq_countP, ← countP_add_countP results, Nat.add_sub_cancel_left]

theorem lines_eq_headLines (report : Report) (total : Duration) :
    report.lines total = report.headLines total ++ report.results.map TestResult.line ++ [""] := by
  rw [lines, summary_eq, length_sub_passed, passed_eq_countP, headLines]

theorem headLines_perm (h : others.Perm report.results) (total : Duration) :
    { report with results := others }.headLines total = report.headLines total := by
  rw [headLines, headLines, h.length_eq, h.countP_eq, h.countP_eq]

theorem map_duration_toNanos (results : List TestResult) :
    (results.map (·.duration)).map Duration.toNanos = results.map (·.duration.toNanos) :=
  List.map_map

theorem text?_eq_none_iff :
    report.text? = none ↔
      UInt64.size * nanosPerSecond ≤ (report.results.map (·.duration.toNanos)).sum := by
  rw [text?, Option.map_eq_none_iff, total?, ← map_duration_toNanos]
  exact Duration.total?_eq_none_iff

theorem text?_perm_eq_none_iff (h : others.Perm report.results) :
    { report with results := others }.text? = none ↔ report.text? = none := by
  rw [text?_eq_none_iff, text?_eq_none_iff, (h.map _).sum_eq]

theorem exists_text?_of_lt
    (h : (report.results.map (·.duration.toNanos)).sum < UInt64.size * nanosPerSecond) :
    ∃ total : Duration, total.toNanos = (report.results.map (·.duration.toNanos)).sum ∧
      ∀ others, others.Perm report.results → { report with results := others }.text? =
        some (unlines (report.headLines total ++ others.map TestResult.line ++ [""])) := by
  rw [← map_duration_toNanos] at h ⊢
  obtain ⟨total, htotal, hexact⟩ := Duration.exists_total? h
  refine ⟨total, hexact, ?_⟩
  intro others hperm
  have hothers : total? others = some total := by
    rw [total?, Duration.total?_perm (hperm.map _), htotal]
  rw [text?, hothers, Option.map_some, text, lines_eq_headLines, headLines_perm hperm]

end Report

theorem Replay.tree_eq {cwd : Place} {dir : Path} {tree after : FileTree} {steps : List Step}
    (h : Replay cwd dir tree steps after) (hnames : logNames steps = []) : after = tree := by
  induction h with
  | nil => rfl
  | other unlogged _ ih =>
    rw [logNames_cons_of_unlogged unlogged] at hnames
    exact ih hnames
  | saved | unsaved => cases hnames

namespace Plan

theorem kind_ne_of_mem_testsDeeds (plan : Plan) (selector : List String) (count number : Nat)
    (results : List TestResult) :
    ∀ event ∈ (plan.testsDeeds selector count number results).filterMap Deed.event?,
      event.kind ≠ .suiteSummary := by
  induction results generalizing number with
  | nil => simp [testsDeeds]
  | cons result rest ih =>
    intro event hmem
    rw [testsDeeds, List.filterMap_append, List.mem_append] at hmem
    rcases hmem with hmem | hmem
    · simp only [testDeeds, List.filterMap, Deed.event?, List.mem_cons, List.not_mem_nil,
        or_false] at hmem
      rcases hmem with rfl | rfl | rfl <;> (intro hkind; cases hkind)
    · exact ih (number + 1) event hmem

/-- What is done for a suite before its results are summed up. -/
def resultsDeeds (plan : Plan) (suite : Suite) (outcome : SuiteOutcome) : List Deed :=
  .ran (Command.listing plan.workspaceRoot suite.selector) outcome.listing ::
    .said (outcome.discovery.event suite.title) ::
    plan.testsDeeds suite.selector outcome.results.length 1 outcome.results

theorem kind_ne_of_mem_resultsDeeds (plan : Plan) (suite : Suite) (outcome : SuiteOutcome) :
    ∀ event ∈ (plan.resultsDeeds suite outcome).filterMap Deed.event?,
      event.kind ≠ .suiteSummary := by
  intro event hmem
  rw [resultsDeeds, List.filterMap_cons_none rfl, List.filterMap_cons_some (f := Deed.event?) rfl,
    List.mem_cons] at hmem
  rcases hmem with rfl | hmem
  · intro hkind
    cases hdiscovery : outcome.discovery <;> rw [hdiscovery] at hkind <;> cases hkind
  · exact plan.kind_ne_of_mem_testsDeeds suite.selector _ 1 outcome.results event hmem

end Plan

namespace Run

open Procedure

variable (plan : Plan) (stamp : String) (suite : Suite)

/-- A suite up to the results of its tests. -/
def suiteResults : Procedure SuiteOutcome :=
  checkInterrupt.bind fun _ =>
    (capture (Command.listing plan.workspaceRoot suite.selector)).bind fun listing =>
    checkInterrupt.bind fun _ =>
    (tell ((Discovery.ofCapture listing).event suite.title)).bind fun _ =>
    (runNames plan.workspaceRoot suite.selector (Discovery.ofCapture listing).names).bind
      fun results => .done ⟨listing, results⟩

theorem runSuite_eq_results :
    runSuite plan stamp suite = (suiteResults plan suite).bind fun outcome =>
      closeSuite plan stamp suite outcome.discovery outcome.results := by
  rw [runSuite_eq, suiteResults]
  simp only [bind_assoc]
  rfl

theorem suiteResults_performs :
    (suiteResults plan suite).Performs fun outcome deeds =>
      outcome.Fits ∧ deeds = plan.resultsDeeds suite outcome := by
  refine checkInterrupt_performs.bind ?_
  rintro _ _ rfl
  refine (capture_performs _).bind ?_
  rintro listing _ rfl
  refine checkInterrupt_performs.bind ?_
  rintro _ _ rfl
  refine (tell_performs _).bind ?_
  rintro _ _ rfl
  refine (runNames_performs plan suite.selector _).bind ?_
  rintro results _ ⟨hnames, rfl⟩
  refine ⟨hnames, ?_⟩
  simp [Plan.resultsDeeds, SuiteOutcome.discovery, ← hnames]

theorem suiteResults_overflows : (suiteResults plan suite).Overflows fun _ => False := by
  refine checkInterrupt_overflows.bind checkInterrupt_performs ?_
  rintro _ _ _ listing
  refine checkInterrupt_overflows.bind checkInterrupt_performs ?_
  intro _ _ _
  refine (runNames_overflows plan suite.selector _).bind
    (runNames_performs plan suite.selector _) ?_
  intro results _ _
  trivial

theorem suiteResults_saves (dir : Path) : (suiteResults plan suite).Saves dir [] := by
  apply checkInterrupt_saves.bind
  intro _
  apply (capture_saves _).bind
  intro listing
  apply checkInterrupt_saves.bind
  intro _
  apply (tell_saves _).bind
  intro _
  apply (runNames_saves _ _ _).bind
  intro results
  rfl

variable (setting : Setting) (world : World)

theorem carryOut_runSuite_of_unsummed {outcome : SuiteOutcome}
    (hresult : ((suiteResults plan suite).carryOut setting world).result = .ok outcome)
    (hnone : (outcome.report suite).text? = none) :
    (runSuite plan stamp suite).carryOut setting world =
      ⟨((suiteResults plan suite).carryOut setting world).steps, .error .overflow,
        ((suiteResults plan suite).carryOut setting world).world⟩ := by
  have htotal : Report.total? outcome.results = none := Option.map_eq_none_iff.mp hnone
  have hstop (after : World) :
      (closeSuite plan stamp suite outcome.discovery outcome.results).carryOut setting after =
        ⟨[], .error .overflow, after⟩ := by
    rw [closeSuite, total, htotal]
    rfl
  rw [runSuite_eq_results, carryOut_bind, Course.andThen_of_ok hresult, hstop]
  simp only [List.append_nil]

theorem runSuite_overflows_iff :
    ((runSuite plan stamp suite).carryOut setting world).result = .error .overflow ↔
      ∃ outcome, ((suiteResults plan suite).carryOut setting world).result = .ok outcome ∧
        (outcome.report suite).text? = none := by
  constructor
  · intro hoverflow
    rw [runSuite_eq_results] at hoverflow
    rcases carryOut_bind_cases setting (suiteResults plan suite) _ world with
      ⟨reason, hresult, heq⟩ | ⟨outcome, hresult, heq⟩
    · rw [heq] at hoverflow
      obtain rfl := Except.error.inj hoverflow
      exact ((suiteResults_overflows plan suite).cause_of_result hresult).elim
    · rw [heq] at hoverflow
      obtain ⟨-, htotal⟩ := (closeSuite_overflows plan stamp suite _ _).cause_of_result hoverflow
      exact ⟨outcome, hresult, Option.map_eq_none_iff.mpr htotal⟩
  · rintro ⟨outcome, hresult, hnone⟩
    rw [carryOut_runSuite_of_unsummed plan stamp suite setting world hresult hnone]

/-- Reports add up. A report has no text just if the exact sum of its durations is 2^64 seconds or
more, in whatever order they are added. Otherwise the order shows in the lines of the results only;
those that passed and those that failed are all of them, and the duration is that of the sum. A
suite overflows just if the report on its results has no text, as soon as they are there: it is
neither summed up nor logged. -/
theorem report_adds_up :
    (∀ (report : Report) (others : List TestResult), others.Perm report.results →
      ({ report with results := others }.text? = none ↔
        UInt64.size * nanosPerSecond ≤ (report.results.map (·.duration.toNanos)).sum)) ∧
    (∀ report : Report,
      (report.results.map (·.duration.toNanos)).sum < UInt64.size * nanosPerSecond →
        ∃ total : Duration, total.toNanos = (report.results.map (·.duration.toNanos)).sum ∧
          ∀ others, others.Perm report.results → { report with results := others }.text? =
            some (Report.unlines (report.headLines total ++ others.map TestResult.line ++ [""]))) ∧
    (∀ results : List TestResult, Report.passed results = results.countP (·.exitCode = 0) ∧
      Report.passed results ≤ results.length ∧
      results.length - Report.passed results = results.countP (·.exitCode ≠ 0) ∧
      results.countP (·.exitCode = 0) + results.countP (·.exitCode ≠ 0) = results.length) ∧
    (∀ (plan : Plan) (stamp : String) (suite : Suite) (setting : Setting) (world : World),
      let front := (suiteResults plan suite).carryOut setting world
      let course := (runSuite plan stamp suite).carryOut setting world
      runSuite plan stamp suite = ((suiteResults plan suite).bind fun outcome =>
        closeSuite plan stamp suite outcome.discovery outcome.results) ∧
      (course.result = .error .overflow ↔
        ∃ outcome, front.result = .ok outcome ∧ (outcome.report suite).text? = none) ∧
      (course.result = .error .overflow →
        (∃ outcome : SuiteOutcome, outcome.Fits ∧ course.deeds = plan.resultsDeeds suite outcome) ∧
        (∀ event ∈ course.events, event.kind ≠ .suiteSummary) ∧
        logNames course.steps = [] ∧ course.world.tree = world.tree)) := by
  refine ⟨?_, fun report => Report.exists_text?_of_lt, ?_, ?_⟩
  · intro report others hperm
    rw [Report.text?_perm_eq_none_iff hperm]
    exact Report.text?_eq_none_iff
  · intro results
    exact ⟨Report.passed_eq_countP results, Report.passed_le results,
      Report.length_sub_passed results, Report.countP_add_countP results⟩
  · intro plan stamp suite setting world front course
    have hiff := runSuite_overflows_iff plan stamp suite setting world
    refine ⟨runSuite_eq_results plan stamp suite, hiff, ?_⟩
    intro hoverflow
    obtain ⟨outcome, hresult, hnone⟩ := hiff.mp hoverflow
    have hcourse : course = ⟨front.steps, .error .overflow, front.world⟩ :=
      carryOut_runSuite_of_unsummed plan stamp suite setting world hresult hnone
    obtain ⟨hfits, hdeeds⟩ :=
      (suiteResults_performs plan suite).follows.ends setting world outcome hresult
    obtain ⟨hreplay, hnames⟩ :=
      (suiteResults_saves plan suite (plan.outDir stamp)).replay setting world
    rw [List.prefix_nil] at hnames
    rw [hcourse]
    refine ⟨⟨outcome, hfits, hdeeds⟩, ?_, hnames, hreplay.tree_eq hnames⟩
    have hevents : Course.events ⟨front.steps, (.error .overflow : Except Stop Path), front.world⟩ =
        (plan.resultsDeeds suite outcome).filterMap Deed.event? := by
      rw [← hdeeds]
      exact front.events_eq
    rw [hevents]
    exact plan.kind_ne_of_mem_resultsDeeds suite outcome

theorem nanosecond_tips_report :
    let long : TestResult := ⟨⟨0, "", ⟨2 ^ 64 - 1, 999999999, by decide, by decide⟩⟩, "long"⟩
    let killed : TestResult := ⟨⟨-9, "", ⟨0, 1, by decide, by decide⟩⟩, "killed"⟩
    (⟨"Unit Tests", [long, killed], none⟩ : Report).text? = none ∧
      (⟨"Unit Tests", [killed, long], none⟩ : Report).text? = none ∧
      (⟨"Unit Tests", [long], none⟩ : Report).text?.isSome := by
  intro long killed
  obtain ⟨hnone, hsome, -, -⟩ := report_adds_up
  refine ⟨?_, ?_, ?_⟩
  · exact (hnone ⟨"Unit Tests", [long, killed], none⟩ [long, killed] (.refl _)).mpr (by decide)
  · exact (hnone ⟨"Unit Tests", [long, killed], none⟩ [killed, long] (.swap _ _ _)).mpr (by decide)
  · obtain ⟨total, -, htext⟩ := hsome ⟨"Unit Tests", [long], none⟩ (by decide)
    exact Option.isSome_iff_exists.mpr ⟨_, htext [long] (.refl _)⟩

end Run
end SoloRun
