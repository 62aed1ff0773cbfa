import SoloRun.Proofs.Answers
import SoloRun.Proofs.Completed
import SoloRun.Proofs.Indifference

/-!
When a run succeeds, if nobody interrupts it and its children all last the same time: each of its
children can be started, comes to its own end and sends no interrupt, the durations of each suite
add up, each log can be written, and the reporter outlasts what there is to tell.
-/

namespace SoloRun

namespace Procedure

variable {α β : Type} {procedure : Procedure α} {language : α → List Deed → Prop}

/-- Whatever it comes to, if it comes to an end, is in the language with the deeds up to there. -/
def Ensures (procedure : Procedure α) (language : α → List Deed → Prop) : Prop :=
  ∀ setting world value, (procedure.carryOut setting world).result = .ok value →
    language value (procedure.carryOut setting world).deeds

theorem Performs.ensures (hp : procedure.Performs language) : procedure.Ensures language :=
  hp.follows.ends

theorem Ensures.bind {f : α → Procedure β} {further : β → List Deed → Prop}
    (hp : procedure.Ensures language)
    (hf : ∀ value deeds, language value deeds →
      (f value).Ensures fun result more => further result (deeds ++ more)) :
    (procedure.bind f).Ensures further := by
  intro setting world result h
  rcases carryOut_bind_cases setting procedure f world with
    ⟨reason, -, heq⟩ | ⟨value, hvalue, heq⟩
  · rw [heq] at h
    cases h
  · rw [heq] at h ⊢
    rw [Course.deeds, List.filterMap_append]
    exact hf value _ (hp setting world value hvalue) setting _ result h

end Procedure

namespace Run

open Procedure

variable (plan : Plan) (stamp : String)

theorem total_ensures (results : List TestResult) :
    (total results).Ensures fun _ deeds => (Report.total? results).isSome ∧ deeds = [] := by
  intro setting world duration h
  rw [total] at h ⊢
  split at h
  · next hsum => exact ⟨by rw [hsum]; rfl, rfl⟩
  · cases h

theorem closeSuite_ensures (suite : Suite) (outcome : SuiteOutcome) :
    (closeSuite plan stamp suite outcome.discovery outcome.results).Ensures fun _ deeds =>
      (Report.total? outcome.results).isSome ∧
        deeds = .said (.suiteSummary suite.title (Report.passed outcome.results)
          (outcome.results.length - Report.passed outcome.results) outcome.total.seconds) ::
          plan.logDeeds stamp (outcome.log stamp suite) := by
  intro setting world path h
  refine ⟨?_, (closeSuite_performs plan stamp suite outcome).ensures setting world path h⟩
  have hsummed : (closeSuite plan stamp suite outcome.discovery outcome.results).Ensures
      fun _ _ => (Report.total? outcome.results).isSome := by
    refine (total_ensures outcome.results).bind ?_
    intro duration _ hsum setting world path _
    exact hsum.1
  exact hsummed setting world path h

theorem runSuite_ensures (suite : Suite) :
    (runSuite plan stamp suite).Ensures fun _ deeds =>
      ∃ outcome : SuiteOutcome, outcome.Fits ∧ (Report.total? outcome.results).isSome ∧
        deeds = plan.suiteDeeds stamp suite outcome := by
  rw [runSuite_eq]
  refine checkInterrupt_performs.ensures.bind ?_
  rintro _ _ rfl
  refine (discover_performs plan suite.selector).ensures.bind ?_
  rintro _ _ ⟨listing, rfl, rfl⟩
  refine checkInterrupt_performs.ensures.bind ?_
  rintro _ _ rfl
  refine (tell_performs _).ensures.bind ?_
  rintro _ _ rfl
  refine (runNames_performs plan suite.selector _).ensures.bind ?_
  rintro results _ ⟨hnames, rfl⟩ setting world path h
  obtain ⟨hsum, hdeeds⟩ :=
    closeSuite_ensures plan stamp suite ⟨listing, results⟩ setting world path h
  refine ⟨⟨listing, results⟩, hnames, hsum, ?_⟩
  dsimp only [SuiteOutcome.discovery] at hdeeds
  simp [hdeeds, Plan.suiteDeeds, SuiteOutcome.discovery, ← hnames]

theorem runSuites_ensures (suites : List Suite) :
    (runSuites plan stamp suites).Ensures fun _ deeds =>
      ∃ outcomes : List SuiteOutcome, outcomes.length = suites.length ∧
        (∀ outcome ∈ outcomes, outcome.Fits ∧ (Report.total? outcome.results).isSome) ∧
        deeds = plan.suitesDeeds stamp suites outcomes := by
  induction suites with
  | nil =>
    intro setting world _ _
    exact ⟨[], rfl, by simp, rfl⟩
  | cons suite rest ih =>
    refine (runSuite_ensures plan stamp suite).bind ?_
    rintro _ _ ⟨outcome, hfits, hsum, rfl⟩ setting world value h
    obtain ⟨outcomes, hlength, hall, hdeeds⟩ := ih setting world value h
    exact ⟨outcome :: outcomes, by simp [hlength], List.forall_mem_cons.mpr ⟨⟨hfits, hsum⟩, hall⟩,
      congrArg _ hdeeds⟩

theorem runAll_ensures :
    (runAll plan stamp).Ensures fun dir deeds => dir = plan.outDir stamp ∧
      ∃ outcome : RunOutcome, outcome.Fits plan ∧
        (∀ suite ∈ outcome.suites, (Report.total? suite.results).isSome) ∧
        deeds = plan.deeds stamp outcome := by
  have hphases : (phases plan stamp).Ensures fun _ deeds =>
      ∃ outcome : RunOutcome, outcome.Fits plan ∧
        (∀ suite ∈ outcome.suites, (Report.total? suite.results).isSome) ∧
        deeds = plan.phasesDeeds stamp outcome := by
    refine (tell_performs _).ensures.bind ?_
    rintro _ _ rfl
    refine (runSuites_ensures plan stamp plan.suites).bind ?_
    rintro _ _ ⟨suites, hsuites, hall, rfl⟩ setting world value h
    obtain ⟨checks, hchecks, hdeeds⟩ :=
      (runChecks_performs plan stamp plan.checks).ensures setting world value h
    refine ⟨⟨suites, checks⟩, ⟨hsuites, hchecks, fun suite hmem => (hall suite hmem).1⟩,
      fun suite hmem => (hall suite hmem).2, ?_⟩
    rw [hdeeds]
    rfl
  rw [runAll_eq]
  refine hphases.bind ?_
  rintro _ _ ⟨outcome, hfits, hsums, rfl⟩
  refine checkInterrupt_performs.ensures.bind ?_
  rintro _ _ rfl
  refine (tell_performs _).ensures.bind ?_
  rintro _ _ rfl setting world dir h
  cases h
  exact ⟨rfl, outcome, hfits, hsums, by simp [Plan.deeds, Procedure.carryOut, Course.deeds]⟩

end Run

namespace FileTree

variable {tree : FileTree} {cwd place : Place} {dir : Path} {logs : List Log}

/-- Once logs of all the names were saved, any logs of these names could have been. -/
theorem Holds.accepts {names : List String}
    (hplace : (tree.makeDirectories cwd dir).2 = .ok () →
      (tree.makeDirectories cwd dir).1.Hosts cwd dir place)
    (hplain : tree.Unlinked cwd dir) (h : tree.Holds cwd dir place logs)
    (hnames : logs.map (·.name) = names) : tree.Accepts cwd dir names where
  writes log hname := by
    rw [← hnames] at hname
    obtain ⟨held, hmem, hsame⟩ := List.mem_map.mp hname
    have hmade := h.made (List.ne_nil_of_mem hmem)
    have hslash := h.slashless held hmem
    have hfits := h.fits held hmem
    have hfile := h.files held hmem
    rw [hsame] at hslash hfits hfile
    have hordinary := Unlinked.ordinary_made hplace hplain hmade log.name
    obtain ⟨opened, hopen⟩ :=
      Log.writable_of_fits (hplace hmade) hslash hfits hordinary hfile
    rw [Log.write_of_made hmade, Log.write_of_hosts (hplace hmade) hslash hordinary, Log.path_eq,
      hopen]
    exact ⟨_, rfl⟩
  ordinary home hhosts name _ := hplain home hhosts name

end FileTree

namespace Plan

variable (plan : Plan)

theorem replied_fits (reply : Command → Capture) : (plan.replied reply).Fits plan where
  suites_length := List.length_map _
  checks_length := List.length_map _
  suites_fit outcome hmem := by
    obtain ⟨suite, -, rfl⟩ := List.mem_map.mp hmem
    simp [SuiteOutcome.Fits, SuiteOutcome.replied, SuiteOutcome.discovery, Function.comp_def]

variable {plan} in
theorem commands_eq {outcome : RunOutcome} (h : outcome.Fits plan) :
    plan.commands outcome = (plan.phases outcome).flatMap (Phase.commands plan) := by
  have hchecks : (List.zipWith Phase.checked plan.checks outcome.checks).map (Phase.commands plan) =
      plan.checks.map fun check => [check.command plan.workspaceRoot] := by
    apply map_zipWith_of_left _ h.checks_length
    intro check output
    rfl
  rw [phases, List.flatMap_append, List.flatMap_def, List.flatMap_def, hchecks, List.map_zipWith,
    ← List.flatMap_def, ← List.map_eq_flatMap]
  rfl

theorem mem_deeds_of_mem_body {plan : Plan} {stamp : String} {outcome : RunOutcome} {phase : Phase}
    {deed : Deed} (hphase : phase ∈ plan.phases outcome) (hmem : deed ∈ phase.body plan) :
    deed ∈ plan.deeds stamp outcome := by
  rw [deeds_eq, List.mem_cons, List.mem_append, List.mem_flatMap]
  exact .inr (.inl ⟨phase, hphase, List.mem_append_left _ hmem⟩)

/-- How each child answers a command, if all children last the same time. -/
def reply (setting : Setting) (tree : FileTree) : Command → Capture :=
  setting.answer (plan.home setting.cwd tree) 0

def foreseen (setting : Setting) (tree : FileTree) : RunOutcome :=
  plan.replied (plan.reply setting tree)

/-- Nothing but an interrupt or the reporter can keep the plan from being carried out to its end. -/
structure Feasible (stamp : String) (setting : Setting) (tree : FileTree) : Prop where
  spawns : ∀ command ∈ plan.commands (plan.foreseen setting tree),
    setting.Spawns tree (plan.home setting.cwd tree) command
  totals : ∀ outcome ∈ (plan.foreseen setting tree).suites,
    (Report.total? outcome.results).isSome
  accepts : tree.Accepts setting.cwd (plan.outDir stamp) plan.logNames

theorem Feasible.reporting {plan : Plan} {stamp : String} {setting : Setting} {tree : FileTree}
    (h : plan.Feasible stamp setting tree) (reporter : Reporter) (clock : Clock) :
    plan.Feasible stamp (setting.reporting reporter clock) tree where
  spawns command hmem :=
    have hspawns := h.spawns command hmem
    ⟨hspawns.place, hspawns.silent, hspawns.ends⟩
  totals := h.totals
  accepts := h.accepts

end Plan

namespace Run

open Procedure

variable (plan : Plan) (stamp : String) (setting : Setting) {tree : FileTree} {sink : Sink}

theorem saved_of_ok {world : World} {dir : Path}
    (hok : ((runAll plan stamp).carryOut setting world).result = .ok dir) (log : Log)
    (failure : Failure) :
    .unsaved log failure ∉ ((runAll plan stamp).carryOut setting world).steps := by
  intro hmem
  have hends := (runAll_performs plan stamp).ends setting world
  rw [hok] at hends
  cases hends.isSome_of_ok _ hmem

variable (htrigger : setting.trigger? = none)
  (hdurations : ∀ child, setting.durations child = setting.durations 0)

include hdurations in
theorem answer_eq_reply (child : Nat) (command : Command) :
    setting.answer (plan.home setting.cwd tree) child command =
      plan.reply setting tree command := by
  rw [Plan.reply, Setting.answer, Setting.answer, hdurations child]

include hdurations in
theorem outcome_eq_foreseen :
    plan.outcome (setting.answer (plan.home setting.cwd tree)) = plan.foreseen setting tree := by
  rw [Plan.foreseen, ← Plan.outcome_const]
  congr 1
  funext child command
  exact answer_eq_reply plan setting hdurations child command

variable (hnodup : plan.logNames.Nodup) (hslash : ∀ name ∈ plan.logNames, '/' ∉ name.toList)
  (hplain : tree.Unlinked setting.cwd (plan.outDir stamp))
include htrigger hdurations hnodup hslash

section Ok

variable {dir : Path}
  (hok : ((runAll plan stamp).carryOut setting (.fresh tree sink)).result = .ok dir)
include hplain hok

theorem foreseen_of_ok :
    (∀ suite ∈ (plan.foreseen setting tree).suites, (Report.total? suite.results).isSome) ∧
      ((runAll plan stamp).carryOut setting (.fresh tree sink)).deeds =
        plan.deeds stamp (plan.foreseen setting tree) := by
  obtain ⟨-, outcome, hfits, hsums, hdeeds⟩ := runAll_ensures plan stamp setting _ dir hok
  have hreplies := replies plan stamp setting htrigger (World.fresh_sane tree sink) hnodup hslash
    hplain hok
  rw [hdeeds] at hreplies
  obtain rfl : outcome = plan.foreseen setting tree := by
    apply Plan.eq_replied hfits
    intro phase hphase command capture hmem
    obtain ⟨-, child, hcapture⟩ :=
      hreplies command capture (Plan.mem_deeds_of_mem_body hphase hmem)
    exact hcapture.trans (answer_eq_reply plan setting hdurations child command)
  exact ⟨hsums, hdeeds⟩

theorem feasible_of_ok : plan.Feasible stamp setting tree := by
  obtain ⟨htotals, hdeeds⟩ :=
    foreseen_of_ok plan stamp setting htrigger hdurations hnodup hslash hplain hok
  have hreplies := replies plan stamp setting htrigger (World.fresh_sane tree sink) hnodup hslash
    hplain hok
  rw [hdeeds] at hreplies
  have hfits : (plan.foreseen setting tree).Fits plan := plan.replied_fits _
  refine ⟨?_, htotals, ?_⟩
  · intro command hmem
    rw [Plan.commands_eq hfits] at hmem
    obtain ⟨phase, hphase, hcommand⟩ := List.mem_flatMap.mp hmem
    rw [← Phase.command?_body (Plan.phases_fit hfits phase hphase)] at hcommand
    obtain ⟨deed, hdeed, hran⟩ := List.mem_filterMap.mp hcommand
    cases deed with
    | ran other capture =>
      obtain rfl := Option.some.inj hran
      exact (hreplies other capture (Plan.mem_deeds_of_mem_body hphase hdeed)).1
    | said | kept => cases hran
  · obtain ⟨place, hplace, hholds, -, -⟩ :=
      runAll_holds plan stamp setting (.fresh tree sink) hnodup hslash hplain
    refine hholds.accepts hplace hplain ?_
    rw [keptLogs, ← Course.deeds, hdeeds, Plan.log?_deeds, List.map_map,
      ← Plan.map_logName_phases hfits]
    exact List.map_congr_left fun phase _ => phase.log_name

end Ok

theorem ok_of_feasible_of_works (h : plan.Feasible stamp setting tree)
    (hworks : setting.reporter.Works sink) :
    ((runAll plan stamp).carryOut setting (.fresh tree sink)).result =
      .ok (plan.outDir stamp) := by
  have houtcome : plan.outcome (setting.answer (plan.home setting.cwd tree)) =
      plan.foreseen setting tree := outcome_eq_foreseen plan setting hdurations
  obtain ⟨place, hplace⟩ := h.accepts.exists_place
  have hyields := runAll_yields plan stamp (h.accepts.takes hslash hnodup hplace) htrigger
    (houtcome ▸ h.spawns) (houtcome ▸ h.totals)
  exact (hyields (.fresh tree sink) (World.fresh_steady hworks tree)).1

/-- An uninterrupted run of which all children last the same time succeeds just if it is feasible
and the reporter outlasts what there is to tell. -/
theorem runAll_ok_iff (hplain : tree.Unlinked setting.cwd (plan.outDir stamp)) :
    ((runAll plan stamp).carryOut setting (.fresh tree sink)).result = .ok (plan.outDir stamp) ↔
      plan.Feasible stamp setting tree ∧ setting.reporter.Outlasts setting.clock sink
        ((plan.deeds stamp (plan.foreseen setting tree)).filterMap Deed.event?) := by
  constructor
  · intro hok
    obtain ⟨-, hdeeds⟩ :=
      foreseen_of_ok plan stamp setting htrigger hdurations hnodup hslash hplain hok
    have hkept : ((runAll plan stamp).carryOut setting (.fresh tree sink)).result ≠
        .error .brokenConsole := by
      rw [hok]
      nofun
    have houtlasts := outlasts_of_result hkept
    rw [Course.events_eq, hdeeds] at houtlasts
    exact ⟨feasible_of_ok plan stamp setting htrigger hdurations hnodup hslash hplain hok,
      houtlasts⟩
  · rintro ⟨hfeasible, houtlasts⟩
    -- the reporter of lines never breaks, so under it the run surely succeeds
    have hlines : Reporter.lines.Works sink := .inl rfl
    let quiet := setting.reporting .lines setting.clock
    have hok : ((runAll plan stamp).carryOut quiet (.fresh tree sink)).result =
        .ok (plan.outDir stamp) :=
      ok_of_feasible_of_works plan stamp quiet htrigger hdurations hnodup hslash
        (hfeasible.reporting .lines setting.clock) hlines
    obtain ⟨-, hdeeds⟩ :=
      foreseen_of_ok plan stamp quiet htrigger hdurations hnodup hslash hplain hok
    have hevents : ((runAll plan stamp).carryOut quiet (.fresh tree sink)).events =
        (plan.deeds stamp (plan.foreseen setting tree)).filterMap Deed.event? := by
      rw [Course.events_eq, hdeeds]
      rfl
    rw [← hevents] at houtlasts
    have halike := (runAll plan stamp).alike_of_outlasts setting
      (.withSinks (.fresh tree sink) sink sink) hlines houtlasts
    exact halike.result.symm.trans hok

end Run
end SoloRun
