import SoloRun.Proofs.Language
import SoloRun.Proofs.Outcome

/-!
The phases of a run, one for each suite and each check, and where a run stands when it is over: some
phases are done whole, their logs kept and announced, and it broke off in the one after them.
-/

namespace SoloRun

section Split

variable {α β : Type}

theorem exists_split_of_prefix {f : β → List α} {items : List β} {xs last : List α}
    (h : xs <+: items.flatMap f ++ last) :
    ∃ done rest part, items = done ++ rest ∧ xs = done.flatMap f ++ part ∧
      (rest = [] ∧ part <+: last ∨ ∃ next more, rest = next :: more ∧ part <+: f next ∧
        part ≠ f next) := by
  induction items generalizing xs with
  | nil => exact ⟨[], [], xs, rfl, rfl, .inl ⟨rfl, h⟩⟩
  | cons item items ih =>
    rw [List.flatMap_cons, List.append_assoc] at h
    by_cases hwhole : f item <+: xs
    · obtain ⟨later, rfl⟩ := hwhole
      obtain ⟨done, rest, part, rfl, rfl, hpart⟩ := ih ((List.prefix_append_right_inj _).mp h)
      exact ⟨item :: done, rest, part, rfl, by simp, hpart⟩
    · have hpart : xs <+: f item :=
        (List.prefix_or_prefix_of_prefix h (List.prefix_append _ _)).resolve_right hwhole
      refine ⟨[], item :: items, xs, rfl, rfl, .inr ⟨item, items, rfl, hpart, ?_⟩⟩
      rintro rfl
      exact hwhole List.prefix_rfl

theorem exists_split_of_filterMap {f : α → Option β} {xs : List α} {before after : List β} {y : β}
    (h : xs.filterMap f = before ++ y :: after) :
    ∃ pre x post, xs = pre ++ x :: post ∧ pre.filterMap f = before ∧ f x = some y := by
  obtain ⟨first, rest, rfl, rfl, hrest⟩ := List.filterMap_eq_append_iff.mp h
  obtain ⟨skipped, x, post, rfl, hskipped, hx, -⟩ := List.filterMap_eq_cons_iff.mp hrest
  refine ⟨first ++ skipped, x, post, by simp, ?_, hx⟩
  rw [List.filterMap_append, List.filterMap_eq_nil_iff.mpr hskipped, List.append_nil]

theorem prefix_concat_of_ne {xs ys : List α} {x : α} (h : xs <+: ys ++ [x]) (hne : xs ≠ ys ++ [x]) :
    xs <+: ys :=
  (List.prefix_concat_iff.mp h).resolve_left hne

end Split

def Event.written? : Event → Option Path
  | .logWritten path => some path
  | _ => none

def Deed.written? : Deed → Option Path
  | .said event => event.written?
  | _ => none

inductive Phase where
  | tested (suite : Suite) (outcome : SuiteOutcome)
  | checked (check : Check) (output : Capture)
  deriving DecidableEq, Repr

namespace Phase

def Fits : Phase → Prop
  | .tested _ outcome => outcome.Fits
  | .checked _ _ => True

def logName : Phase → String
  | .tested suite _ => suite.logName
  | .checked check _ => check.logName

variable (plan : Plan) (stamp : String)

def log : Phase → Log
  | .tested suite outcome => outcome.log stamp suite
  | .checked check output => check.log plan.workspaceRoot output

def path (phase : Phase) : Path :=
  (phase.log plan stamp).path (plan.outDir stamp)

def commands : Phase → List Command
  | .tested suite outcome => plan.suiteCommands suite outcome
  | .checked check _ => [check.command plan.workspaceRoot]

/-- What is done in a phase before its log is kept. -/
def body : Phase → List Deed
  | .tested suite outcome =>
    .ran (Command.listing plan.workspaceRoot suite.selector) outcome.listing ::
      .said (outcome.discovery.event suite.title) ::
      (plan.testsDeeds suite.selector outcome.results.length 1 outcome.results ++
        [.said (.suiteSummary suite.title (Report.passed outcome.results)
          (outcome.results.length - Report.passed outcome.results) outcome.total.seconds)])
  | .checked check output =>
    [.said (.checkStart check.logName), .ran (check.command plan.workspaceRoot) output,
      .said (.checkResult check.logName output.success output.duration.seconds)]

def deeds (phase : Phase) : List Deed :=
  phase.body plan ++ plan.logDeeds stamp (phase.log plan stamp)

theorem testsDeeds_views (selector : List String) (count number : Nat)
    (results : List TestResult) :
    let deeds := plan.testsDeeds selector count number results
    deeds.filterMap Deed.log? = [] ∧ deeds.filterMap Deed.written? = [] ∧
      deeds.filterMap Deed.command? =
        results.map fun result => Command.single plan.workspaceRoot selector result.name := by
  induction results generalizing number with
  | nil => exact ⟨rfl, rfl, rfl⟩
  | cons result rest ih =>
    obtain ⟨hlogs, hwritten, hcommands⟩ := ih (number + 1)
    exact ⟨hlogs, hwritten, congrArg (_ :: ·) hcommands⟩

variable {plan stamp}

theorem log_name (phase : Phase) : (phase.log plan stamp).name = phase.logName := by
  cases phase <;> rfl

theorem log?_body (phase : Phase) : (phase.body plan).filterMap Deed.log? = [] := by
  cases phase with
  | tested suite outcome =>
    obtain ⟨hlogs, -, -⟩ :=
      testsDeeds_views plan suite.selector outcome.results.length 1 outcome.results
    rw [body, List.filterMap_cons_none rfl, List.filterMap_cons_none rfl, List.filterMap_append,
      hlogs]
    rfl
  | checked check output => rfl

theorem command?_body {phase : Phase} (h : phase.Fits) :
    (phase.body plan).filterMap Deed.command? = phase.commands plan := by
  cases phase with
  | tested suite outcome =>
    obtain ⟨-, -, hcommands⟩ :=
      testsDeeds_views plan suite.selector outcome.results.length 1 outcome.results
    have hnames : outcome.results.map (·.name) = outcome.discovery.names := h
    rw [commands, Plan.suiteCommands, ← hnames, List.map_map]
    refine congrArg (_ :: ·) ?_
    rw [List.filterMap_cons_none rfl, List.filterMap_append, hcommands]
    exact List.append_nil _
  | checked check output => rfl

theorem deeds_eq (phase : Phase) :
    phase.deeds plan stamp =
      phase.body plan ++ [Deed.kept (phase.path plan stamp) (phase.log plan stamp)] ++
        [.said (.logWritten (phase.path plan stamp))] := by
  rw [deeds, Plan.logDeeds, List.append_assoc]
  rfl

theorem kept_not_mem_body (phase : Phase) (path : Path) (log : Log) :
    .kept path log ∉ phase.body plan := by
  intro hmem
  have hlog : log ∈ (phase.body plan).filterMap Deed.log? := List.mem_filterMap.mpr ⟨_, hmem, rfl⟩
  rw [log?_body] at hlog
  cases hlog

/-- Whoever has kept a log in a phase has done its whole body. -/
theorem of_kept {phase : Phase} {deeds : List Deed} {path : Path} {log : Log}
    (hstart : deeds <+: phase.deeds plan stamp) (hmem : .kept path log ∈ deeds) :
    phase.body plan <+: deeds ∧ path = phase.path plan stamp ∧ log = phase.log plan stamp := by
  refine ⟨?_, ?_⟩
  · rcases List.prefix_or_prefix_of_prefix hstart (List.prefix_append _ _) with hbody | hbody
    · exact absurd (hbody.subset hmem) (phase.kept_not_mem_body path log)
    · exact hbody
  · have hword := hstart.subset hmem
    rw [deeds_eq, List.mem_append, List.mem_append, List.mem_singleton, List.mem_singleton] at hword
    rcases hword with (hbody | hkept) | hsaid
    · exact absurd hbody (phase.kept_not_mem_body path log)
    · cases hkept
      exact ⟨rfl, rfl⟩
    · cases hsaid

theorem log?_deeds (phase : Phase) :
    (phase.deeds plan stamp).filterMap Deed.log? = [phase.log plan stamp] := by
  rw [deeds, List.filterMap_append, log?_body]
  rfl

theorem log?_flatMap_deeds (phases : List Phase) :
    (phases.flatMap (Phase.deeds plan stamp)).filterMap Deed.log? =
      phases.map (Phase.log plan stamp) := by
  rw [List.filterMap_flatMap, List.map_eq_flatMap]
  simp only [log?_deeds]

theorem command?_deeds {phase : Phase} (h : phase.Fits) :
    (phase.deeds plan stamp).filterMap Deed.command? = phase.commands plan := by
  rw [deeds, List.filterMap_append, command?_body h]
  exact List.append_nil _

end Phase

namespace Plan

variable (plan : Plan) (stamp : String)

def phases (outcome : RunOutcome) : List Phase :=
  List.zipWith .tested plan.suites outcome.suites ++
    List.zipWith .checked plan.checks outcome.checks

theorem suiteDeeds_eq (suite : Suite) (outcome : SuiteOutcome) :
    plan.suiteDeeds stamp suite outcome = (Phase.tested suite outcome).deeds plan stamp := by
  simp [suiteDeeds, Phase.deeds, Phase.body, Phase.log]

theorem checkDeeds_eq (check : Check) (output : Capture) :
    plan.checkDeeds stamp check output = (Phase.checked check output).deeds plan stamp := rfl

theorem suitesDeeds_eq (suites : List Suite) (outcomes : List SuiteOutcome) :
    plan.suitesDeeds stamp suites outcomes =
      (List.zipWith Phase.tested suites outcomes).flatMap (Phase.deeds plan stamp) := by
  induction suites generalizing outcomes with
  | nil => simp [suitesDeeds]
  | cons suite rest ih =>
    cases outcomes with
    | nil => rfl
    | cons outcome outcomes =>
      rw [suitesDeeds, ih, suiteDeeds_eq]
      rfl

theorem checksDeeds_eq (checks : List Check) (outputs : List Capture) :
    plan.checksDeeds stamp checks outputs =
      (List.zipWith Phase.checked checks outputs).flatMap (Phase.deeds plan stamp) := by
  induction checks generalizing outputs with
  | nil => simp [checksDeeds]
  | cons check rest ih =>
    cases outputs with
    | nil => rfl
    | cons output outputs =>
      rw [checksDeeds, ih, checkDeeds_eq]
      rfl

theorem deeds_eq (outcome : RunOutcome) :
    plan.deeds stamp outcome = .said (.runStart (plan.outDir stamp) Command.runner) ::
      ((plan.phases outcome).flatMap (Phase.deeds plan stamp) ++
        [.said (.runFinished (plan.outDir stamp))]) := by
  simp [deeds, phasesDeeds, phases, suitesDeeds_eq, checksDeeds_eq]

theorem log?_deeds (outcome : RunOutcome) :
    (plan.deeds stamp outcome).filterMap Deed.log? =
      (plan.phases outcome).map (Phase.log plan stamp) := by
  rw [deeds_eq, List.filterMap_cons_none rfl, List.filterMap_append, Phase.log?_flatMap_deeds]
  exact List.append_nil _

variable {plan}

theorem phases_fit {outcome : RunOutcome} (h : outcome.Fits plan) :
    ∀ phase ∈ plan.phases outcome, phase.Fits := by
  intro phase hmem
  rcases List.mem_append.mp hmem with hmem | hmem
  · rw [← List.map_uncurry_zip_eq_zipWith] at hmem
    obtain ⟨⟨suite, result⟩, hzip, rfl⟩ := List.mem_map.mp hmem
    exact h.suites_fit result (List.of_mem_zip hzip).2
  · rw [← List.map_uncurry_zip_eq_zipWith] at hmem
    obtain ⟨⟨check, output⟩, -, rfl⟩ := List.mem_map.mp hmem
    trivial

end Plan

/-- Where a run stands when it is over: some phases are done, of the first of the rest only a part,
and if a step failed it was to be the next deed of that one. -/
structure Course.Stands (course : Course Path) (plan : Plan) (stamp : String) (done : List Phase)
    (part : List Deed) (rest : List Phase) : Prop where
  deeds : course.deeds = .said (.runStart (plan.outDir stamp) Command.runner) ::
    (done.flatMap (Phase.deeds plan stamp) ++ part)
  last : rest = [] → part <+: [.said (.runFinished (plan.outDir stamp))]
  next : ∀ phase later, rest = phase :: later → part <+: phase.body plan
  missed : ∀ step, course.steps.getLast? = some step → step.deed? = none →
    ∃ phase later deed, rest = phase :: later ∧ step.Misses deed ∧
      part ++ [deed] <+:
        phase.body plan ++ [Deed.kept (phase.path plan stamp) (phase.log plan stamp)]

theorem exists_stands {course : Course Path} {plan : Plan} {stamp : String} {outcome : RunOutcome}
    (hbegins : course.Begins (plan.deeds stamp outcome)) (hne : course.deeds ≠ []) :
    ∃ done part rest, plan.phases outcome = done ++ rest ∧
      course.Stands plan stamp done part rest := by
  have hstart := hbegins.start
  have hmissed := hbegins.missed
  rw [Plan.deeds_eq] at hstart hmissed
  obtain ⟨first, later, hdeeds⟩ := List.exists_cons_of_ne_nil hne
  rw [hdeeds, List.cons_prefix_cons] at hstart
  obtain ⟨rfl, hstart⟩ := hstart
  obtain ⟨done, rest, part, hphases, rfl, hpart⟩ := exists_split_of_prefix hstart
  have hnext : ∀ phase more, rest = phase :: more → part <+: phase.body plan := by
    rintro phase more rfl
    rcases hpart with ⟨hnil, -⟩ | ⟨next, more, hnext, hpart, hwhole⟩
    · cases hnil
    · obtain ⟨rfl, rfl⟩ := List.cons.inj hnext
      rw [Phase.deeds_eq] at hpart hwhole
      -- a log that is kept would be announced as well, and the phase be done whole
      refine prefix_concat_of_ne (prefix_concat_of_ne hpart hwhole) ?_
      rintro rfl
      refine hbegins.announced (phase.path plan stamp) (phase.log plan stamp) ?_
      rw [hdeeds, ← List.append_assoc, ← List.cons_append, List.getLast?_concat]
  refine ⟨done, part, rest, hphases, hdeeds, ?_, hnext, ?_⟩
  · rintro rfl
    rcases hpart with ⟨-, hpart⟩ | ⟨next, more, hnext, -⟩
    · exact hpart
    · cases hnext
  · intro step hlast hnone
    obtain ⟨deed, hmisses, hprefix⟩ := hmissed step hlast hnone
    rw [hdeeds, List.cons_append, List.cons_prefix_cons, hphases, List.flatMap_append,
      List.append_assoc, List.append_assoc, List.prefix_append_right_inj] at hprefix
    obtain ⟨-, hprefix⟩ := hprefix
    cases rest with
    | nil =>
      have hdeed : deed ∈ [Deed.said (.runFinished (plan.outDir stamp))] :=
        hprefix.subset (by simp)
      obtain rfl := List.mem_singleton.mp hdeed
      cases hmisses
    | cons phase more =>
      refine ⟨phase, more, deed, rfl, hmisses, ?_⟩
      rw [List.flatMap_cons, Phase.deeds_eq, List.append_assoc, List.append_assoc] at hprefix
      refine List.prefix_of_prefix_length_le hprefix (List.prefix_append _ _) ?_
      simpa using (hnext phase more rfl).length_le

namespace Course.Stands

variable {course : Course Path} {plan : Plan} {stamp : String} {done rest : List Phase}
  {part : List Deed}

theorem filterMap_deeds {α : Type} {view : Deed → Option α}
    (h : course.Stands plan stamp done part rest)
    (hstart : view (.said (.runStart (plan.outDir stamp) Command.runner)) = none)
    (hfinished : view (.said (.runFinished (plan.outDir stamp))) = none)
    (hbody : ∀ phase : Phase, (phase.body plan).filterMap view = []) :
    course.deeds.filterMap view =
      done.flatMap fun phase => (phase.deeds plan stamp).filterMap view := by
  have hpart : part.filterMap view = [] := by
    cases hrest : rest with
    | nil =>
      have hprefix := (h.last hrest).filterMap view
      rwa [List.filterMap_cons_none hfinished, List.filterMap_nil, List.prefix_nil] at hprefix
    | cons phase later =>
      have hprefix := (h.next phase later hrest).filterMap view
      rwa [hbody, List.prefix_nil] at hprefix
  rw [h.deeds, List.filterMap_cons_none hstart, List.filterMap_append, hpart, List.append_nil,
    List.filterMap_flatMap]

theorem logs_eq (h : course.Stands plan stamp done part rest) :
    course.deeds.filterMap Deed.log? = done.map (Phase.log plan stamp) := by
  rw [h.filterMap_deeds rfl rfl Phase.log?_body, List.map_eq_flatMap]
  simp only [Phase.log?_deeds]

theorem commands_eq (h : course.Stands plan stamp done part rest)
    (hfits : ∀ phase ∈ done, phase.Fits) :
    course.deeds.filterMap Deed.command? =
      done.flatMap (Phase.commands plan) ++ part.filterMap Deed.command? := by
  rw [h.deeds, List.filterMap_cons_none rfl, List.filterMap_append, List.filterMap_flatMap]
  congr 1
  exact List.flatMap_congr fun phase hmem => Phase.command?_deeds (hfits phase hmem)

/-- Where one of the deeds stands: some phases are done before it, and a part of one more. -/
theorem split {before after : List Deed} {deed : Deed} (h : course.Stands plan stamp done part rest)
    (hdeeds : course.deeds = before ++ deed :: after) :
    before = [] ∧ deed = .said (.runStart (plan.outDir stamp) Command.runner) ∨
      ∃ earlier begun, before = .said (.runStart (plan.outDir stamp) Command.runner) ::
        (earlier.flatMap (Phase.deeds plan stamp) ++ begun) ∧
        ((∃ phase later more, done = earlier ++ phase :: later ∧
          phase.deeds plan stamp = begun ++ deed :: more) ∨
          earlier = done ∧ part = begun ++ deed :: after) := by
  rw [h.deeds] at hdeeds
  cases before with
  | nil =>
    obtain ⟨hfirst, -⟩ := List.cons.inj hdeeds
    exact .inl ⟨rfl, hfirst.symm⟩
  | cons first before =>
    rw [List.cons_append] at hdeeds
    obtain ⟨rfl, hrest⟩ := List.cons.inj hdeeds
    obtain ⟨earlier, remaining, begun, rfl, rfl, hbegun⟩ := exists_split_of_prefix ⟨_, hrest.symm⟩
    refine .inr ⟨earlier, begun, rfl, ?_⟩
    rw [List.flatMap_append, List.append_assoc, List.append_assoc] at hrest
    have hrest := List.append_cancel_left hrest
    rcases hbegun with ⟨rfl, -⟩ | ⟨phase, later, rfl, ⟨more, hmore⟩, hwhole⟩
    · exact .inr ⟨(List.append_nil _).symm, hrest⟩
    · cases more with
      | nil => exact absurd ((List.append_nil _).symm.trans hmore) hwhole
      | cons next more =>
        rw [List.flatMap_cons, ← hmore, List.append_assoc, List.append_assoc] at hrest
        obtain ⟨rfl, -⟩ := List.cons.inj (List.append_cancel_left hrest)
        exact .inl ⟨phase, later, more, rfl, hmore.symm⟩

/-- A child that did not run to its end is the next one of the phase. -/
theorem of_unrun {step : Step} {command : Command} (h : course.Stands plan stamp done part rest)
    (hfits : ∀ phase ∈ rest, phase.Fits) (hlast : course.steps.getLast? = some step)
    (hnone : step.deed? = none)
    (hran : ∀ deed, step.Misses deed → ∃ capture, deed = .ran command capture) :
    ∃ phase later, rest = phase :: later ∧
      part.filterMap Deed.command? ++ [command] <+: phase.commands plan := by
  obtain ⟨phase, later, deed, hrest, hmisses, hprefix⟩ := h.missed _ hlast hnone
  obtain ⟨capture, rfl⟩ := hran deed hmisses
  refine ⟨phase, later, hrest, ?_⟩
  have hbody : part ++ [Deed.ran command capture] <+: phase.body plan := by
    refine prefix_concat_of_ne hprefix ?_
    intro heq
    have hdeed := (List.append_inj' heq rfl).2
    cases hdeed
  have hcommands := hbody.filterMap Deed.command?
  rwa [Phase.command?_body (hfits phase (hrest ▸ List.mem_cons_self)),
    List.filterMap_append] at hcommands

theorem of_unsaved {log : Log} {path : Path} {reason : String}
    (h : course.Stands plan stamp done part rest)
    (hlast : course.steps.getLast? = some (.unsaved log (.log path reason))) :
    ∃ phase later, rest = phase :: later ∧ part = phase.body plan ∧
      path = phase.path plan stamp ∧ log = phase.log plan stamp := by
  obtain ⟨phase, later, deed, hrest, hmisses, hprefix⟩ := h.missed _ hlast rfl
  cases hmisses with
  | unsaved log path reason =>
    refine ⟨phase, later, hrest, ?_⟩
    rcases List.prefix_concat_iff.mp hprefix with heq | hbody
    · obtain ⟨hpart, hdeed⟩ := List.append_inj' heq rfl
      simp only [List.cons.injEq, Deed.kept.injEq, and_true] at hdeed
      exact ⟨hpart, hdeed⟩
    · exact absurd (hbody.subset (by simp)) (phase.kept_not_mem_body path log)

end Course.Stands
end SoloRun
