import SoloRun.Proofs.Archive
import SoloRun.Proofs.Phases
import SoloRun.Proofs.Progress
import SoloRun.Proofs.Saving

/-!
Whatever a run comes to, what it leaves on disk is what it announced; and if a child or a log is to
blame for its end, it is the one that comes next.
-/

namespace SoloRun

theorem Plan.map_logName_phases {plan : Plan} {outcome : RunOutcome} (h : outcome.Fits plan) :
    (plan.phases outcome).map Phase.logName = plan.logNames := by
  have hsuites : (List.zipWith Phase.tested plan.suites outcome.suites).map Phase.logName =
      plan.suites.map (·.logName) := by
    apply map_zipWith_of_left _ h.suites_length
    intro suite outcome
    rfl
  have hchecks : (List.zipWith Phase.checked plan.checks outcome.checks).map Phase.logName =
      plan.checks.map (·.logName) := by
    apply map_zipWith_of_left _ h.checks_length
    intro check output
    rfl
  rw [phases, List.map_append, hsuites, hchecks, logNames]

theorem filterMap_command?_eq {steps : List Step}
    (h : ∀ command, .started command none ∉ steps) :
    steps.filterMap Step.command? = (steps.filterMap Step.deed?).filterMap Deed.command? := by
  rw [List.filterMap_filterMap]
  refine List.filterMap_congr ?_
  intro step hmem
  cases step with
  | started command capture? =>
    cases capture? with
    | none => exact absurd hmem (h command)
    | some capture => rfl
  | told | refused | saved | unsaved => rfl

namespace Ends

variable {α : Type} {steps : List Step} {result : Except Stop α}

theorem unended_not_mem {last : Step} (h : ∀ step ∈ steps, step.deed?.isSome)
    (hlast : last.command? = none) (command : Command) :
    .started command none ∉ steps ++ [last] := by
  intro hmem
  rcases List.mem_append.mp hmem with hmem | hmem
  · cases h _ hmem
  · obtain rfl := List.mem_singleton.mp hmem
    cases hlast

theorem of_command {line reason : String} (h : Ends steps result)
    (hresult : result = .error (.failed (.command line reason))) :
    ∃ command error, steps.getLast? = some (.refused command error) ∧ line = command.line ∧
      reason = error.message ∧ ∀ command, .started command none ∉ steps := by
  cases h with
  | refused deeds command error =>
    cases hresult
    exact ⟨command, error, List.getLast?_concat, rfl, rfl, unended_not_mem deeds rfl⟩
  | unended deeds command reason endless => rcases endless with rfl | rfl <;> cases hresult
  | well | interrupted | overflow | broken | unsaved => cases hresult

end Ends

namespace Run

variable (plan : Plan) (stamp : String) (setting : Setting) (world : World)

theorem runAll_stands :
    let course := (runAll plan stamp).carryOut setting world
    ∃ outcome done part rest, outcome.Fits plan ∧ plan.phases outcome = done ++ rest ∧
      course.Stands plan stamp done part rest := by
  intro course
  obtain ⟨dir, word, ⟨-, outcome, hfits, rfl⟩, hbegins, -⟩ :=
    (runAll_performs plan stamp).begins setting world
  have hne : course.deeds ≠ [] := Procedure.Performs.deeds_tell_ne_nil setting _ _ world
  obtain ⟨done, part, rest, hphases, hstands⟩ := exists_stands hbegins hne
  exact ⟨outcome, done, part, rest, hfits, hphases, hstands⟩

theorem runAll_holds (hnodup : plan.logNames.Nodup)
    (hslash : ∀ name ∈ plan.logNames, '/' ∉ name.toList)
    (hplain : world.tree.Unlinked setting.cwd (plan.outDir stamp)) :
    let course := (runAll plan stamp).carryOut setting world
    ∃ place, ((world.tree.makeDirectories setting.cwd (plan.outDir stamp)).2 = .ok () →
        (world.tree.makeDirectories setting.cwd (plan.outDir stamp)).1.Hosts setting.cwd
          (plan.outDir stamp) place) ∧
      world.tree.Holds setting.cwd (plan.outDir stamp) place (keptLogs course.steps) ∧
      (world.tree.afterLogs setting.cwd (plan.outDir stamp) place (keptLogs course.steps)).Grows
        course.world.tree ∧
      ((∀ log failure, .unsaved log failure ∉ course.steps) → course.world.tree =
        world.tree.afterLogs setting.cwd (plan.outDir stamp) place (keptLogs course.steps)) := by
  intro course
  obtain ⟨place, hplace⟩ := world.tree.exists_place setting.cwd (plan.outDir stamp)
  obtain ⟨hreplay, hnames⟩ := (runAll_saves plan stamp).replay setting world
  have hslashless : ∀ name ∈ logNames course.steps, '/' ∉ name.toList := fun name hmem =>
    hslash name (hnames.subset hmem)
  have hdistinct : (([] : List Log).map (·.name) ++ logNames course.steps).Nodup :=
    hnodup.sublist hnames.sublist
  exact ⟨place, hplace,
    hreplay.holds hplace hplain hslashless hdistinct FileTree.holds_nil rfl⟩

end Run
end SoloRun
