import SoloRun.Proofs.Feasible

/-!
The order of the suites and of the checks does not matter to a run that succeeds: in any order it
succeeds, and it leaves the same files.
-/

namespace SoloRun

namespace FileTree

variable {tree : FileTree} {cwd place other : Place} {dir : Path} {logs others : List Log}

theorem find?_withLogs_perm (hnodup : (logs.map (·.name)).Nodup) (hperm : logs.Perm others)
    (spot : Place) :
    (tree.withLogs place logs).find? spot = (tree.withLogs place others).find? spot := by
  by_cases hlog : ∃ log ∈ logs, spot = place ++ [Log.file log.name]
  · obtain ⟨log, hmem, rfl⟩ := hlog
    have hother : (others.map (·.name)).Nodup := (hperm.map _).nodup_iff.mp hnodup
    rw [find?_withLogs hnodup hmem, find?_withLogs hother (hperm.mem_iff.mp hmem)]
  · have hne : ∀ log ∈ logs, spot ≠ place ++ [Log.file log.name] :=
      fun log hmem heq => hlog ⟨log, hmem, heq⟩
    have hother : ∀ log ∈ others, spot ≠ place ++ [Log.file log.name] :=
      fun log hmem => hne log (hperm.mem_iff.mpr hmem)
    rw [find?_withLogs_of_ne hne, find?_withLogs_of_ne hother]

/-- The places are the same once a directory was made for the logs. -/
theorem Holds.find?_afterLogs_perm
    (hplace : (tree.makeDirectories cwd dir).2 = .ok () →
      (tree.makeDirectories cwd dir).1.Hosts cwd dir place)
    (hother : (tree.makeDirectories cwd dir).2 = .ok () →
      (tree.makeDirectories cwd dir).1.Hosts cwd dir other)
    (h : tree.Holds cwd dir place logs) (hperm : logs.Perm others) (spot : Place) :
    (tree.afterLogs cwd dir place logs).find? spot =
      (tree.afterLogs cwd dir other others).find? spot := by
  by_cases hlogs : logs = []
  · subst hlogs
    rw [← hperm.nil_eq]
    rfl
  · have hothers : others ≠ [] := fun hnil => hlogs (hnil ▸ hperm).eq_nil
    have hmade := h.made hlogs
    obtain rfl := (hplace hmade).unique (hother hmade)
    rw [afterLogs_of_ne_nil hlogs, afterLogs_of_ne_nil hothers]
    exact find?_withLogs_perm h.nodup hperm spot

end FileTree

namespace Plan

variable (plan : Plan) (stamp : String)

def reordered (suites : List Suite) (checks : List Check) : Plan :=
  { plan with suites, checks }

variable (suites : List Suite) (checks : List Check)

theorem testsDeeds_reordered (selector : List String) (count number : Nat)
    (results : List TestResult) :
    (plan.reordered suites checks).testsDeeds selector count number results =
      plan.testsDeeds selector count number results := by
  induction results generalizing number with
  | nil => rfl
  | cons result rest ih => exact congrArg (plan.testDeeds selector count number result ++ ·) (ih _)

theorem phaseDeeds_reordered (phase : Phase) :
    phase.deeds (plan.reordered suites checks) stamp = phase.deeds plan stamp := by
  cases phase with
  | tested suite outcome =>
    rw [Phase.deeds, Phase.body, testsDeeds_reordered]
    rfl
  | checked check output => rfl

variable {plan stamp suites checks}
  (hsuites : plan.suites.Perm suites) (hchecks : plan.checks.Perm checks)
include hsuites hchecks

theorem logNames_perm : plan.logNames.Perm (plan.reordered suites checks).logNames :=
  (hsuites.map _).append (hchecks.map _)

variable (setting : Setting) (tree : FileTree)

theorem phases_perm : (plan.phases (plan.foreseen setting tree)).Perm
    ((plan.reordered suites checks).phases
      ((plan.reordered suites checks).foreseen setting tree)) := by
  rw [foreseen, foreseen, phases_replied, phases_replied]
  exact (hsuites.map _).append (hchecks.map _)

theorem commands_perm : (plan.commands (plan.foreseen setting tree)).Perm
    ((plan.reordered suites checks).commands
      ((plan.reordered suites checks).foreseen setting tree)) := by
  rw [foreseen, foreseen, commands_eq (replied_fits _ _), commands_eq (replied_fits _ _)]
  have hcommands : Phase.commands (plan.reordered suites checks) = Phase.commands plan := by
    funext phase
    cases phase <;> rfl
  rw [hcommands]
  exact (phases_perm hsuites hchecks setting tree).flatMap_right _

theorem deeds_perm : (plan.deeds stamp (plan.foreseen setting tree)).Perm
    ((plan.reordered suites checks).deeds stamp
      ((plan.reordered suites checks).foreseen setting tree)) := by
  have hdeeds : Phase.deeds (plan.reordered suites checks) stamp = Phase.deeds plan stamp :=
    funext (plan.phaseDeeds_reordered stamp suites checks)
  rw [deeds_eq, deeds_eq, hdeeds]
  exact (((phases_perm hsuites hchecks setting tree).flatMap_right _).append_right _).cons _

variable {setting tree}

theorem Feasible.reordered (h : plan.Feasible stamp setting tree) :
    (plan.reordered suites checks).Feasible stamp setting tree where
  spawns command hmem :=
    h.spawns command ((commands_perm hsuites hchecks setting tree).mem_iff.mpr hmem)
  totals outcome hmem := h.totals outcome ((hsuites.map _).mem_iff.mpr hmem)
  accepts := by
    have hnames (name : String) := (logNames_perm hsuites hchecks).mem_iff (a := name)
    exact ⟨fun log hname => h.accepts.writes log ((hnames _).mpr hname),
      fun place hhosts name hname => h.accepts.ordinary place hhosts name ((hnames _).mpr hname)⟩

end Plan

namespace Run

variable (plan : Plan) (stamp : String) (setting : Setting) (tree : FileTree) (sink : Sink)
  (suites : List Suite) (checks : List Check)

/-- A run that nobody interrupts and all of whose children last the same time comes to the same end
and leaves the same files in whatever order its suites and its checks are. -/
theorem reordered_run_leaves_same_files (duration : Duration) (htrigger : setting.trigger? = none)
    (hdurations : ∀ child, setting.durations child = duration)
    (hnodup : plan.logNames.Nodup) (hslash : ∀ name ∈ plan.logNames, '/' ∉ name.toList)
    (hvacant : tree.Vacant setting.cwd (plan.outDir stamp))
    (hsuites : plan.suites.Perm suites) (hchecks : plan.checks.Perm checks) :
    let first := (runAll plan stamp).carryOut setting (.fresh tree sink)
    let second := (runAll (plan.reordered suites checks) stamp).carryOut setting (.fresh tree sink)
    ∀ dir, first.result = .ok dir → second.result = .ok dir ∧
      ∀ place, second.world.tree.find? place = first.world.tree.find? place := by
  intro first second dir hok
  let other := plan.reordered suites checks
  have hsame (child : Nat) : setting.durations child = setting.durations 0 := by
    rw [hdurations, hdurations]
  have hnames : plan.logNames.Perm other.logNames := Plan.logNames_perm hsuites hchecks
  have hnodup' : other.logNames.Nodup := hnames.nodup_iff.mp hnodup
  have hslash' : ∀ name ∈ other.logNames, '/' ∉ name.toList := fun name hmem =>
    hslash name (hnames.mem_iff.mpr hmem)
  have hplain : tree.Unlinked setting.cwd (plan.outDir stamp) := hvacant.unlinked
  obtain ⟨rfl, -⟩ := runAll_ensures plan stamp setting _ dir hok
  have hother : second.result = .ok (plan.outDir stamp) := by
    obtain ⟨hfeasible, houtlasts⟩ :=
      (runAll_ok_iff plan stamp setting htrigger hsame hnodup hslash hplain).mp hok
    refine (runAll_ok_iff other stamp setting htrigger hsame hnodup' hslash' hplain).mpr
      ⟨hfeasible.reordered hsuites hchecks, houtlasts.perm ?_⟩
    exact (Plan.deeds_perm hsuites hchecks setting tree).filterMap _
  refine ⟨hother, ?_⟩
  obtain ⟨-, hdeeds⟩ :=
    foreseen_of_ok plan stamp setting htrigger hsame hnodup hslash hplain hok
  obtain ⟨-, hdeeds'⟩ :=
    foreseen_of_ok other stamp setting htrigger hsame hnodup' hslash' hplain hother
  have hlogs : (keptLogs first.steps).Perm (keptLogs second.steps) := by
    rw [keptLogs, keptLogs, ← Course.deeds, ← Course.deeds, hdeeds, hdeeds']
    exact (Plan.deeds_perm hsuites hchecks setting tree).filterMap _
  obtain ⟨place, hplace, hholds, -, htree⟩ :=
    runAll_holds plan stamp setting (.fresh tree sink) hnodup hslash hplain
  obtain ⟨place', hplace', -, -, htree'⟩ :=
    runAll_holds other stamp setting (.fresh tree sink) hnodup' hslash' hplain
  intro spot
  rw [htree (saved_of_ok plan stamp setting hok), htree' (saved_of_ok other stamp setting hother)]
  exact (hholds.find?_afterLogs_perm hplace hplace' hlogs spot).symm

theorem swapped_run_leaves_same_files :
    let root := Path.ofString "/"
    let unit : Suite := ⟨"unit", "Unit Tests", []⟩
    let broken : Suite := ⟨"broken", "Broken Tests", ["--test", "broken"]⟩
    let lint : Check := ⟨"clippy", .lint []⟩
    let format : Check := ⟨"fmt", .format⟩
    let plan : Plan := ⟨root, Path.ofString "/logs", [unit, broken], [lint, format]⟩
    let setting : Setting := ⟨.entries [((Command.listing root []).args,
      .ofPrints [.out (Utf8.encode "parses: test\n")] 0)], fun _ => .zero, [], .lines, ⟨0, 0⟩, none⟩
    let first := (runAll plan "now").carryOut setting (.fresh .empty .unlimited)
    let second := (runAll (plan.reordered [broken, unit] [format, lint]) "now").carryOut setting
      (.fresh .empty .unlimited)
    first.result = .ok (plan.outDir "now") ∧ second.result = .ok (plan.outDir "now") ∧
      ∀ place, second.world.tree.find? place = first.world.tree.find? place := by
  intro root unit broken lint format plan setting first second
  have hspawns : (plan.commands (plan.foreseen setting .empty)).all
      (fun command => setting.Spawns .empty (plan.home [] .empty) command) = true := by
    cbv
  have htotals : (plan.foreseen setting .empty).suites.all
      (fun outcome => (Report.total? outcome.results).isSome) = true := by
    cbv
  have hfeasible : plan.Feasible "now" setting .empty := by
    refine ⟨List.all_iff_forall_prop.mp hspawns, List.all_eq_true.mp htotals, ?_⟩
    refine FileTree.empty_accepts (by decide) ?_
    intro name hmem
    fin_cases hmem <;> exact ⟨by decide, by decide, by decide⟩
  have hok : first.result = .ok (plan.outDir "now") :=
    ok_of_feasible_of_works plan "now" setting rfl (fun _ => rfl) (by decide) (by decide) hfeasible
      (.inl rfl)
  obtain ⟨hother, hfiles⟩ :=
    reordered_run_leaves_same_files plan "now" setting .empty .unlimited [broken, unit]
      [format, lint] .zero rfl (fun _ => rfl) (by decide) (by decide) FileTree.empty_vacant_logs
      (.swap _ _ _) (.swap _ _ _) _ hok
  exact ⟨hok, hother, hfiles⟩

end Run
end SoloRun
