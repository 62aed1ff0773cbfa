import SoloRun.Proofs.Ledger
import SoloRun.Proofs.Saving
import SoloRun.Proofs.Yields

/-!
A run that nothing breaks off: it starts the children of its plan in order, and at the end each of its
logs is in a file of its own.
-/

namespace SoloRun

theorem length_testResults (answer : Nat → Command → Capture) (root : Path)
    (selector names : List String) (child : Nat) :
    (testResults answer root selector child names).length = names.length := by
  induction names generalizing child with
  | nil => rfl
  | cons name rest ih => simp [testResults, ih]

theorem length_suiteOutcomes (answer : Nat → Command → Capture) (root : Path)
    (suites : List Suite) (child : Nat) :
    (suiteOutcomes answer root child suites).length = suites.length := by
  induction suites generalizing child with
  | nil => rfl
  | cons suite rest ih => simp [suiteOutcomes, ih]

theorem length_checkOutputs (answer : Nat → Command → Capture) (root : Path)
    (checks : List Check) (child : Nat) :
    (checkOutputs answer root child checks).length = checks.length := by
  induction checks generalizing child with
  | nil => rfl
  | cons check rest ih => simp [checkOutputs, ih]

theorem Plan.length_suiteCommands (plan : Plan) (answer : Nat → Command → Capture) (root : Path)
    (suite : Suite) (child : Nat) :
    (plan.suiteCommands suite (suiteOutcome answer root child suite)).length =
      (suiteOutcome answer root child suite).children := by
  simp [suiteCommands, suiteOutcome, SuiteOutcome.children, SuiteOutcome.discovery,
    length_testResults, Nat.add_comm]

namespace Plan

variable (plan : Plan) (stamp : String) (answer : Nat → Command → Capture)

theorem map_name_suiteLogs {suites : List Suite} {outcomes : List SuiteOutcome}
    (h : outcomes.length = suites.length) :
    (suiteLogs stamp suites outcomes).map (·.name) = suites.map (·.logName) := by
  apply map_zipWith_of_left _ h
  intro suite outcome
  rfl

theorem map_name_checkLogs {checks : List Check} {outputs : List Capture}
    (h : outputs.length = checks.length) :
    (plan.checkLogs checks outputs).map (·.name) = checks.map (·.logName) := by
  apply map_zipWith_of_left _ h
  intro check output
  rfl

theorem map_name_logs : (plan.logs stamp (plan.outcome answer)).map (·.name) = plan.logNames := by
  rw [logs, List.map_append, map_name_suiteLogs, map_name_checkLogs]
  · rfl
  · exact length_checkOutputs answer _ _ _
  · exact length_suiteOutcomes answer _ _ _

end Plan

namespace Run

open Procedure

variable {setting : Setting} {home : Place} {disk : List Log → FileTree} {child : Nat}
  {logs : List Log}

theorem runTest_yields {root : Path} {selector : List String} {name : String} (number count : Nat)
    (hspawns : setting.Spawns (disk logs) home (Command.single root selector name)) :
    (runTest root selector name number count).Yields setting disk child logs
      ⟨setting.answer home child (Command.single root selector name), name⟩
      [Command.single root selector name] [] := by
  apply (tell_yields _).then_
  apply (capture_yields hspawns).then_
  apply (tell_yields _).then_
  exact (tell_yields _).finish _

theorem runTestsFrom_yields (htrigger : setting.trigger? = none) {root : Path}
    {selector names : List String} (count number : Nat)
    (hspawns : ∀ name ∈ names,
      setting.Spawns (disk logs) home (Command.single root selector name)) :
    (runTestsFrom root selector count number names).Yields setting disk child logs
      (testResults (setting.answer home) root selector child names)
      (names.map (Command.single root selector)) [] := by
  induction names generalizing child number with
  | nil => exact (checkInterrupt_yields htrigger).finish _
  | cons name rest ih =>
    obtain ⟨hfirst, hrest⟩ := List.forall_mem_cons.mp hspawns
    apply (checkInterrupt_yields htrigger).then_
    apply (runTest_yields number count hfirst).then_
    exact (ih (number + 1) hrest).finish _

theorem runNames_yields (htrigger : setting.trigger? = none) {root : Path}
    {selector names : List String}
    (hspawns : ∀ name ∈ names,
      setting.Spawns (disk logs) home (Command.single root selector name)) :
    (runNames root selector names).Yields setting disk child logs
      (testResults (setting.answer home) root selector child names)
      (names.map (Command.single root selector)) [] := by
  rw [runNames]
  split
  · next h =>
    obtain rfl := List.isEmpty_iff.mp h
    exact .done []
  · exact runTestsFrom_yields htrigger _ 1 hspawns

theorem discover_yields {root : Path} {selector : List String}
    (hspawns : setting.Spawns (disk logs) home (Command.listing root selector)) :
    (discover root selector).Yields setting disk child logs
      (.ofCapture (setting.answer home child (Command.listing root selector)))
      [Command.listing root selector] [] :=
  (capture_yields hspawns).finish _

variable (plan : Plan) (stamp : String)

theorem saveLog_yields {log : Log}
    (hwrite : log.write setting.cwd (plan.outDir stamp) (disk logs) =
      (disk (logs ++ [log]), .ok (log.path (plan.outDir stamp)))) :
    (saveLog plan stamp log).Yields setting disk child logs (log.path (plan.outDir stamp)) []
      [log] := by
  apply (save_yields hwrite).bind
  exact (tell_yields _).finish _

theorem closeSuite_yields {suite : Suite} {outcome : SuiteOutcome}
    (htotal : (Report.total? outcome.results).isSome)
    (hwrite : (outcome.log stamp suite).write setting.cwd (plan.outDir stamp) (disk logs) =
      (disk (logs ++ [outcome.log stamp suite]),
        .ok ((outcome.log stamp suite).path (plan.outDir stamp)))) :
    (closeSuite plan stamp suite outcome.discovery outcome.results).Yields setting disk child logs
      ((outcome.log stamp suite).path (plan.outDir stamp)) [] [outcome.log stamp suite] := by
  apply (total_yields htotal).then_
  apply (tell_yields _).then_
  exact saveLog_yields plan stamp hwrite

variable {tree : FileTree}
  (htakes : tree.Takes setting.cwd (plan.outDir stamp) plan.logNames disk)
  (htrigger : setting.trigger? = none)
include htakes htrigger

theorem runSuite_yields {suite : Suite}
    (hlogs : logs.map (·.name) ++ [suite.logName] <+: plan.logNames)
    (hspawns : ∀ command ∈ plan.suiteCommands suite
      (suiteOutcome (setting.answer home) plan.workspaceRoot child suite),
      setting.Spawns tree home command)
    (htotal : (Report.total? (suiteOutcome (setting.answer home) plan.workspaceRoot child
      suite).results).isSome) :
    let outcome := suiteOutcome (setting.answer home) plan.workspaceRoot child suite
    (runSuite plan stamp suite).Yields setting disk child logs
      ((outcome.log stamp suite).path (plan.outDir stamp)) (plan.suiteCommands suite outcome)
      [outcome.log stamp suite] := by
  intro outcome
  have hkeeps := htakes.keeps logs ((List.prefix_append _ _).trans hlogs)
  have hwrite := htakes.write logs (outcome.log stamp suite) hlogs
  obtain ⟨hlisting, htests⟩ := List.forall_mem_cons.mp hspawns
  have hnames : ∀ name ∈ outcome.discovery.names, setting.Spawns (disk logs) home
      (Command.single plan.workspaceRoot suite.selector name) := by
    intro name hmem
    exact (htests _ (List.mem_map_of_mem hmem)).keeps hkeeps
  have hrest : ((runNames plan.workspaceRoot suite.selector outcome.discovery.names).bind
      fun results => closeSuite plan stamp suite outcome.discovery results).Yields setting disk
      (child + 1) logs ((outcome.log stamp suite).path (plan.outDir stamp))
      (outcome.discovery.names.map (Command.single plan.workspaceRoot suite.selector))
      [outcome.log stamp suite] := by
    have htests : (runNames plan.workspaceRoot suite.selector outcome.discovery.names).Yields
        setting disk (child + 1) logs outcome.results _ [] := runNames_yields htrigger hnames
    have hboth := htests.then_ (closeSuite_yields plan stamp htotal hwrite)
    rwa [List.append_nil] at hboth
  rw [runSuite_eq]
  apply (checkInterrupt_yields htrigger).then_
  apply (discover_yields (hlisting.keeps hkeeps)).then_
  apply (checkInterrupt_yields htrigger).then_
  apply (tell_yields _).then_
  exact hrest

theorem runCheck_yields {check : Check}
    (hlogs : logs.map (·.name) ++ [check.logName] <+: plan.logNames)
    (hspawns : setting.Spawns tree home (check.command plan.workspaceRoot)) :
    let output := setting.answer home child (check.command plan.workspaceRoot)
    (runCheck plan stamp check).Yields setting disk child logs
      ((check.log plan.workspaceRoot output).path (plan.outDir stamp))
      [check.command plan.workspaceRoot] [check.log plan.workspaceRoot output] := by
  intro output
  have hkeeps := htakes.keeps logs ((List.prefix_append _ _).trans hlogs)
  have hwrite := htakes.write logs (check.log plan.workspaceRoot output) hlogs
  rw [runCheck_eq]
  apply (checkInterrupt_yields htrigger).then_
  apply (tell_yields _).then_
  apply (capture_yields (hspawns.keeps hkeeps)).then_
  apply (tell_yields _).then_
  apply (checkInterrupt_yields htrigger).then_
  exact saveLog_yields plan stamp hwrite

theorem runSuites_yields {suites : List Suite}
    (hlogs : logs.map (·.name) ++ suites.map (·.logName) <+: plan.logNames)
    (hspawns : ∀ command ∈ (List.zipWith plan.suiteCommands suites
      (suiteOutcomes (setting.answer home) plan.workspaceRoot child suites)).flatten,
      setting.Spawns tree home command)
    (htotals : ∀ outcome ∈ suiteOutcomes (setting.answer home) plan.workspaceRoot child suites,
      (Report.total? outcome.results).isSome) :
    let outcomes := suiteOutcomes (setting.answer home) plan.workspaceRoot child suites
    (runSuites plan stamp suites).Yields setting disk child logs ()
      (List.zipWith plan.suiteCommands suites outcomes).flatten
      (Plan.suiteLogs stamp suites outcomes) := by
  induction suites generalizing child logs with
  | nil => exact .done ()
  | cons suite rest ih =>
    intro outcomes
    have hfirst : logs.map (·.name) ++ [suite.logName] <+: plan.logNames :=
      List.IsPrefix.trans ⟨rest.map (·.logName), by simp⟩ hlogs
    obtain ⟨hspawn, hspawns⟩ := List.forall_mem_append.mp hspawns
    obtain ⟨htotal, htotals⟩ := List.forall_mem_cons.mp htotals
    apply (runSuite_yields plan stamp htakes htrigger hfirst hspawn htotal).bind
    rw [plan.length_suiteCommands]
    exact ih (by simpa [SuiteOutcome.log] using hlogs) hspawns htotals

theorem runChecks_yields {checks : List Check}
    (hlogs : logs.map (·.name) ++ checks.map (·.logName) <+: plan.logNames)
    (hspawns : ∀ command ∈ checks.map (Check.command plan.workspaceRoot),
      setting.Spawns tree home command) :
    (runChecks plan stamp checks).Yields setting disk child logs ()
      (checks.map (Check.command plan.workspaceRoot))
      (plan.checkLogs checks
        (checkOutputs (setting.answer home) plan.workspaceRoot child checks)) := by
  induction checks generalizing child logs with
  | nil => exact .done ()
  | cons check rest ih =>
    have hfirst : logs.map (·.name) ++ [check.logName] <+: plan.logNames :=
      List.IsPrefix.trans ⟨rest.map (·.logName), by simp⟩ hlogs
    obtain ⟨hspawn, hspawns⟩ := List.forall_mem_cons.mp hspawns
    apply (runCheck_yields plan stamp htakes htrigger hfirst hspawn).bind
    exact ih (by simpa [Check.log] using hlogs) hspawns

omit htakes htrigger in
theorem length_suitesCommands (answer : Nat → Command → Capture) (root : Path)
    (suites : List Suite) (child : Nat) :
    (List.zipWith plan.suiteCommands suites
        (suiteOutcomes answer root child suites)).flatten.length =
      ((suiteOutcomes answer root child suites).map (·.children)).sum := by
  induction suites generalizing child with
  | nil => rfl
  | cons suite rest ih => simp [suiteOutcomes, ih, plan.length_suiteCommands]

theorem runAll_yields
    (hspawns : ∀ command ∈ plan.commands (plan.outcome (setting.answer home)),
      setting.Spawns tree home command)
    (htotals : ∀ outcome ∈ (plan.outcome (setting.answer home)).suites,
      (Report.total? outcome.results).isSome) :
    (runAll plan stamp).Yields setting disk 0 [] (plan.outDir stamp)
      (plan.commands (plan.outcome (setting.answer home)))
      (plan.logs stamp (plan.outcome (setting.answer home))) := by
  obtain ⟨hsuites, hchecks⟩ := List.forall_mem_append.mp hspawns
  have hfirst : ([] : List Log).map (·.name) ++ plan.suites.map (·.logName) <+: plan.logNames :=
    List.prefix_append _ _
  have hphases : (phases plan stamp).Yields setting disk 0 [] ()
      (plan.commands (plan.outcome (setting.answer home)))
      (plan.logs stamp (plan.outcome (setting.answer home))) := by
    apply (tell_yields _).then_
    apply (runSuites_yields plan stamp htakes htrigger hfirst hsuites htotals).bind
    have hnames : (Plan.suiteLogs stamp plan.suites (plan.outcome (setting.answer home)).suites).map
        (·.name) = plan.suites.map (·.logName) :=
      Plan.map_name_suiteLogs stamp (length_suiteOutcomes _ _ _ _)
    rw [length_suitesCommands plan, Nat.zero_add, List.nil_append]
    apply runChecks_yields plan stamp htakes htrigger _ hchecks
    rw [Plan.logNames, ← hnames]
    exact List.prefix_rfl
  rw [runAll_eq]
  apply hphases.finally_
  apply (checkInterrupt_yields htrigger).then_
  exact (tell_yields _).finish _

end Run

theorem World.fresh_steady {setting : Setting} {sink : Sink} (hworks : setting.reporter.Works sink)
    (tree : FileTree) : (World.fresh tree sink).Steady setting 0 tree :=
  ⟨rfl, fresh_sane tree sink, hworks, rfl, rfl⟩

theorem FileTree.Accepts.takes {tree : FileTree} {cwd place : Place} {dir : Path}
    {names : List String} (h : tree.Accepts cwd dir names)
    (hslash : ∀ name ∈ names, '/' ∉ name.toList) (hnodup : names.Nodup)
    (hplace : names ≠ [] → (tree.makeDirectories cwd dir).1.Hosts cwd dir place) :
    tree.Takes cwd dir names (tree.afterLogs cwd dir place) where
  start := rfl
  keeps logs hlogs :=
    h.afterLogs_keepsWays hslash hplace fun _ hmem => hlogs.subset (List.mem_map_of_mem hmem)
  write logs log hlogs := by
    have hname : log.name ∈ names := hlogs.subset (by simp)
    have hothers : ∀ other ∈ logs, other.name ∈ names := by
      intro other hmem
      exact hlogs.subset (List.mem_append_left _ (List.mem_map_of_mem hmem))
    have hnew : log.name ∉ logs.map (·.name) :=
      not_mem_of_nodup (hnodup.sublist hlogs.sublist)
    exact h.write (hplace (List.ne_nil_of_mem hname)) hslash hothers hname hnew

theorem FileTree.Vacant.accepts {tree : FileTree} {cwd place : Place} {dir : Path}
    {names : List String} (h : tree.Vacant cwd dir)
    (hmade : (tree.makeDirectories cwd dir).2 = .ok ())
    (hhosts : (tree.makeDirectories cwd dir).1.Hosts cwd dir place)
    (hslash : ∀ name ∈ names, '/' ∉ name.toList) (hfits : ∀ name ∈ names, Log.Fits dir name)
    (hfree : ∀ name ∈ names,
      (tree.makeDirectories cwd dir).1.find? (place ++ [Log.file name]) = none) :
    tree.Accepts cwd dir names where
  writes log hname := by
    have hordinary : (tree.makeDirectories cwd dir).1.Ordinary (place ++ [Log.file log.name]) := by
      intro entry hentry
      rw [hfree _ hname] at hentry
      cases hentry
    obtain ⟨opened, hopen⟩ := Log.writable_of_fits hhosts (hslash _ hname) (hfits _ hname) hordinary
      (by simp [hfree _ hname])
    rw [Log.write_of_made hmade, Log.write_of_hosts hhosts (hslash _ hname) hordinary, Log.path_eq,
      hopen]
    exact ⟨_, rfl⟩
  ordinary place hhosts name _ entry hentry := by
    rw [h place hhosts] at hentry
    cases hentry

namespace FileTree

theorem empty_makeDirectories :
    empty.makeDirectories [] ((Path.ofString "/logs").join (Path.ofString "now")) =
      ((empty.insert [Utf8.encode "logs"] .directory).insert
        [Utf8.encode "logs", Utf8.encode "now"] .directory, .ok ()) := by
  cbv

theorem empty_directory :
    (empty.makeDirectories [] ((Path.ofString "/logs").join (Path.ofString "now"))).1.directory []
      ((Path.ofString "/logs").join (Path.ofString "now")) =
        .ok [Utf8.encode "logs", Utf8.encode "now"] := by
  rw [empty_makeDirectories]
  cbv

theorem empty_vacant_logs :
    empty.Vacant [] ((Path.ofString "/logs").join (Path.ofString "now")) :=
  empty_vacant (by decide) (List.cons_ne_nil _ _) empty_directory

/-- In an empty tree any logs can be written to this directory. -/
theorem empty_accepts {names : List String} (hslash : ∀ name ∈ names, '/' ∉ name.toList)
    (hfits : ∀ name ∈ names, Log.Fits ((Path.ofString "/logs").join (Path.ofString "now")) name) :
    empty.Accepts [] ((Path.ofString "/logs").join (Path.ofString "now")) names := by
  refine empty_vacant_logs.accepts (congrArg Prod.snd empty_makeDirectories)
    (.inr ⟨by decide, empty_directory⟩) hslash hfits ?_
  intro name _
  rw [empty_makeDirectories, find?_insert _ (List.cons_ne_nil _ _),
    find?_insert _ (List.cons_ne_nil _ _), if_neg (by simp), if_neg (by simp)]
  rfl

end FileTree

namespace Run

end Run
end SoloRun
