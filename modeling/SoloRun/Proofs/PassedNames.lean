import SoloRun.Proofs.Archiving
import SoloRun.Proofs.Completed

/-!
Names that a listing prints go on to the children that run the tests. Whatever children print and
however they end, a run without interrupt can only stop at a name that cannot be an argument, and
then the logs of its suite and of all later phases are missing.
-/

namespace SoloRun

theorem Report.isSome_total? {results : List TestResult}
    (h : (results.map (·.duration.toNanos)).sum < UInt64.size * nanosPerSecond) :
    (Report.total? results).isSome := by
  have hsum : ((results.map (·.duration)).map Duration.toNanos).sum <
      UInt64.size * nanosPerSecond := by
    rwa [List.map_map]
  obtain ⟨total, htotal, -⟩ := Duration.exists_total? hsum
  exact Option.isSome_iff_exists.mpr ⟨total, htotal⟩

namespace Script

/-- Why a name cannot be an argument. -/
def refusal? (name : String) : Option StartError :=
  if (Utf8.encode name).contains 0 then some .nulByte
  else if maxArgument < (Utf8.encode name).length + 1 then some (.os .argumentsTooLong)
  else none

variable {script : Script} {tree : FileTree} {cwd home : Place} {root : Path}
  {selector : List String}

/-- The arguments that run one test are those of the listing, its name and what no check minds. -/
theorem any_single (fails : Bytes → Bool) (hlist : fails (Utf8.encode "--list") = false)
    (hexact : fails (Utf8.encode "--exact") = false)
    (hcapture : fails (Utf8.encode "--nocapture") = false) (name : String) :
    (Command.single root selector name).args.any fails =
      ((Command.listing root selector).args.any fails || fails (Utf8.encode name)) := by
  simp only [Command.single, Command.listing, Command.cargo, List.map_append, List.map_cons,
    List.map_nil, List.any_append, List.any_cons, List.any_nil, hlist, hexact, hcapture]
  cases fails (Utf8.encode name) <;> simp

theorem hasNul_single (name : String) : (Command.single root selector name).hasNul =
    ((Command.listing root selector).hasNul || (Utf8.encode name).contains 0) := by
  rw [Command.hasNul, Command.hasNul, List.any_cons, List.any_cons,
    any_single _ (by decide) (by decide) (by decide), ← Bool.or_assoc, Bool.or_right_comm]
  rfl

/-- What lists the tests of a suite can run each of them too, but for its name. -/
theorem place_single (h : script.place tree cwd (Command.listing root selector) = .ok home)
    (name : String) : script.place tree cwd (Command.single root selector name) =
      (refusal? name).elim (.ok home) .error := by
  have hdir := directory_of_place rfl h
  -- both commands have the same program and directory, so only the checks of arguments can differ
  rw [place] at h ⊢
  rw [hasNul_single, any_single _ (by decide) (by decide) (by decide), refusal?]
  split at h
  · cases h
  next hnul =>
  simp only [Bool.not_eq_true] at hnul
  rw [hnul, Bool.false_or]
  by_cases hname : (Utf8.encode name).contains 0 = true
  · rw [if_pos hname, if_pos hname]
    rfl
  rw [if_neg hname, if_neg hname]
  have hlisting : (Command.listing root selector).dir? = some root := rfl
  have hsingle : (Command.single root selector name).dir? = some root := rfl
  have hprogram : (Command.single root selector name).program =
      (Command.listing root selector).program := rfl
  simp only [hlisting, hsingle, hprogram, hdir, mapError_ok, bind, Except.bind] at h ⊢
  split at h
  · cases h
  split at h
  · cases h
  next hshort =>
  rw [Bool.not_eq_true] at hshort
  rw [hshort, Bool.false_or]
  split
  · next hlong => rw [if_pos (of_decide_eq_true hlong)]; rfl
  · next hlong => rw [if_neg fun hmore => hlong (decide_eq_true hmore)]; rfl

end Script

/-- The first of the listed names that cannot be an argument, the suite that lists it, and why. -/
inductive Refused : List (List String) → Nat → String → StartError → Prop where
  | here {firsts name error rest more}
    (firsts_pass : ∀ first ∈ firsts, Script.refusal? first = none)
    (refused : Script.refusal? name = some error) :
    Refused ((firsts ++ name :: rest) :: more) 0 name error
  | later {names more i name error} (names_pass : ∀ first ∈ names, Script.refusal? first = none)
    (next : Refused more i name error) : Refused (names :: more) (i + 1) name error

theorem exists_refused (names : List String) :
    (∀ name ∈ names, Script.refusal? name = none) ∨ ∃ firsts name error rest,
      names = firsts ++ name :: rest ∧ (∀ first ∈ firsts, Script.refusal? first = none) ∧
        Script.refusal? name = some error := by
  induction names with
  | nil => exact .inl (by simp)
  | cons name rest ih =>
    cases hname : Script.refusal? name with
    | some error => exact .inr ⟨[], name, error, rest, rfl, by simp, hname⟩
    | none =>
      rcases ih with hrest | ⟨firsts, other, error, more, rfl, hfirsts, hother⟩
      · exact .inl (List.forall_mem_cons.mpr ⟨hname, hrest⟩)
      · exact .inr ⟨name :: firsts, other, error, more, rfl,
          List.forall_mem_cons.mpr ⟨hname, hfirsts⟩, hother⟩

theorem pass_or_refused (lists : List (List String)) :
    (∀ names ∈ lists, ∀ name ∈ names, Script.refusal? name = none) ∨
      ∃ i name error, Refused lists i name error := by
  induction lists with
  | nil => exact .inl (by simp)
  | cons names more ih =>
    rcases exists_refused names with hnames | ⟨firsts, name, error, rest, rfl, hfirsts, hname⟩
    · rcases ih with hmore | ⟨i, name, error, hrefused⟩
      · exact .inl (List.forall_mem_cons.mpr ⟨hnames, hmore⟩)
      · exact .inr ⟨i + 1, name, error, .later hnames hrefused⟩
    · exact .inr ⟨0, name, error, .here hfirsts hname⟩

/-- A child that sends no interrupt and comes to its own end. -/
def Setting.Peaceful (setting : Setting) (command : Command) : Prop :=
  (setting.script.behaviour command.args).interrupting? = none ∧
    (setting.script.behaviour command.args).hangs = false

/-- The commands of a plan that no child has a part in. -/
def Plan.ownCommands (plan : Plan) : List Command :=
  plan.suites.map (fun suite => Command.listing plan.workspaceRoot suite.selector) ++
    plan.checks.map (Check.command plan.workspaceRoot)

/-- The names by the listing they come from. -/
def RunOutcome.names (outcome : RunOutcome) : List (List String) :=
  outcome.suites.map (·.discovery.names)

namespace Procedure

variable {α β : Type} (setting : Setting) (disk : List Log → FileTree)

/-- Carried out after so many children and after these logs, the procedure stops for the reason and
has kept the further logs. -/
def Breaks (procedure : Procedure α) (child : Nat) (logs : List Log) (reason : Stop)
    (kept : List Log) : Prop :=
  ∀ world : World, world.Steady setting child (disk logs) →
    let course := procedure.carryOut setting world
    course.result = .error reason ∧ course.world.tree = disk (logs ++ kept)

variable {setting disk} {child : Nat} {logs kept further : List Log} {reason : Stop}

theorem Breaks.bind {procedure : Procedure α}
    (hp : procedure.Breaks setting disk child logs reason kept) (f : α → Procedure β) :
    (procedure.bind f).Breaks setting disk child logs reason kept := by
  intro world h
  obtain ⟨hreason, htree⟩ := hp world h
  dsimp only
  rw [carryOut_bind, Course.andThen_of_error hreason]
  exact ⟨rfl, htree⟩

theorem Yields.bind_breaks {procedure : Procedure α} {f : α → Procedure β} {value : α}
    {commands : List Command}
    (hp : procedure.Yields setting disk child logs value commands kept)
    (hf : (f value).Breaks setting disk (child + commands.length) (logs ++ kept) reason further) :
    (procedure.bind f).Breaks setting disk child logs reason (kept ++ further) := by
  intro world h
  obtain ⟨hvalue, -, hsteady⟩ := hp world h
  obtain ⟨hreason, htree⟩ := hf _ hsteady
  dsimp only
  rw [carryOut_bind, Course.andThen_of_ok hvalue]
  exact ⟨hreason, by rw [htree, List.append_assoc]⟩

theorem Yields.then_breaks {procedure : Procedure α} {f : α → Procedure β} {value : α}
    {commands : List Command}
    (hp : procedure.Yields setting disk child logs value commands [])
    (hf : (f value).Breaks setting disk (child + commands.length) logs reason further) :
    (procedure.bind f).Breaks setting disk child logs reason further :=
  hp.bind_breaks (by simpa using hf)

end Procedure

namespace Run

open Procedure

variable {setting : Setting} {disk : List Log → FileTree} {child : Nat} {logs : List Log}
  {home : Place} {root : Path} {selector : List String}

theorem capture_breaks {command : Command} {error : StartError}
    (h : setting.script.place (disk logs) setting.cwd command = .error error) :
    (capture command).Breaks setting disk child logs
      (.failed (.command command.line error.message)) [] := by
  intro world hsteady
  have hstart : world.start setting command = .refused error := by
    simp only [World.start, hsteady.tree, h]
  simp only [capture, carryOut, hstart]
  exact ⟨trivial, by rw [hsteady.tree, List.append_nil]⟩

theorem runTest_breaks {name : String} {error : StartError} (number count : Nat)
    (h : setting.script.place (disk logs) setting.cwd (Command.single root selector name) =
      .error error) :
    (runTest root selector name number count).Breaks setting disk child logs
      (.failed (.command (Command.single root selector name).line error.message)) [] := by
  apply (tell_yields _).then_breaks
  exact (capture_breaks h).bind _

theorem runTestsFrom_breaks (htrigger : setting.trigger? = none) {firsts : List String}
    {name : String} {error : StartError} (rest : List String) (count number : Nat)
    (hfirsts : ∀ first ∈ firsts,
      setting.Spawns (disk logs) home (Command.single root selector first))
    (h : setting.script.place (disk logs) setting.cwd (Command.single root selector name) =
      .error error) :
    (runTestsFrom root selector count number (firsts ++ name :: rest)).Breaks setting disk child
      logs (.failed (.command (Command.single root selector name).line error.message)) [] := by
  induction firsts generalizing child number with
  | nil =>
    apply (checkInterrupt_yields htrigger).then_breaks
    exact (runTest_breaks number count h).bind _
  | cons first more ih =>
    obtain ⟨hfirst, hmore⟩ := List.forall_mem_cons.mp hfirsts
    apply (checkInterrupt_yields htrigger).then_breaks
    apply (runTest_yields number count hfirst).then_breaks
    exact (ih (number + 1) hmore).bind _

theorem runNames_breaks (htrigger : setting.trigger? = none) {firsts : List String} {name : String}
    {error : StartError} (rest : List String)
    (hfirsts : ∀ first ∈ firsts,
      setting.Spawns (disk logs) home (Command.single root selector first))
    (h : setting.script.place (disk logs) setting.cwd (Command.single root selector name) =
      .error error) :
    (runNames root selector (firsts ++ name :: rest)).Breaks setting disk child logs
      (.failed (.command (Command.single root selector name).line error.message)) [] := by
  have hnonempty : (firsts ++ name :: rest).isEmpty = false := by simp
  rw [runNames, hnonempty]
  exact runTestsFrom_breaks htrigger rest _ 1 hfirsts h

theorem spawns_single {tree : FileTree} {name : String}
    (hlisting : setting.script.place tree setting.cwd (Command.listing root selector) = .ok home)
    (hpeaceful : setting.Peaceful (Command.single root selector name))
    (hpasses : Script.refusal? name = none) :
    setting.Spawns tree home (Command.single root selector name) := by
  have hplace := Script.place_single hlisting name
  rw [hpasses] at hplace
  exact ⟨hplace, hpeaceful.1, hpeaceful.2⟩

variable (plan : Plan) (stamp : String)

theorem spawns_suite {tree : FileTree} {suite : Suite} {outcome : SuiteOutcome}
    (hlisting : setting.script.place tree setting.cwd
      (Command.listing plan.workspaceRoot suite.selector) = .ok home)
    (hpeaceful : ∀ command ∈ plan.suiteCommands suite outcome, setting.Peaceful command)
    (hpasses : ∀ name ∈ outcome.discovery.names, Script.refusal? name = none) :
    ∀ command ∈ plan.suiteCommands suite outcome, setting.Spawns tree home command := by
  obtain ⟨hfirst, htests⟩ := List.forall_mem_cons.mp hpeaceful
  refine List.forall_mem_cons.mpr ⟨⟨hlisting, hfirst.1, hfirst.2⟩, fun command hmem => ?_⟩
  obtain ⟨name, hname, rfl⟩ := List.mem_map.mp hmem
  exact spawns_single hlisting (htests _ hmem) (hpasses name hname)

section Breaking

variable {tree : FileTree}
  (htakes : tree.Takes setting.cwd (plan.outDir stamp) plan.logNames disk)
  (htrigger : setting.trigger? = none)
include htakes htrigger

theorem runSuite_breaks {suite : Suite} {firsts rest : List String} {name : String}
    {error : StartError} (hlogs : logs.map (·.name) <+: plan.logNames)
    (hlisting : setting.script.place tree setting.cwd
      (Command.listing plan.workspaceRoot suite.selector) = .ok home)
    (hpeaceful : ∀ command ∈ plan.suiteCommands suite
      (suiteOutcome (setting.answer home) plan.workspaceRoot child suite), setting.Peaceful command)
    (hnames : (suiteOutcome (setting.answer home) plan.workspaceRoot child suite).discovery.names =
      firsts ++ name :: rest)
    (hfirsts : ∀ first ∈ firsts, Script.refusal? first = none)
    (hname : Script.refusal? name = some error) :
    (runSuite plan stamp suite).Breaks setting disk child logs
      (.failed (.command (Command.single plan.workspaceRoot suite.selector name).line
        error.message)) [] := by
  have hkeeps := htakes.keeps logs hlogs
  obtain ⟨hfirst, htests⟩ := List.forall_mem_cons.mp hpeaceful
  rw [hnames] at htests
  have hspawns : ∀ first ∈ firsts, setting.Spawns (disk logs) home
      (Command.single plan.workspaceRoot suite.selector first) := by
    intro first hmem
    have hpeace := htests _ (List.mem_map_of_mem (List.mem_append_left _ hmem))
    exact (spawns_single hlisting hpeace (hfirsts first hmem)).keeps hkeeps
  have hrefused := Script.place_single (Script.place_keeps hkeeps hlisting) name
  rw [hname] at hrefused
  have hlists : setting.Spawns (disk logs) home
      (Command.listing plan.workspaceRoot suite.selector) :=
    Setting.Spawns.keeps ⟨hlisting, hfirst.1, hfirst.2⟩ hkeeps
  have hrest : ((runNames plan.workspaceRoot suite.selector (suiteOutcome (setting.answer home)
      plan.workspaceRoot child suite).discovery.names).bind fun results =>
      closeSuite plan stamp suite (suiteOutcome (setting.answer home) plan.workspaceRoot child
        suite).discovery results).Breaks setting disk (child + 1) logs
      (.failed (.command (Command.single plan.workspaceRoot suite.selector name).line
        error.message)) [] := by
    rw [hnames]
    exact (runNames_breaks htrigger rest hspawns hrefused).bind _
  rw [runSuite_eq]
  apply (checkInterrupt_yields htrigger).then_breaks
  apply (discover_yields hlists).then_breaks
  apply (checkInterrupt_yields htrigger).then_breaks
  apply (tell_yields _).then_breaks
  exact hrest

theorem runSuites_breaks {suites : List Suite} {i : Nat} {name : String} {error : StartError}
    (hlogs : logs.map (·.name) ++ suites.map (·.logName) <+: plan.logNames)
    (hlistings : ∀ suite ∈ suites, setting.script.place tree setting.cwd
      (Command.listing plan.workspaceRoot suite.selector) = .ok home)
    (hpeaceful : ∀ command ∈ (List.zipWith plan.suiteCommands suites
      (suiteOutcomes (setting.answer home) plan.workspaceRoot child suites)).flatten,
      setting.Peaceful command)
    (htotals : ∀ outcome ∈ suiteOutcomes (setting.answer home) plan.workspaceRoot child suites,
      (Report.total? outcome.results).isSome)
    (hrefused : Refused ((suiteOutcomes (setting.answer home) plan.workspaceRoot child suites).map
      (·.discovery.names)) i name error) :
    ∃ suite, suites[i]? = some suite ∧
      (runSuites plan stamp suites).Breaks setting disk child logs
        (.failed (.command (Command.single plan.workspaceRoot suite.selector name).line
          error.message))
        ((Plan.suiteLogs stamp suites
          (suiteOutcomes (setting.answer home) plan.workspaceRoot child suites)).take i) := by
  induction suites generalizing child logs i with
  | nil => cases hrefused
  | cons suite rest ih =>
    obtain ⟨hlisting, hlistings⟩ := List.forall_mem_cons.mp hlistings
    obtain ⟨hpeace, hpeaceful⟩ := List.forall_mem_append.mp hpeaceful
    obtain ⟨htotal, htotals⟩ := List.forall_mem_cons.mp htotals
    rw [suiteOutcomes, List.map_cons] at hrefused
    generalize hnames : (suiteOutcome (setting.answer home) plan.workspaceRoot child
      suite).discovery.names = names at hrefused
    cases hrefused with
    | here hfirsts hname =>
      have hbreaks := runSuite_breaks plan stamp htakes htrigger
        ((List.prefix_append _ _).trans hlogs) hlisting hpeace hnames hfirsts hname
      exact ⟨suite, rfl, hbreaks.bind _⟩
    | later hpass next =>
      -- this suite is carried through, and its log stands before those of the induction
      have hfirst : logs.map (·.name) ++ [suite.logName] <+: plan.logNames :=
        List.IsPrefix.trans ⟨rest.map (·.logName), by simp⟩ hlogs
      have hspawns := spawns_suite plan hlisting hpeace (hnames ▸ hpass)
      have hyields := runSuite_yields plan stamp htakes htrigger hfirst hspawns htotal
      have hlater : (logs ++ [(suiteOutcome (setting.answer home) plan.workspaceRoot child
          suite).log stamp suite]).map (·.name) ++ rest.map (·.logName) <+: plan.logNames := by
        simpa [SuiteOutcome.log] using hlogs
      obtain ⟨other, hother, hbreaks⟩ := ih hlater hlistings hpeaceful htotals next
      refine ⟨other, hother, hyields.bind_breaks ?_⟩
      rw [plan.length_suiteCommands]
      exact hbreaks

theorem runAll_breaks {i : Nat} {name : String} {error : StartError}
    (hplaces : ∀ command ∈ plan.ownCommands,
      setting.script.place tree setting.cwd command = .ok home)
    (hpeaceful : ∀ command ∈ plan.commands (plan.outcome (setting.answer home)),
      setting.Peaceful command)
    (htotals : ∀ outcome ∈ (plan.outcome (setting.answer home)).suites,
      (Report.total? outcome.results).isSome)
    (hrefused : Refused (plan.outcome (setting.answer home)).names i name error) :
    ∃ suite, plan.suites[i]? = some suite ∧
      (runAll plan stamp).Breaks setting disk 0 []
        (.failed (.command (Command.single plan.workspaceRoot suite.selector name).line
          error.message))
        ((plan.logs stamp (plan.outcome (setting.answer home))).take i) := by
  have hlogs : ([] : List Log).map (·.name) ++ plan.suites.map (·.logName) <+: plan.logNames :=
    List.prefix_append _ _
  have hlistings : ∀ suite ∈ plan.suites, setting.script.place tree setting.cwd
      (Command.listing plan.workspaceRoot suite.selector) = .ok home := fun suite hmem =>
    hplaces _ (List.mem_append_left _ (List.mem_map_of_mem hmem))
  obtain ⟨suite, hsuite, hbreaks⟩ := runSuites_breaks plan stamp htakes htrigger hlogs hlistings
    (List.forall_mem_append.mp hpeaceful).1 htotals hrefused
  refine ⟨suite, hsuite, ?_⟩
  have hlength : i ≤ (Plan.suiteLogs stamp plan.suites
      (plan.outcome (setting.answer home)).suites).length := by
    rw [Plan.suiteLogs, List.length_zipWith, Plan.outcome, length_suiteOutcomes, Nat.min_self]
    exact Nat.le_of_lt (List.getElem?_eq_some_iff.mp hsuite).1
  rw [runAll_eq, Plan.logs, List.take_append_of_le_length hlength]
  apply Breaks.bind
  apply (tell_yields _).then_breaks
  exact hbreaks.bind _

omit htakes htrigger in
theorem spawns_commands {outcome : RunOutcome}
    (hplaces : ∀ command ∈ plan.ownCommands,
      setting.script.place tree setting.cwd command = .ok home)
    (hpeaceful : ∀ command ∈ plan.commands outcome, setting.Peaceful command)
    (hpass : ∀ names ∈ outcome.names, ∀ name ∈ names, Script.refusal? name = none) :
    ∀ command ∈ plan.commands outcome, setting.Spawns tree home command := by
  intro command hmem
  rcases List.mem_append.mp hmem with hsuites | hchecks
  · obtain ⟨commands, hcommands, hcommand⟩ := List.mem_flatten.mp hsuites
    have hin := hcommands
    rw [← List.map_uncurry_zip_eq_zipWith] at hcommands
    obtain ⟨⟨suite, listed⟩, hzip, rfl⟩ := List.mem_map.mp hcommands
    obtain ⟨hsuite, hlisted⟩ := List.of_mem_zip hzip
    have hlisting := hplaces _ (List.mem_append_left _ (List.mem_map_of_mem hsuite))
    refine spawns_suite plan hlisting ?_ (hpass _ (List.mem_map_of_mem hlisted)) command hcommand
    intro other hother
    exact hpeaceful other (List.mem_append_left _ (List.mem_flatten.mpr ⟨_, hin, hother⟩))
  · have hpeace := hpeaceful command hmem
    exact ⟨hplaces command (List.mem_append_right _ hchecks), hpeace.1, hpeace.2⟩

end Breaking

/-- Of all that children can print, only a name that cannot be an argument keeps a run from its
end. If there is none, the run succeeds and writes every log. Otherwise it stops at the first such
name, and of the logs only those of the suites before are written. -/
theorem run_stops_only_at_refused_name (plan : Plan) (stamp : String) (setting : Setting)
    (tree : FileTree) (sink : Sink) (home : Place) (htrigger : setting.trigger? = none)
    (hworks : setting.reporter.Works sink) (hproper : tree.Proper setting.cwd)
    (hwelcomes : tree.Welcomes setting.cwd (plan.outDir stamp) plan.logNames)
    (hplaces : ∀ command ∈ plan.ownCommands,
      setting.script.place tree setting.cwd command = .ok home)
    (hpeaceful : ∀ command ∈ plan.commands (plan.outcome (setting.answer home)),
      setting.Peaceful command)
    (htotals : ∀ outcome ∈ (plan.outcome (setting.answer home)).suites,
      (outcome.results.map (·.duration.toNanos)).sum < UInt64.size * nanosPerSecond) :
    let dir := plan.outDir stamp
    let outcome := plan.outcome (setting.answer home)
    let logs := plan.logs stamp outcome
    let course := (runAll plan stamp).carryOut setting (.fresh tree sink)
    (course.result = .ok dir ↔
      ∀ names ∈ outcome.names, ∀ name ∈ names, Script.refusal? name = none) ∧
    (course.result = .ok dir →
      logs.map (·.name) = plan.logNames ∧ course.world.tree = tree.archived setting.cwd dir logs ∧
      ∀ before log after, logs = before ++ log :: after →
        (log.write setting.cwd dir (tree.archived setting.cwd dir before)).2 =
          .ok (log.path dir) ∧
        ((∀ other ∈ after,
          ¬ (tree.makeDirectories setting.cwd dir).1.Collide setting.cwd dir log other) →
          course.world.tree.content? setting.cwd (log.path dir) = some (Utf8.encode log.text))) ∧
    ∀ i name error, Refused outcome.names i name error →
      course.world.tree = tree.archived setting.cwd dir (logs.take i) ∧
      ∃ suite, plan.suites[i]? = some suite ∧ course.result =
        .error (.failed (.command (Command.single plan.workspaceRoot suite.selector name).line
          error.message)) := by
  intro dir outcome logs course
  have htakes : tree.Takes setting.cwd dir plan.logNames (tree.archived setting.cwd dir) :=
    hwelcomes.takes hproper
  have hsteady : (World.fresh tree sink).Steady setting 0 tree := World.fresh_steady hworks tree
  have hsums : ∀ suite ∈ outcome.suites, (Report.total? suite.results).isSome := fun suite hmem =>
    Report.isSome_total? (htotals suite hmem)
  have hpasses (h : ∀ names ∈ outcome.names, ∀ name ∈ names, Script.refusal? name = none) :
      course.result = .ok dir ∧ course.world.tree = tree.archived setting.cwd dir logs := by
    have hspawns := spawns_commands plan hplaces hpeaceful h
    obtain ⟨hresult, -, hlast⟩ := runAll_yields plan stamp htakes htrigger hspawns hsums _ hsteady
    exact ⟨hresult, hlast.tree⟩
  have hrefused {i : Nat} {name : String} {error : StartError}
      (h : Refused outcome.names i name error) :=
    runAll_breaks plan stamp htakes htrigger hplaces hpeaceful hsums h
  have hok (hresult : course.result = .ok dir) :
      ∀ names ∈ outcome.names, ∀ name ∈ names, Script.refusal? name = none := by
    rcases pass_or_refused outcome.names with hpass | ⟨i, name, error, h⟩
    · exact hpass
    · obtain ⟨suite, -, hbreaks⟩ := hrefused h
      have hstopped := (hbreaks _ hsteady).1
      rw [hresult] at hstopped
      cases hstopped
  refine ⟨⟨hok, fun h => (hpasses h).1⟩, fun hresult => ?_, fun i name error h => ?_⟩
  · have htree := (hpasses (hok hresult)).2
    have hnames : logs.map (·.name) = plan.logNames :=
      plan.map_name_logs stamp (setting.answer home)
    refine ⟨hnames, htree, fun before log after hsplit => ?_⟩
    rw [htree, hsplit]
    rw [hsplit] at hnames
    exact ⟨hwelcomes.write_ok hproper hnames, hwelcomes.content?_archived hproper hnames⟩
  · obtain ⟨suite, hsuite, hbreaks⟩ := hrefused h
    obtain ⟨hresult, htree⟩ := hbreaks _ hsteady
    exact ⟨htree, suite, hsuite, hresult⟩

def unitAndFormat : Plan :=
  ⟨Path.ofString "/", Path.ofString "/logs", [⟨"unit", "Unit Tests", []⟩], [⟨"fmt", .format⟩]⟩

/-- The listing prints a text and ends well. -/
def listingPrints (text : String) : Setting :=
  ⟨.entries [((Command.listing unitAndFormat.workspaceRoot []).args,
    .ofPrints [.out (Utf8.encode text)] 0)], fun _ => .zero, [], .lines, ⟨0, 0⟩, none⟩

theorem unitAndFormat_welcome :
    FileTree.empty.Welcomes [] (unitAndFormat.outDir "now") unitAndFormat.logNames := by
  intro name hmem
  rcases List.mem_pair.mp hmem with rfl | rfl
  · exact ⟨_, by cbv⟩
  · exact ⟨_, by cbv⟩

theorem unitAndFormat_places (text : String) : ∀ command ∈ unitAndFormat.ownCommands,
    (listingPrints text).script.place .empty [] command = .ok [] := by
  have hlisting (parts : List (List Bytes × Behaviour)) : (Script.entries parts).place .empty []
      (Command.listing unitAndFormat.workspaceRoot []) = .ok [] := by cbv
  have hformat (parts : List (List Bytes × Behaviour)) : (Script.entries parts).place .empty []
      (Command.formatCheck unitAndFormat.workspaceRoot) = .ok [] := by cbv
  intro command hmem
  rcases List.mem_pair.mp hmem with rfl | rfl
  · exact hlisting _
  · exact hformat _

theorem listingPrints_peaceful (text : String) (command : Command) :
    (listingPrints text).Peaceful command := by
  simp only [Setting.Peaceful, listingPrints, Script.behaviour, List.lookup]
  split <;> exact ⟨rfl, rfl⟩

theorem run_of_listed_test_ends :
    let setting := listingPrints "parses: test\n"
    let dir := unitAndFormat.outDir "now"
    let logs := unitAndFormat.logs "now" (unitAndFormat.outcome (setting.answer []))
    let course := (runAll unitAndFormat "now").carryOut setting (.fresh .empty .unlimited)
    course.result = .ok dir ∧ course.world.tree = FileTree.empty.archived [] dir logs ∧
      ∃ before log, logs = before ++ [log] ∧ log.name = "fmt" ∧
        course.world.tree.content? [] (log.path dir) = some (Utf8.encode log.text) := by
  intro setting dir logs course
  have hnames : (unitAndFormat.outcome (setting.answer [])).names = [["parses"]] := by cbv
  have hsums : (unitAndFormat.outcome (setting.answer [])).suites.map
      (fun outcome => (outcome.results.map (·.duration.toNanos)).sum) = [0] := by cbv
  have hsum : ∀ nanos ∈ (unitAndFormat.outcome (setting.answer [])).suites.map
      (fun outcome => (outcome.results.map (·.duration.toNanos)).sum),
      nanos < UInt64.size * nanosPerSecond := by
    rw [hsums]
    decide
  obtain ⟨hends, hwritten, -⟩ :=
    run_stops_only_at_refused_name unitAndFormat "now" setting .empty .unlimited [] rfl (.inl rfl)
      FileTree.empty_proper unitAndFormat_welcome (unitAndFormat_places _)
      (fun command _ => listingPrints_peaceful _ command) (List.forall_mem_map.mp hsum)
  have hresult : course.result = .ok dir := by
    refine hends.mpr ?_
    rw [hnames]
    decide
  obtain ⟨-, htree, hlogs⟩ := hwritten hresult
  obtain ⟨-, hcontent⟩ := hlogs [_] _ [] rfl
  exact ⟨hresult, htree, [_], _, rfl, rfl, hcontent (by simp)⟩

theorem nul_in_listing_stops_run :
    let setting := listingPrints "a\x00b: test\n"
    let dir := unitAndFormat.outDir "now"
    let course := (runAll unitAndFormat "now").carryOut setting (.fresh .empty .unlimited)
    setting.trigger? = none ∧ setting.reporter.Works .unlimited ∧
      (∀ command ∈ unitAndFormat.ownCommands, command.hasNul = false ∧
        setting.script.place .empty [] command = .ok []) ∧
      FileTree.empty.Welcomes [] dir unitAndFormat.logNames ∧
      (∀ command, setting.Peaceful command) ∧ (∀ child, setting.durations child = .zero) ∧
      course.result = .error (.failed (.command
        "cargo test -q <string-with-nul> -- --exact --nocapture"
        "nul byte found in provided data")) ∧
      course.world.tree = .empty := by
  intro setting dir course
  have hnames : (unitAndFormat.outcome (setting.answer [])).names = [["a\x00b"]] := by cbv
  have hsums : (unitAndFormat.outcome (setting.answer [])).suites.map
      (fun outcome => (Report.total? outcome.results).isSome) = [true] := by cbv
  have hsum : ∀ added ∈ (unitAndFormat.outcome (setting.answer [])).suites.map
      (fun outcome => (Report.total? outcome.results).isSome), added = true := by
    rw [hsums]
    decide
  have hrefused :
      Refused (unitAndFormat.outcome (setting.answer [])).names 0 "a\x00b" .nulByte := by
    rw [hnames]
    exact @Refused.here [] _ _ [] [] (by simp) (by decide)
  have htakes := unitAndFormat_welcome.takes FileTree.empty_proper
  obtain ⟨suite, hsuite, hbreaks⟩ := runAll_breaks unitAndFormat "now" htakes rfl
    (unitAndFormat_places _) (fun command _ => listingPrints_peaceful _ command)
    (List.forall_mem_map.mp hsum) hrefused
  have hsteady : (World.fresh .empty .unlimited).Steady setting 0 .empty :=
    World.fresh_steady (.inl rfl) .empty
  obtain ⟨hresult, htree⟩ := hbreaks _ hsteady
  obtain rfl : (⟨"unit", "Unit Tests", []⟩ : Suite) = suite := Option.some.inj hsuite
  have hline : (Command.single unitAndFormat.workspaceRoot [] "a\x00b").line =
      "cargo test -q <string-with-nul> -- --exact --nocapture" := by cbv
  rw [hline] at hresult
  refine ⟨rfl, .inl rfl, fun command hmem => ⟨?_, unitAndFormat_places _ _ hmem⟩,
    unitAndFormat_welcome, listingPrints_peaceful _, fun _ => rfl, hresult, htree⟩
  rcases List.mem_pair.mp hmem with rfl | rfl
  · decide
  · decide

end Run
end SoloRun
