import SoloRun.Proofs.Announced
import SoloRun.Proofs.Flag
import SoloRun.Proofs.Outcome
import SoloRun.Proofs.Spawning

/-!
What the children of a run that succeeded have answered. None of them sent an interrupt or was left
hanging, and each could have been started just as well before the run.
-/

namespace SoloRun

theorem Step.started_of_deed {step : Step} {command : Command} {capture : Capture}
    (h : step.deed? = some (.ran command capture)) : step = .started command (some capture) := by
  cases step with
  | started other capture? =>
    cases capture? with
    | none => cases h
    | some output =>
      cases h
      rfl
  | told | refused | saved | unsaved => cases h

theorem World.start_uninterrupted {setting : Setting} {world after : World} {command : Command}
    {capture : Capture} (h : world.start setting command = .ended capture after)
    (hsane : world.Sane) (hunset : world.signals.flag = false)
    (hsilent : (setting.script.behaviour command.args).interrupting? = none) :
    ∃ home, setting.Spawns world.tree home command ∧
      capture = setting.answer home world.children command := by
  rw [start] at h
  cases hplace : setting.script.place world.tree setting.cwd command with
  | error error =>
    rw [hplace] at h
    cases h
  | ok home =>
    simp only [hplace, Behaviour.fate, next_not_hit hsane hunset, false_and, if_false, hsilent,
      Behaviour.lastly] at h
    cases hhangs : (setting.script.behaviour command.args).hangs with
    | true => simp [hhangs] at h
    | false =>
      simp only [hhangs, Bool.false_eq_true, if_false] at h
      cases h
      exact ⟨home, ⟨hplace, hsilent, hhangs⟩, rfl⟩

/-- The place of the workspace, as long as the path leads to a directory. -/
def Plan.home (plan : Plan) (cwd : Place) (tree : FileTree) : Place :=
  (tree.directory cwd plan.workspaceRoot).toOption.getD []

theorem Plan.home_eq {plan : Plan} {cwd home : Place} {tree : FileTree}
    (h : tree.directory cwd plan.workspaceRoot = .ok home) : plan.home cwd tree = home := by
  rw [Plan.home, h]
  rfl

namespace Procedure

variable {α : Type} {procedure : Procedure α} {setting : Setting} {world : World} {dir : Path}
  {names : List String}

theorem Saves.before_child (hp : procedure.Saves dir names) (hsane : world.Sane)
    {pre post : List Step} {command : Command} {capture : Capture}
    (h : (procedure.carryOut setting world).steps =
      pre ++ Step.started command (some capture) :: post) :
    ∃ before after : World, Replay setting.cwd dir world.tree pre before.tree ∧ before.Sane ∧
      before.interrupted setting = setting.flagAfter world pre ∧
      before.start setting command = .ended capture after := by
  induction procedure generalizing world pre names with
  | done | stop => simp [carryOut] at h
  | poll next ih => exact ih _ (hp _) hsane h
  | tell event next ih =>
    simp only [carryOut] at h
    split at h
    · cases pre <;> simp at h
    · next hbroken =>
      cases pre with
      | nil => cases h
      | cons step more =>
        obtain ⟨rfl, hmore⟩ := List.cons.inj h
        obtain ⟨before, after, hreplay, hbefore, hflag, hstart⟩ :=
          ih hp (World.afterTold_sane event hsane) hmore
        rw [(World.afterTold_eq setting world event).1] at hreplay
        rw [← setting.flagAfter_told world (by simpa using hbroken)] at hflag
        exact ⟨before, after, .other rfl hreplay, hbefore, hflag, hstart⟩
  | start other next ih =>
    simp only [carryOut] at h
    cases hother : world.start setting other with
    | refused error =>
      rw [hother] at h
      cases pre <;> simp at h
    | stopped reason after =>
      rw [hother] at h
      cases pre <;> simp at h
    | ended output later =>
      rw [hother] at h
      cases pre with
      | nil =>
        obtain ⟨hfirst, -⟩ := List.cons.inj h
        cases hfirst
        exact ⟨world, later, .nil, hsane, (setting.flagAfter_nil world).symm, hother⟩
      | cons step more =>
        obtain ⟨rfl, hmore⟩ := List.cons.inj h
        obtain ⟨before, after, hreplay, hbefore, hflag, hstart⟩ :=
          ih output (hp output) (World.start_ended hother hsane).1 hmore
        rw [World.tree_of_ended hother] at hreplay
        rw [← setting.flagAfter_started hother hsane] at hflag
        exact ⟨before, after, .other rfl hreplay, hbefore, hflag, hstart⟩
  | save goal log next ih =>
    obtain ⟨rfl, rest, rfl, hnext⟩ := hp
    simp only [carryOut] at h
    split at h
    · cases pre <;> simp at h
    · next tree path hwrite =>
      have hkept : World.Sane { world with tree } := hsane
      cases pre with
      | nil => cases h
      | cons step more =>
        obtain ⟨rfl, hmore⟩ := List.cons.inj h
        obtain ⟨before, after, hreplay, hbefore, hflag, hstart⟩ := ih path (hnext path) hkept hmore
        rw [← setting.flagAfter_saved] at hflag
        exact ⟨before, after, .saved hwrite hreplay, hbefore, hflag, hstart⟩

end Procedure

section Children

variable {plan : Plan} {stamp : String}

theorem Phase.dir?_of_ran {phase : Phase} (hfits : phase.Fits) {command : Command}
    {capture : Capture} (h : .ran command capture ∈ phase.deeds plan stamp) :
    command.dir? = some plan.workspaceRoot := by
  have hcommand : command ∈ phase.commands plan := by
    rw [← Phase.command?_deeds hfits]
    exact List.mem_filterMap.mpr ⟨_, h, rfl⟩
  cases phase with
  | tested suite outcome => exact plan.dir?_of_mem_suiteCommands hcommand
  | checked check output =>
    obtain rfl := List.mem_singleton.mp hcommand
    exact check.dir?_command plan.workspaceRoot

theorem Phase.exists_first_child (plan : Plan) (stamp : String) (phase : Phase) :
    ∃ before command capture after,
      phase.deeds plan stamp = before ++ Deed.ran command capture :: after ∧
        before.filterMap Deed.log? = [] := by
  cases phase with
  | tested suite outcome => exact ⟨[], _, _, _, rfl, rfl⟩
  | checked check output => exact ⟨[_], _, _, _, rfl, rfl⟩

end Children

theorem eq_map_of_zip {α β : Type} {f : α → β} {as : List α} {bs : List β}
    (hlength : bs.length = as.length) (h : ∀ pair ∈ as.zip bs, pair.2 = f pair.1) :
    bs = as.map f := by
  calc bs = (as.zip bs).map Prod.snd := (List.map_snd_zip (Nat.le_of_eq hlength)).symm
    _ = (as.zip bs).map (f ∘ Prod.fst) := List.map_congr_left h
    _ = as.map f := by rw [← List.map_map, List.map_fst_zip (Nat.le_of_eq hlength.symm)]

section Replied

variable (reply : Command → Capture) (root : Path)

/-- The outcome of a suite if each child answers by its command alone. -/
def SuiteOutcome.replied (suite : Suite) : SuiteOutcome :=
  let listing := reply (Command.listing root suite.selector)
  ⟨listing, (Discovery.ofCapture listing).names.map fun name =>
    ⟨reply (Command.single root suite.selector name), name⟩⟩

def Plan.replied (plan : Plan) (reply : Command → Capture) : RunOutcome :=
  ⟨plan.suites.map (.replied reply plan.workspaceRoot),
    plan.checks.map fun check => reply (check.command plan.workspaceRoot)⟩

theorem testResults_const (selector names : List String) (child : Nat) :
    testResults (fun _ => reply) root selector child names =
      names.map fun name => ⟨reply (Command.single root selector name), name⟩ := by
  induction names generalizing child with
  | nil => rfl
  | cons name rest ih => simp [testResults, ih]

theorem suiteOutcomes_const (suites : List Suite) (child : Nat) :
    suiteOutcomes (fun _ => reply) root child suites = suites.map (.replied reply root) := by
  induction suites generalizing child with
  | nil => rfl
  | cons suite rest ih =>
    simp [suiteOutcomes, suiteOutcome, testResults_const, SuiteOutcome.replied, ih]

theorem checkOutputs_const (checks : List Check) (child : Nat) :
    checkOutputs (fun _ => reply) root child checks =
      checks.map fun check => reply (check.command root) := by
  induction checks generalizing child with
  | nil => rfl
  | cons check rest ih => simp [checkOutputs, ih]

theorem Plan.outcome_const (plan : Plan) : plan.outcome (fun _ => reply) = plan.replied reply := by
  simp only [outcome, suiteOutcomes_const, checkOutputs_const, replied]

theorem Plan.phases_replied (plan : Plan) :
    plan.phases (plan.replied reply) =
      plan.suites.map (fun suite => .tested suite (.replied reply plan.workspaceRoot suite)) ++
        plan.checks.map
          (fun check => .checked check (reply (check.command plan.workspaceRoot))) := by
  simp only [phases, replied, List.zipWith_map_right, List.zipWith_self]

variable {reply root} {plan : Plan} {stamp : String}

theorem Plan.ran_mem_testsDeeds {selector : List String} {results : List TestResult}
    {result : TestResult} (count number : Nat) (h : result ∈ results) :
    .ran (Command.single plan.workspaceRoot selector result.name) result.toCapture ∈
      plan.testsDeeds selector count number results := by
  induction results generalizing number with
  | nil => cases h
  | cons first rest ih =>
    rcases List.mem_cons.mp h with rfl | hmem
    · exact List.mem_append_left _ (by simp [testDeeds])
    · exact List.mem_append_right _ (ih (number + 1) hmem)

theorem SuiteOutcome.Fits.eq_replied {suite : Suite} {outcome : SuiteOutcome} (hfits : outcome.Fits)
    (h : ∀ command capture, .ran command capture ∈ (Phase.tested suite outcome).body plan →
      capture = reply command) :
    outcome = .replied reply plan.workspaceRoot suite := by
  obtain ⟨listing, results⟩ := outcome
  obtain rfl : listing = reply (Command.listing plan.workspaceRoot suite.selector) :=
    h _ _ List.mem_cons_self
  have hresult : ∀ result ∈ results, result =
      ⟨reply (Command.single plan.workspaceRoot suite.selector result.name), result.name⟩ := by
    intro result hmem
    have hran := h _ _ (List.mem_cons_of_mem _ (List.mem_cons_of_mem _
      (List.mem_append_left _ (Plan.ran_mem_testsDeeds results.length 1 hmem))))
    rw [← hran]
  have hnames : results.map (·.name) = (Discovery.ofCapture (reply (Command.listing
      plan.workspaceRoot suite.selector))).names := hfits
  rw [replied, ← hnames, List.map_map]
  congr 1
  exact (List.map_id' results).symm.trans (List.map_congr_left hresult)

theorem Plan.eq_replied {outcome : RunOutcome} (hfits : outcome.Fits plan)
    (h : ∀ phase ∈ plan.phases outcome, ∀ command capture,
      .ran command capture ∈ phase.body plan → capture = reply command) :
    outcome = plan.replied reply := by
  obtain ⟨suites, checks⟩ := outcome
  obtain ⟨hsuites, hchecks⟩ := List.forall_mem_append.mp h
  rw [← List.map_uncurry_zip_eq_zipWith] at hsuites hchecks
  have hchecked :
      checks = plan.checks.map fun check => reply (check.command plan.workspaceRoot) := by
    apply eq_map_of_zip hfits.checks_length
    intro pair hmem
    exact hchecks _ (List.mem_map_of_mem hmem) _ _ (by simp [Phase.body, Function.uncurry])
  have htested : suites = plan.suites.map (.replied reply plan.workspaceRoot) := by
    apply eq_map_of_zip hfits.suites_length
    intro pair hmem
    exact (hfits.suites_fit pair.2 (List.of_mem_zip hmem).2).eq_replied
      (hsuites _ (List.mem_map_of_mem hmem))
  rw [htested, hchecked]
  rfl

end Replied

namespace Run

open Procedure

variable (plan : Plan) (stamp : String) (setting : Setting) {world : World}

theorem unset_at_child (hsane : world.Sane) {dir : Path} {pre post : List Step} {command : Command}
    {capture? : Option Capture}
    (hok : ((runAll plan stamp).carryOut setting world).result = .ok dir)
    (hsteps : ((runAll plan stamp).carryOut setting world).steps =
      pre ++ Step.started command capture? :: post) :
    setting.flagAfter world (pre ++ [Step.started command capture?]) = false := by
  rcases carryOut_runAll_cases plan stamp setting world rfl with
    ⟨reason, heq⟩ | ⟨hresult, hunset, told, after, heq⟩
  · rw [heq] at hok
    cases hok
  · rw [heq] at hsteps
    have hunflagged := (setting.flagAfter_carryOut hsane hresult).trans hunset
    rcases append_cases hsteps with ⟨more, hphases⟩ | ⟨body, -, hbody⟩
    · rw [hphases] at hunflagged
      rw [Bool.eq_false_iff]
      intro hset
      rw [setting.flagAfter_append world hset more] at hunflagged
      cases hunflagged
    · cases body with
      | nil => cases (List.cons.inj hbody).1
      | cons step body => simp at hbody

/-- A child of a run that succeeded started in a tree with more in it, and answered for itself. -/
theorem answered (htrigger : setting.trigger? = none) (hsane : world.Sane)
    (hnodup : plan.logNames.Nodup) (hslash : ∀ name ∈ plan.logNames, '/' ∉ name.toList)
    (hplain : world.tree.Unlinked setting.cwd (plan.outDir stamp)) {dir : Path}
    (hok : ((runAll plan stamp).carryOut setting world).result = .ok dir)
    {before after : List Deed} {command : Command} {capture : Capture}
    (hdeeds : ((runAll plan stamp).carryOut setting world).deeds =
      before ++ Deed.ran command capture :: after) :
    ∃ later home child, world.tree.KeepsWays later ∧
      (before.filterMap Deed.log? = [] → later = world.tree) ∧ setting.Spawns later home command ∧
      capture = setting.answer home child command := by
  obtain ⟨pre, step, post, hsteps, rfl, hstep⟩ := exists_split_of_filterMap hdeeds
  obtain rfl := Step.started_of_deed hstep
  obtain ⟨between, ended, hreplay, hbetween, hflag, hstart⟩ :=
    (runAll_saves plan stamp).before_child hsane hsteps
  have hunset := unset_at_child plan stamp setting hsane hok hsteps
  simp only [Setting.flagAfter, htrigger, List.any_append, List.any_cons, List.any_nil,
    Bool.or_false, Bool.or_eq_false_iff] at hunset hflag
  obtain ⟨hfresh, hbefore, hlast⟩ := hunset
  have hsilent : (setting.script.behaviour command.args).interrupting? = none := by
    simpa [Setting.interrupts] using hlast
  have hquiet : between.signals.flag = false := by
    simpa [World.interrupted, htrigger, hfresh, hbefore] using hflag
  obtain ⟨home, hspawns, hcapture⟩ := World.start_uninterrupted hstart hbetween hquiet hsilent
  have hends := (runAll_performs plan stamp).ends setting world
  have hnames := ((runAll_saves plan stamp).replay setting world).2
  rw [hsteps] at hends hnames
  have hpre : logNames pre <+: plan.logNames := by
    rw [logNames, List.filterMap_append] at hnames
    exact (List.prefix_append _ _).trans hnames
  obtain ⟨place, hplace⟩ := world.tree.exists_place setting.cwd (plan.outDir stamp)
  have hdistinct : (([] : List Log).map (·.name) ++ logNames pre).Nodup :=
    hnodup.sublist hpre.sublist
  obtain ⟨hholds, -, hexact⟩ := hreplay.holds hplace hplain
    (fun name hmem => hslash name (hpre.subset hmem)) hdistinct FileTree.holds_nil rfl
  have hsaved : ∀ log failure, .unsaved log failure ∉ pre := by
    intro log failure hmem
    cases hends.isSome_of_append hmem
  have htree := hexact hsaved
  rw [List.nil_append] at hholds htree
  refine ⟨between.tree, home, between.children, ?_, ?_, hspawns, hcapture⟩
  · rw [htree]
    exact hholds.afterLogs_keepsWays hplace hplain
  · intro hnone
    have hlogs : keptLogs pre = [] := hnone
    rw [htree, hlogs]
    rfl

/-- The children of a run that succeeded all ran in the workspace, and could have been started there
before the run. -/
theorem replies (htrigger : setting.trigger? = none) (hsane : world.Sane)
    (hnodup : plan.logNames.Nodup) (hslash : ∀ name ∈ plan.logNames, '/' ∉ name.toList)
    (hplain : world.tree.Unlinked setting.cwd (plan.outDir stamp)) {dir : Path}
    (hok : ((runAll plan stamp).carryOut setting world).result = .ok dir) :
    ∀ command capture, .ran command capture ∈ ((runAll plan stamp).carryOut setting world).deeds →
      setting.Spawns world.tree (plan.home setting.cwd world.tree) command ∧
        ∃ child, capture = setting.answer (plan.home setting.cwd world.tree) child command := by
  obtain ⟨-, outcome, hfits, hdeeds⟩ := (runAll_follows plan stamp).ends setting world dir hok
  have hfit := Plan.phases_fit hfits
  have hphased : ∀ command capture, .ran command capture ∈ plan.deeds stamp outcome →
      ∃ phase ∈ plan.phases outcome, .ran command capture ∈ phase.deeds plan stamp := by
    intro command capture hmem
    rw [Plan.deeds_eq, List.mem_cons, List.mem_append, List.mem_singleton, List.mem_flatMap] at hmem
    rcases hmem with hstart | hphase | hfinished
    · cases hstart
    · exact hphase
    · cases hfinished
  have hspawned : ∀ before command capture after,
      plan.deeds stamp outcome = before ++ Deed.ran command capture :: after → ∃ later home child,
        world.tree.KeepsWays later ∧ (before.filterMap Deed.log? = [] → later = world.tree) ∧
        setting.Spawns later home command ∧ capture = setting.answer home child command := by
    intro before command capture after heq
    exact answered plan stamp setting htrigger hsane hnodup hslash hplain hok (hdeeds.trans heq)
  -- the first child finds the tree as it was before the run, so the place is there from the start
  obtain ⟨home, hhome⟩ : ∃ home, plan.phases outcome ≠ [] →
      world.tree.directory setting.cwd plan.workspaceRoot = .ok home := by
    cases hphases : plan.phases outcome with
    | nil => exact ⟨[], fun hne => absurd rfl hne⟩
    | cons phase rest =>
      obtain ⟨before, first, output, after, hfirst, hnone⟩ :=
        phase.exists_first_child plan stamp
      have hdeed : plan.deeds stamp outcome =
          (.said (.runStart (plan.outDir stamp) Command.runner) :: before) ++
            Deed.ran first output :: (after ++ rest.flatMap (Phase.deeds plan stamp) ++
              [.said (.runFinished (plan.outDir stamp))]) := by
        simp [Plan.deeds_eq, hphases, hfirst]
      obtain ⟨later, home, child, -, hsame, hspawns, -⟩ := hspawned _ _ _ _ hdeed
      rw [hsame hnone] at hspawns
      have hran : .ran first output ∈ phase.deeds plan stamp := by simp [hfirst]
      have hroot := Phase.dir?_of_ran (hfit phase (hphases ▸ List.mem_cons_self)) hran
      exact ⟨home, fun _ => Script.directory_of_place hroot hspawns.place⟩
  intro command capture hmem
  rw [hdeeds] at hmem
  obtain ⟨phase, hphase, hran⟩ := hphased command capture hmem
  have hroot := Phase.dir?_of_ran (hfit phase hphase) hran
  have hdir := hhome (List.ne_nil_of_mem hphase)
  rw [Plan.home_eq hdir]
  obtain ⟨before, after, hdeed⟩ := List.append_of_mem hmem
  obtain ⟨later, place, child, hkeeps, -, hspawns, hcapture⟩ := hspawned _ _ _ _ hdeed
  obtain rfl : home = place := by
    have hlater := Script.directory_of_place hroot hspawns.place
    rw [FileTree.directory_keeps hkeeps hdir] at hlater
    exact Except.ok.inj hlater
  exact ⟨⟨Script.place_of_later hroot hdir hspawns.place, hspawns.silent, hspawns.ends⟩, child,
    hcapture⟩

end Run
end SoloRun
