import SoloRun.Program
import SoloRun.Proofs.Abandoned
import SoloRun.Proofs.Indifference
import SoloRun.Proofs.Totals

/-!
Exit statuses. The program ends with 130 just if a child that was started sent it an interrupt,
whatever else its run came to. Without one the status says what stopped the program, the workspace
that was not found, a child that could not be started or a log that could not be written, and it is
0 if nothing did, however the children did.
-/

namespace SoloRun

namespace Step

def isRefused : Step → Bool
  | .refused _ _ => true
  | _ => false

def isUnsaved : Step → Bool
  | .unsaved _ _ => true
  | _ => false

/-- Whatever was told was written whole, and nothing was complained about. -/
def Heard (setting : Setting) (step : Step) : Prop :=
  step.out = step.event?.elim [] (setting.reporter.bytes setting.clock) ∧ step.complaint = ""

end Step

namespace Procedure

variable {α : Type} {setting : Setting}

theorem heard_of_unlimited (procedure : Procedure α) {world : World}
    (hroom : world.sink.room? = none) (hclock : setting.clock.millis?.isSome) :
    ∀ step ∈ (procedure.carryOut setting world).steps, step.Heard setting := by
  induction procedure generalizing world with
  | done | stop => exact List.forall_mem_nil _
  | poll next ih => exact ih _ hroom
  | tell event next ih =>
    have htold : (Step.told event (world.told setting event)).Heard setting := by
      simp only [Step.Heard, Step.out, Step.complaint, Step.event?, World.told, Reporter.tell]
      cases setting.reporter <;> simp [Sink.kept, Sink.takes, hroom, hclock]
    have hafter : (world.afterTold setting event).sink.room? = none := by
      simp [World.afterTold, Reporter.sinkAfter, Sink.after, hroom]
    simp only [carryOut]
    split
    · exact List.forall_mem_singleton.mpr htold
    · exact List.forall_mem_cons.mpr ⟨htold, ih hafter⟩
  | start command next ih =>
    simp only [carryOut]
    cases hstart : world.start setting command with
    | refused error => exact List.forall_mem_singleton.mpr ⟨rfl, rfl⟩
    | stopped reason after => exact List.forall_mem_singleton.mpr ⟨rfl, rfl⟩
    | ended capture after =>
      exact List.forall_mem_cons.mpr
        ⟨⟨rfl, rfl⟩, ih capture (World.sink_of_ended hstart ▸ hroom)⟩
  | save dir log next ih =>
    simp only [carryOut]
    split
    · exact List.forall_mem_singleton.mpr ⟨rfl, rfl⟩
    · next tree path hwrite => exact List.forall_mem_cons.mpr ⟨⟨rfl, rfl⟩, ih path hroom⟩

end Procedure

namespace Course

variable {α : Type} {setting : Setting}

theorem out_of_heard {course : Course α} (h : ∀ step ∈ course.steps, step.Heard setting) :
    course.out = course.events.flatMap (setting.reporter.bytes setting.clock) ∧
      course.complaints = "" := by
  obtain ⟨steps, result, world⟩ := course
  simp only [out, events, complaints] at h ⊢
  induction steps with
  | nil => exact ⟨rfl, rfl⟩
  | cons step rest ih =>
    obtain ⟨⟨hout, hcomplaint⟩, hrest⟩ := List.forall_mem_cons.mp h
    obtain ⟨hmore, hsilent⟩ := ih hrest
    rw [List.map_cons, String.join_cons, hcomplaint, hsilent, List.flatMap_cons, hout, hmore]
    cases hevent : step.event? with
    | none => exact ⟨by rw [List.filterMap_cons_none hevent]; rfl, rfl⟩
    | some event => exact ⟨by rw [List.filterMap_cons_some hevent]; rfl, rfl⟩

end Course

namespace Ends

variable {α : Type} {steps : List Step} {result : Except Stop α}

theorem status_eq (h : Ends steps result) (colour : Bool)
    (hinterrupted : result ≠ .error (.failed .interrupted))
    (hoverflow : result ≠ .error .overflow) (hbroken : result ≠ .error .brokenConsole)
    (htwice : result ≠ .error .interruptedTwice) (hendless : result ≠ .error .endless) :
    (Program.lastly colour result false).1 = some (
      if steps.any Step.isRefused then 60 else if steps.any Step.isUnsaved then 70 else 0) := by
  have hnone {steps : List Step} (deeds : ∀ step ∈ steps, step.deed?.isSome) :
      steps.any Step.isRefused = false ∧ steps.any Step.isUnsaved = false := by
    rw [List.any_eq_false, List.any_eq_false]
    constructor
    · intro step hmem hrefused
      have hdeed := deeds step hmem
      cases step with
      | refused => cases hdeed
      | told | started | saved | unsaved => cases hrefused
    · intro step hmem hunsaved
      have hdeed := deeds step hmem
      cases step with
      | unsaved => cases hdeed
      | told | started | saved | refused => cases hunsaved
  cases h with
  | well deeds =>
    rw [(hnone deeds).1, (hnone deeds).2]
    rfl
  | interrupted => exact absurd rfl hinterrupted
  | overflow => exact absurd rfl hoverflow
  | broken => exact absurd rfl hbroken
  | refused deeds command error =>
    rw [List.any_append, (hnone deeds).1]
    rfl
  | unended deeds command reason endless =>
    rcases endless with rfl | rfl
    · exact absurd rfl htwice
    · exact absurd rfl hendless
  | unsaved deeds log path reason =>
    rw [List.any_append, List.any_append, (hnone deeds).1, (hnone deeds).2]
    rfl

end Ends

namespace Run

theorem runFinished_not_mem (plan : Plan) (stamp : String) {setting : Setting} {world : World}
    (hfailed : ∀ dir, ((runAll plan stamp).carryOut setting world).result ≠ .ok dir)
    (hbroken : ((runAll plan stamp).carryOut setting world).result ≠ .error .brokenConsole)
    (dir : Path) : .runFinished dir ∉ ((runAll plan stamp).carryOut setting world).events := by
  rcases carryOut_runAll_cases plan stamp setting world rfl with
    ⟨reason, heq⟩ | ⟨-, -, told, after, heq⟩
  · rw [heq]
    exact finished_not_mem_phases plan stamp setting world dir
  · rw [heq] at hfailed hbroken
    dsimp only at hfailed hbroken
    split at hbroken
    · exact absurd rfl hbroken
    · next hwell => exact absurd (if_neg hwell) (hfailed (plan.outDir stamp))

end Run

namespace Program

variable (around : Surroundings) (options : Options) (tree : FileTree)

/-- What asking for the workspace comes to, and the world after it. -/
def found : Except Stop Path × World :=
  Workspace.find (setting around options) (World.fresh tree Sink.unlimited) options.manifestPath?

/-- The child asked for the workspace was started and sends an interrupt. -/
def askedInterrupts : Bool :=
  let command := Workspace.command options.manifestPath?
  (around.script.place tree around.cwd command).toBool &&
    (around.script.behaviour command.args).interrupting?.isSome

/-- A child that was started sent an interrupt. -/
def interrupted : Bool :=
  askedInterrupts around options tree ||
    (course around options tree).steps.any (setting around options).interrupts

/-- Every child that is started ends, or ends the program. The one asked for the workspace is not
registered, so an interrupt does not come back to it. -/
structure ChildrenEnd : Prop where
  asked : ∀ dir, around.script.place tree around.cwd (Workspace.command options.manifestPath?) =
    .ok dir →
      let behaviour := around.script.behaviour (Workspace.command options.manifestPath?).args
      behaviour.hangs = false ∧ ∀ how, behaviour.interrupting? = some how → how = .ignores
  others : ∀ command capture?,
    .started command capture? ∈ (course around options tree).steps →
      (around.script.behaviour command.args).Ends

/-- The world once the workspace was asked for. -/
def afterAsking : World :=
  { World.fresh tree Sink.unlimited with
    signals := ⟨askedInterrupts around options tree, none, []⟩ }

variable {around options tree}

theorem afterAsking_sane : (afterAsking around options tree).Sane :=
  List.forall_mem_nil _

theorem ChildrenEnd.found_eq (h : ChildrenEnd around options tree) :
    ∃ answer : Except String Path,
      found around options tree = (answer.mapError fun reason => .failed (.metadata reason),
        afterAsking around options tree) := by
  have hasked := h.asked
  simp only [found, afterAsking, askedInterrupts, Workspace.find, setting, World.fresh] at hasked ⊢
  cases hplace : around.script.place tree around.cwd (Workspace.command options.manifestPath?) with
  | error error => exact ⟨.error _, rfl⟩
  | ok dir =>
    obtain ⟨hends, hhow⟩ := hasked dir hplace
    cases hinterrupting : (around.script.behaviour
        (Workspace.command options.manifestPath?).args).interrupting? with
    | none =>
      simp [Behaviour.fate, Behaviour.lastly, Signals.quiet, hinterrupting, hends, Except.toBool]
    | some how =>
      obtain rfl := hhow how hinterrupting
      simp [Behaviour.fate, Behaviour.lastly, Signals.quiet, hinterrupting, hends, Except.toBool,
        Signals.interrupt?, Signals.forward]

variable {args : List Bytes} {stamp : String}

theorem logNames_plan (options : Options) (root : Path) :
    (plan options root).logNames =
      ["unit_tests", "integration_tests", "property_tests", "clippy", "fmt"] := rfl

theorem run_eq (hread : CommandLine.read args = .ok options) :
    run around args tree =
      ⟨(lastly around.colour (course around options tree).result
          (course around options tree).world.signals.flag).1, (course around options tree).out,
        (course around options tree).complaints ++
          (lastly around.colour (course around options tree).result
            (course around options tree).world.signals.flag).2,
        (course around options tree).world.tree⟩ := by
  simp only [run, hread]

theorem millis_isSome_of_stamp (h : Stamp.ofClock? around.clock around.offset = some stamp) :
    around.clock.millis?.isSome := by
  rw [Stamp.ofClock?] at h
  split at h
  · cases h
  · next hrange =>
    rw [Clock.millis?, if_neg fun hearly => hrange (.inl hearly)]
    rfl

theorem lastly_of_sent {result : Except Stop Path} {flag twice : Bool} (colour : Bool)
    (h : flag = true ∧ (∃ failure, result = .error (.failed failure)) ∧ twice = false ∨
      result = .error .interruptedTwice ∧ twice = true) :
    lastly colour result flag =
      (some 130, if twice then "" else Failure.interrupted.report colour) := by
  -- one interrupt sets the flag, which outweighs any failure; a second one ends the process first
  rcases h with ⟨rfl, ⟨failure, rfl⟩, rfl⟩ | ⟨rfl, rfl⟩ <;> rfl

theorem course_of_unfound {reason : Stop} {world : World}
    (h : found around options tree = (.error reason, world)) :
    course around options tree = ⟨[], .error reason, world⟩ := by
  rw [found] at h
  simp only [course, h]

section Found

variable {root : Path}
  (hfound : found around options tree = (.ok root, afterAsking around options tree))
  (hstamp : Stamp.ofClock? around.clock around.offset = some stamp)
include hfound hstamp

theorem course_of_found :
    course around options tree = (Run.runAll (plan options root) stamp).carryOut
      (setting around options) (afterAsking around options tree) := by
  rw [found] at hfound
  simp only [course, hfound, hstamp]

theorem result_ne_brokenConsole :
    (course around options tree).result ≠ .error .brokenConsole := by
  rw [course_of_found hfound hstamp]
  exact (Run.runAll_performs (plan options root) stamp).result_ne_brokenConsole (.inr ⟨rfl, rfl⟩)

theorem runFinished_not_mem_course
    (hfailed : ∀ dir, (course around options tree).result ≠ .ok dir) (dir : Path) :
    .runFinished dir ∉ (course around options tree).events := by
  have hbroken := result_ne_brokenConsole hfound hstamp
  rw [course_of_found hfound hstamp] at hfailed hbroken ⊢
  exact Run.runFinished_not_mem (plan options root) stamp hfailed hbroken dir

theorem course_of_asked (hasked : askedInterrupts around options tree = true) :
    (∀ step ∈ (course around options tree).steps, step.isNote = true) ∧
      (course around options tree).result = .error (.failed .interrupted) ∧
      (course around options tree).world.tree = tree ∧
      (course around options tree).world.signals.flag = true := by
  have hbroken := result_ne_brokenConsole hfound hstamp
  have htrigger : (setting around options).trigger? = none := rfl
  have hset : (afterAsking around options tree).signals.flag = true := hasked
  rw [course_of_found hfound hstamp] at hbroken ⊢
  obtain ⟨hnotes, hresult, htree, hflag⟩ :=
    (Run.runAll_heeds (plan options root) stamp).carryOut_of_set htrigger hset
  exact ⟨hnotes, hresult.resolve_right hbroken, htree, hflag⟩

variable (hends : ChildrenEnd around options tree)
  (hunasked : askedInterrupts around options tree = false)
include hends hunasked

theorem heeded_of_unasked :
    Heeded (setting around options) (course around options tree).steps
      (course around options tree).result (course around options tree).world.signals.flag := by
  have hothers := hends.others
  have hunset : (afterAsking around options tree).signals.flag = false := hunasked
  rw [course_of_found hfound hstamp] at hothers ⊢
  have hheeds : (Run.runAll (plan options root) stamp).Heeds false false := Run.runAll_heeds _ stamp
  exact hheeds.heeded rfl afterAsking_sane hunset hothers

theorem status_of_unsent
    (hunsent : (course around options tree).steps.any (setting around options).interrupts = false)
    (hsums : (course around options tree).Summable (plan options root)) :
    (lastly around.colour (course around options tree).result
        (course around options tree).world.signals.flag).1 = some (
      if (course around options tree).steps.any Step.isRefused then 60
      else if (course around options tree).steps.any Step.isUnsaved then 70
      else 0) := by
  obtain ⟨hflag, hinterrupted, htwice, hendless⟩ :=
    (heeded_of_unasked hfound hstamp hends hunasked).unsent hunsent
  have hbroken := result_ne_brokenConsole hfound hstamp
  have hrun := course_of_found hfound hstamp
  have hperforms := (Run.runAll_performs (plan options root) stamp).ends (setting around options)
    (afterAsking around options tree)
  rw [hrun] at hsums
  have hoverflow := Run.result_ne_overflow (plan options root) stamp hsums
  rw [← hrun] at hperforms hoverflow
  rw [hflag]
  exact hperforms.status_eq around.colour hinterrupted hoverflow hbroken htwice hendless

theorem abandons_of_sent
    (hsent : (course around options tree).steps.any (setting around options).interrupts = true)
    (hvacant : tree.Vacant around.cwd ((plan options root).outDir stamp)) :
    (∀ dir, (course around options tree).result ≠ .ok dir) ∧
    lastly around.colour (course around options tree).result
        (course around options tree).world.signals.flag =
      (some 130, if (course around options tree).steps.any (setting around options).insists then ""
        else Failure.interrupted.report around.colour) ∧
    ∃ command done phase later, (around.script.behaviour command.args).interrupting?.isSome ∧
      (course around options tree).Abandons (plan options root) stamp around.cwd command done phase
        later := by
  obtain ⟨hend, pre, command, capture?, post, hsteps, hsends, hunended, hnotes⟩ :=
    (heeded_of_unasked hfound hstamp hends hunasked).sender hsent
  have hbroken := result_ne_brokenConsole hfound hstamp
  have hrun := course_of_found hfound hstamp
  refine ⟨?_, lastly_of_sent around.colour (hend.imp_left fun ⟨hflag, hresult, hobeyed⟩ =>
    ⟨hflag, ⟨_, hresult.resolve_right hbroken⟩, hobeyed⟩), command, ?_⟩
  · intro dir hok
    rw [hok] at hend
    rcases hend with ⟨-, hresult | hresult, -⟩ | ⟨hresult, -⟩ <;> cases hresult
  · have hnodup : (plan options root).logNames.Nodup := by
      rw [logNames_plan]
      decide
    have hslash : ∀ name ∈ (plan options root).logNames, '/' ∉ name.toList := by
      rw [logNames_plan]
      decide
    rw [hrun] at hsteps ⊢
    obtain ⟨done, phase, later, habandons⟩ :=
      Run.runAll_abandons (plan options root) stamp (setting around options)
        (afterAsking around options tree) hnodup hslash hvacant hsteps hunended hnotes
    exact ⟨done, phase, later, hsends, habandons⟩

end Found

/-- The status by what stopped the program. If a child interrupted it, nothing else about the run
counts: only the interrupt is reported, or nothing if it came twice; the run is not said to be
finished; no child is started after the one that sent it, and the logs that are there are those of
the phases before, or no file at all is touched if it was the child asked for the workspace. A
workspace that is not found leaves nothing run. Past that it counts whether a child could not be
started or a log not be written, and not what any child came to. -/
theorem status_by_what_stopped_it
    (hread : CommandLine.read args = .ok options)
    (hstamp : Stamp.ofClock? around.clock around.offset = some stamp)
    (hends : ChildrenEnd around options tree)
    (hvacant : ∀ root, (found around options tree).1 = .ok root →
      tree.Vacant around.cwd ((plan options root).outDir stamp))
    (hsums : ∀ root, (found around options tree).1 = .ok root →
      (course around options tree).Summable (plan options root)) :
    let ended := run around args tree
    let course := course around options tree
    let sent := interrupted around options tree
    ended.status? = some (
      if sent then 130
      else if !(found around options tree).1.toBool then 40
      else if course.steps.any Step.isRefused then 60
      else if course.steps.any Step.isUnsaved then 70
      else 0) ∧
    ended.out = course.events.flatMap ((reporter around.colour options).bytes around.clock) ∧
    (∀ reason, (found around options tree).1 = .error reason → course.steps = []) ∧
    (sent = true →
      ended.err = (if course.steps.any (setting around options).insists then ""
        else Failure.interrupted.report around.colour) ∧
      (∀ dir, .runFinished dir ∉ course.events) ∧
      (askedInterrupts around options tree = true → course.commands = [] ∧ ended.tree = tree) ∧
      (askedInterrupts around options tree = false →
        ∃ root command done phase later, (found around options tree).1 = .ok root ∧
          (around.script.behaviour command.args).interrupting?.isSome ∧
          course.Abandons (plan options root) stamp around.cwd command done phase later)) := by
  dsimp only
  obtain ⟨answer, hfound⟩ := hends.found_eq
  rw [run_eq hread]
  cases answer with
  | error reason =>
    have hcourse : course around options tree = ⟨[], .error (.failed (.metadata reason)), _⟩ :=
      course_of_unfound hfound
    have hsent : interrupted around options tree = askedInterrupts around options tree := by
      rw [interrupted, hcourse]
      exact Bool.or_false _
    have hflag : (afterAsking around options tree).signals.flag =
        askedInterrupts around options tree := rfl
    rw [hsent, hcourse, hfound, hflag]
    cases hasked : askedInterrupts around options tree with
    | true =>
      refine ⟨rfl, rfl, fun _ _ => rfl, fun _ => ⟨rfl, ?_, fun _ => ⟨rfl, rfl⟩, ?_⟩⟩
      · intro dir hmem
        cases hmem
      · intro hunasked
        cases hunasked
    | false =>
      refine ⟨rfl, rfl, fun _ _ => rfl, ?_⟩
      intro hsent
      cases hsent
  | ok root =>
    have hfound : found around options tree = (.ok root, afterAsking around options tree) := hfound
    have hroot : (found around options tree).1 = .ok root := by rw [hfound]
    have hheard : ∀ step ∈ (course around options tree).steps,
        step.Heard (setting around options) := by
      rw [course_of_found hfound hstamp]
      exact Procedure.heard_of_unlimited _ rfl (millis_isSome_of_stamp hstamp)
    obtain ⟨hout, hcomplaints⟩ := Course.out_of_heard hheard
    rw [hcomplaints, String.empty_append]
    have hresolved : ∀ reason, (found around options tree).1 = .error reason →
        (course around options tree).steps = [] := by
      intro reason herror
      rw [hroot] at herror
      cases herror
    cases hasked : askedInterrupts around options tree with
    | true =>
      obtain ⟨hnotes, hresult, htree, hflag⟩ := course_of_asked hfound hstamp hasked
      have hsent : interrupted around options tree = true := by
        rw [interrupted, hasked]
        rfl
      have hobeyed : (course around options tree).steps.any (setting around options).insists =
          false :=
        Setting.any_insists_eq_false fun step hmem => Step.silent_of_isNote (hnotes step hmem)
      have hfailed : ∀ dir, (course around options tree).result ≠ .ok dir := by
        intro dir hok
        rw [hresult] at hok
        cases hok
      rw [hsent, lastly_of_sent around.colour (.inl ⟨hflag, ⟨_, hresult⟩, hobeyed⟩)]
      refine ⟨rfl, hout, hresolved, fun _ => ⟨rfl, runFinished_not_mem_course hfound hstamp hfailed,
        fun _ => ⟨filterMap_command?_notes hnotes, htree⟩, ?_⟩⟩
      intro hunasked
      cases hunasked
    | false =>
      have hsteps : interrupted around options tree =
          (course around options tree).steps.any (setting around options).interrupts := by
        rw [interrupted, hasked]
        rfl
      cases hsent : (course around options tree).steps.any (setting around options).interrupts with
      | true =>
        obtain ⟨hfailed, hlast, command, done, phase, later, hsends, habandons⟩ :=
          abandons_of_sent hfound hstamp hends hasked hsent (hvacant root hroot)
        rw [hsteps, hsent, hlast]
        refine ⟨rfl, hout, hresolved, fun _ => ⟨rfl,
          runFinished_not_mem_course hfound hstamp hfailed, ?_, fun _ =>
            ⟨root, command, done, phase, later, hroot, hsends, habandons⟩⟩⟩
        intro hother
        cases hother
      | false =>
        have hstatus := status_of_unsent hfound hstamp hends hasked hsent (hsums root hroot)
        rw [hsteps, hsent, hstatus, hroot]
        refine ⟨rfl, hout, fun _ herror => (by cases herror), ?_⟩
        intro hother
        cases hother

theorem interrupted_by_child_asked_for_workspace :
    let answer := "\x7b\"packages\": [], \"workspace_members\": [], \"workspace_root\": \"/\", " ++
      "\"target_directory\": \"\", \"version\": 1\x7d"
    let asked : Behaviour := ⟨[.out (Utf8.encode answer)], some .ignores, false, .exits 0⟩
    let around : Surroundings :=
      ⟨.entries [((Workspace.command none).args, asked)], fun _ => .zero, [], ⟨0, 0⟩, 0, false⟩
    let options : Options := ⟨none, none, "integration_tests", "prop_tests", false, false⟩
    let ended := run around (["cargo", "test-logs"].map Utf8.encode) .empty
    (found around options .empty).1 = .ok (Path.ofString "/") ∧ ended.status? = some 130 ∧
      ended.err = "error: interrupted by user\n" ∧
      (course around options .empty).commands = [] ∧ ended.tree = .empty := by
  intro answer asked around options ended
  have hread : CommandLine.read (["cargo", "test-logs"].map Utf8.encode) = .ok options := by rfl
  have hfound : found around options .empty =
      (.ok (Path.ofString "/"), afterAsking around options .empty) := by
    decide +kernel
  have hstamp : Stamp.ofClock? around.clock around.offset = some "1970-01-01_00-00-00" := by
    decide +kernel
  have hasked : askedInterrupts around options .empty = true := by decide +kernel
  obtain ⟨hnotes, -, -, -⟩ := course_of_asked hfound hstamp hasked
  have hnone : ∀ command capture?,
      .started command capture? ∉ (course around options .empty).steps := by
    intro command capture? hmem
    cases hnotes _ hmem
  have hends : ChildrenEnd around options .empty := by
    refine ⟨?_, fun command capture? hmem => absurd hmem (hnone command capture?)⟩
    intro dir _
    have hbehaviour : around.script.behaviour (Workspace.command none).args = asked := by
      decide +kernel
    rw [hbehaviour]
    exact ⟨rfl, fun how hhow => (Option.some.inj hhow).symm⟩
  have hroot (root : Path) (h : (found around options .empty).1 = .ok root) :
      root = Path.ofString "/" := by
    rw [hfound] at h
    exact (Except.ok.inj h).symm
  have hplace : (FileTree.empty.makeDirectories [] (Path.ofString
      "/test_logs/1970-01-01_00-00-00")).1.directory [] (Path.ofString
      "/test_logs/1970-01-01_00-00-00") =
        .ok [Utf8.encode "test_logs", Utf8.encode "1970-01-01_00-00-00"] := by
    cbv
  have hvacant : ∀ root, (found around options .empty).1 = .ok root →
      FileTree.empty.Vacant around.cwd ((plan options root).outDir "1970-01-01_00-00-00") := by
    intro root h
    have hdir : (plan options (Path.ofString "/")).outDir "1970-01-01_00-00-00" =
        Path.ofString "/test_logs/1970-01-01_00-00-00" := by
      decide +kernel
    rw [hroot root h, hdir]
    exact FileTree.empty_vacant (by decide) (by decide) hplace
  have hsums : ∀ root, (found around options .empty).1 = .ok root →
      (course around options .empty).Summable (plan options root) := by
    intro root h suite hmem results hinfix
    cases results with
    | nil => decide
    | cons result rest =>
      have hran := hinfix.subset (List.mem_cons_of_mem _ List.mem_cons_self)
      obtain ⟨step, hstep, hdeed⟩ := List.mem_filterMap.mp hran
      have hnote := hnotes step hstep
      cases step with
      | told event answer => cases hdeed
      | started | refused | saved | unsaved => cases hnote
  obtain ⟨hstatus, -, -, hsent⟩ :=
    status_by_what_stopped_it hread hstamp hends hvacant hsums
  have hinterrupted : interrupted around options .empty = true := by
    rw [interrupted, hasked]
    rfl
  rw [if_pos hinterrupted] at hstatus
  obtain ⟨herr, -, hunstarted, -⟩ := hsent hinterrupted
  rw [Setting.any_insists_eq_false fun step hmem => Step.silent_of_isNote (hnotes step hmem)]
    at herr
  exact ⟨congrArg Prod.fst hfound, hstatus, herr, hunstarted hasked⟩

end Program
end SoloRun
