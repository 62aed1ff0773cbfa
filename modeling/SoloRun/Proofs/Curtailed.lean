import SoloRun.Proofs.Announced
import SoloRun.Proofs.Indifference

/-!
A run told to a console whose sink has little room against the same run told where there is room for
all. They go the same way until the room is used up; there the first breaks off, in the middle of
what it tells.
-/

namespace SoloRun

namespace Reporter

variable {look : Console.Look} {clock : Clock} {event : Event}

theorem tell_console {sink : Sink} (hflushes : sink.flushes = true) :
    (console look).tell clock sink event =
      ⟨sink.kept ((console look).bytes clock event), "",
        !sink.takes ((console look).bytes clock event)⟩ := by
  simp [tell, hflushes]

theorem tell_console_unlimited :
    (console look).tell clock .unlimited event = ⟨(console look).bytes clock event, "", false⟩ :=
  tell_console rfl

end Reporter

namespace Course

variable {α : Type}

/-- The one course is the other as far as the sink takes what that writes: both are the same, or
the sink is full and the one ends in the event that it is full in. -/
inductive Curtails (sink : Sink) (cut whole : Course α) : Prop
  | spared (takes : sink.takes whole.out = true) (steps : cut.steps = whole.steps)
    (result : cut.result = whole.result) (world : cut.world.Alike whole.world)
  | broken (before after : List Step) (event : Event) (heard lost : Told)
    (full : sink.takes whole.out = false) (cutSteps : cut.steps = before ++ [.told event lost])
    (wholeSteps : whole.steps = before ++ .told event heard :: after)
    (out : cut.out = sink.kept whole.out) (result : cut.result = .error .brokenConsole)

theorem Curtails.of_silent {sink : Sink} {cut whole : Course α} (hout : whole.out = [])
    (hsteps : cut.steps = whole.steps) (hresult : cut.result = whole.result)
    (hworld : cut.world.Alike whole.world) : cut.Curtails sink whole :=
  .spared (by rw [hout, Sink.takes_nil]) hsteps hresult hworld

theorem out_after (course : Course α) (step : Step) :
    (course.after step).out = step.out ++ course.out := rfl

theorem Curtails.after {sink : Sink} {cut whole : Course α} {step : Step}
    (h : cut.Curtails (sink.after step.out) whole) (htakes : sink.takes step.out = true) :
    (cut.after step).Curtails sink (whole.after step) := by
  have hkept := Sink.kept_eq_of_takes htakes
  cases h with
  | spared takes steps result world =>
    refine .spared ?_ (congrArg (step :: ·) steps) result world
    rw [out_after, Sink.takes_append, htakes, takes]
    rfl
  | broken before after event heard lost full cutSteps wholeSteps out result =>
    refine .broken (step :: before) after event heard lost ?_ (congrArg (step :: ·) cutSteps)
      (congrArg (step :: ·) wholeSteps) ?_ result
    · rw [out_after, Sink.takes_append, htakes, full]
      rfl
    · rw [out_after, out_after, Sink.kept_append, hkept, out]

theorem Curtails.after_silent {sink : Sink} {cut whole : Course α} {step : Step}
    (h : cut.Curtails sink whole) (hsilent : step.out = []) :
    (cut.after step).Curtails sink (whole.after step) :=
  Curtails.after (by rwa [hsilent, Sink.after_nil]) (by rw [hsilent, Sink.takes_nil])

variable {room : Nat} {flushes : Bool} {cut whole : Course α}

theorem Curtails.of_le (h : cut.Curtails ⟨some room, flushes⟩ whole)
    (hle : whole.out.length ≤ room) :
    cut.steps = whole.steps ∧ cut.result = whole.result ∧ cut.world.Alike whole.world := by
  cases h with
  | spared takes steps result world => exact ⟨steps, result, world⟩
  | broken before after event heard lost full => simp [Sink.takes, Nat.not_lt.mpr hle] at full

theorem Curtails.of_lt (h : cut.Curtails ⟨some room, flushes⟩ whole)
    (hlt : room < whole.out.length) :
    cut.result = .error .brokenConsole ∧ cut.out = whole.out.take room ∧
      cut.commands <+: whole.commands := by
  cases h with
  | spared takes =>
    have hle : whole.out.length ≤ room := by simpa [Sink.takes] using takes
    exact absurd hlt (Nat.not_lt.mpr hle)
  | broken before after event heard lost full cutSteps wholeSteps out result =>
    refine ⟨result, out, (Step.told event heard :: after).filterMap Step.command?, ?_⟩
    rw [commands, commands, cutSteps, wholeSteps, List.filterMap_append, List.filterMap_append]
    simp [Step.command?]

end Course

namespace Procedure

variable {α : Type} {look : Console.Look} {clock : Clock} {tight ample : World}

/-- The console gives up where the sink is full, and up to there nothing depends on the sink. -/
theorem curtails_of_unlimited (procedure : Procedure α) (setting : Setting)
    (h : tight.Alike ample) (hflushes : tight.sink.flushes = true)
    (hample : ample.sink = .unlimited) :
    (procedure.carryOut (setting.reporting (.console look) clock) tight).Curtails tight.sink
      (procedure.carryOut (setting.reporting (.console look) clock) ample) := by
  induction procedure generalizing tight ample with
  | done value => exact .of_silent rfl rfl rfl h
  | stop reason => exact .of_silent rfl rfl rfl h
  | poll next ih =>
    have hflag : tight.interrupted (setting.reporting (.console look) clock) =
        ample.interrupted (setting.reporting (.console look) clock) := h.interrupted_eq
    simp only [carryOut, hflag]
    exact ih _ h hflushes hample
  | tell event next ih =>
    have hheard : ample.told (setting.reporting (.console look) clock) event =
        ⟨(Reporter.console look).bytes clock event, "", false⟩ := by
      rw [World.told, hample]
      exact Reporter.tell_console_unlimited
    have htold : tight.told (setting.reporting (.console look) clock) event =
        ⟨tight.sink.kept ((Reporter.console look).bytes clock event), "",
          !tight.sink.takes ((Reporter.console look).bytes clock event)⟩ :=
      Reporter.tell_console hflushes
    simp only [carryOut, hheard, htold, Bool.false_eq_true, if_false]
    cases htakes : tight.sink.takes ((Reporter.console look).bytes clock event) with
    | true =>
      have hunbroken : (tight.told (setting.reporting (.console look) clock) event).broken =
          false := by
        rw [htold, htakes]
        rfl
      have hafter : (tight.afterTold (setting.reporting (.console look) clock) event).Alike
          (ample.afterTold (setting.reporting (.console look) clock) event) :=
        h.afterTold hunbroken (congrArg Told.broken hheard)
      simp only [Sink.kept_eq_of_takes htakes, Bool.not_true, Bool.false_eq_true, if_false]
      refine Course.Curtails.after ?_ htakes
      exact ih hafter hflushes (congrArg (Sink.after · _) hample)
    | false =>
      have hrest := fun course : Course α => Sink.kept_append_of_not_takes htakes course.out
      simp only [Bool.not_false, if_true]
      refine .broken [] _ event _ _ ?_ rfl rfl ?_ rfl
      · rw [Course.out_after, Sink.takes_append]
        exact Bool.and_eq_false_imp.mpr fun htrue => absurd htrue (by simp [Step.out, htakes])
      · rw [Course.out_after]
        exact (List.append_nil _).trans (hrest _).symm
  | start command next ih =>
    have hstart := h.start setting (.console look) (.console look) clock clock command
    simp only [carryOut]
    cases hcut : tight.start (setting.reporting (.console look) clock) command with
    | refused error =>
      rw [hcut] at hstart
      rw [hstart]
      exact .of_silent rfl rfl rfl h
    | stopped reason after =>
      rw [hcut] at hstart
      obtain ⟨later, hwhole, hlater⟩ := hstart
      rw [hwhole]
      exact .of_silent rfl rfl rfl hlater
    | ended capture after =>
      rw [hcut] at hstart
      obtain ⟨later, hwhole, hlater, hsink, hsink'⟩ := hstart
      rw [hwhole]
      have hrest := ih capture hlater (hsink ▸ hflushes) (hsink'.trans hample)
      rw [hsink] at hrest
      exact hrest.after_silent rfl
  | save dir log next ih =>
    simp only [carryOut, h.tree]
    split
    · exact .of_silent rfl rfl rfl (h.withTree _)
    · next tree path _ =>
      exact (ih path (h.withTree tree) hflushes hample).after_silent rfl

end Procedure

theorem Replay.of_concat_unlogged {cwd : Place} {dir : Path} {tree after : FileTree}
    {steps : List Step} {step : Step} (h : Replay cwd dir tree (steps ++ [step]) after)
    (unlogged : step.log? = none) : Replay cwd dir tree steps after := by
  induction steps generalizing tree with
  | nil => exact h.of_unlogged unlogged
  | cons first rest ih =>
    rw [List.cons_append] at h
    generalize htail : rest ++ [step] = tail at h
    cases h with
    | other unlogged' more => exact .other unlogged' (ih (htail ▸ more))
    | saved write more => exact .saved write (ih (htail ▸ more))
    | unsaved => simp at htail

theorem Course.Curtails.replay {α : Type} {sink : Sink} {cut whole : Course α} {cwd : Place}
    {dir : Path} {tree last : FileTree} (h : cut.Curtails sink whole)
    (hcut : Replay cwd dir tree cut.steps last) :
    ∃ before more, whole.steps = before ++ more ∧ Replay cwd dir tree before last ∧
      keptLogs cut.steps = keptLogs before := by
  cases h with
  | spared takes steps =>
    exact ⟨whole.steps, [], (List.append_nil _).symm, steps ▸ hcut, congrArg keptLogs steps⟩
  | broken before after event heard lost full cutSteps wholeSteps =>
    rw [cutSteps] at hcut ⊢
    refine ⟨before, _, wholeSteps, hcut.of_concat_unlogged rfl, ?_⟩
    simp [keptLogs, Step.deed?, Deed.log?]

theorem Course.Curtails.keepsFiles {α : Type} {sink : Sink} {cut whole : Course α} {cwd : Place}
    {dir : Path} {tree : FileTree} (h : cut.Curtails sink whole)
    (hcut : Replay cwd dir tree cut.steps cut.world.tree)
    (hall : Replay cwd dir tree whole.steps whole.world.tree)
    (hready : tree.Ready cwd dir [] whole.steps) :
    cut.world.tree.KeepsFiles whole.world.tree ∧ keptLogs cut.steps ⊆ keptLogs whole.steps := by
  obtain ⟨before, more, hwhole, hbefore, hkept⟩ := h.replay hcut
  rw [hwhole] at hall hready
  refine ⟨hbefore.keepsFiles_of_prefix hall hready, ?_⟩
  rw [hkept, hwhole, keptLogs, keptLogs, List.filterMap_append, List.filterMap_append]
  exact List.subset_append_left _ _

theorem FileTree.Holds.of_file {tree final : FileTree} {cwd place other : Place} {dir : Path}
    {logs : List Log} {content : Bytes}
    (hplace : (tree.makeDirectories cwd dir).2 = .ok () →
      (tree.makeDirectories cwd dir).1.Hosts cwd dir place)
    (hplain : tree.Unlinked cwd dir) (hgrows : (tree.afterLogs cwd dir place logs).Grows final)
    (h : tree.Holds cwd dir place logs) (hfile : final.find? other = some (.file content)) :
    tree.find? other = some (.file content) ∨
      ∃ log ∈ logs, content = Utf8.encode log.text ∧ final.Reaches cwd (log.path dir) other := by
  by_cases hlog : ∃ log ∈ logs, other = place ++ [Log.file log.name]
  · obtain ⟨log, hmem, rfl⟩ := hlog
    have hwritten := hgrows
    rw [afterLogs_of_ne_nil (List.ne_nil_of_mem hmem)] at hwritten
    have hlogged := hwritten.keeps (find?_withLogs h.nodup hmem)
    rw [hlogged] at hfile
    cases hfile
    exact .inr ⟨log, hmem, rfl, (h.content? hplace hplain hgrows hmem).2⟩
  · refine .inl ((find?_afterLogs_file_iff hgrows ?_).mp hfile)
    intro log hmem heq
    exact hlog ⟨log, hmem, heq⟩

namespace Run

variable (plan : Plan) (stamp : String) (setting : Setting) (world : World)

theorem runAll_file_cases (hnodup : plan.logNames.Nodup)
    (hslash : ∀ name ∈ plan.logNames, '/' ∉ name.toList)
    (hplain : world.tree.Unlinked setting.cwd (plan.outDir stamp)) {place : Place}
    {content : Bytes} :
    let course := (runAll plan stamp).carryOut setting world
    course.world.tree.find? place = some (.file content) →
      world.tree.find? place = some (.file content) ∨
        ∃ log ∈ keptLogs course.steps, content = Utf8.encode log.text ∧
          course.world.tree.Reaches setting.cwd (log.path (plan.outDir stamp)) place := by
  intro course hfile
  obtain ⟨home, hplace, hholds, hgrows, -⟩ :=
    runAll_holds plan stamp setting world hnodup hslash hplain
  exact hholds.of_file hplace hplain hgrows hfile

theorem runAll_ready (hnodup : plan.logNames.Nodup)
    (hslash : ∀ name ∈ plan.logNames, '/' ∉ name.toList)
    (hvacant : world.tree.Vacant setting.cwd (plan.outDir stamp)) :
    world.tree.Ready setting.cwd (plan.outDir stamp) []
      ((runAll plan stamp).carryOut setting world).steps := by
  obtain ⟨-, hnames⟩ := (runAll_saves plan stamp).replay setting world
  exact ⟨.inl ⟨rfl, hvacant⟩, fun name hmem => hslash name (hnames.subset hmem),
    hnodup.sublist hnames.sublist⟩

theorem runAll_file_of_curtails {tight : World} {sink : Sink}
    (hcurtails : ((runAll plan stamp).carryOut setting tight).Curtails sink
      ((runAll plan stamp).carryOut setting world))
    (htree : tight.tree = world.tree) (hnodup : plan.logNames.Nodup)
    (hslash : ∀ name ∈ plan.logNames, '/' ∉ name.toList)
    (hvacant : world.tree.Vacant setting.cwd (plan.outDir stamp)) {place : Place}
    {content : Bytes} :
    let whole := (runAll plan stamp).carryOut setting world
    let cut := (runAll plan stamp).carryOut setting tight
    cut.world.tree.find? place = some (.file content) →
      whole.world.tree.find? place = some (.file content) ∧
        (world.tree.find? place = some (.file content) ∨
          ∃ log ∈ whole.deeds.filterMap Deed.log?, content = Utf8.encode log.text ∧
            cut.world.tree.Reaches setting.cwd (log.path (plan.outDir stamp)) place) := by
  intro whole cut hfile
  obtain ⟨hcut, -⟩ := (runAll_saves plan stamp).replay setting tight
  obtain ⟨hall, -⟩ := (runAll_saves plan stamp).replay setting world
  rw [htree] at hcut
  have hready := runAll_ready plan stamp setting world hnodup hslash hvacant
  have hunlinked : tight.tree.Unlinked setting.cwd (plan.outDir stamp) :=
    htree ▸ hvacant.unlinked
  obtain ⟨hkeeps, hlogs⟩ := hcurtails.keepsFiles hcut hall hready
  refine ⟨hkeeps place content hfile, ?_⟩
  rw [← htree]
  refine (runAll_file_cases plan stamp setting tight hnodup hslash hunlinked hfile).imp_right ?_
  rintro ⟨log, hmem, hcontent, hreaches⟩
  exact ⟨log, hlogs hmem, hcontent, hreaches⟩

/-- What is written to a sink that fails past so many bytes is the start of what would be written.
The run is the same if that is all of it, and otherwise breaks off: of the children it has started
the first ones, and of the logs it has written the first ones, each of them whole. -/
theorem full_sink_cuts_run (look : Console.Look) (clock : Clock) (room : Nat) :
    let run (sink : Sink) := (runAll plan stamp).carryOut
      (setting.reporting (.console look) clock) (world.withSink sink)
    let whole := run .unlimited
    let cut := run ⟨some room, true⟩
    (whole.out.length ≤ room →
      cut.steps = whole.steps ∧ cut.result = whole.result ∧ cut.world.Alike whole.world) ∧
    (room < whole.out.length →
      cut.result = .error .brokenConsole ∧ cut.out = whole.out.take room ∧
        cut.commands <+: whole.commands) ∧
    (plan.logNames.Nodup → (∀ name ∈ plan.logNames, '/' ∉ name.toList) →
      world.tree.Vacant setting.cwd (plan.outDir stamp) →
      ∀ place content, cut.world.tree.find? place = some (.file content) →
        whole.world.tree.find? place = some (.file content) ∧
          (world.tree.find? place = some (.file content) ∨
            ∃ log ∈ whole.deeds.filterMap Deed.log?, content = Utf8.encode log.text ∧
              cut.world.tree.Reaches setting.cwd (log.path (plan.outDir stamp)) place)) := by
  dsimp only
  have hcurtails : Course.Curtails ⟨some room, true⟩
      ((runAll plan stamp).carryOut (setting.reporting (.console look) clock)
        (world.withSink ⟨some room, true⟩))
      ((runAll plan stamp).carryOut (setting.reporting (.console look) clock)
        (world.withSink .unlimited)) :=
    (runAll plan stamp).curtails_of_unlimited setting (.withSinks world _ _) rfl rfl
  refine ⟨hcurtails.of_le, hcurtails.of_lt, ?_⟩
  intro hnodup hslash hvacant place content
  exact runAll_file_of_curtails plan stamp (setting.reporting (.console look) clock)
    (world.withSink .unlimited) hcurtails rfl hnodup hslash hvacant

theorem full_sink_cuts_last_line :
    let plan : Plan := ⟨Path.ofString "/", Path.ofString "/logs", [], []⟩
    let setting : Setting := ⟨.entries [], fun _ => .zero, [], .lines, ⟨0, 0⟩, none⟩
    let run (sink : Sink) := (runAll plan "now").carryOut
      (setting.reporting (.console ⟨false, false⟩) ⟨0, 0⟩)
      ((World.fresh .empty .unlimited).withSink sink)
    70 < (run .unlimited).out.length ∧ (run ⟨some 70, true⟩).result = .error .brokenConsole ∧
      (run ⟨some 70, true⟩).out = (run .unlimited).out.take 70 := by
  intro plan setting run
  have hlt : 70 < (run .unlimited).out.length := by decide +kernel
  obtain ⟨-, hcut, -⟩ := full_sink_cuts_run plan "now" setting (.fresh .empty .unlimited)
    ⟨false, false⟩ ⟨0, 0⟩ 70
  obtain ⟨hresult, hout, -⟩ := hcut hlt
  exact ⟨hlt, hresult, hout⟩

end Run
end SoloRun
