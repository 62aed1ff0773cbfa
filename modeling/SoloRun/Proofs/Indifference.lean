import SoloRun.Proofs.Language

/-!
What a run does under one reporter and under another. Only a console that breaks can make a
difference; with reporters that work, the runs differ in what was written about them alone.
-/

namespace SoloRun

theorem Sink.takes_congr (sink : Sink) {first second : Bytes} (h : first.length = second.length) :
    sink.takes first = sink.takes second := by
  rw [takes, takes, h]

namespace Reporter

/-- The reporter does not break over any of the events, told one after the other. -/
def Outlasts (reporter : Reporter) (clock : Clock) : Sink → List Event → Prop
  | _, [] => True
  | sink, event :: rest =>
    (reporter.tell clock sink event).broken = false ∧
      reporter.Outlasts clock (reporter.sinkAfter clock sink event) rest

variable {reporter : Reporter} {sink : Sink} {events others : List Event}

theorem Works.outlasts (h : reporter.Works sink) (clock : Clock) (events : List Event) :
    reporter.Outlasts clock sink events := by
  induction events generalizing sink with
  | nil => trivial
  | cons event rest ih => exact ⟨h.broken_eq_false clock event, ih (h.after clock event)⟩

theorem console_outlasts_iff {look : Console.Look} {clock : Clock} :
    (console look).Outlasts clock sink events ↔
      sink.takes (events.flatMap ((console look).bytes clock)) = true ∧
        ∀ event ∈ events, Console.flushes event = true → sink.flushes = true := by
  induction events generalizing sink with
  | nil =>
    cases hroom : sink.room? <;> simp [Outlasts, Sink.takes, hroom]
  | cons event rest ih =>
    have hflushes : (sinkAfter (console look) clock sink event).flushes = sink.flushes := rfl
    rw [Outlasts, ih, List.flatMap_cons, Sink.takes_append, List.forall_mem_cons, hflushes]
    simp only [tell, sinkAfter, Bool.or_eq_false_iff, Bool.not_eq_false', Bool.and_eq_true,
      Bool.and_eq_false_iff]
    cases Console.flushes event <;> cases sink.flushes <;> simp [and_assoc]

/-- What a reporter outlasts, it outlasts in any order. -/
theorem Outlasts.perm {clock : Clock} (h : reporter.Outlasts clock sink events)
    (hperm : events.Perm others) : reporter.Outlasts clock sink others := by
  cases reporter with
  | lines => exact Works.outlasts (.inl rfl) clock others
  | console look =>
    obtain ⟨htakes, hflushes⟩ := console_outlasts_iff.mp h
    refine console_outlasts_iff.mpr ⟨?_, ?_⟩
    · rwa [← sink.takes_congr (hperm.flatMap_right _).length_eq]
    · intro event hmem
      exact hflushes event (hperm.mem_iff.mpr hmem)

end Reporter

def Setting.reporting (setting : Setting) (reporter : Reporter) (clock : Clock) : Setting :=
  { setting with reporter, clock }

def World.withSink (world : World) (sink : Sink) : World :=
  { world with sink }

/-- The step without what came of telling it. -/
def Step.hushed : Step → Step
  | .told event _ => .told event ⟨[], "", false⟩
  | step => step

theorem Step.command?_hushed (step : Step) : step.hushed.command? = step.command? := by
  cases step <;> rfl

theorem Step.event?_hushed (step : Step) : step.hushed.event? = step.event? := by
  cases step <;> rfl

namespace World

/-- Worlds that differ in the sink alone. -/
structure Alike (first second : World) : Prop where
  tree : first.tree = second.tree
  signals : first.signals = second.signals
  raised : first.raised = second.raised
  fitted : first.fitted = second.fitted
  children : first.children = second.children

namespace Alike

variable {setting : Setting} {one other : Reporter} {early late : Clock} {first second : World}

theorem withSinks (world : World) (sink other : Sink) :
    (world.withSink sink).Alike (world.withSink other) :=
  ⟨rfl, rfl, rfl, rfl, rfl⟩

theorem interrupted_eq (h : first.Alike second) :
    first.interrupted (setting.reporting one early) =
      second.interrupted (setting.reporting other late) := by
  simp only [interrupted, Setting.reporting, h.raised, h.signals]

theorem noted (h : first.Alike second) (event : Event) :
    (first.noted (setting.reporting one early) event).Alike
      (second.noted (setting.reporting other late) event) := by
  simp only [World.noted, Setting.reporting]
  split
  · exact h
  · split
    · exact ⟨h.tree, h.signals, by simp only [h.raised, h.fitted], by simp only [h.fitted],
        h.children⟩
    · exact h

theorem afterTold (h : first.Alike second) {event : Event}
    (hone : (one.tell early first.sink event).broken = false)
    (hother : (other.tell late second.sink event).broken = false) :
    (first.afterTold (setting.reporting one early) event).Alike
      (second.afterTold (setting.reporting other late) event) := by
  have hfirst : (first.told (setting.reporting one early) event).broken = false := hone
  have hsecond : (second.told (setting.reporting other late) event).broken = false := hother
  have hnoted : (first.noted (setting.reporting one early) event).Alike
      (second.noted (setting.reporting other late) event) := h.noted event
  simp only [World.afterTold, hfirst, hsecond, Bool.false_eq_true, if_false]
  exact ⟨hnoted.tree, hnoted.signals, hnoted.raised, hnoted.fitted, hnoted.children⟩

theorem withTree (h : first.Alike second) (tree : FileTree) :
    World.Alike { first with tree } { second with tree } :=
  ⟨rfl, h.signals, h.raised, h.fitted, h.children⟩

theorem start (h : first.Alike second) (setting : Setting) (one other : Reporter)
    (early late : Clock) (command : Command) :
    match first.start (setting.reporting one early) command with
    | .refused error => second.start (setting.reporting other late) command = .refused error
    | .stopped reason after =>
      ∃ later, second.start (setting.reporting other late) command = .stopped reason later ∧
        after.Alike later
    | .ended capture after =>
      ∃ later, second.start (setting.reporting other late) command = .ended capture later ∧
        after.Alike later ∧ after.sink = first.sink ∧ later.sink = second.sink := by
  simp only [World.start, Setting.reporting, ← h.tree, ← h.signals, ← h.children]
  cases setting.script.place first.tree setting.cwd command with
  | error error => rfl
  | ok dir =>
    dsimp only
    cases (setting.script.behaviour command.args).fate first.children
        (first.signals.register first.children) with
    | ended code signals =>
      exact ⟨_, rfl, ⟨rfl, rfl, h.raised, h.fitted, rfl⟩, rfl, rfl⟩
    | parentEnds => exact ⟨_, rfl, rfl, rfl, h.raised, h.fitted, rfl⟩
    | endless => exact ⟨_, rfl, rfl, rfl, h.raised, h.fitted, rfl⟩

end Alike
end World

namespace Course

variable {α : Type}

/-- Courses that differ in what came of telling alone. -/
structure Alike (first second : Course α) : Prop where
  steps : first.steps.map Step.hushed = second.steps.map Step.hushed
  result : first.result = second.result
  world : first.world.Alike second.world

variable {first second : Course α}

theorem Alike.after (h : first.Alike second) {step other : Step}
    (hstep : step.hushed = other.hushed) : (first.after step).Alike (second.after other) where
  steps := by simp only [Course.after, List.map_cons, hstep, h.steps]
  result := h.result
  world := h.world

theorem Alike.commands_eq (h : first.Alike second) : first.commands = second.commands := by
  have hseen (course : Course α) :
      course.commands = (course.steps.map Step.hushed).filterMap Step.command? := by
    simp only [commands, List.filterMap_map, Function.comp_def, Step.command?_hushed]
  rw [hseen first, hseen second, h.steps]

theorem Alike.events_eq (h : first.Alike second) : first.events = second.events := by
  have hseen (course : Course α) :
      course.events = (course.steps.map Step.hushed).filterMap Step.event? := by
    simp only [events, List.filterMap_map, Function.comp_def, Step.event?_hushed]
  rw [hseen first, hseen second, h.steps]

end Course

namespace Procedure

variable {α : Type} {one other : Reporter} {early late : Clock} {first second : World}

/-- A reporter that outlasts what is told under a reporter that works makes no difference. -/
theorem alike_of_outlasts (procedure : Procedure α) (setting : Setting) (h : first.Alike second)
    (hone : one.Works first.sink)
    (hother : other.Outlasts late second.sink
      (procedure.carryOut (setting.reporting one early) first).events) :
    (procedure.carryOut (setting.reporting one early) first).Alike
      (procedure.carryOut (setting.reporting other late) second) := by
  induction procedure generalizing first second with
  | done value => exact ⟨rfl, rfl, h⟩
  | stop reason => exact ⟨rfl, rfl, h⟩
  | poll next ih =>
    have hflag : first.interrupted (setting.reporting one early) =
        second.interrupted (setting.reporting other late) := h.interrupted_eq
    simp only [carryOut, hflag] at hother ⊢
    exact ih _ h hone hother
  | tell event next ih =>
    have hfirst : (first.told (setting.reporting one early) event).broken = false :=
      hone.broken_eq_false early event
    simp only [carryOut, hfirst, Bool.false_eq_true, if_false] at hother ⊢
    obtain ⟨hkept, hrest⟩ := hother
    have hsecond : (second.told (setting.reporting other late) event).broken = false := hkept
    simp only [hsecond, Bool.false_eq_true, if_false]
    exact (ih (h.afterTold hfirst hsecond) (hone.after early event) hrest).after rfl
  | start command next ih =>
    have hstart := h.start setting one other early late command
    simp only [carryOut] at hother ⊢
    cases hfirst : first.start (setting.reporting one early) command with
    | refused error =>
      rw [hfirst] at hstart
      rw [hstart]
      exact ⟨rfl, rfl, h⟩
    | stopped reason after =>
      rw [hfirst] at hstart
      obtain ⟨later, hsecond, hlater⟩ := hstart
      rw [hsecond]
      exact ⟨rfl, rfl, hlater⟩
    | ended capture after =>
      rw [hfirst] at hstart hother
      obtain ⟨later, hsecond, hlater, hsink, hsink'⟩ := hstart
      rw [hsecond]
      exact (ih capture hlater (hsink ▸ hone) (hsink' ▸ hother)).after rfl
  | save dir log next ih =>
    have hcwd (reporter : Reporter) (clock : Clock) :
        (setting.reporting reporter clock).cwd = setting.cwd := rfl
    simp only [carryOut, hcwd, ← h.tree] at hother ⊢
    split
    · next tree failure hwrite => exact ⟨rfl, rfl, h.withTree tree⟩
    · next tree path hwrite =>
      rw [hwrite] at hother
      exact (ih path (h.withTree tree) hone hother).after rfl

theorem alike_of_works (procedure : Procedure α) (setting : Setting) (h : first.Alike second)
    (hone : one.Works first.sink) (hother : other.Works second.sink) :
    (procedure.carryOut (setting.reporting one early) first).Alike
      (procedure.carryOut (setting.reporting other late) second) :=
  procedure.alike_of_outlasts setting h hone (hother.outlasts late _)

theorem outlasts_of_result {procedure : Procedure α} {setting : Setting} {world : World}
    (h : (procedure.carryOut setting world).result ≠ .error .brokenConsole) :
    setting.reporter.Outlasts setting.clock world.sink
      (procedure.carryOut setting world).events := by
  induction procedure generalizing world with
  | done value => trivial
  | stop reason => trivial
  | poll next ih => exact ih _ h
  | tell event next ih =>
    simp only [carryOut] at h ⊢
    split at h
    · exact absurd rfl h
    · next hkept =>
      rw [if_neg hkept]
      rw [Bool.not_eq_true] at hkept
      exact ⟨hkept, ih h⟩
  | start command next ih =>
    simp only [carryOut] at h ⊢
    cases hstart : world.start setting command with
    | refused error => trivial
    | stopped reason after => trivial
    | ended capture after =>
      rw [hstart] at h
      rw [← World.sink_of_ended hstart]
      exact ih capture h
  | save dir log next ih =>
    simp only [carryOut] at h ⊢
    split at h
    · trivial
    · next tree path hwrite => exact ih path h

theorem Performs.result_ne_brokenConsole {procedure : Procedure α}
    {language : α → List Deed → Prop} (hp : procedure.Performs language) {setting : Setting}
    {world : World} (hworks : setting.reporter.Works world.sink) :
    (procedure.carryOut setting world).result ≠ .error .brokenConsole := by
  induction procedure generalizing language world with
  | done value => simp [carryOut]
  | stop reason => rcases hp.1 with rfl | rfl <;> simp [carryOut]
  | poll next ih => exact ih _ (hp _) hworks
  | tell event next ih =>
    simp only [carryOut, world.told_not_broken hworks, Bool.false_eq_true, if_false]
    exact ih hp (world.afterTold_works event hworks)
  | start command next ih =>
    simp only [carryOut]
    cases hstart : world.start setting command with
    | refused error => simp
    | stopped reason after =>
      rcases World.reason_of_stopped hstart with rfl | rfl <;> simp
    | ended capture after =>
      exact ih capture (hp capture) (World.sink_of_ended hstart ▸ hworks)
  | save dir log next ih =>
    simp only [carryOut]
    split
    · simp
    · next tree path hwrite => exact ih path (hp.2 path (Log.eq_path_of_write hwrite)) hworks

end Procedure

namespace Run

/-- Which reporter looks on does not matter, as long as it is not a console that breaks: the run
comes to the same end, takes the same steps, and leaves the same files. A sink that fails the
reporter of lines, however early, changes none of that. -/
theorem runAll_indifferent_to_reporter (plan : Plan) (stamp : String) (setting : Setting)
    (world : World) (one other : Reporter) (early late : Clock) (sink otherSink : Sink)
    (hone : one.Works sink) (hother : other.Works otherSink) :
    let first := (runAll plan stamp).carryOut (setting.reporting one early) (world.withSink sink)
    let second :=
      (runAll plan stamp).carryOut (setting.reporting other late) (world.withSink otherSink)
    first.result = second.result ∧ first.result ≠ .error .brokenConsole ∧
      first.steps.map Step.hushed = second.steps.map Step.hushed ∧
      first.commands = second.commands ∧ first.events = second.events ∧
      first.world.tree = second.world.tree := by
  intro first second
  have halike : first.Alike second :=
    (runAll plan stamp).alike_of_works setting (.withSinks world sink otherSink) hone hother
  exact ⟨halike.result, (runAll_performs plan stamp).result_ne_brokenConsole hone, halike.steps,
    halike.commands_eq, halike.events_eq, halike.world.tree⟩

theorem runAll_indifferent_to_full_sink :
    let plan : Plan := ⟨Path.ofString "/", Path.ofString "/logs", [], [⟨"fmt", .format⟩]⟩
    let setting : Setting := ⟨.entries [], fun _ => .zero, [], .lines, ⟨0, 0⟩, none⟩
    let full : Sink := ⟨some 3, false⟩
    let console : Reporter := .console ⟨true, true⟩
    let first := (runAll plan "now").carryOut (setting.reporting .lines ⟨0, 0⟩)
      ((World.fresh .empty .unlimited).withSink full)
    let second := (runAll plan "now").carryOut (setting.reporting console ⟨5, 0⟩)
      ((World.fresh .empty .unlimited).withSink .unlimited)
    Reporter.lines.Works full ∧ console.Works .unlimited ∧ first.result = second.result ∧
      first.result ≠ .error .brokenConsole ∧ first.commands = second.commands ∧
      first.world.tree = second.world.tree := by
  intro plan setting full console first second
  obtain ⟨hresult, hwell, -, hcommands, -, htree⟩ :=
    runAll_indifferent_to_reporter plan "now" setting (.fresh .empty .unlimited) .lines console
      ⟨0, 0⟩ ⟨5, 0⟩ full .unlimited (.inl rfl) (.inr ⟨rfl, rfl⟩)
  exact ⟨.inl rfl, .inr ⟨rfl, rfl⟩, hresult, hwell, hcommands, htree⟩

end Run
end SoloRun
