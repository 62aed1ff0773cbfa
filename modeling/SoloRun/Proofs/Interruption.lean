import SoloRun.Proofs.Heeding
import SoloRun.Proofs.Progress
import SoloRun.Proofs.Saving

/-!
A run that is interrupted by its own flag against the run that never is: they go the same way until
one of them finds its flag set, and that one stops there.
-/

namespace SoloRun

namespace Setting

def flagged (setting : Setting) (trigger : Trigger) : Setting :=
  { setting with trigger? := some trigger }

def steady (setting : Setting) : Setting :=
  { setting with trigger? := none }

def Silent (setting : Setting) : Prop :=
  ∀ args, (setting.script.behaviour args).interrupting? = none

end Setting

namespace World

/-- Worlds that differ in a run's own flag alone, the flag of the signals being unset. -/
structure Twin (first second : World) : Prop where
  tree : first.tree = second.tree
  signals : first.signals = second.signals
  children : first.children = second.children
  sink : first.sink = second.sink
  unset : second.signals.flag = false

namespace Twin

variable {setting : Setting} {trigger : Trigger} {first second : World}

theorem fresh (tree : FileTree) (sink : Sink) :
    (World.fresh tree sink).Twin (.fresh tree sink) :=
  ⟨rfl, rfl, rfl, rfl, rfl⟩

theorem interrupted_eq_false (h : first.Twin second) :
    second.interrupted setting.steady = false := h.unset

theorem told_eq (h : first.Twin second) (event : Event) :
    first.told (setting.flagged trigger) event = second.told setting.steady event := by
  rw [told, told, h.sink]
  rfl

theorem afterTold (h : first.Twin second) (event : Event) :
    (first.afterTold (setting.flagged trigger) event).Twin
      (second.afterTold setting.steady event) := by
  obtain ⟨htree, hsignals, hchildren⟩ := afterTold_eq (setting.flagged trigger) first event
  obtain ⟨htree', hsignals', hchildren'⟩ := afterTold_eq setting.steady second event
  constructor
  · rw [htree, htree', h.tree]
  · rw [hsignals, hsignals', h.signals]
  · rw [hchildren, hchildren', h.children]
  · rw [World.afterTold, World.afterTold, h.sink]
    rfl
  · rw [hsignals', h.unset]

theorem withTree (h : first.Twin second) (tree : FileTree) :
    World.Twin { first with tree } { second with tree } :=
  ⟨rfl, h.signals, h.children, h.sink, h.unset⟩

theorem start (h : first.Twin second) (trigger : Trigger) (hsilent : setting.Silent)
    (command : Command) :
    match second.start setting.steady command with
    | .refused error => first.start (setting.flagged trigger) command = .refused error
    | .stopped reason _ =>
      ∃ after, first.start (setting.flagged trigger) command = .stopped reason after
    | .ended capture later =>
      ∃ after, first.start (setting.flagged trigger) command = .ended capture after ∧
        after.Twin later := by
  obtain ⟨tree, signals, raised, fitted, children, sink⟩ := first
  obtain ⟨htree, hsignals, hchildren, hsink, hunset⟩ := h
  dsimp only at htree hsignals hchildren hsink
  subst htree hsignals hchildren hsink
  unfold World.start Setting.flagged Setting.steady
  dsimp only
  cases setting.script.place second.tree setting.cwd command with
  | error error => rfl
  | ok dir =>
    dsimp only
    cases hfate : (setting.script.behaviour command.args).fate second.children
        (second.signals.register second.children) with
    | parentEnds => exact ⟨_, rfl⟩
    | endless => exact ⟨_, rfl⟩
    | ended code after =>
      refine ⟨_, rfl, rfl, rfl, rfl, rfl, ?_⟩
      have hregister := Signals.register_flag second.signals second.children
      rcases Behaviour.ended_cases hfate with ⟨-, rfl⟩ | ⟨-, rfl⟩ | ⟨hsends, -, -⟩
      · exact hregister.trans hunset
      · exact hregister.trans hunset
      · rw [hsilent command.args] at hsends
        cases hsends

end Twin
end World

namespace Course

variable {α : Type}

def BrokenOff (broken whole : Course α) : Prop :=
  ∃ more, whole.steps = broken.steps ++ more ∧
    (broken.result = .error (.failed .interrupted) ∨ more = [] ∧ broken.result = whole.result)

theorem BrokenOff.of_eq {broken whole : Course α} (hsteps : broken.steps = whole.steps)
    (hresult : broken.result = whole.result) : broken.BrokenOff whole :=
  ⟨[], by rw [hsteps, List.append_nil], .inr ⟨rfl, hresult⟩⟩

theorem BrokenOff.after {broken whole : Course α} (h : broken.BrokenOff whole) (step : Step) :
    (broken.after step).BrokenOff (whole.after step) := by
  obtain ⟨more, hsteps, hresult⟩ := h
  exact ⟨more, congrArg (step :: ·) hsteps, hresult⟩

end Course

namespace Procedure

variable {α : Type}

/-- Stops wherever it finds the flag set. -/
def Polite : Procedure α → Prop
  | .done _ | .stop _ => True
  | .poll next => next true = .stop (.failed .interrupted) ∧ (next false).Polite
  | .tell _ next => next.Polite
  | .start _ next => ∀ capture, (next capture).Polite
  | .save _ _ next => ∀ path, (next path).Polite

theorem Heeds.polite {procedure : Procedure α} {owing left : Bool}
    (h : procedure.Heeds owing left) : procedure.Polite := by
  induction procedure generalizing owing with
  | done | stop => trivial
  | poll next ih => exact ⟨h.1, ih false h.2⟩
  | tell event next ih => exact ih h.2
  | start command next ih =>
    intro capture
    exact ih capture (h.2 capture)
  | save dir log next ih =>
    intro path
    exact ih path (h.2 path)

variable {setting : Setting} {trigger : Trigger}

theorem Polite.twin {procedure : Procedure α} (hp : procedure.Polite) (hsilent : setting.Silent)
    {first second : World} (htwin : first.Twin second) :
    (procedure.carryOut (setting.flagged trigger) first).BrokenOff
      (procedure.carryOut setting.steady second) := by
  induction procedure generalizing first second with
  | done | stop => exact .of_eq rfl rfl
  | poll next ih =>
    simp only [carryOut, htwin.interrupted_eq_false]
    cases first.interrupted (setting.flagged trigger) with
    | true =>
      rw [hp.1]
      exact ⟨_, rfl, .inl rfl⟩
    | false => exact ih false hp.2 htwin
  | tell event next ih =>
    simp only [carryOut, htwin.told_eq event]
    split
    · exact .of_eq rfl rfl
    · exact (ih hp (htwin.afterTold event)).after _
  | start command next ih =>
    have hstart := htwin.start trigger hsilent command
    simp only [carryOut]
    cases hsecond : second.start setting.steady command with
    | refused error =>
      rw [hsecond] at hstart
      rw [hstart]
      exact .of_eq rfl rfl
    | stopped reason later =>
      rw [hsecond] at hstart
      obtain ⟨after, hfirst⟩ := hstart
      rw [hfirst]
      exact .of_eq rfl rfl
    | ended capture later =>
      rw [hsecond] at hstart
      obtain ⟨after, hfirst, hafter⟩ := hstart
      rw [hfirst]
      exact (ih capture (hp capture) hafter).after _
  | save dir log next ih =>
    have hcwd : (setting.flagged trigger).cwd = setting.steady.cwd := rfl
    simp only [carryOut, hcwd, htwin.tree]
    split
    · exact .of_eq rfl rfl
    · next tree path _ => exact (ih path (hp path) (htwin.withTree tree)).after _

end Procedure

namespace Run

open Procedure

variable (plan : Plan) (stamp : String)

theorem runAll_polite : (runAll plan stamp).Polite := by
  have hheeds : (runAll plan stamp).Heeds false false := runAll_heeds plan stamp
  exact hheeds.polite

theorem runAll_of_flag_before_finished {setting : Setting} {world : World} (hsane : world.Sane)
    {pre post : List Step} {last : Step}
    (hsteps : ((runAll plan stamp).carryOut setting world).steps = pre ++ last :: post)
    (hflag : setting.flagAfter world (pre ++ [last]) = true)
    (hbefore : ∀ dir, .runFinished dir ∉ (pre ++ [last]).filterMap Step.event?) :
    (∀ dir, ((runAll plan stamp).carryOut setting world).result ≠ .ok dir) ∧
      ∀ dir, .runFinished dir ∉ ((runAll plan stamp).carryOut setting world).events := by
  rcases carryOut_runAll_cases plan stamp setting world rfl with
    ⟨reason, heq⟩ | ⟨hresult, hunset, told, after, heq⟩
  · rw [heq]
    refine ⟨?_, finished_not_mem_phases plan stamp setting world⟩
    intro dir hdir
    cases hdir
  · exfalso
    rw [heq] at hsteps
    have hunflagged := (setting.flagAfter_carryOut hsane hresult).trans hunset
    rcases append_cases hsteps with ⟨more, hphases⟩ | ⟨body, -, hbody⟩
    · -- a set flag stays set, but the run got past the last look at it
      have hset := setting.flagAfter_append world hflag more
      rw [← hphases, hunflagged] at hset
      cases hset
    · have hlast : last = .told (.runFinished (plan.outDir stamp)) told := by
        cases body with
        | nil => exact (List.cons.inj hbody).1.symm
        | cons step body => simp at hbody
      apply hbefore (plan.outDir stamp)
      simp [hlast, Step.event?]

/-- A run interrupted by its own flag is the start of the run that is not: it tells, writes and
starts what the other does up to where it stops, and every file it leaves the other leaves too. It
ends as the other does or as interrupted, and not well if the flag was set before it said that it was
finished. -/
theorem interrupted_run_starts_uninterrupted (setting : Setting) (trigger : Trigger)
    (tree : FileTree) (sink : Sink) (hnodup : plan.logNames.Nodup)
    (hslash : ∀ name ∈ plan.logNames, '/' ∉ name.toList) (hsilent : setting.Silent)
    (hvacant : tree.Vacant setting.cwd (plan.outDir stamp)) :
    let fresh := World.fresh tree sink
    let broken := (runAll plan stamp).carryOut (setting.flagged trigger) fresh
    let whole := (runAll plan stamp).carryOut setting.steady fresh
    broken.events <+: whole.events ∧ broken.out <+: whole.out ∧
      broken.commands <+: whole.commands ∧ broken.world.tree.KeepsFiles whole.world.tree ∧
      (broken.result = .error (.failed .interrupted) ∨ broken.result = whole.result) ∧
      ∀ pre last post, broken.steps = pre ++ last :: post →
        (setting.flagged trigger).flagAfter fresh (pre ++ [last]) = true →
        (∀ dir, .runFinished dir ∉ (pre ++ [last]).filterMap Step.event?) →
        (∀ dir, broken.result ≠ .ok dir) ∧ ∀ dir, .runFinished dir ∉ broken.events := by
  intro fresh broken whole
  obtain ⟨more, hsteps, hresult⟩ : ∃ more, whole.steps = broken.steps ++ more ∧ _ :=
    (runAll_polite plan stamp).twin hsilent (.fresh tree sink)
  obtain ⟨hbroken, -⟩ := (runAll_saves plan stamp).replay (setting.flagged trigger) fresh
  obtain ⟨hwhole, hnames⟩ := (runAll_saves plan stamp).replay setting.steady fresh
  have hready : tree.Ready setting.cwd (plan.outDir stamp) [] (broken.steps ++ more) := by
    rw [← hsteps]
    exact ⟨.inl ⟨rfl, hvacant⟩, fun name hmem => hslash name (hnames.subset hmem),
      hnodup.sublist hnames.sublist⟩
  have hfiles : broken.world.tree.KeepsFiles whole.world.tree := by
    rw [hsteps] at hwhole
    exact hbroken.keepsFiles_of_prefix hwhole hready
  refine ⟨?_, ?_, ?_, hfiles, hresult.imp_right (·.2), ?_⟩
  · exact ⟨more.filterMap Step.event?, by simp [Course.events, hsteps]⟩
  · exact ⟨more.flatMap Step.out, by simp [Course.out, hsteps]⟩
  · exact ⟨more.filterMap Step.command?, by simp [Course.commands, hsteps]⟩
  · intro pre last post
    exact runAll_of_flag_before_finished plan stamp (World.fresh_sane tree sink)

theorem interrupted_check_starts_uninterrupted :
    let root := Path.ofString "/"
    let plan : Plan := ⟨root, Path.ofString "/logs", [], [⟨"fmt", .format⟩]⟩
    let setting : Setting := ⟨.entries [], fun _ => .zero, [], .lines, ⟨0, 0⟩, none⟩
    let broken := (runAll plan "now").carryOut (setting.flagged ⟨.checkStart, none, 1⟩)
      (.fresh .empty .unlimited)
    ∀ dir, broken.result ≠ .ok dir := by
  intro root plan setting
  have hplace : (FileTree.empty.makeDirectories [] (plan.outDir "now")).1.directory []
      (plan.outDir "now") = .ok [Utf8.encode "logs", Utf8.encode "now"] := by
    cbv
  have hvacant : FileTree.empty.Vacant [] (plan.outDir "now") :=
    FileTree.empty_vacant (by decide) (by decide) hplace
  exact ((interrupted_run_starts_uninterrupted plan "now" setting ⟨.checkStart, none, 1⟩ .empty
    .unlimited (by decide) (by decide) (fun _ => rfl) hvacant).2.2.2.2.2 [_] _ _ rfl rfl
    (by simp [Step.event?])).1

end Run
end SoloRun
