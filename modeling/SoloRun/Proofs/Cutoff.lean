import Mathlib
import SoloRun.Proofs.Halting

/-!
Where the tests of a suite are cut off: an interrupt during a test leaves the tests up to that one
started, each once and in order, and no others.
-/

namespace SoloRun

def Step.startsTest : Step → Bool
  | .told (.testStart _ _ _) _ => true
  | _ => false

/-- A child that can be started and comes to its end: it sends no interrupt if the run's flag is its
own, and at most one if it is the flag of the signals, and it does not wait for one that never
comes. -/
def Setting.Ends (setting : Setting) (tree : FileTree) (command : Command) : Prop :=
  let behaviour := setting.script.behaviour command.args
  (∃ place, setting.script.place tree setting.cwd command = .ok place) ∧
    match setting.trigger? with
    | some _ => behaviour.interrupting? = none ∧ behaviour.hangs = false
    | none => behaviour.interrupting? ≠ some .insists ∧
      (behaviour.hangs = true → behaviour.interrupting? = some .dies)

theorem Behaviour.exists_ended {behaviour : Behaviour} {child : Nat} {signals : Signals}
    (hslot : signals.slot? = some child) (hinsists : behaviour.interrupting? ≠ some .insists)
    (hhangs : behaviour.hangs = true → behaviour.interrupting? = some .dies)
    (hflag : behaviour.interrupting? = none ∨ signals.flag = false) :
    ∃ code after, behaviour.fate child signals = .ended code after := by
  rw [fate]
  split
  · exact ⟨_, _, rfl⟩
  · cases hhow : behaviour.interrupting? with
    | none =>
      have hends : behaviour.hangs = false := by simpa [hhow] using hhangs
      exact ⟨behaviour.ending.code, signals, by simp [lastly, hends]⟩
    | some how =>
      have hunset : signals.flag = false := by simpa [hhow] using hflag
      have hfirst : signals.interrupt? = some signals.forward := by
        simp [Signals.interrupt?, hunset]
      simp only [hfirst]
      cases how with
      | dies =>
        have hmem : child ∈ signals.forward.hit := by simp [Signals.forward, hslot]
        exact ⟨interruptedChild, signals.forward, by simp [hmem]⟩
      | ignores =>
        have hends : behaviour.hangs = false := by simpa [hhow] using hhangs
        exact ⟨behaviour.ending.code, signals.forward, by simp [lastly, hends]⟩
      | insists => exact absurd hhow hinsists

namespace World

variable {setting : Setting} {world : World}

theorem exists_start_ended {command : Command} (hends : setting.Ends world.tree command)
    (hunset : setting.trigger? = none → world.signals.flag = false) :
    ∃ capture after, world.start setting command = .ended capture after := by
  have hslot := Signals.register_slot world.signals world.children
  obtain ⟨⟨dir, hplace⟩, hargs⟩ := hends
  have hfate : ∃ code signals, (setting.script.behaviour command.args).fate world.children
      (world.signals.register world.children) = .ended code signals := by
    cases htrigger : setting.trigger? with
    | some trigger =>
      rw [htrigger] at hargs
      exact Behaviour.exists_ended hslot (by simp [hargs.1]) (by simp [hargs.2]) (.inl hargs.1)
    | none =>
      rw [htrigger] at hargs
      have hflag : (world.signals.register world.children).flag = false := by
        rw [Signals.register_flag, hunset htrigger]
      exact Behaviour.exists_ended hslot hargs.1 hargs.2 (.inr hflag)
  obtain ⟨code, signals, hfate⟩ := hfate
  simp [start, hplace, hfate]

end World

namespace Run

open Procedure

variable (dir : Path) (selector : List String) (setting : Setting) {world : World}

def roundSteps (world after : World) (test : Capture) (name : String) (number count : Nat) :
    List Step :=
  let start := Event.testStart name number count
  let result := Event.testResult name test.success test.duration.millis
  let output := Event.testOutput name test.output
  [.told start (world.told setting start),
    .started (Command.single dir selector name) (some test),
    .told result (after.told setting result),
    .told output ((after.afterTold setting result).told setting output)]

def afterRound (after : World) (test : Capture) (name : String) : World :=
  let result := Event.testResult name test.success test.duration.millis
  (after.afterTold setting result).afterTold setting (.testOutput name test.output)

theorem carryOut_runTest_bind {β : Type} (f : TestResult → Procedure β) {name : String}
    {number count : Nat} {test : Capture} {after : World}
    (hworks : setting.reporter.Works world.sink)
    (hstart : (world.afterTold setting (.testStart name number count)).start setting
      (Command.single dir selector name) = .ended test after)
    (hafter : setting.reporter.Works after.sink) :
    ((runTest dir selector name number count).bind f).carryOut setting world =
      let rest := (f ⟨test, name⟩).carryOut setting (afterRound setting after test name)
      { rest with
        steps := roundSteps dir selector setting world after test name number count ++
          rest.steps } := by
  simp only [runTest, bind_eq, pure_eq, bind_assoc]
  rw [carryOut_tell_bind setting _ _ hworks, carryOut_capture_bind setting _ hstart,
    carryOut_tell_bind setting _ _ hafter,
    carryOut_tell_bind setting _ _ (after.afterTold_works _ hafter)]
  rfl

theorem runTestsFrom_interrupted (count number : Nat) (names : List String)
    (h : world.interrupted setting = true) :
    (runTestsFrom dir selector count number names).carryOut setting world =
      ⟨[], .error (.failed .interrupted), world⟩ := by
  cases names <;> simp only [runTestsFrom, bind_eq, carryOut_checkInterrupt_bind, h, if_true]

theorem countP_startsTest_pair {first second last : Step} {pre post : List Step}
    (h : [first, second] = pre ++ last :: post) (hfirst : first.startsTest = true)
    (hsecond : second.startsTest = false) : (pre ++ [last]).countP Step.startsTest = 1 := by
  cases pre with
  | nil =>
    cases h
    simp [hfirst]
  | cons step more =>
    cases more with
    | nil =>
      cases h
      simp [hfirst, hsecond]
    | cons other more => simp at h

theorem append_last_eq_cons {first last : Step} {rest pre post : List Step}
    (h : first :: rest = pre ++ last :: post) : ∃ more, pre ++ [last] = first :: more := by
  cases pre with
  | nil =>
    cases h
    exact ⟨[], rfl⟩
  | cons step more =>
    cases h
    exact ⟨more ++ [last], rfl⟩

theorem countP_startsTest_pos {count number : Nat} {names : List String} {pre post : List Step}
    {last : Step}
    (h : ((runTestsFrom dir selector count number names).carryOut setting world).steps =
      pre ++ last :: post) : 0 < (pre ++ [last]).countP Step.startsTest := by
  cases names with
  | nil =>
    simp only [runTestsFrom, bind_eq, pure_eq, carryOut_checkInterrupt_bind] at h
    split at h <;> simp [carryOut] at h
  | cons name rest =>
    simp only [runTestsFrom, bind_eq, pure_eq, carryOut_checkInterrupt_bind] at h
    split at h
    · simp at h
    · simp only [runTest, bind_eq, tell, Procedure.bind, carryOut] at h
      have hfirst : ∃ more, pre ++ [last] = .told (.testStart name number count)
          (world.told setting (.testStart name number count)) :: more := by
        split at h
        · exact append_last_eq_cons h
        · exact append_last_eq_cons h
      obtain ⟨more, hfirst⟩ := hfirst
      simp [hfirst, Step.startsTest]

theorem carryOut_bind_done {α β : Type} (world : World) (procedure : Procedure α) (f : α → β) :
    ((procedure.bind fun value => .done (f value)).carryOut setting world).steps =
        (procedure.carryOut setting world).steps ∧
      ∀ reason, (procedure.carryOut setting world).result = .error reason →
        ((procedure.bind fun value => .done (f value)).carryOut setting world).result =
          .error reason := by
  rcases carryOut_bind_cases setting procedure (fun value => .done (f value)) world with
    ⟨first, hresult, heq⟩ | ⟨value, hresult, heq⟩
  · rw [heq, hresult]
    refine ⟨rfl, ?_⟩
    intro reason h
    cases h
    rfl
  · rw [heq, hresult]
    refine ⟨by simp [carryOut], ?_⟩
    intro reason h
    cases h

theorem exists_ended_of_cut {count number : Nat} {name : String} {rest : List String}
    {pre post : List Step} {last : Step} (hworks : setting.reporter.Works world.sink)
    (hunset : world.interrupted setting = false)
    (hsteps :
      ((runTestsFrom dir selector count number (name :: rest)).carryOut setting world).steps =
        pre ++ last :: post)
    (hends : ∀ other, (name :: rest)[(pre ++ [last]).countP Step.startsTest - 1]? = some other →
      setting.Ends world.tree (Command.single dir selector other)) :
    ∃ test after, (world.afterTold setting (.testStart name number count)).start setting
      (Command.single dir selector name) = .ended test after := by
  obtain ⟨htree, hsignals, -⟩ := World.afterTold_eq setting world (.testStart name number count)
  have hfirst : (pre ++ [last]).countP Step.startsTest = 1 →
      ∃ test after, (world.afterTold setting (.testStart name number count)).start setting
        (Command.single dir selector name) = .ended test after := by
    intro hone
    have hname := hends name (by simp [hone])
    rw [← htree] at hname
    apply World.exists_start_ended hname
    intro htrigger
    simpa [hsignals, World.interrupted, htrigger] using hunset
  simp only [runTestsFrom, bind_eq, carryOut_checkInterrupt_bind, hunset, Bool.false_eq_true,
    if_false, runTest, tell, capture, Procedure.bind, carryOut] at hsteps
  rw [world.told_not_broken hworks, if_neg Bool.false_ne_true] at hsteps
  cases hstart : (world.afterTold setting (.testStart name number count)).start setting
      (Command.single dir selector name) with
  | ended test after => exact ⟨test, after, rfl⟩
  | refused error =>
    rw [hstart] at hsteps hfirst
    exact hfirst (countP_startsTest_pair hsteps rfl rfl)
  | stopped reason after =>
    rw [hstart] at hsteps hfirst
    exact hfirst (countP_startsTest_pair hsteps rfl rfl)

structure Round (world later : World) (name : String) (round : List Step) : Prop where
  command : round.filterMap Step.command? = [Command.single dir selector name]
  count : round.countP Step.startsTest = 1
  sane : later.Sane
  works : setting.reporter.Works later.sink
  tree : later.tree = world.tree
  flag : ∀ tail, setting.flagAfter world (round ++ tail) = setting.flagAfter later tail

theorem round_of_start {name : String} {number count : Nat} {test : Capture} {after : World}
    (hsane : world.Sane) (hworks : setting.reporter.Works world.sink)
    (hstart : (world.afterTold setting (.testStart name number count)).start setting
      (Command.single dir selector name) = .ended test after) :
    setting.reporter.Works after.sink ∧
      Round dir selector setting world (afterRound setting after test name) name
        (roundSteps dir selector setting world after test name number count) := by
  have htold : (world.afterTold setting (.testStart name number count)).Sane :=
    World.afterTold_sane _ hsane
  obtain ⟨hended, htree, -, -, -, hsink, -⟩ := World.start_ended hstart htold
  have hafter : setting.reporter.Works after.sink := hsink ▸ world.afterTold_works _ hworks
  let result := Event.testResult name test.success test.duration.millis
  let output := Event.testOutput name test.output
  have hresult := after.afterTold_works result hafter
  refine ⟨hafter, rfl, rfl, ?_, ?_, ?_, ?_⟩
  · exact World.afterTold_sane _ (World.afterTold_sane _ hended)
  · exact World.afterTold_works _ _ hresult
  · rw [afterRound, (World.afterTold_eq setting _ output).1,
      (World.afterTold_eq setting _ result).1, htree]
    exact (World.afterTold_eq setting world _).1
  · intro tail
    simp only [roundSteps, afterRound, List.cons_append, List.nil_append]
    rw [Setting.flagAfter_told _ _ (world.told_not_broken hworks),
      Setting.flagAfter_started _ hstart htold,
      Setting.flagAfter_told _ _ (after.told_not_broken hafter),
      Setting.flagAfter_told _ _ (World.told_not_broken _ hresult)]

theorem runTestsFrom_cons {count number : Nat} {name : String} (rest : List String)
    {test : Capture} {after : World} (hsane : world.Sane)
    (hworks : setting.reporter.Works world.sink) (hunset : world.interrupted setting = false)
    (hstart : (world.afterTold setting (.testStart name number count)).start setting
      (Command.single dir selector name) = .ended test after) :
    ∃ round later, Round dir selector setting world later name round ∧
      let course := (runTestsFrom dir selector count (number + 1) rest).carryOut setting later
      ((runTestsFrom dir selector count number (name :: rest)).carryOut setting world).steps =
        round ++ course.steps ∧
      ∀ reason, course.result = .error reason →
        ((runTestsFrom dir selector count number (name :: rest)).carryOut setting world).result =
          .error reason := by
  obtain ⟨hafter, hround⟩ := round_of_start dir selector setting hsane hworks hstart
  have hdone := carryOut_bind_done setting (afterRound setting after test name)
    (runTestsFrom dir selector count (number + 1) rest) (⟨test, name⟩ :: ·)
  have hwhole : (runTestsFrom dir selector count number (name :: rest)).carryOut setting world =
      ((runTest dir selector name number count).bind fun first =>
        (runTestsFrom dir selector count (number + 1) rest).bind fun others =>
          .done (first :: others)).carryOut setting world := by
    simp [runTestsFrom, bind_eq, pure_eq, carryOut_checkInterrupt_bind, hunset]
  rw [carryOut_runTest_bind dir selector setting _ hworks hstart hafter] at hwhole
  refine ⟨_, _, hround, ?_, ?_⟩
  · rw [hwhole, ← hdone.1]
  · intro reason hreason
    rw [hwhole]
    exact hdone.2 reason hreason

theorem Round.interrupted {later : World} {name : String} {round first more : List Step}
    (h : Round dir selector setting world later name round) (hround : round = first ++ more)
    (hflag : setting.flagAfter world first = true) : later.interrupted setting = true := by
  rw [← Setting.flagAfter_nil, ← h.flag, List.append_nil, hround]
  exact setting.flagAfter_append world hflag more

theorem Round.count_eq_one {later : World} {name : String} {round first more : List Step}
    (h : Round dir selector setting world later name round) (hround : round = first ++ more)
    (hpos : 0 < first.countP Step.startsTest) : first.countP Step.startsTest = 1 := by
  have hcount := h.count
  rw [hround, List.countP_append] at hcount
  omega

theorem Round.count_append {later : World} {name : String} {round : List Step}
    (h : Round dir selector setting world later name round) (steps : List Step) :
    (round ++ steps).countP Step.startsTest = steps.countP Step.startsTest + 1 := by
  rw [List.countP_append, h.count, Nat.add_comm]

theorem runTestsFrom_cut {count number : Nat} {names : List String}
    (hsane : world.Sane) (hworks : setting.reporter.Works world.sink) {pre post : List Step}
    {last : Step}
    (hsteps : ((runTestsFrom dir selector count number names).carryOut setting world).steps =
      pre ++ last :: post)
    (hbefore : setting.flagAfter world pre = false)
    (hafter : setting.flagAfter world (pre ++ [last]) = true)
    (hends : ∀ name, names[(pre ++ [last]).countP Step.startsTest - 1]? = some name →
      setting.Ends world.tree (Command.single dir selector name)) :
    (pre ++ [last]).countP Step.startsTest ≤ names.length ∧
      ((runTestsFrom dir selector count number names).carryOut setting world).commands =
        (names.take ((pre ++ [last]).countP Step.startsTest)).map (Command.single dir selector) ∧
      ((runTestsFrom dir selector count number names).carryOut setting world).result =
        .error (.failed .interrupted) := by
  induction names generalizing world number pre with
  | nil =>
    simp only [runTestsFrom, bind_eq, pure_eq, carryOut_checkInterrupt_bind] at hsteps
    split at hsteps <;> simp [carryOut] at hsteps
  | cons name rest ih =>
    have hpos := countP_startsTest_pos dir selector setting hsteps
    have hunset := setting.interrupted_eq_false world hbefore
    obtain ⟨test, after, hstart⟩ :=
      exists_ended_of_cut dir selector setting hworks hunset hsteps hends
    obtain ⟨round, later, hround, hwhole, hresult⟩ :=
      runTestsFrom_cons dir selector setting rest hsane hworks hunset hstart
    rw [Course.commands, hwhole, List.filterMap_append, hround.command]
    rcases append_cases (hwhole.symm.trans hsteps) with ⟨more, hmore⟩ | ⟨body, rfl, hrest⟩
    · -- the flag was set in this round, and the rest stops at once
      have hset := hround.interrupted dir selector setting hmore hafter
      have hstop := runTestsFrom_interrupted dir selector setting count (number + 1) rest hset
      have hone := hround.count_eq_one dir selector setting hmore hpos
      rw [hstop, hone]
      exact ⟨by simp, by simp, hresult _ (by rw [hstop])⟩
    · -- the flag was set later: the rest is cut off, and its tests are counted from this one on
      have hpos' := countP_startsTest_pos dir selector setting hrest
      have hshift : (round ++ body ++ [last]).countP Step.startsTest =
          (body ++ [last]).countP Step.startsTest + 1 := by
        rw [List.append_assoc, hround.count_append]
      rw [hround.flag] at hbefore
      rw [List.append_assoc, hround.flag] at hafter
      have hends' : ∀ other, rest[(body ++ [last]).countP Step.startsTest - 1]? = some other →
          setting.Ends later.tree (Command.single dir selector other) := by
        intro other hother
        rw [hround.tree]
        apply hends other
        rw [hshift, Nat.add_sub_cancel, ← hother, ← Nat.sub_add_cancel hpos']
        rfl
      obtain ⟨hle, hcommands, hinterrupted⟩ :=
        ih hround.sane hround.works hrest hbefore hafter hends'
      rw [hshift]
      refine ⟨Nat.succ_le_succ hle, ?_, hresult _ hinterrupted⟩
      rw [List.take_succ_cons, List.map_cons, ← hcommands]
      rfl

/-- No child is started once the flag is set, but the one just announced; and the tests of a suite
are cut off after the one during which the flag was set. -/
theorem starts_nothing_once_interrupted (plan : Plan) (stamp : String) (hsane : world.Sane) :
    (runAll plan stamp).StopsAtFlag plan.Announces setting world ∧
    ∀ dir selector names,
      let course := (runTests dir selector names).carryOut setting world
      (runTests dir selector names).StopsAtFlag (AnnouncesTest dir selector) setting world ∧
      (world.interrupted setting = true →
        course.steps = [] ∧ course.result = .error (.failed .interrupted)) ∧
      ∀ pre last post, course.steps = pre ++ last :: post →
        setting.flagAfter world pre = false → setting.flagAfter world (pre ++ [last]) = true →
        let k := (pre ++ [last]).countP Step.startsTest
        setting.reporter.Works world.sink →
        (∀ name, names[k - 1]? = some name →
          setting.Ends world.tree (Command.single dir selector name)) →
        0 < k ∧ k ≤ names.length ∧
          course.commands = (names.take k).map (Command.single dir selector) ∧
          course.result = .error (.failed .interrupted) := by
  refine ⟨(runAll_careful plan stamp).stopsAtFlag hsane, ?_⟩
  intro dir selector names
  refine ⟨?_, ?_, ?_⟩
  · have hcareful : (runTests dir selector names).Careful (AnnouncesTest dir selector) := by
      apply runTestsFrom_careful
      intro name number count
      rfl
    exact hcareful.stopsAtFlag hsane
  · intro hset
    rw [runTests, runTestsFrom_interrupted dir selector setting _ 1 names hset]
    exact ⟨rfl, rfl⟩
  · intro pre last post hsteps hbefore hafter k hworks hends
    exact ⟨countP_startsTest_pos dir selector setting hsteps,
      runTestsFrom_cut dir selector setting hsane hworks hsteps hbefore hafter hends⟩

theorem starts_nothing_once_interrupted_by_first_test :
    let setting : Setting := ⟨.entries [], fun _ => .zero, [], .lines, ⟨0, 0⟩,
      some ⟨.testStart, none, 1⟩⟩
    let world : World := .fresh .empty .unlimited
    let course := (runTests (Path.ofString "/") [] ["first", "second"]).carryOut setting world
    let stopped := (runTests (Path.ofString "/") [] []).carryOut setting (world.interrupt setting)
    course.commands = [Command.single (Path.ofString "/") [] "first"] ∧
      course.result = .error (.failed .interrupted) ∧
      stopped.result = .error (.failed .interrupted) := by
  intro setting world course stopped
  let plan : Plan := ⟨Path.ofString "/", Path.ofString "/", [], []⟩
  have hsane : world.Sane := World.fresh_sane .empty .unlimited
  have hends : setting.Ends .empty (Command.single (Path.ofString "/") [] "first") := by
    exact ⟨⟨[], by cbv⟩, rfl, rfl⟩
  have hset : (world.interrupt setting).Sane := hsane.interrupt
  have hstopped := ((starts_nothing_once_interrupted setting plan "" hset).2
    (Path.ofString "/") [] []).2.1 rfl
  obtain ⟨-, -, hcommands, hresult⟩ := ((starts_nothing_once_interrupted setting plan "" hsane).2
    (Path.ofString "/") [] ["first", "second"]).2.2 [] _ _ rfl rfl rfl (.inl rfl)
    (by rintro name ⟨⟩; exact hends)
  exact ⟨hcommands, hresult, hstopped.2⟩

end Run
end SoloRun
