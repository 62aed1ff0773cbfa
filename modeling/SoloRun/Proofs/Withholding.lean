import SoloRun.Proofs.Abandoned
import SoloRun.Proofs.Completed

/-!
What an interrupt during a phase means for its log. The log is withheld if the run still has a look
at the flag before it saves. A suite with no tests left to run is past its last look: its log is
saved all the same, and the run stops before the phase after it.
-/

namespace SoloRun

inductive Prospect where
  | withheld
  | saved
  deriving DecidableEq, Repr

/-- What becomes of the log of a phase if the flag is set by the end of a call in it. -/
def Event.prospect? : Event → Option Prospect
  | .suiteStart _ total => some (if total = 0 then .saved else .withheld)
  | .listingFailed _ _ _ | .suiteSummary _ _ _ _ => some .saved
  | .testStart _ _ _ | .testResult _ _ _ | .testOutput _ _ | .checkStart _ | .checkResult _ _ _ =>
    some .withheld
  | .note _ | .runStart _ _ | .logWritten _ | .runFinished _ => none

def Step.prospect? (step : Step) : Option Prospect :=
  step.event?.bind Event.prospect?

/-- The steps after the flag was set fit the prospect. The console or the disk may fail before a log
is saved. -/
def Prospect.Meets {α : Type} : Prospect → List Step → Except Stop α → Prop
  | .withheld, steps, _ => steps.filterMap Step.log? = []
  | .saved, steps, result =>
    (∃ log, keptLogs steps = [log] ∧ ∀ other failure, .unsaved other failure ∉ steps) ∨
      keptLogs steps = [] ∧ (result = .error .brokenConsole ∨
        ∃ log path reason, steps.getLast? = some (.unsaved log (.log path reason)) ∧
          result = .error (.failed (.log path reason)))

theorem keptLogs_of_unlogged {steps : List Step} (h : steps.filterMap Step.log? = []) :
    keptLogs steps = [] ∧ ∀ log failure, .unsaved log failure ∉ steps := by
  rw [List.filterMap_eq_nil_iff] at h
  refine ⟨?_, ?_⟩
  · induction steps with
    | nil => rfl
    | cons step rest ih =>
      obtain ⟨hstep, hrest⟩ := List.forall_mem_cons.mp h
      rw [keptLogs_cons_of_unlogged hstep, ih hrest]
  · intro log failure hmem
    cases h _ hmem

theorem Prospect.Meets.cons {α : Type} {prospect : Prospect} {steps : List Step}
    {result : Except Stop α} (h : prospect.Meets steps result) {step : Step}
    (hunlogged : step.log? = none) : prospect.Meets (step :: steps) result := by
  cases prospect with
  | withheld => exact (List.filterMap_cons_none hunlogged).trans h
  | saved =>
    have hkept : keptLogs (step :: steps) = keptLogs steps := keptLogs_cons_of_unlogged hunlogged
    rcases h with ⟨log, hlog, hsaved⟩ | ⟨hnone, hresult⟩
    · refine .inl ⟨log, hkept.trans hlog, ?_⟩
      intro other failure hmem
      rcases List.mem_cons.mp hmem with rfl | hmem
      · cases hunlogged
      · exact hsaved other failure hmem
    · refine .inr ⟨hkept.trans hnone, hresult.imp_right ?_⟩
      rintro ⟨log, path, reason, hlast, hfailed⟩
      exact ⟨log, path, reason, by rw [List.getLast?_cons, hlast]; rfl, hfailed⟩

namespace Procedure

variable {α β : Type} {follows later : Prop}

/-- Saves no log once the flag is set, nor lets anything follow that might, unless what follows
saves none either. -/
def Withholds (follows : Prop) : Procedure α → Prop
  | .done _ => follows
  | .stop _ => True
  | .poll next => (next true).Withholds follows
  | .tell _ next => next.Withholds follows
  | .start _ next => ∀ capture, (next capture).Withholds follows
  | .save _ _ _ => False

/-- Saves one log even though the flag is set, and no other. -/
def Commits (follows : Prop) : Procedure α → Prop
  | .done _ | .stop _ | .poll _ | .start _ _ => False
  | .tell _ next => next.Commits follows
  | .save _ _ next => ∀ path, (next path).Withholds follows

def Expects (follows : Prop) (procedure : Procedure α) : Prospect → Prop
  | .withheld => procedure.Withholds follows
  | .saved => procedure.Commits follows

def Honest (follows : Prop) : Procedure α → Prop
  | .done _ | .stop _ => True
  | .poll next => ∀ raised, (next raised).Honest follows
  | .tell event next =>
    (∀ prospect, event.prospect? = some prospect → next.Expects follows prospect) ∧
      next.Honest follows
  | .start _ next => ∀ capture, (next capture).Honest follows
  | .save _ _ next => ∀ path, (next path).Honest follows

theorem Withholds.bind {procedure : Procedure α} {f : α → Procedure β}
    (hp : procedure.Withholds follows) (hf : follows → ∀ value, (f value).Withholds later) :
    (procedure.bind f).Withholds later := by
  induction procedure with
  | done value => exact hf hp value
  | stop => trivial
  | poll next ih => exact ih true hp
  | tell event next ih => exact ih hp
  | start command next ih =>
    intro capture
    exact ih capture (hp capture)
  | save => exact hp.elim

theorem Commits.bind {procedure : Procedure α} {f : α → Procedure β}
    (hp : procedure.Commits follows) (hf : follows → ∀ value, (f value).Withholds later) :
    (procedure.bind f).Commits later := by
  induction procedure with
  | done | stop | poll | start => exact hp.elim
  | tell event next ih => exact ih hp
  | save dir log next =>
    intro path
    exact (hp path).bind hf

theorem Honest.bind {procedure : Procedure α} {f : α → Procedure β}
    (hp : procedure.Honest follows) (hf : follows → ∀ value, (f value).Withholds later)
    (hnext : ∀ value, (f value).Honest later) : (procedure.bind f).Honest later := by
  induction procedure with
  | done value => exact hnext value
  | stop => trivial
  | poll next ih =>
    intro raised
    exact ih raised (hp raised)
  | tell event next ih =>
    refine ⟨?_, ih hp.2⟩
    intro prospect hprospect
    have hexpects := hp.1 prospect hprospect
    cases prospect with
    | withheld => exact Withholds.bind hexpects hf
    | saved => exact Commits.bind hexpects hf
  | start command next ih =>
    intro capture
    exact ih capture (hp capture)
  | save dir log next ih =>
    intro path
    exact ih path (hp path)

variable {setting : Setting} {procedure : Procedure α} {world : World}

theorem Withholds.log?_eq_nil (hp : procedure.Withholds follows) (hsane : world.Sane)
    (h : world.interrupted setting = true) :
    (procedure.carryOut setting world).steps.filterMap Step.log? = [] := by
  induction procedure generalizing world with
  | done | stop => rfl
  | poll next ih =>
    rw [carryOut, h]
    exact ih true hp hsane h
  | tell event next ih =>
    simp only [carryOut]
    split
    · rfl
    · exact ih hp (World.afterTold_sane event hsane) (World.afterTold_interrupted event h)
  | start command next ih =>
    simp only [carryOut]
    cases hstart : world.start setting command with
    | refused error => rfl
    | stopped reason after => rfl
    | ended capture after =>
      exact ih capture (hp capture) (World.start_ended hstart hsane).1
        (setting.interrupted_of_started hstart hsane h)
  | save => exact hp.elim

theorem Commits.meets (hp : procedure.Commits follows) (hsane : world.Sane)
    (h : world.interrupted setting = true) :
    Prospect.saved.Meets (procedure.carryOut setting world).steps
      (procedure.carryOut setting world).result := by
  induction procedure generalizing world with
  | done | stop | poll | start => exact hp.elim
  | tell event next ih =>
    simp only [carryOut]
    split
    · exact .inr ⟨rfl, .inl rfl⟩
    · exact (ih hp (World.afterTold_sane event hsane)
        (World.afterTold_interrupted event h)).cons rfl
  | save dir log next =>
    simp only [carryOut]
    split
    · next made failure hwrite =>
      obtain ⟨reason, rfl⟩ := Log.exists_reason_of_write hwrite
      exact .inr ⟨rfl, .inr ⟨log, _, reason, rfl, rfl⟩⟩
    · next made path hwrite =>
      have hkept : World.Sane { world with tree := made } := hsane
      have hunlogged : ((next path).carryOut setting { world with tree := made }).steps.filterMap
          Step.log? = [] := (hp path).log?_eq_nil hkept h
      obtain ⟨hnone, hsaved⟩ := keptLogs_of_unlogged hunlogged
      refine .inl ⟨log, congrArg (log :: ·) hnone, ?_⟩
      intro other failure hmem
      rcases List.mem_cons.mp hmem with hother | hmem
      · cases hother
      · exact hsaved other failure hmem

theorem Expects.meets {prospect : Prospect} (hp : procedure.Expects follows prospect)
    (hsane : world.Sane) (h : world.interrupted setting = true) :
    prospect.Meets (procedure.carryOut setting world).steps
      (procedure.carryOut setting world).result := by
  cases prospect with
  | withheld => exact Withholds.log?_eq_nil hp hsane h
  | saved => exact Commits.meets hp hsane h

-- what the flag was set by is carried by the world, so the induction is over all worlds
theorem Honest.meets (hp : procedure.Honest follows) (hsane : world.Sane) {pre post : List Step}
    {last : Step} {prospect : Prospect}
    (hsteps : (procedure.carryOut setting world).steps = pre ++ last :: post)
    (hflag : setting.flagAfter world (pre ++ [last]) = true) :
    last.prospect? = some prospect →
      prospect.Meets post (procedure.carryOut setting world).result := by
  induction procedure generalizing world pre with
  | done | stop => simp [carryOut] at hsteps
  | poll next ih => exact ih _ (hp _) hsane hsteps hflag
  | tell event next ih =>
    simp only [carryOut] at hsteps ⊢
    split at hsteps
    · next hbroken =>
      apply of_split_singleton hsteps
      intro _
      cases prospect with
      | withheld => rfl
      | saved => exact .inr ⟨rfl, .inl (by simp [hbroken])⟩
    · next hbroken =>
      rw [if_neg hbroken]
      rw [Bool.not_eq_true] at hbroken
      apply setting.of_flag_split hsteps (setting.flagAfter_told world hbroken) hflag
      · intro hset hevent
        exact (hp.1 prospect hevent).meets (World.afterTold_sane event hsane) hset
      · intro more hmore hset
        exact ih hp.2 (World.afterTold_sane event hsane) hmore hset
  | start command next ih =>
    simp only [carryOut] at hsteps ⊢
    cases hstart : world.start setting command with
    | refused error =>
      rw [hstart] at hsteps
      apply of_split_singleton hsteps
      intro hevent
      cases hevent
    | stopped reason after =>
      rw [hstart] at hsteps
      apply of_split_singleton hsteps
      intro hevent
      cases hevent
    | ended capture after =>
      rw [hstart] at hsteps
      apply setting.of_flag_split hsteps (setting.flagAfter_started hstart hsane) hflag
      · intro _ hevent
        cases hevent
      · intro more hmore hset
        exact ih capture (hp capture) (World.start_ended hstart hsane).1 hmore hset
  | save dir log next ih =>
    simp only [carryOut] at hsteps ⊢
    split at hsteps
    · apply of_split_singleton hsteps
      intro hevent
      cases hevent
    · next tree path hwrite =>
      have hkept : World.Sane { world with tree } := hsane
      apply setting.of_flag_split hsteps (setting.flagAfter_saved world tree path log) hflag
      · intro _ hevent
        cases hevent
      · intro more hmore hset
        exact ih path (hp path) hkept hmore hset

end Procedure

namespace Run

open Procedure

variable {follows : Prop}

theorem checkInterrupt_bind_withholds {α : Type} (f : Unit → Procedure α) :
    (checkInterrupt.bind f).Withholds follows := trivial

theorem checkInterrupt_bind_honest {α : Type} {f : Unit → Procedure α}
    (h : (f ()).Honest follows) : (checkInterrupt.bind f).Honest follows := by
  intro raised
  cases raised with
  | true => trivial
  | false => exact h

theorem capture_bind_honest {α : Type} (command : Command) {f : Capture → Procedure α}
    (h : ∀ output, (f output).Honest follows) : ((capture command).bind f).Honest follows := h

theorem tell_honest {event : Event} (h : event.prospect? ≠ some .saved) :
    (tell event).Honest True := by
  refine ⟨?_, trivial⟩
  intro prospect hprospect
  cases prospect with
  | withheld => trivial
  | saved => exact absurd hprospect h

theorem tell_bind_honest {α : Type} {event : Event} {prospect : Prospect} {f : Unit → Procedure α}
    (hevent : event.prospect? = some prospect) (hexpects : (f ()).Expects follows prospect)
    (h : (f ()).Honest follows) : ((tell event).bind f).Honest follows := by
  refine ⟨?_, h⟩
  intro other hother
  obtain rfl := Option.some.inj (hevent.symm.trans hother)
  exact hexpects

theorem tell_withheld_honest {α : Type} {event : Event} {f : Unit → Procedure α}
    (hevent : event.prospect? = some .withheld) (hnext : (f ()).Withholds follows)
    (h : (f ()).Honest follows) : ((tell event).bind f).Honest follows :=
  tell_bind_honest hevent hnext h

theorem runTest_honest (dir : Path) (selector : List String) (name : String) (number count : Nat) :
    (runTest dir selector name number count).Honest True := by
  apply tell_withheld_honest rfl
  · intro capture
    trivial
  · apply capture_bind_honest
    intro capture
    apply tell_withheld_honest rfl
    · trivial
    · apply tell_withheld_honest rfl
      · trivial
      · trivial

variable (plan : Plan) (stamp : String)

theorem runTestsFrom_withholds (dir : Path) (selector : List String) (count number : Nat)
    (names : List String) :
    (runTestsFrom dir selector count number names).Withholds follows := by
  cases names <;> exact checkInterrupt_bind_withholds _

theorem runTestsFrom_honest (dir : Path) (selector : List String) (count number : Nat)
    (names : List String) :
    (runTestsFrom dir selector count number names).Honest False := by
  induction names generalizing number with
  | nil => exact checkInterrupt_bind_honest trivial
  | cons name rest ih =>
    apply checkInterrupt_bind_honest
    apply (runTest_honest dir selector name number count).bind
    · intro _ result
      exact (runTestsFrom_withholds dir selector count (number + 1) rest).bind False.elim
    · intro result
      apply (ih (number + 1)).bind False.elim
      intro results
      trivial

theorem runNames_honest (dir : Path) (selector names : List String) :
    (runNames dir selector names).Honest False := by
  rw [runNames]
  split
  · trivial
  · exact runTestsFrom_honest dir selector _ 1 names

theorem saveLog_honest (log : Log) : (saveLog plan stamp log).Honest True := by
  intro path
  exact ⟨nofun, trivial⟩

theorem closeSuite_honest (suite : Suite) (discovery : Discovery) (results : List TestResult) :
    (closeSuite plan stamp suite discovery results).Honest True := by
  rw [closeSuite, total]
  split
  · refine tell_bind_honest (show _ = some Prospect.saved from rfl) ?_ ?_
    · intro path
      trivial
    · exact saveLog_honest plan stamp _
  · trivial

theorem closeSuite_commits (suite : Suite) (discovery : Discovery) :
    (closeSuite plan stamp suite discovery []).Commits True := by
  -- without results there are no durations that might not add up
  intro path
  trivial

theorem expects_of_discovery (suite : Suite) (discovery : Discovery) :
    ∃ prospect, (discovery.event suite.title).prospect? = some prospect ∧
      ((runNames plan.workspaceRoot suite.selector discovery.names).bind fun results =>
        closeSuite plan stamp suite discovery results).Expects True prospect := by
  cases discovery with
  | failed exitCode output =>
    exact ⟨.saved, rfl, closeSuite_commits plan stamp suite (.failed exitCode output)⟩
  | listed names =>
    cases names with
    | nil => exact ⟨.saved, rfl, closeSuite_commits plan stamp suite (.listed [])⟩
    | cons name rest =>
      have hnames : (runNames plan.workspaceRoot suite.selector (name :: rest)).Withholds False :=
        runTestsFrom_withholds plan.workspaceRoot suite.selector _ 1 (name :: rest)
      have hsuite : ((runNames plan.workspaceRoot suite.selector (name :: rest)).bind fun results =>
          closeSuite plan stamp suite (.listed (name :: rest)) results).Withholds True :=
        hnames.bind False.elim
      exact ⟨.withheld, rfl, hsuite⟩

theorem runSuite_withholds (suite : Suite) :
    (runSuite plan stamp suite).Withholds follows := by
  rw [runSuite_eq]
  exact checkInterrupt_bind_withholds _

theorem runSuite_honest (suite : Suite) : (runSuite plan stamp suite).Honest True := by
  rw [runSuite_eq]
  apply checkInterrupt_bind_honest
  intro listing
  apply checkInterrupt_bind_honest
  obtain ⟨prospect, hevent, hexpects⟩ :=
    expects_of_discovery plan stamp suite (.ofCapture listing)
  apply tell_bind_honest hevent hexpects
  apply (runNames_honest _ _ _).bind False.elim
  intro results
  exact closeSuite_honest plan stamp suite _ results

theorem runCheck_withholds (check : Check) :
    (runCheck plan stamp check).Withholds follows := by
  rw [runCheck_eq]
  exact checkInterrupt_bind_withholds _

theorem runCheck_honest (check : Check) : (runCheck plan stamp check).Honest True := by
  rw [runCheck_eq]
  apply checkInterrupt_bind_honest
  apply tell_withheld_honest rfl
  · intro output
    trivial
  · apply capture_bind_honest
    intro output
    apply tell_withheld_honest rfl
    · trivial
    · apply checkInterrupt_bind_honest
      exact saveLog_honest plan stamp _

theorem runSuites_withholds (suites : List Suite) :
    (runSuites plan stamp suites).Withholds True := by
  cases suites with
  | nil => trivial
  | cons suite rest => exact (runSuite_withholds plan stamp suite).bind False.elim

theorem runChecks_withholds (checks : List Check) :
    (runChecks plan stamp checks).Withholds True := by
  cases checks with
  | nil => trivial
  | cons check rest => exact (runCheck_withholds plan stamp check).bind False.elim

theorem runSuites_honest (suites : List Suite) : (runSuites plan stamp suites).Honest True := by
  induction suites with
  | nil => trivial
  | cons suite rest ih =>
    apply (runSuite_honest plan stamp suite).bind
    · intro _ path
      exact runSuites_withholds plan stamp rest
    · intro path
      exact ih

theorem runChecks_honest (checks : List Check) : (runChecks plan stamp checks).Honest True := by
  induction checks with
  | nil => trivial
  | cons check rest ih =>
    apply (runCheck_honest plan stamp check).bind
    · intro _ path
      exact runChecks_withholds plan stamp rest
    · intro path
      exact ih

theorem runAll_honest : (runAll plan stamp).Honest True := by
  have hphases : (phases plan stamp).Honest True := by
    apply (tell_honest (by simp [Event.prospect?])).bind
    · intro _ _
      exact (runSuites_withholds plan stamp _).bind fun _ _ => runChecks_withholds plan stamp _
    · intro _
      apply (runSuites_honest plan stamp _).bind
      · intro _ _
        exact runChecks_withholds plan stamp _
      · intro _
        exact runChecks_honest plan stamp _
  rw [runAll_eq]
  apply hphases.bind
  · intro _ _
    exact checkInterrupt_bind_withholds _
  · intro _
    apply checkInterrupt_bind_honest
    apply (tell_honest (by simp [Event.prospect?])).bind
    · intro _ _
      trivial
    · intro _
      trivial

end Run

section Calls

variable {plan : Plan} {stamp : String} {event : Event} {prospect : Prospect}

theorem Phase.of_said {phase : Phase} {begun more : List Deed}
    (hevent : event.prospect? = some prospect)
    (h : phase.deeds plan stamp = begun ++ Deed.said event :: more) :
    begun ++ [Deed.said event] <+: phase.body plan := by
  rw [Phase.deeds_eq] at h
  have hbegun : begun ++ [Deed.said event] <+: phase.body plan ++
      [.kept (phase.path plan stamp) (phase.log plan stamp)] ++
        [.said (.logWritten (phase.path plan stamp))] :=
    ⟨more, by rw [h, List.append_assoc]; rfl⟩
  refine prefix_concat_of_ne (prefix_concat_of_ne hbegun ?_) ?_
  · intro heq
    cases (List.append_inj' heq rfl).2
    cases hevent
  · intro heq
    cases (List.append_inj' heq rfl).2

namespace Course

variable {course : Course Path} {done rest : List Phase} {part : List Deed}

theorem Stands.of_said {before after : List Deed} (h : course.Stands plan stamp done part rest)
    (hevent : event.prospect? = some prospect)
    (hdeeds : course.deeds = before ++ Deed.said event :: after) :
    ∃ earlier phase later begun, done ++ rest = earlier ++ phase :: later ∧
      before = .said (.runStart (plan.outDir stamp) Command.runner) ::
        (earlier.flatMap (Phase.deeds plan stamp) ++ begun) ∧
      begun ++ [Deed.said event] <+: phase.body plan := by
  rcases h.split hdeeds with ⟨-, hfirst⟩ | ⟨earlier, begun, hbefore, hplace⟩
  · cases hfirst
    cases hevent
  · rcases hplace with ⟨phase, later, more, rfl, hphase⟩ | ⟨rfl, hpart⟩
    · exact ⟨earlier, phase, later ++ rest, begun, by simp, hbefore, Phase.of_said hevent hphase⟩
    · have hbegun : begun ++ [Deed.said event] <+: part := ⟨after, by simp [hpart]⟩
      cases hrest : rest with
      | nil =>
        have hmem : .said event ∈ [Deed.said (.runFinished (plan.outDir stamp))] :=
          (hbegun.trans (h.last hrest)).subset (by simp)
        cases List.mem_singleton.mp hmem
        cases hevent
      | cons phase later =>
        exact ⟨earlier, phase, later, begun, rfl, hbefore,
          hbegun.trans (h.next phase later hrest)⟩

/-- A call with a prospect is made in a phase, before its log is kept, so the logs kept by then are
those of the phases before it. -/
theorem Stands.of_told {pre post : List Step} {answer : Told}
    (h : course.Stands plan stamp done part rest) (hevent : event.prospect? = some prospect)
    (hsteps : course.steps = pre ++ Step.told event answer :: post) :
    ∃ earlier phase later begun, done ++ rest = earlier ++ phase :: later ∧
      pre.filterMap Step.deed? = .said (.runStart (plan.outDir stamp) Command.runner) ::
        (earlier.flatMap (Phase.deeds plan stamp) ++ begun) ∧
      begun ++ [Deed.said event] <+: phase.body plan ∧
      keptLogs course.steps = earlier.map (Phase.log plan stamp) ++ keptLogs post := by
  obtain ⟨earlier, phase, later, begun, hsplit, hbefore, hbegun⟩ :=
    h.of_said hevent (deeds_of_split hsteps rfl)
  refine ⟨earlier, phase, later, begun, hsplit, hbefore, hbegun, ?_⟩
  have hunkept : begun.filterMap Deed.log? = [] := by
    have hbody := ((List.prefix_append _ _).trans hbegun).filterMap Deed.log?
    rwa [Phase.log?_body, List.prefix_nil] at hbody
  have hpre : keptLogs pre = earlier.map (Phase.log plan stamp) := by
    rw [keptLogs, hbefore, List.filterMap_cons_none rfl, List.filterMap_append,
      Phase.log?_flatMap_deeds, hunkept, List.append_nil]
  rw [← hpre, hsteps, keptLogs, List.filterMap_append, List.filterMap_append]
  rfl

end Course
end Calls

namespace Run

open Procedure

variable (plan : Plan) (stamp : String) (setting : Setting) {world : World}

/-- If the flag is set by the end of a call in a phase, before its log is kept, then no log of a
later phase is written. Neither is that of the phase, unless the call said that the suite has no
tests to run or is through with them: then its log is written, or the console or the disk failed. -/
theorem log_of_interrupted_phase (hsane : world.Sane) (hnodup : plan.logNames.Nodup)
    (hslash : ∀ name ∈ plan.logNames, '/' ∉ name.toList)
    (hvacant : world.tree.Vacant setting.cwd (plan.outDir stamp)) {pre post : List Step}
    {event : Event} {answer : Told} {prospect : Prospect}
    (hsteps : ((runAll plan stamp).carryOut setting world).steps =
      pre ++ Step.told event answer :: post)
    (hflag : setting.flagAfter world (pre ++ [Step.told event answer]) = true)
    (hprospect : event.prospect? = some prospect) :
    let course := (runAll plan stamp).carryOut setting world
    ∃ outcome earlier phase later begun, outcome.Fits plan ∧
      plan.phases outcome = earlier ++ phase :: later ∧
      pre.filterMap Step.deed? = .said (.runStart (plan.outDir stamp) Command.runner) ::
        (earlier.flatMap (Phase.deeds plan stamp) ++ begun) ∧
      begun ++ [Deed.said event] <+: phase.body plan ∧
      match prospect with
      | .withheld => course.Leaves plan stamp setting.cwd earlier (phase :: later)
      | .saved => course.Leaves plan stamp setting.cwd (earlier ++ [phase]) later ∨
        keptLogs course.steps = earlier.map (Phase.log plan stamp) ∧
          (course.result = .error .brokenConsole ∨ ∃ reason,
            course.result = .error (.failed (.log (phase.path plan stamp) reason))) := by
  intro course
  obtain ⟨outcome, done, part, rest, hfits, hphases, hstands⟩ :=
    runAll_stands plan stamp setting world
  have hends : Ends course.steps course.result := (runAll_performs plan stamp).ends setting world
  have hmeets : prospect.Meets post course.result :=
    (runAll_honest plan stamp).meets hsane hsteps hflag hprospect
  obtain ⟨earlier, phase, later, begun, hsplit, hbefore, hbegun, hlogs⟩ :=
    hstands.of_told hprospect hsteps
  have hunsaved (hpost : ∀ log failure, .unsaved log failure ∉ post) :
      ∀ log failure, .unsaved log failure ∉ course.steps := by
    intro log failure hmem
    rw [hsteps] at hmem hends
    rcases List.mem_append.mp hmem with hmem | hmem
    · cases hends.isSome_of_append hmem
    · rcases List.mem_cons.mp hmem with hmem | hmem
      · cases hmem
      · exact hpost log failure hmem
  have hdone : keptLogs course.steps = done.map (Phase.log plan stamp) := hstands.logs_eq
  rw [hsplit] at hphases
  refine ⟨outcome, earlier, phase, later, begun, hfits, hphases, hbefore, hbegun, ?_⟩
  cases prospect with
  | withheld =>
    obtain ⟨hnone, hpost⟩ := keptLogs_of_unlogged hmeets
    exact runAll_leaves plan stamp setting world hnodup hslash hvacant hfits hphases
      (by rw [hlogs, hnone, List.append_nil]) (hunsaved hpost)
  | saved =>
    rcases hmeets with ⟨log, hlog, hpost⟩ | ⟨hnone, hresult⟩
    · -- one phase more is done than before the call, so it is that of the call
      rw [hlog] at hlogs
      have hlength := congrArg List.length (hdone.symm.trans hlogs)
      have hleft : earlier ++ phase :: later = (earlier ++ [phase]) ++ later := by simp
      rw [hleft] at hsplit hphases
      obtain ⟨rfl, rfl⟩ := List.append_inj hsplit (by simpa using hlength)
      exact .inl (runAll_leaves plan stamp setting world hnodup hslash hvacant hfits hphases hdone
        (hunsaved hpost))
    · rw [hnone, List.append_nil] at hlogs
      refine .inr ⟨hlogs, hresult.imp_right ?_⟩
      rintro ⟨log, path, reason, hlast, hfailed⟩
      have hlength := congrArg List.length (hdone.symm.trans hlogs)
      obtain ⟨rfl, rfl⟩ := List.append_inj hsplit (by simpa using hlength)
      have hmissed : course.steps.getLast? = some (.unsaved log (.log path reason)) := by
        rw [hsteps, List.getLast?_append_of_ne_nil _ (List.cons_ne_nil _ _), List.getLast?_cons,
          hlast]
        rfl
      obtain ⟨next, more, hnext, -, rfl, -⟩ := hstands.of_unsaved hmissed
      obtain ⟨rfl, -⟩ := List.cons.inj hnext
      exact ⟨reason, hfailed⟩

theorem log_of_interrupted_check :
    let plan : Plan := ⟨Path.ofString "/", Path.ofString "/logs", [], [⟨"fmt", .format⟩]⟩
    let setting : Setting := ⟨.entries [], fun _ => .zero, [], .lines, ⟨0, 0⟩,
      some ⟨.checkStart, none, 1⟩⟩
    let course := (runAll plan "now").carryOut setting (.fresh .empty .unlimited)
    ∃ phase later, course.Leaves plan "now" [] [] (phase :: later) := by
  intro plan setting course
  obtain ⟨first, answer, post, hsteps, hflag⟩ : ∃ first answer post,
      course.steps = [first] ++ Step.told (.checkStart "fmt") answer :: post ∧
        setting.flagAfter (.fresh .empty .unlimited)
          ([first] ++ [Step.told (.checkStart "fmt") answer]) = true :=
    ⟨_, _, _, rfl, rfl⟩
  obtain ⟨outcome, earlier, phase, later, begun, -, -, hbefore, -, hleaves⟩ :=
    log_of_interrupted_phase plan "now" setting (World.fresh_sane .empty .unlimited) (by decide)
      (by decide) FileTree.empty_vacant_logs hsteps hflag rfl
  have hfew : (earlier.flatMap (Phase.deeds plan "now") ++ begun).length = 0 := by
    have hle := List.length_filterMap_le Step.deed? [first]
    rw [hbefore, List.length_cons, List.length_singleton] at hle
    omega
  obtain ⟨hearlier, -⟩ := List.append_eq_nil_iff.mp (List.eq_nil_of_length_eq_zero hfew)
  have hlogs := congrArg (List.filterMap Deed.log?) hearlier
  rw [Phase.log?_flatMap_deeds] at hlogs
  obtain rfl := List.map_eq_nil_iff.mp hlogs
  exact ⟨phase, later, hleaves⟩

/-- The log of a suite that could not be listed is saved, whatever becomes of the flag meanwhile. -/
theorem saved_of_failed_listing {suite : Suite} {rest : List Suite} {after : World}
    {listing : Capture} (hsuites : plan.suites = suite :: rest)
    (hworks : setting.reporter.Works world.sink) :
    let start := Event.runStart (plan.outDir stamp) Command.runner
    let command := Command.listing plan.workspaceRoot suite.selector
    let failed := Event.listingFailed suite.title listing.exitCode listing.output
    (world.afterTold setting start).interrupted setting = false →
      (world.afterTold setting start).start setting command = .ended listing after →
      listing.success = false → after.interrupted setting = false →
      setting.reporter.Works after.sink →
      (∀ log : Log, log.name = suite.logName →
        ∃ path, (log.write setting.cwd (plan.outDir stamp) after.tree).2 = .ok path) →
      ∃ post path log, ((runAll plan stamp).carryOut setting world).steps =
        [.told start (world.told setting start), .started command (some listing)] ++
          .told failed (after.told setting failed) :: post ∧
        .saved path log ∈ post ∧ log.name = suite.logName := by
  intro start command failed hbefore hstart hfails hunset hafter hwrites
  have hdiscovery : Discovery.ofCapture listing = .failed listing.exitCode listing.output := by
    rw [Discovery.ofCapture, hfails]
    rfl
  have htotal : total [] = .done .zero := rfl
  simp only [runAll_eq, phases, bind_assoc, hsuites, runSuites, bind_eq, runSuite_eq, discover]
  rw [carryOut_tell_bind setting _ _ hworks, carryOut_checkInterrupt_bind, hbefore,
    if_neg Bool.false_ne_true, carryOut_capture_bind setting _ hstart]
  simp only [pure_eq, Procedure.bind, hdiscovery]
  rw [carryOut_checkInterrupt_bind, hunset, if_neg Bool.false_ne_true,
    carryOut_tell_bind setting _ _ hafter]
  simp only [runNames, Discovery.names, List.isEmpty_nil, if_true, Procedure.bind, closeSuite,
    htotal, bind_assoc]
  rw [carryOut_tell_bind setting _ _ (after.afterTold_works _ hafter)]
  generalize hlog : Log.mk suite.logName _ _ = log
  obtain ⟨path, hwrite⟩ := hwrites log (by rw [← hlog])
  simp only [saveLog, save, Procedure.bind, carryOut]
  split
  · next made failure hfailed =>
    rw [(World.afterTold_eq setting _ _).1, (World.afterTold_eq setting _ _).1] at hfailed
    rw [hfailed] at hwrite
    cases hwrite
  · next made kept hsaved =>
    exact ⟨_, kept, log, rfl, by simp [Course.after], by rw [← hlog]⟩

theorem log_saved_after_interrupt :
    let root := Path.ofString "/"
    let plan : Plan := ⟨root, Path.ofString "/logs", [⟨"unit", "Unit Tests", []⟩], []⟩
    let setting : Setting := ⟨.entries [], fun _ => .zero, [], .lines, ⟨0, 0⟩,
      some ⟨.listingFailed, none, 1⟩⟩
    let world : World := .fresh .empty .unlimited
    ∃ pre event answer post path log,
      ((runAll plan "now").carryOut setting world).steps = pre ++ Step.told event answer :: post ∧
        event.kind = .listingFailed ∧ setting.flagAfter world pre = false ∧
        setting.flagAfter world (pre ++ [Step.told event answer]) = true ∧
        .saved path log ∈ post ∧ log.name = "unit" := by
  intro root plan setting world
  have hspawns : setting.Spawns .empty [] (Command.listing root []) := ⟨by cbv, by cbv, by cbv⟩
  have hsteady : world.Steady setting 0 .empty := World.fresh_steady (.inl rfl) .empty
  obtain ⟨after, hstart, hafter⟩ :=
    (hsteady.afterTold (.runStart (plan.outDir "now") Command.runner)).start hspawns
  obtain ⟨-, -, hraised, -⟩ := World.start_ended hstart (World.afterTold_sane _ hsteady.sane)
  have haccepts : FileTree.empty.Accepts [] (plan.outDir "now") plan.logNames := by
    refine FileTree.empty_accepts (by decide) ?_
    intro name hmem
    obtain rfl := List.mem_singleton.mp hmem
    exact ⟨by decide, by decide, by decide⟩
  obtain ⟨post, path, log, hsteps, hmem, hname⟩ :=
    saved_of_failed_listing plan "now" setting rfl (.inl rfl) rfl hstart rfl hraised (.inl rfl)
      (fun log hlog => hafter.tree ▸ haccepts.writes log (by simp [Plan.logNames, plan, hlog]))
  exact ⟨_, _, _, post, path, log, hsteps, rfl, rfl, rfl, hmem, hname⟩

end Run
end SoloRun
