import SoloRun.Proofs.Flag

/-!
No child after an interrupt. A procedure is quiet if it starts nothing once the flag is set, and
guarded if it is quiet from every moment on at which the flag can be set; only a child that was just
announced is still tried. Every run is both.
-/

namespace SoloRun

def Step.tried? : Step → Option Command
  | .started command _ | .refused command _ => some command
  | _ => none

def Event.announces : Event → Bool
  | .testStart _ _ _ | .checkStart _ => true
  | _ => false

def Step.announces : Step → Bool
  | .told event answer => event.announces && !answer.broken
  | _ => false

def AnnouncesTest (dir : Path) (selector : List String) : Event → Command → Prop
  | .testStart name _ _, command => command = Command.single dir selector name
  | _, _ => False

def Plan.Announces (plan : Plan) : Event → Command → Prop
  | .testStart name _ _, command =>
    ∃ suite ∈ plan.suites, command = Command.single plan.workspaceRoot suite.selector name
  | .checkStart name, command =>
    ∃ check ∈ plan.checks, name = check.logName ∧ command = check.command plan.workspaceRoot
  | _, _ => False

namespace Procedure

variable {α β : Type} (announces : Event → Command → Prop)

def Quiet : Procedure α → Prop
  | .done _ | .stop _ => True
  | .poll next => (next true).Quiet
  | .tell _ next => next.Quiet
  | .start _ _ => False
  | .save _ _ next => ∀ path, (next path).Quiet

def StartsAnnounced (event : Event) : Procedure α → Prop
  | .start command _ => announces event command
  | _ => False

def Guarded : Procedure α → Prop
  | .done _ | .stop _ => True
  | .poll next => ∀ raised, (next raised).Guarded
  | .tell event next =>
    (if event.announces then next.StartsAnnounced announces event else next.Quiet) ∧ next.Guarded
  | .start _ next => ∀ capture, (next capture).Quiet ∧ (next capture).Guarded
  | .save _ _ next => ∀ path, (next path).Quiet ∧ (next path).Guarded

structure Careful (procedure : Procedure α) : Prop where
  quiet : procedure.Quiet
  guarded : procedure.Guarded announces

variable {announces}

theorem Quiet.bind {procedure : Procedure α} {f : α → Procedure β} (hp : procedure.Quiet)
    (hf : ∀ value, (f value).Quiet) : (procedure.bind f).Quiet := by
  induction procedure with
  | done value => exact hf value
  | stop => trivial
  | poll next ih => exact ih true hp
  | tell event next ih => exact ih hp
  | start => exact hp.elim
  | save dir log next ih =>
    intro path
    exact ih path (hp path)

theorem StartsAnnounced.bind {event : Event} {procedure : Procedure α} (f : α → Procedure β)
    (hp : procedure.StartsAnnounced announces event) :
    (procedure.bind f).StartsAnnounced announces event := by
  cases procedure <;> first | exact hp | exact hp.elim

theorem Guarded.bind {procedure : Procedure α} {f : α → Procedure β}
    (hp : procedure.Guarded announces) (hf : ∀ value, (f value).Careful announces) :
    (procedure.bind f).Guarded announces := by
  have hquiet (value : α) : (f value).Quiet := (hf value).quiet
  induction procedure with
  | done value => exact (hf value).guarded
  | stop => trivial
  | poll next ih =>
    intro raised
    exact ih raised (hp raised)
  | tell event next ih =>
    refine ⟨?_, ih hp.2⟩
    have hnext := hp.1
    split at hnext
    · next hevent =>
      rw [if_pos hevent]
      exact hnext.bind f
    · next hevent =>
      rw [if_neg hevent]
      exact hnext.bind hquiet
  | start command next ih =>
    intro capture
    exact ⟨(hp capture).1.bind hquiet, ih capture (hp capture).2⟩
  | save dir log next ih =>
    intro path
    exact ⟨(hp path).1.bind hquiet, ih path (hp path).2⟩

theorem Careful.done (value : α) : (Procedure.done value).Careful announces :=
  ⟨trivial, trivial⟩

theorem Careful.bind {procedure : Procedure α} {f : α → Procedure β}
    (hp : procedure.Careful announces) (hf : ∀ value, (f value).Careful announces) :
    (procedure.bind f).Careful announces :=
  ⟨hp.quiet.bind fun value => (hf value).quiet, hp.guarded.bind hf⟩

variable {setting : Setting}

theorem Quiet.tried_eq_nil {procedure : Procedure α} (hp : procedure.Quiet) {world : World}
    (h : world.interrupted setting = true) :
    (procedure.carryOut setting world).steps.filterMap Step.tried? = [] := by
  induction procedure generalizing world with
  | done | stop => rfl
  | poll next ih =>
    rw [carryOut, h]
    exact ih true hp h
  | tell event next ih =>
    simp only [carryOut]
    split
    · rfl
    · exact ih hp (World.afterTold_interrupted event h)
  | start => exact hp.elim
  | save dir log next ih =>
    simp only [carryOut]
    split
    · rfl
    · exact ih _ (hp _) h

/-- No child is tried in the steps that follow `last`, but for one that `last` announces: that one
is tried first. -/
def Halts (announces : Event → Command → Prop) (last : Step) (post : List Step) : Prop :=
  if last.announces then
    ∃ event command attempt rest, last.event? = some event ∧ announces event command ∧
      post = attempt :: rest ∧ attempt.tried? = some command ∧ rest.filterMap Step.tried? = []
  else post.filterMap Step.tried? = []

theorem Guarded.halts_of_announced {procedure : Procedure α} (hp : procedure.Guarded announces)
    {event : Event} (hstarts : procedure.StartsAnnounced announces event) {world : World}
    (hsane : world.Sane) (h : world.interrupted setting = true) :
    ∃ command attempt rest, announces event command ∧
      (procedure.carryOut setting world).steps = attempt :: rest ∧
      attempt.tried? = some command ∧ rest.filterMap Step.tried? = [] := by
  cases procedure with
  | start command next =>
    refine ⟨command, ?_⟩
    simp only [carryOut]
    cases hstart : world.start setting command with
    | refused error => exact ⟨_, _, hstarts, rfl, rfl, rfl⟩
    | stopped reason after => exact ⟨_, _, hstarts, rfl, rfl, rfl⟩
    | ended capture after =>
      exact ⟨_, _, hstarts, rfl, rfl,
        (hp capture).1.tried_eq_nil (setting.interrupted_of_started hstart hsane h)⟩
  | _ => exact hstarts.elim

-- the induction is on the procedure; the world carries what the flag was set by so far
theorem Guarded.halts {procedure : Procedure α} (hp : procedure.Guarded announces) {world : World}
    (hsane : world.Sane) {pre post : List Step} {last : Step}
    (hsteps : (procedure.carryOut setting world).steps = pre ++ last :: post)
    (hflag : setting.flagAfter world (pre ++ [last]) = true) : Halts announces last post := by
  induction procedure generalizing world pre with
  | done | stop => simp [carryOut] at hsteps
  | poll next ih => exact ih _ (hp _) hsane hsteps hflag
  | tell event next ih =>
    simp only [carryOut] at hsteps
    split at hsteps
    · next hbroken => exact of_split_singleton hsteps (by simp [Halts, Step.announces, hbroken])
    · next hbroken =>
      rw [Bool.not_eq_true] at hbroken
      apply setting.of_flag_split hsteps (setting.flagAfter_told world hbroken) hflag
      · intro hset
        have hnext := hp.1
        split at hnext
        · next hevent =>
          obtain ⟨command, attempt, rest, h⟩ :=
            hp.2.halts_of_announced hnext (World.afterTold_sane event hsane) hset
          rw [Halts, if_pos (by simp [Step.announces, hevent, hbroken])]
          exact ⟨event, command, attempt, rest, rfl, h⟩
        · next hevent =>
          rw [Halts, if_neg (by simp [Step.announces, hevent])]
          exact hnext.tried_eq_nil hset
      · intro more hmore
        exact ih hp.2 (World.afterTold_sane event hsane) hmore
  | start command next ih =>
    simp only [carryOut] at hsteps
    cases hstart : world.start setting command with
    | refused error =>
      rw [hstart] at hsteps
      exact of_split_singleton hsteps rfl
    | stopped reason after =>
      rw [hstart] at hsteps
      exact of_split_singleton hsteps rfl
    | ended capture after =>
      rw [hstart] at hsteps
      apply setting.of_flag_split hsteps (setting.flagAfter_started hstart hsane) hflag
      · intro hset
        exact (hp capture).1.tried_eq_nil hset
      · intro more hmore
        exact ih capture (hp capture).2 (World.start_ended hstart hsane).1 hmore
  | save dir log next ih =>
    simp only [carryOut] at hsteps
    split at hsteps
    · exact of_split_singleton hsteps rfl
    · next tree path _ =>
      have hkept : World.Sane { world with tree } := hsane
      apply setting.of_flag_split hsteps (setting.flagAfter_saved world tree path log) hflag
      · intro hset
        exact (hp path).1.tried_eq_nil hset
      · intro more hmore
        exact ih path (hp path).2 hkept hmore

def StopsAtFlag (announces : Event → Command → Prop) (setting : Setting) (world : World)
    (procedure : Procedure α) : Prop :=
  let steps := (procedure.carryOut setting world).steps
  (world.interrupted setting = true → steps.filterMap Step.tried? = []) ∧
    ∀ pre last post, steps = pre ++ last :: post →
      setting.flagAfter world (pre ++ [last]) = true → Halts announces last post

theorem Careful.stopsAtFlag {procedure : Procedure α} (hp : procedure.Careful announces)
    {world : World} (hsane : world.Sane) : procedure.StopsAtFlag announces setting world := by
  constructor
  · intro hset
    exact hp.quiet.tried_eq_nil hset
  · intro pre last post hsteps hflag
    exact hp.guarded.halts hsane hsteps hflag

end Procedure

namespace Run

open Procedure

variable (plan : Plan) (stamp : String) {announces : Event → Command → Prop}

theorem checkInterrupt_bind_careful {α : Type} {f : Unit → Procedure α}
    (hf : (f ()).Guarded announces) : (checkInterrupt.bind f).Careful announces := by
  refine ⟨trivial, ?_⟩
  rintro (_ | _)
  · exact hf
  · trivial

theorem tell_careful {event : Event} (h : event.announces = false) :
    (tell event).Careful announces := by
  constructor
  · trivial
  · simp [tell, Guarded, h, Quiet]

theorem capture_guarded (command : Command) : (capture command).Guarded announces := by
  intro captured
  exact ⟨trivial, trivial⟩

theorem save_careful (dir : Path) (log : Log) : (save dir log).Careful announces := by
  constructor
  · intro path
    trivial
  · intro path
    exact ⟨trivial, trivial⟩

theorem total_careful (results : List TestResult) : (total results).Careful announces := by
  rw [total]
  split
  · exact .done _
  · exact ⟨trivial, trivial⟩

theorem discover_guarded (dir : Path) (selector : List String) :
    (discover dir selector).Guarded announces := by
  apply (capture_guarded _).bind
  intro listing
  exact .done _

theorem saveLog_careful (log : Log) : (saveLog plan stamp log).Careful announces := by
  apply (save_careful _ log).bind
  intro path
  apply (tell_careful rfl).bind
  intro _
  exact .done path

theorem closeSuite_careful (suite : Suite) (discovery : Discovery) (results : List TestResult) :
    (closeSuite plan stamp suite discovery results).Careful announces := by
  apply (total_careful results).bind
  intro duration
  apply (tell_careful rfl).bind
  intro _
  exact saveLog_careful plan stamp _

theorem runTest_guarded {dir : Path} {selector : List String} {name : String} {number count : Nat}
    (h : announces (.testStart name number count) (Command.single dir selector name)) :
    (runTest dir selector name number count).Guarded announces := by
  refine ⟨h, ?_⟩
  apply (capture_guarded _).bind
  intro test
  apply (tell_careful rfl).bind
  intro _
  apply (tell_careful rfl).bind
  intro _
  exact .done _

theorem runTestsFrom_careful {dir : Path} {selector : List String}
    (h : ∀ name number count,
      announces (.testStart name number count) (Command.single dir selector name))
    (count number : Nat) (names : List String) :
    (runTestsFrom dir selector count number names).Careful announces := by
  induction names generalizing number with
  | nil => exact checkInterrupt_bind_careful trivial
  | cons name rest ih =>
    apply checkInterrupt_bind_careful
    apply (runTest_guarded (h name number count)).bind
    intro result
    apply (ih (number + 1)).bind
    intro results
    exact .done _

theorem runNames_careful {dir : Path} {selector : List String}
    (h : ∀ name number count,
      announces (.testStart name number count) (Command.single dir selector name))
    (names : List String) : (runNames dir selector names).Careful announces := by
  rw [runNames]
  split
  · exact .done _
  · exact runTestsFrom_careful h _ 1 names

theorem runSuite_careful {suite : Suite} (h : ∀ name number count, announces
      (.testStart name number count) (Command.single plan.workspaceRoot suite.selector name)) :
    (runSuite plan stamp suite).Careful announces := by
  rw [runSuite_eq]
  apply checkInterrupt_bind_careful
  apply (discover_guarded _ _).bind
  intro discovery
  have hevent : (discovery.event suite.title).announces = false := by
    cases discovery <;> rfl
  apply checkInterrupt_bind_careful
  apply (tell_careful hevent).guarded.bind
  intro _
  apply (runNames_careful h discovery.names).bind
  intro results
  exact closeSuite_careful plan stamp suite discovery results

theorem runCheck_careful {check : Check}
    (h : announces (.checkStart check.logName) (check.command plan.workspaceRoot)) :
    (runCheck plan stamp check).Careful announces := by
  rw [runCheck_eq]
  apply checkInterrupt_bind_careful
  refine ⟨h, ?_⟩
  apply (capture_guarded _).bind
  intro output
  apply (tell_careful rfl).bind
  intro _
  exact checkInterrupt_bind_careful (saveLog_careful plan stamp _).guarded

theorem runSuites_careful (suites : List Suite)
    (h : ∀ suite ∈ suites, ∀ name number count, announces
      (.testStart name number count) (Command.single plan.workspaceRoot suite.selector name)) :
    (runSuites plan stamp suites).Careful announces := by
  induction suites with
  | nil => exact .done ()
  | cons suite rest ih =>
    obtain ⟨hfirst, hrest⟩ := List.forall_mem_cons.mp h
    apply (runSuite_careful plan stamp hfirst).bind
    intro path
    exact ih hrest

theorem runChecks_careful (checks : List Check)
    (h : ∀ check ∈ checks,
      announces (.checkStart check.logName) (check.command plan.workspaceRoot)) :
    (runChecks plan stamp checks).Careful announces := by
  induction checks with
  | nil => exact .done ()
  | cons check rest ih =>
    obtain ⟨hfirst, hrest⟩ := List.forall_mem_cons.mp h
    apply (runCheck_careful plan stamp hfirst).bind
    intro path
    exact ih hrest

theorem phases_careful : (phases plan stamp).Careful plan.Announces := by
  apply (tell_careful rfl).bind
  intro _
  have hsuites : (runSuites plan stamp plan.suites).Careful plan.Announces := by
    apply runSuites_careful
    intro suite hmem name number count
    exact ⟨suite, hmem, rfl⟩
  apply hsuites.bind
  intro _
  apply runChecks_careful
  intro check hmem
  exact ⟨check, hmem, rfl, rfl⟩

theorem runAll_careful : (runAll plan stamp).Careful plan.Announces := by
  rw [runAll_eq]
  apply (phases_careful plan stamp).bind
  intro _
  apply checkInterrupt_bind_careful
  apply (tell_careful rfl).guarded.bind
  intro _
  exact .done _

end Run
end SoloRun
