import SoloRun.Proofs.Flag
import SoloRun.Proofs.Language

/-!
A run heeds an interrupt: after each child, and at its very start, it owes a look at the flag. Until
it has taken that look it only tells how the child did, and it stops there if the flag is set. So of
all the children that were started, only the last can have sent an interrupt.
-/

namespace SoloRun

/-- Says that a log was written, or that the run is finished. -/
def Event.concludes : Event → Bool
  | .logWritten _ | .runFinished _ => true
  | _ => false

/-- Tells something, but concludes nothing. -/
def Step.isNote : Step → Bool
  | .told event _ => !event.concludes
  | _ => false

/-- The child ends once it was started with no interrupt before, or it ends the program. -/
def Behaviour.Ends (behaviour : Behaviour) : Prop :=
  behaviour.hangs = true →
    behaviour.interrupting? = some .dies ∨ behaviour.interrupting? = some .insists

def Setting.insists (setting : Setting) : Step → Bool
  | .started command _ => (setting.script.behaviour command.args).interrupting? = some .insists
  | _ => false

theorem Setting.interrupts_of_insists {setting : Setting} {step : Step}
    (h : setting.insists step = true) : setting.interrupts step = true := by
  cases step with
  | started command capture? =>
    have hhow : (setting.script.behaviour command.args).interrupting? = some .insists := by
      simpa [insists] using h
    simp [interrupts, hhow]
  | told | refused | saved | unsaved => cases h

namespace Behaviour

variable {behaviour : Behaviour} {child : Nat} {signals after : Signals} {code : Int}

theorem fate_of_unset (hunset : signals.flag = false) (hslot : signals.slot? = some child)
    (hnew : child ∉ signals.hit) :
    behaviour.fate child signals =
      match behaviour.interrupting? with
      | none => behaviour.lastly signals
      | some .ignores => behaviour.lastly signals.forward
      | some .dies => .ended interruptedChild signals.forward
      | some .insists => .parentEnds := by
  have hforward : child ∈ signals.forward.hit := by simp [Signals.forward, hslot]
  rw [fate, if_neg fun h => hnew h.1]
  cases behaviour.interrupting? with
  | none => rfl
  | some how => cases how <;> simp [Signals.interrupt?, hunset, hforward]

end Behaviour

namespace World

variable {setting : Setting} {world after : World} {command : Command}
  (hsane : world.Sane) (hunset : world.signals.flag = false)
include hsane hunset

theorem fate_of_registered (behaviour : Behaviour) :
    behaviour.fate world.children (world.signals.register world.children) =
      match behaviour.interrupting? with
      | none => behaviour.lastly (world.signals.register world.children)
      | some .ignores => behaviour.lastly (world.signals.register world.children).forward
      | some .dies => .ended interruptedChild (world.signals.register world.children).forward
      | some .insists => .parentEnds := by
  apply Behaviour.fate_of_unset
  · rw [Signals.register_flag, hunset]
  · exact Signals.register_slot _ _
  · exact next_not_hit hsane hunset

theorem insists_of_ended {capture : Capture}
    (h : world.start setting command = .ended capture after) (capture? : Option Capture) :
    setting.insists (.started command capture?) = false := by
  rw [start] at h
  split at h
  · cases h
  · dsimp only at h
    rw [fate_of_registered hsane hunset] at h
    simp only [Setting.insists, decide_eq_false_iff_not]
    intro hhow
    rw [hhow] at h
    cases h

theorem insists_of_stopped {reason : Stop}
    (h : world.start setting command = .stopped reason after)
    (hends : (setting.script.behaviour command.args).Ends) (capture? : Option Capture) :
    reason = .interruptedTwice ∧ setting.insists (.started command capture?) = true ∧
      after.signals.flag = false := by
  rw [start] at h
  split at h
  · cases h
  · dsimp only at h
    rw [fate_of_registered hsane hunset] at h
    have hlastly : (setting.script.behaviour command.args).interrupting? ≠ some .dies →
        (setting.script.behaviour command.args).interrupting? ≠ some .insists →
        ∀ signals, (setting.script.behaviour command.args).lastly signals =
          .ended (setting.script.behaviour command.args).ending.code signals := by
      intro hdies hinsists signals
      rw [Behaviour.lastly, if_neg fun hhangs => (hends hhangs).elim hdies hinsists]
    cases hhow : (setting.script.behaviour command.args).interrupting? with
    | none => simp [hhow, hlastly] at h
    | some how =>
      cases how with
      | ignores => simp [hhow, hlastly] at h
      | dies => simp [hhow] at h
      | insists =>
        rw [hhow] at h
        cases h
        exact ⟨rfl, by simp [Setting.insists, hhow], hunset⟩

end World

namespace Procedure

variable {α β : Type}

/-- Owing a look at the flag, it tells what does not conclude anything and no more; it starts a
child and saves a log only if it owes none, and owes one after each child. At its end it may leave
one to be taken. -/
def Heeds : Procedure α → Bool → Bool → Prop
  | .done _, owing, left => owing = true → left = true
  | .stop reason, owing, _ => owing = false ∧ reason = .overflow
  | .poll next, _, left =>
    next true = .stop (.failed .interrupted) ∧ (next false).Heeds false left
  | .tell event next, owing, left =>
    (owing = true → event.concludes = false) ∧ next.Heeds owing left
  | .start _ next, owing, left => owing = false ∧ ∀ capture, (next capture).Heeds true left
  | .save _ _ next, owing, left => owing = false ∧ ∀ path, (next path).Heeds false left

namespace Heeds

variable {procedure : Procedure α} {owing less middle left more : Bool}

theorem mono (hp : procedure.Heeds owing left) (hless : less = true → owing = true)
    (hmore : left = true → more = true) : procedure.Heeds less more := by
  have hfalse (h : owing = false) : less = false := by
    rw [Bool.eq_false_iff] at h ⊢
    exact fun hset => h (hless hset)
  induction procedure generalizing owing less with
  | done value => exact fun hset => hmore (hp (hless hset))
  | stop reason => exact ⟨hfalse hp.1, hp.2⟩
  | poll next ih => exact ⟨hp.1, ih false hp.2 id id⟩
  | tell event next ih => exact ⟨fun hset => hp.1 (hless hset), ih hp.2 hless hfalse⟩
  | start command next ih =>
    refine ⟨hfalse hp.1, ?_⟩
    intro capture
    exact ih capture (hp.2 capture) id id
  | save dir log next ih =>
    refine ⟨hfalse hp.1, ?_⟩
    intro path
    exact ih path (hp.2 path) id id

theorem bind {f : α → Procedure β} (hp : procedure.Heeds owing middle)
    (hf : ∀ value, (f value).Heeds middle left) : (procedure.bind f).Heeds owing left := by
  induction procedure generalizing owing with
  | done value => exact (hf value).mono hp id
  | stop reason => exact hp
  | poll next ih =>
    have hstop : (next true).bind f = .stop (.failed .interrupted) := by
      rw [hp.1]
      rfl
    exact ⟨hstop, ih false hp.2⟩
  | tell event next ih => exact ⟨hp.1, ih hp.2⟩
  | start command next ih =>
    refine ⟨hp.1, ?_⟩
    intro capture
    exact ih capture (hp.2 capture)
  | save dir log next ih =>
    refine ⟨hp.1, ?_⟩
    intro path
    exact ih path (hp.2 path)

end Heeds
end Procedure

/-- How a course ends that no interrupt came before, by its steps, its result and the flag after
it: none came, or the child that sent one ended and only notes follow, or it sent a second one. -/
inductive Heeded {α : Type} (setting : Setting) : List Step → Except Stop α → Bool → Prop where
  | never {steps result} (silent : ∀ step ∈ steps, setting.interrupts step = false)
    (interrupted : result ≠ .error (.failed .interrupted))
    (twice : result ≠ .error .interruptedTwice) (endless : result ≠ .error .endless) :
    Heeded setting steps result false
  | once {pre post command capture result}
    (silent : ∀ step ∈ pre, setting.interrupts step = false)
    (sends : setting.interrupts (.started command (some capture)) = true)
    (obeys : setting.insists (.started command (some capture)) = false)
    (notes : ∀ step ∈ post, step.isNote = true)
    (interrupted : result = .error (.failed .interrupted) ∨ result = .error .brokenConsole) :
    Heeded setting (pre ++ .started command (some capture) :: post) result true
  | twice {pre command} (silent : ∀ step ∈ pre, setting.interrupts step = false)
    (insists : setting.insists (.started command none) = true) :
    Heeded setting (pre ++ [.started command none]) (.error .interruptedTwice) false

theorem Heeded.cons {α : Type} {setting : Setting} {steps : List Step} {result : Except Stop α}
    {flag : Bool} (h : Heeded setting steps result flag) {step : Step}
    (hsilent : setting.interrupts step = false) : Heeded setting (step :: steps) result flag := by
  cases h with
  | never silent interrupted twice endless =>
    exact .never (List.forall_mem_cons.mpr ⟨hsilent, silent⟩) interrupted twice endless
  | @once pre _ _ _ _ silent sends obeys notes interrupted =>
    exact .once (List.forall_mem_cons.mpr ⟨hsilent, silent⟩ : ∀ other ∈ step :: pre, _) sends obeys
      notes interrupted
  | @twice pre _ silent insists =>
    exact .twice (List.forall_mem_cons.mpr ⟨hsilent, silent⟩ : ∀ other ∈ step :: pre, _) insists

theorem Step.silent_of_isNote {setting : Setting} {step : Step} (h : step.isNote = true) :
    setting.interrupts step = false := by
  cases step with
  | told event answer => rfl
  | started | refused | saved | unsaved => cases h

theorem Setting.any_insists_eq_false {setting : Setting} {steps : List Step}
    (h : ∀ step ∈ steps, setting.interrupts step = false) :
    steps.any setting.insists = false := by
  rw [List.any_eq_false]
  intro step hmem hinsists
  have hsilent := h step hmem
  rw [setting.interrupts_of_insists hinsists] at hsilent
  cases hsilent

theorem Heeded.unsent {α : Type} {setting : Setting} {steps : List Step} {result : Except Stop α}
    {flag : Bool} (h : Heeded setting steps result flag)
    (hunsent : steps.any setting.interrupts = false) :
    flag = false ∧ result ≠ .error (.failed .interrupted) ∧ result ≠ .error .interruptedTwice ∧
      result ≠ .error .endless := by
  rw [List.any_eq_false] at hunsent
  cases h with
  | never silent interrupted twice endless => exact ⟨rfl, interrupted, twice, endless⟩
  | once silent sends => exact absurd sends (hunsent _ (by simp))
  | twice silent insists =>
    exact absurd (setting.interrupts_of_insists insists) (hunsent _ (by simp))

/-- The child that sent the first interrupt, if there is one, is the last that was started. -/
theorem Heeded.sender {α : Type} {setting : Setting} {steps : List Step} {result : Except Stop α}
    {flag : Bool} (h : Heeded setting steps result flag)
    (hsent : steps.any setting.interrupts = true) :
    (flag = true ∧
        (result = .error (.failed .interrupted) ∨ result = .error .brokenConsole) ∧
        steps.any setting.insists = false ∨
      result = .error .interruptedTwice ∧ steps.any setting.insists = true) ∧
    ∃ pre command capture? post, steps = pre ++ .started command capture? :: post ∧
      setting.interrupts (.started command capture?) = true ∧ (capture? = none → post = []) ∧
      ∀ step ∈ post, step.isNote = true := by
  cases h with
  | never silent =>
    obtain ⟨step, hmem, hsends⟩ := List.any_eq_true.mp hsent
    rw [silent step hmem] at hsends
    cases hsends
  | @once pre post command capture _ silent sends obeys notes interrupted =>
    have hafter : post.any setting.insists = false :=
      setting.any_insists_eq_false fun step hmem => Step.silent_of_isNote (notes step hmem)
    refine ⟨.inl ⟨rfl, interrupted, ?_⟩, pre, command, some capture, post, rfl, sends, ?_, notes⟩
    · rw [List.any_append, List.any_cons, setting.any_insists_eq_false silent, obeys, hafter]
      rfl
    · intro hnone
      cases hnone
  | @twice pre command silent insists =>
    refine ⟨.inr ⟨rfl, ?_⟩, pre, command, none, [], rfl, setting.interrupts_of_insists insists,
      fun _ => rfl, List.forall_mem_nil _⟩
    rw [List.any_append, List.any_cons, insists]
    simp

namespace Procedure

variable {α : Type} {procedure : Procedure α} {setting : Setting} {world : World} {owing : Bool}
  (htrigger : setting.trigger? = none)
include htrigger

theorem interrupted_eq_flag (world : World) :
    world.interrupted setting = world.signals.flag := by
  rw [World.interrupted, htrigger]

theorem Heeds.carryOut_of_set (hp : procedure.Heeds true false)
    (hset : world.signals.flag = true) :
    let course := procedure.carryOut setting world
    (∀ step ∈ course.steps, step.isNote = true) ∧
      (course.result = .error (.failed .interrupted) ∨ course.result = .error .brokenConsole) ∧
      course.world.tree = world.tree ∧ course.world.signals.flag = true := by
  induction procedure generalizing world with
  | done value => cases hp rfl
  | stop reason => cases hp.1
  | poll next ih =>
    simp only [carryOut, interrupted_eq_flag htrigger, hset]
    rw [hp.1]
    exact ⟨List.forall_mem_nil _, .inl rfl, rfl, hset⟩
  | tell event next ih =>
    obtain ⟨htree, hsignals, -⟩ := World.afterTold_eq setting world event
    have hnote (answer : Told) : (Step.told event answer).isNote = true := by
      simp [Step.isNote, hp.1 rfl]
    simp only [carryOut]
    split
    · exact ⟨by simp [hnote], .inr rfl, htree, by rw [hsignals, hset]⟩
    · obtain ⟨hnotes, hresult, hkept, hflag⟩ := ih hp.2 (by rw [hsignals, hset])
      exact ⟨List.forall_mem_cons.mpr ⟨hnote _, hnotes⟩, hresult, hkept.trans htree, hflag⟩
  | start command next ih => cases hp.1
  | save dir log next ih => cases hp.1

theorem Heeds.heeded (hp : procedure.Heeds owing false) (hsane : world.Sane)
    (hunset : world.signals.flag = false)
    (hends : ∀ command capture?,
      .started command capture? ∈ (procedure.carryOut setting world).steps →
        (setting.script.behaviour command.args).Ends) :
    Heeded setting (procedure.carryOut setting world).steps
      (procedure.carryOut setting world).result
      (procedure.carryOut setting world).world.signals.flag := by
  induction procedure generalizing owing world with
  | done value =>
    simp only [carryOut, hunset]
    exact .never (List.forall_mem_nil _) (by simp) (by simp) (by simp)
  | stop reason =>
    obtain ⟨-, rfl⟩ := hp
    simp only [carryOut, hunset]
    exact .never (List.forall_mem_nil _) (by simp) (by simp) (by simp)
  | poll next ih =>
    simp only [carryOut, interrupted_eq_flag htrigger, hunset] at hends ⊢
    exact ih false hp.2 hsane hunset hends
  | tell event next ih =>
    obtain ⟨-, hsignals, -⟩ := World.afterTold_eq setting world event
    simp only [carryOut] at hends ⊢
    split
    · rw [hsignals, hunset]
      exact .never (by simp [Setting.interrupts]) (by simp) (by simp) (by simp)
    · next hbroken =>
      rw [if_neg hbroken] at hends
      exact (ih hp.2 (World.afterTold_sane event hsane) (by rw [hsignals, hunset])
        fun command capture? hmem => hends command capture? (List.mem_cons_of_mem _ hmem)).cons rfl
  | start command next ih =>
    simp only [carryOut] at hends ⊢
    cases hstart : world.start setting command with
    | refused error =>
      simp only [hunset]
      exact .never (by simp [Setting.interrupts]) (by simp) (by simp) (by simp)
    | stopped reason after =>
      rw [hstart] at hends
      obtain ⟨rfl, hinsists, hflag⟩ := World.insists_of_stopped hsane hunset hstart
        (hends command none List.mem_cons_self) none
      simp only [hflag]
      exact @Heeded.twice α setting [] command (List.forall_mem_nil _) hinsists
    | ended capture after =>
      rw [hstart] at hends
      have hobeys := World.insists_of_ended hsane hunset hstart (some capture)
      obtain ⟨hafter, -, -, -, -, -, hflag⟩ := World.start_ended hstart hsane
      rw [hunset, Bool.false_or] at hflag
      cases hsends : setting.interrupts (.started command (some capture)) with
      | true =>
        -- the look that is owed now finds the flag set, before anything else is tried
        obtain ⟨hnotes, hresult, -, hset⟩ :=
          (hp.2 capture).carryOut_of_set htrigger (hflag.trans hsends)
        simp only [Course.after, hset]
        exact @Heeded.once α setting [] _ command capture _ (List.forall_mem_nil _) hsends hobeys
          hnotes hresult
      | false =>
        exact (ih capture (hp.2 capture) hafter (hflag.trans hsends)
          fun other capture? hmem => hends other capture? (List.mem_cons_of_mem _ hmem)).cons hsends
  | save dir log next ih =>
    simp only [carryOut] at hends ⊢
    split
    · next tree failure hwrite =>
      obtain ⟨reason, rfl⟩ := Log.exists_reason_of_write hwrite
      simp only [hunset]
      exact .never (by simp [Setting.interrupts]) (by simp) (by simp) (by simp)
    · next tree path hwrite =>
      rw [hwrite] at hends
      have hkept : World.Sane { world with tree } := hsane
      exact (ih path (hp.2 path) hkept hunset
        fun command capture? hmem => hends command capture? (List.mem_cons_of_mem _ hmem)).cons rfl

end Procedure
namespace Run

open Procedure

variable (plan : Plan) (stamp : String) {owing : Bool}

theorem tell_heeds {event : Event} (h : owing = true → event.concludes = false) :
    (tell event).Heeds owing owing :=
  ⟨h, id⟩

theorem capture_heeds (command : Command) : (capture command).Heeds false true :=
  ⟨rfl, fun _ => id⟩

theorem checkInterrupt_heeds : checkInterrupt.Heeds owing false :=
  ⟨rfl, id⟩

theorem total_heeds (results : List TestResult) : (total results).Heeds false false := by
  rw [total]
  split
  · exact id
  · exact ⟨rfl, rfl⟩

theorem runTest_heeds (dir : Path) (selector : List String) (name : String) (number count : Nat) :
    (runTest dir selector name number count).Heeds false true := by
  apply (tell_heeds fun _ => rfl).bind
  intro _
  apply (capture_heeds _).bind
  intro test
  apply (tell_heeds fun _ => rfl).bind
  intro _
  apply (tell_heeds fun _ => rfl).bind
  intro _
  exact id

theorem runTestsFrom_heeds (dir : Path) (selector : List String) (count number : Nat)
    (names : List String) :
    (runTestsFrom dir selector count number names).Heeds owing false := by
  induction names generalizing number owing with
  | nil =>
    apply checkInterrupt_heeds.bind
    intro _
    exact id
  | cons name rest ih =>
    apply checkInterrupt_heeds.bind
    intro _
    apply (runTest_heeds dir selector name number count).bind
    intro result
    apply (ih (number + 1)).bind
    intro results
    exact id

theorem runNames_heeds (dir : Path) (selector names : List String) :
    (runNames dir selector names).Heeds false false := by
  rw [runNames]
  split
  · exact id
  · exact runTestsFrom_heeds dir selector _ 1 names

theorem saveLog_heeds (log : Log) : (saveLog plan stamp log).Heeds false false := by
  refine ⟨rfl, ?_⟩
  intro path
  exact ⟨fun h => (by cases h), id⟩

theorem closeSuite_heeds (suite : Suite) (discovery : Discovery) (results : List TestResult) :
    (closeSuite plan stamp suite discovery results).Heeds false false := by
  apply (total_heeds results).bind
  intro duration
  apply (tell_heeds fun _ => rfl).bind
  intro _
  exact saveLog_heeds plan stamp _

theorem runSuite_heeds (suite : Suite) : (runSuite plan stamp suite).Heeds owing false := by
  rw [runSuite_eq]
  apply checkInterrupt_heeds.bind
  intro _
  have hdiscover : (discover plan.workspaceRoot suite.selector).Heeds false true :=
    ⟨rfl, fun _ => id⟩
  apply hdiscover.bind
  intro discovery
  apply checkInterrupt_heeds.bind
  intro _
  apply (tell_heeds fun h => by cases h).bind
  intro _
  apply (runNames_heeds _ _ _).bind
  intro results
  exact closeSuite_heeds plan stamp suite discovery results

theorem runCheck_heeds (check : Check) : (runCheck plan stamp check).Heeds owing false := by
  rw [runCheck_eq]
  apply checkInterrupt_heeds.bind
  intro _
  apply (tell_heeds fun _ => rfl).bind
  intro _
  apply (capture_heeds _).bind
  intro output
  apply (tell_heeds fun _ => rfl).bind
  intro _
  apply checkInterrupt_heeds.bind
  intro _
  exact saveLog_heeds plan stamp _

theorem runSuites_heeds (suites : List Suite) :
    (runSuites plan stamp suites).Heeds owing owing := by
  induction suites generalizing owing with
  | nil => exact id
  | cons suite rest ih =>
    apply (runSuite_heeds plan stamp suite).bind
    intro path
    exact ih.mono id fun h => by cases h

theorem runChecks_heeds (checks : List Check) :
    (runChecks plan stamp checks).Heeds owing owing := by
  induction checks generalizing owing with
  | nil => exact id
  | cons check rest ih =>
    apply (runCheck_heeds plan stamp check).bind
    intro path
    exact ih.mono id fun h => by cases h

theorem runAll_heeds : (runAll plan stamp).Heeds owing false := by
  have hphases : (phases plan stamp).Heeds owing owing := by
    apply (tell_heeds fun _ => rfl).bind
    intro _
    apply (runSuites_heeds plan stamp plan.suites).bind
    intro _
    exact runChecks_heeds plan stamp plan.checks
  rw [runAll_eq]
  apply hphases.bind
  intro _
  apply checkInterrupt_heeds.bind
  intro _
  apply (tell_heeds fun h => by cases h).bind
  intro _
  exact id

end Run
end SoloRun
