import SoloRun.Proofs.Curtailed

/-!
The lines of the console. The line that a check opens, or a test of which nothing more is to be
shown, is ended by its result before anything else is told; the run is not stopped within it, unless
by the child itself.
-/

namespace SoloRun

/-- Nothing is written yet, or a line has just ended. -/
def AtLineStart (bytes : Bytes) : Prop :=
  bytes = [] ∨ bytes.getLast? = some 0x0A

theorem getLast?_encode_append (text : String) {last : String} {byte : UInt8}
    (h : (Utf8.encode last).getLast? = some byte) :
    (Utf8.encode (text ++ last)).getLast? = some byte := by
  rw [Utf8.encode_append, List.getLast?_append, h]
  rfl

theorem prefix_encode_append {text : String} {bytes : Bytes} (rest : String)
    (h : bytes <+: Utf8.encode text) : bytes <+: Utf8.encode (text ++ rest) := by
  rw [Utf8.encode_append]
  exact h.trans (List.prefix_append _ _)

namespace Event

variable {verbose success : Bool} {opener event : Event}

/-- Whether the console leaves the line of the event open. -/
def leavesOpen (verbose : Bool) : Event → Bool
  | .testStart _ _ _ => !verbose
  | .checkStart _ => true
  | _ => false

/-- The event whose line is open once it is told. -/
def open? (verbose : Bool) (event : Event) : Option Event :=
  if event.leavesOpen verbose then some event else none

/-- The event is the result of the test or the check that the other started. -/
inductive Closes (success : Bool) : Event → Event → Prop where
  | test (name : String) (number total millis : Nat) :
    Closes success (.testStart name number total) (.testResult name success millis)
  | check (name : String) (seconds : Double) :
    Closes success (.checkStart name) (.checkResult name success seconds)

/-- What the console writes for the event, without colour. -/
def shown (verbose : Bool) (event : Event) : Bytes :=
  Utf8.encode (Console.text ⟨verbose, false⟩ event)

theorem shown_of_leavesOpen (h : event.leavesOpen verbose = true) :
    (event.shown verbose).getLast? = some 0x20 := by
  cases event with
  | testStart name number total =>
    obtain rfl : verbose = false := by simpa [leavesOpen] using h
    exact getLast?_encode_append _ (by decide)
  | checkStart name => exact getLast?_encode_append _ (by decide)
  | _ => cases h

theorem shown_of_not_leavesOpen (h : event.leavesOpen verbose = false) :
    AtLineStart (event.shown verbose) := by
  have hempty : Utf8.encode "" = [] := by decide
  cases event with
  | checkStart => cases h
  | testStart name number total =>
    obtain rfl : verbose = true := by simpa [leavesOpen] using h
    exact .inr (getLast?_encode_append _ (by decide))
  | listingFailed title exitCode output =>
    cases verbose with
    | false =>
      have hshown : shown false (.listingFailed title exitCode output) =
          Utf8.encode (Console.note ⟨false, false⟩ ("listing " ++ title ++ " exited with code " ++
            toString exitCode ++ "; no tests were run")) ++ Utf8.encode "" :=
        Utf8.encode_append _ _
      rw [hshown, hempty, List.append_nil]
      exact .inr (getLast?_encode_append _ (by decide))
    | true => exact .inr (getLast?_encode_append _ (getLast?_encode_append _ (by decide)))
  | testResult name success millis =>
    cases verbose <;> exact .inr (getLast?_encode_append _ (by decide))
  | testOutput name output =>
    cases verbose with
    | false => exact .inl hempty
    | true => exact .inr (getLast?_encode_append _ (by decide))
  | logWritten path =>
    cases verbose with
    | false => exact .inl hempty
    | true => exact .inr (getLast?_encode_append _ (by decide))
  | note | runStart | suiteStart | suiteSummary | checkResult | runFinished =>
    exact .inr (getLast?_encode_append _ (by decide))

theorem getLast?_shown_of_closes (h : opener.Closes success event) :
    (event.shown verbose).getLast? = some 0x0A := by
  cases h with
  | test => cases verbose <;> exact getLast?_encode_append _ (by decide)
  | check => exact getLast?_encode_append _ (by decide)

theorem status_prefix_shown (hopens : opener.leavesOpen verbose = true)
    (h : opener.Closes success event) :
    Utf8.encode (if success then "ok" else "FAILED") <+: event.shown verbose := by
  cases h with
  | test name number total millis =>
    obtain rfl : verbose = false := by simpa [leavesOpen] using hopens
    exact prefix_encode_append _ List.prefix_rfl
  | check name seconds =>
    exact prefix_encode_append _ (prefix_encode_append _ (prefix_encode_append _ List.prefix_rfl))

end Event

section AtLineStart

variable {before bytes : Bytes}

theorem AtLineStart.append (hbefore : AtLineStart before) (h : AtLineStart bytes) :
    AtLineStart (before ++ bytes) := by
  rcases h with rfl | h
  · rwa [List.append_nil]
  · exact .inr (by rw [List.getLast?_append, h]; rfl)

theorem atLineStart_append_iff {byte : UInt8} (h : bytes.getLast? = some byte) :
    AtLineStart (before ++ bytes) ↔ byte = 0x0A := by
  have hlast : (before ++ bytes).getLast? = some byte := by
    rw [List.getLast?_append, h]
    rfl
  have hne : before ++ bytes ≠ [] := by
    intro hnil
    rw [hnil] at hlast
    cases hlast
  rw [AtLineStart, or_iff_right hne, hlast, Option.some_inj]

end AtLineStart

namespace Step

variable {verbose : Bool} {quiet : Command → Prop} {line? : Option Event} {step : Step}

/-- What the step may do where the line of that event is open, or none: only its result is told on
an open line, no log is saved before it is told, and a child is waited for on an open line unless it
is quiet. -/
def Fits (verbose : Bool) (quiet : Command → Prop) (line? : Option Event) : Step → Prop
  | .told event heard =>
    heard.out = event.shown verbose ∧ ∀ opener ∈ line?, ∃ success, opener.Closes success event
  | .started command _ | .refused command _ => line? = none ↔ quiet command
  | .saved _ _ | .unsaved _ _ => line? = none

def open? (verbose : Bool) (line? : Option Event) : Step → Option Event
  | .told event _ => event.open? verbose
  | _ => line?

theorem Fits.atLineStart {before : Bytes} (h : step.Fits verbose quiet line?)
    (hbefore : line? = none ↔ AtLineStart before) :
    step.open? verbose line? = none ↔ AtLineStart (before ++ step.out) := by
  cases step with
  | told event told =>
    obtain ⟨hout, hcloses⟩ := h
    rw [open?, Event.open?, out, hout]
    cases hopens : event.leavesOpen verbose with
    | true =>
      rw [atLineStart_append_iff (Event.shown_of_leavesOpen hopens)]
      simp
    | false =>
      simp only [Bool.false_eq_true, if_false, true_iff]
      cases line? with
      | none => exact (hbefore.mp rfl).append (Event.shown_of_not_leavesOpen hopens)
      | some opener =>
        obtain ⟨success, hcloses⟩ := hcloses opener rfl
        rw [atLineStart_append_iff (Event.getLast?_shown_of_closes hcloses)]
  | started | refused | saved | unsaved => simpa only [open?, out, List.append_nil] using hbefore

end Step

/-- Steps of which each fits the line that those before it leave open, and the line left in the
end. -/
inductive Tidy (verbose : Bool) (quiet : Command → Prop) :
    Option Event → List Step → Option Event → Prop where
  | nil {line?} : Tidy verbose quiet line? [] line?
  | cons {line? left? step steps} (fits : step.Fits verbose quiet line?)
    (rest : Tidy verbose quiet (step.open? verbose line?) steps left?) :
    Tidy verbose quiet line? (step :: steps) left?

namespace Tidy

variable {verbose : Bool} {quiet : Command → Prop} {line? left? : Option Event} {opener : Event}
variable {steps pre post : List Step}

theorem split (h : Tidy verbose quiet line? (pre ++ post) left?) :
    ∃ middle?, Tidy verbose quiet line? pre middle? ∧ Tidy verbose quiet middle? post left? := by
  induction pre generalizing line? with
  | nil => exact ⟨line?, .nil, h⟩
  | cons step pre ih =>
    cases h with
    | cons fits rest =>
      obtain ⟨middle?, hpre, hpost⟩ := ih rest
      exact ⟨middle?, .cons fits hpre, hpost⟩

theorem atLineStart {before : Bytes} (h : Tidy verbose quiet line? steps left?)
    (hbefore : line? = none ↔ AtLineStart before) :
    left? = none ↔ AtLineStart (before ++ steps.flatMap Step.out) := by
  induction h generalizing before with
  | nil => rwa [List.flatMap_nil, List.append_nil]
  | cons fits rest ih =>
    rw [List.flatMap_cons, ← List.append_assoc]
    exact ih (fits.atLineStart hbefore)

theorem left_of_some (h : Tidy verbose quiet line? steps left?) (hleft : left? = some opener) :
    line? = some opener ∧ steps.filterMap Step.event? = [] ∨
      (steps.filterMap Step.event?).getLast? = some opener ∧ opener.leavesOpen verbose = true := by
  induction h with
  | nil => exact .inl ⟨hleft, rfl⟩
  | @cons line? left? step steps fits rest ih =>
    cases step with
    | told event told =>
      rw [List.filterMap_cons_some (f := Step.event?) rfl, List.getLast?_cons]
      rcases ih hleft with ⟨hopen, hnone⟩ | ⟨hlast, hopens⟩
      · rw [Step.open?, Event.open?] at hopen
        split at hopen
        · next hopens =>
          obtain rfl := Option.some.inj hopen
          exact .inr ⟨by rw [hnone]; rfl, hopens⟩
        · cases hopen
      · exact .inr ⟨by rw [hlast]; rfl, hopens⟩
    | started | refused | saved | unsaved => exact ih hleft

theorem answered (h : Tidy verbose quiet (some opener) steps left?)
    (hopens : opener.leavesOpen verbose = true) :
    (∃ result success, (steps.filterMap Step.event?).head? = some result ∧
      opener.Closes success result ∧
      Utf8.encode (if success then "ok" else "FAILED") <+: steps.flatMap Step.out) ∨
    steps.filterMap Step.event? = [] ∧ left? = some opener := by
  induction steps with
  | nil =>
    cases h
    exact .inr ⟨rfl, rfl⟩
  | cons step steps ih =>
    cases h with
    | cons fits rest =>
      cases step with
      | told event told =>
        obtain ⟨hout, hcloses⟩ := fits
        obtain ⟨success, hcloses⟩ := hcloses opener rfl
        refine .inl ⟨event, success, rfl, hcloses, ?_⟩
        rw [List.flatMap_cons, Step.out, hout]
        exact (Event.status_prefix_shown hopens hcloses).trans (List.prefix_append _ _)
      | started | refused | saved | unsaved => exact ih rest

theorem left_eq_none_iff (h : Tidy verbose quiet none steps left?) :
    left? = none ↔ AtLineStart (steps.flatMap Step.out) := by
  have hnothing : (none : Option Event) = none ↔ AtLineStart [] := iff_of_true rfl (.inl rfl)
  rw [h.atLineStart hnothing, List.nil_append]

theorem around_told {event : Event} {heard : Told}
    (h : Tidy verbose quiet none (pre ++ .told event heard :: post) left?) :
    heard.out = event.shown verbose ∧
      (event.leavesOpen verbose = true →
        (∃ result success, (post.filterMap Step.event?).head? = some result ∧
          event.Closes success result ∧
          Utf8.encode (if success then "ok" else "FAILED") <+: post.flatMap Step.out) ∨
        post.filterMap Step.event? = [] ∧ left? = some event) ∧
      (AtLineStart (pre.flatMap Step.out) ∨
        ∃ opener success, (pre.filterMap Step.event?).getLast? = some opener ∧
          opener.leavesOpen verbose = true ∧ opener.Closes success event) := by
  obtain ⟨middle?, hpre, hpost⟩ := h.split
  cases hpost with
  | cons fits rest =>
    obtain ⟨hout, hcloses⟩ := fits
    refine ⟨hout, ?_, ?_⟩
    · intro hopens
      rw [Step.open?, Event.open?, if_pos hopens] at rest
      exact rest.answered hopens
    · cases middle? with
      | none => exact .inl (hpre.left_eq_none_iff.mp rfl)
      | some opener =>
        obtain ⟨success, hcloses⟩ := hcloses opener rfl
        rcases hpre.left_of_some rfl with ⟨hnone, -⟩ | ⟨hlast, hopens⟩
        · cases hnone
        · exact .inr ⟨opener, success, hlast, hopens, hcloses⟩

theorem left_of_refused {command : Command} {error : StartError}
    (h : Tidy verbose quiet line? (pre ++ [.refused command error]) left?) :
    left? = none ↔ quiet command := by
  obtain ⟨middle?, -, hpost⟩ := h.split
  cases hpost with
  | cons fits rest =>
    cases rest with
    | nil => exact fits

end Tidy

theorem World.told_console (setting : Setting) (clock : Clock) {world : World}
    (hsink : world.sink = .unlimited) (verbose : Bool) (event : Event) :
    world.told (setting.reporting (.console ⟨verbose, false⟩) clock) event =
      ⟨event.shown verbose, "", false⟩ := by
  rw [told, hsink]
  exact Reporter.tell_console_unlimited

/-- A child is the reason: it could not be started, or it never ends, or it answered an interrupt
with another. -/
def Stop.byChild : Stop → Bool
  | .failed (.command _ _) | .interruptedTwice | .endless => true
  | _ => false

namespace Procedure

variable {α β : Type} {verbose : Bool} {quiet : Command → Prop} {line? middle? left? : Option Event}

/-- Its steps fit the lines that it leaves open, whatever answers it gets, and it stops within none
of them of its own accord. -/
def Neat (verbose : Bool) (quiet : Command → Prop) :
    Procedure α → Option Event → Option Event → Prop
  | .done _, line?, left? => line? = left?
  | .stop _, line?, _ => line? = none
  | .poll next, line?, left? => ∀ raised, (next raised).Neat verbose quiet line? left?
  | .tell event next, line?, left? =>
    (∀ opener ∈ line?, ∃ success, opener.Closes success event) ∧
      next.Neat verbose quiet (event.open? verbose) left?
  | .start command next, line?, left? =>
    (line? = none ↔ quiet command) ∧ ∀ capture, (next capture).Neat verbose quiet line? left?
  | .save _ _ next, line?, left? =>
    line? = none ∧ ∀ path, (next path).Neat verbose quiet line? left?

theorem Neat.bind {procedure : Procedure α} {f : α → Procedure β}
    (hp : procedure.Neat verbose quiet line? middle?)
    (hf : ∀ value, (f value).Neat verbose quiet middle? left?) :
    (procedure.bind f).Neat verbose quiet line? left? := by
  induction procedure generalizing line? with
  | done value =>
    obtain rfl : line? = middle? := hp
    exact hf value
  | stop reason => exact hp
  | poll next ih =>
    intro raised
    exact ih raised (hp raised)
  | tell event next ih => exact ⟨hp.1, ih hp.2⟩
  | start command next ih => exact ⟨hp.1, fun capture => ih capture (hp.2 capture)⟩
  | save dir log next ih => exact ⟨hp.1, fun path => ih path (hp.2 path)⟩

theorem Neat.tidy {procedure : Procedure α} (hp : procedure.Neat verbose quiet line? left?)
    (setting : Setting) (clock : Clock) {world : World} (hsink : world.sink = .unlimited) :
    let course :=
      procedure.carryOut (setting.reporting (.console ⟨verbose, false⟩) clock) world
    ∃ last?, Tidy verbose quiet line? course.steps last? ∧
      (∀ value, course.result = .ok value → last? = left?) ∧
      (∀ reason, course.result = .error reason → reason.byChild = false → last? = none) := by
  induction procedure generalizing line? world with
  | done value =>
    obtain rfl : line? = left? := hp
    refine ⟨line?, .nil, fun _ _ => rfl, ?_⟩
    intro reason hresult
    cases hresult
  | stop reason =>
    refine ⟨line?, .nil, ?_, fun _ _ _ => hp⟩
    intro value hresult
    cases hresult
  | poll next ih => exact ih _ (hp _) hsink
  | tell event next ih =>
    obtain ⟨hcloses, hnext⟩ := hp
    have hheard := World.told_console setting clock hsink verbose event
    have hafter : (world.afterTold (setting.reporting (.console ⟨verbose, false⟩) clock)
        event).sink = .unlimited := by
      rw [World.afterTold, hsink]
      rfl
    obtain ⟨last?, htidy, hends⟩ := ih hnext hafter
    simp only [carryOut, hheard, Bool.false_eq_true, if_false]
    exact ⟨last?, .cons ⟨rfl, hcloses⟩ htidy, hends⟩
  | start command next ih =>
    obtain ⟨hquiet, hnext⟩ := hp
    simp only [carryOut]
    cases hstart : world.start (setting.reporting (.console ⟨verbose, false⟩) clock) command with
    | refused error =>
      refine ⟨line?, .cons hquiet .nil, ?_, ?_⟩
      · intro value hresult
        cases hresult
      · intro reason hresult hchild
        cases hresult
        cases hchild
    | stopped stop after =>
      refine ⟨line?, .cons hquiet .nil, ?_, ?_⟩
      · intro value hresult
        cases hresult
      · intro reason hresult hchild
        cases hresult
        rcases World.reason_of_stopped hstart with rfl | rfl <;> cases hchild
    | ended capture after =>
      have hafter : after.sink = .unlimited := (World.sink_of_ended hstart).trans hsink
      obtain ⟨last?, htidy, hends⟩ := ih capture (hnext capture) hafter
      exact ⟨last?, .cons hquiet htidy, hends⟩
  | save dir log next ih =>
    obtain ⟨hclosed, hnext⟩ := hp
    simp only [carryOut]
    split
    · refine ⟨line?, .cons hclosed .nil, ?_, fun _ _ _ => hclosed⟩
      intro value hresult
      cases hresult
    · next tree path hwrite =>
      have hafter : World.sink { world with tree } = .unlimited := hsink
      obtain ⟨last?, htidy, hends⟩ := ih path (hnext path) hafter
      exact ⟨last?, .cons hclosed htidy, hends⟩

end Procedure

namespace Command

variable {root dir : Path} {selector other : List String} {name : String}

theorem getLast?_args_listing :
    (listing dir selector).args.getLast? = some (Utf8.encode "--list") := by
  simp only [listing, cargo, List.map_append, List.getLast?_append]
  rfl

theorem getLast?_args_single :
    (single dir selector name).args.getLast? = some (Utf8.encode "--nocapture") := by
  simp only [single, cargo, List.map_append, List.getLast?_append]
  rfl

theorem single_ne_listing : single root selector name ≠ listing dir other := by
  intro h
  have hlast : some (Utf8.encode "--nocapture") = some (Utf8.encode "--list") := by
    rw [← getLast?_args_single, h, getLast?_args_listing]
  exact absurd hlast (by decide)

theorem head?_args_check (check : Check) :
    (check.command dir).args.head? ≠ some (Utf8.encode "test") := by
  rw [Check.command]
  split
  · exact (by decide : some (Utf8.encode "clippy") ≠ some (Utf8.encode "test"))
  · exact (by decide : some (Utf8.encode "fmt") ≠ some (Utf8.encode "test"))

end Command

namespace Plan

variable (plan : Plan) (verbose : Bool)

/-- Lists the tests of a suite. -/
def Lists (command : Command) : Prop :=
  ∃ suite ∈ plan.suites, command = Command.listing plan.workspaceRoot suite.selector

/-- Runs a test of a suite. -/
def Tests (command : Command) : Prop :=
  ∃ suite ∈ plan.suites, ∃ name, command = Command.single plan.workspaceRoot suite.selector name

/-- What is run where no line is open. -/
def Quiet (command : Command) : Prop :=
  plan.Lists command ∨ plan.Tests command ∧ verbose = true

variable {plan verbose} {suite : Suite}

theorem quiet_listing (hmem : suite ∈ plan.suites) :
    plan.Quiet verbose (Command.listing plan.workspaceRoot suite.selector) :=
  .inl ⟨suite, hmem, rfl⟩

theorem quiet_single_iff (hmem : suite ∈ plan.suites) (name : String) :
    plan.Quiet verbose (Command.single plan.workspaceRoot suite.selector name) ↔
      verbose = true := by
  constructor
  · rintro (⟨other, -, hlisting⟩ | ⟨-, hverbose⟩)
    · exact absurd hlisting Command.single_ne_listing
    · exact hverbose
  · exact fun hverbose => .inr ⟨⟨suite, hmem, name, rfl⟩, hverbose⟩

theorem not_quiet_check (check : Check) : ¬plan.Quiet verbose (check.command plan.workspaceRoot) := by
  have hhead : (check.command plan.workspaceRoot).args.head? ≠ some (Utf8.encode "test") :=
    Command.head?_args_check check
  rintro (⟨suite, -, hlisting⟩ | ⟨⟨suite, -, name, hsingle⟩, -⟩)
  · exact hhead (hlisting ▸ rfl)
  · exact hhead (hsingle ▸ rfl)

end Plan

namespace Run

open Procedure

variable {verbose : Bool} {quiet : Command → Prop}

theorem tell_neat {event : Event} (h : event.leavesOpen verbose = false) :
    (tell event).Neat verbose quiet none none := by
  refine ⟨nofun, ?_⟩
  rw [Event.open?, h]
  rfl

theorem checkInterrupt_neat : checkInterrupt.Neat verbose quiet none none := by
  rintro (_ | _) <;> rfl

theorem total_neat (results : List TestResult) : (total results).Neat verbose quiet none none := by
  rw [total]
  split <;> rfl

variable (plan : Plan) (stamp : String)

theorem saveLog_neat (log : Log) : (saveLog plan stamp log).Neat verbose quiet none none :=
  ⟨rfl, fun _ => (tell_neat rfl).bind fun _ => rfl⟩

theorem closeSuite_neat (suite : Suite) (discovery : Discovery) (results : List TestResult) :
    (closeSuite plan stamp suite discovery results).Neat verbose quiet none none := by
  apply (total_neat results).bind
  intro duration
  apply (tell_neat rfl).bind
  intro _
  exact saveLog_neat plan stamp _

section Suite

variable {suite : Suite} (hmem : suite ∈ plan.suites)
include hmem

theorem discover_neat :
    (discover plan.workspaceRoot suite.selector).Neat verbose (plan.Quiet verbose) none none :=
  ⟨iff_of_true rfl (plan.quiet_listing hmem), fun _ => rfl⟩

theorem runTest_neat (name : String) (number count : Nat) :
    (runTest plan.workspaceRoot suite.selector name number count).Neat verbose
      (plan.Quiet verbose) none none := by
  have hquiet : plan.Quiet verbose (Command.single plan.workspaceRoot suite.selector name) ↔
      verbose = true := Plan.quiet_single_iff hmem name
  cases verbose with
  | false =>
    refine ⟨nofun, iff_of_false nofun (hquiet.not.mpr nofun), ?_⟩
    intro test
    refine ⟨?_, nofun, rfl⟩
    rintro _ ⟨⟩
    exact ⟨test.success, .test name number count test.duration.millis⟩
  | true =>
    refine ⟨nofun, iff_of_true rfl (hquiet.mpr rfl), ?_⟩
    intro test
    exact ⟨nofun, nofun, rfl⟩

theorem runTestsFrom_neat (count number : Nat) (names : List String) :
    (runTestsFrom plan.workspaceRoot suite.selector count number names).Neat verbose
      (plan.Quiet verbose) none none := by
  induction names generalizing number with
  | nil =>
    apply checkInterrupt_neat.bind
    intro _
    rfl
  | cons name rest ih =>
    apply checkInterrupt_neat.bind
    intro _
    apply (runTest_neat plan hmem name number count).bind
    intro result
    apply (ih (number + 1)).bind
    intro results
    rfl

theorem runNames_neat (names : List String) :
    (runNames plan.workspaceRoot suite.selector names).Neat verbose (plan.Quiet verbose) none
      none := by
  rw [runNames]
  split
  · rfl
  · exact runTestsFrom_neat plan hmem _ 1 names

theorem runSuite_neat :
    (runSuite plan stamp suite).Neat verbose (plan.Quiet verbose) none none := by
  rw [runSuite_eq]
  apply checkInterrupt_neat.bind
  intro _
  apply (discover_neat plan hmem).bind
  intro discovery
  apply checkInterrupt_neat.bind
  intro _
  apply (tell_neat (by cases discovery <;> rfl)).bind
  intro _
  apply (runNames_neat plan hmem discovery.names).bind
  intro results
  exact closeSuite_neat plan stamp suite discovery results

end Suite

theorem runCheck_neat (check : Check) :
    (runCheck plan stamp check).Neat verbose (plan.Quiet verbose) none none := by
  have hopen : (tell (.checkStart check.logName)).Neat verbose (plan.Quiet verbose) none
      (some (.checkStart check.logName)) := ⟨nofun, rfl⟩
  have hchild : (capture (check.command plan.workspaceRoot)).Neat verbose (plan.Quiet verbose)
      (some (.checkStart check.logName)) (some (.checkStart check.logName)) :=
    ⟨iff_of_false nofun (plan.not_quiet_check check), fun _ => rfl⟩
  rw [runCheck_eq]
  apply checkInterrupt_neat.bind
  intro _
  apply hopen.bind
  intro _
  apply hchild.bind
  intro output
  have hclose : (tell (.checkResult check.logName output.success output.duration.seconds)).Neat
      verbose (plan.Quiet verbose) (some (.checkStart check.logName)) none := by
    refine ⟨?_, rfl⟩
    rintro _ ⟨⟩
    exact ⟨output.success, .check check.logName output.duration.seconds⟩
  apply hclose.bind
  intro _
  apply checkInterrupt_neat.bind
  intro _
  exact saveLog_neat plan stamp _

theorem runSuites_neat (suites : List Suite) (hmem : ∀ suite ∈ suites, suite ∈ plan.suites) :
    (runSuites plan stamp suites).Neat verbose (plan.Quiet verbose) none none := by
  induction suites with
  | nil => rfl
  | cons suite rest ih =>
    obtain ⟨hfirst, hrest⟩ := List.forall_mem_cons.mp hmem
    apply (runSuite_neat plan stamp hfirst).bind
    intro _
    exact ih hrest

theorem runChecks_neat (checks : List Check) :
    (runChecks plan stamp checks).Neat verbose (plan.Quiet verbose) none none := by
  induction checks with
  | nil => rfl
  | cons check rest ih =>
    apply (runCheck_neat plan stamp check).bind
    intro _
    exact ih

theorem runAll_neat : (runAll plan stamp).Neat verbose (plan.Quiet verbose) none none := by
  have hphases : (phases plan stamp).Neat verbose (plan.Quiet verbose) none none := by
    apply (tell_neat rfl).bind
    intro _
    apply (runSuites_neat plan stamp plan.suites fun _ => id).bind
    intro _
    exact runChecks_neat plan stamp plan.checks
  rw [runAll_eq]
  apply hphases.bind
  intro _
  apply checkInterrupt_neat.bind
  intro _
  apply (tell_neat rfl).bind
  intro _
  rfl

variable (setting : Setting) (world : World) (clock : Clock)

theorem out_runAll_ne_nil :
    ((runAll plan stamp).carryOut (setting.reporting (.console ⟨verbose, false⟩) clock)
      (world.withSink .unlimited)).out ≠ [] := by
  obtain ⟨rest, hrest⟩ : ∃ rest, runAll plan stamp =
      .tell (.runStart (plan.outDir stamp) Command.runner) rest := ⟨_, rfl⟩
  have hsink : (world.withSink .unlimited).sink = .unlimited := rfl
  rw [hrest]
  simp only [carryOut, World.told_console setting clock hsink, Bool.false_eq_true, if_false,
    Course.out_after, Step.out]
  intro hnil
  obtain ⟨hshown, -⟩ := List.append_eq_nil_iff.mp hnil
  have hlast : ((Event.runStart (plan.outDir stamp) Command.runner).shown verbose).getLast? =
      some 0x0A := getLast?_encode_append _ (by decide)
  rw [hshown] at hlast
  cases hlast

/-- The console leaves no half lines. In a run without colour and with all the room it takes, a line
that is left open is ended by the result of the same test or check before anything else is told,
unless a child ended the run; whatever else is told starts at the start of a line. The output ends
in a line break if no child ended the run. If one could not be started, it does so just if the child
was to list tests, or to run one of which all is shown. -/
theorem console_leaves_no_half_lines (verbose : Bool) :
    let course := (runAll plan stamp).carryOut
      (setting.reporting (.console ⟨verbose, false⟩) clock) (world.withSink .unlimited)
    (∀ pre event heard post, course.steps = pre ++ .told event heard :: post →
      heard.out = event.shown verbose ∧
      (event.leavesOpen verbose = true →
        (∃ result success, (post.filterMap Step.event?).head? = some result ∧
          event.Closes success result ∧
          Utf8.encode (if success then "ok" else "FAILED") <+: post.flatMap Step.out) ∨
        post.filterMap Step.event? = [] ∧
          ∃ reason, course.result = .error reason ∧ reason.byChild = true) ∧
      (AtLineStart (pre.flatMap Step.out) ∨
        ∃ opener success, (pre.filterMap Step.event?).getLast? = some opener ∧
          opener.leavesOpen verbose = true ∧ opener.Closes success event)) ∧
    ((∃ dir, course.result = .ok dir) ∨ course.result = .error (.failed .interrupted) ∨
      (∃ path reason, course.result = .error (.failed (.log path reason))) ∨
      course.result = .error .overflow → course.out.getLast? = some 0x0A) ∧
    (∀ line reason, course.result = .error (.failed (.command line reason)) →
      ∃ command error, course.steps.getLast? = some (.refused command error) ∧
        line = command.line ∧ reason = error.message ∧
        (course.out.getLast? = some 0x0A ↔
          plan.Lists command ∨ plan.Tests command ∧ verbose = true)) := by
  intro course
  have hsink : (world.withSink .unlimited).sink = .unlimited := rfl
  obtain ⟨left?, htidy, hok, hstop⟩ := (runAll_neat plan stamp).tidy setting clock hsink
  have hends : Ends course.steps course.result := (runAll_performs plan stamp).ends _ _
  have hne : course.out ≠ [] := out_runAll_ne_nil plan stamp setting world clock
  have hstart : left? = none ↔ AtLineStart course.out := htidy.left_eq_none_iff
  have hbreak : left? = none ↔ course.out.getLast? = some 0x0A := by
    rw [hstart, AtLineStart, or_iff_right hne]
  have hclosed : left? = none ∨
      ∃ reason, course.result = .error reason ∧ reason.byChild = true := by
    cases hresult : course.result with
    | ok dir => exact .inl (hok dir hresult)
    | error reason =>
      cases hchild : reason.byChild with
      | true => exact .inr ⟨reason, rfl, hchild⟩
      | false => exact .inl (hstop reason hresult hchild)
  refine ⟨?_, ?_, ?_⟩
  · intro pre event heard post hsteps
    rw [hsteps] at htidy
    obtain ⟨hout, hanswered, hbegins⟩ := htidy.around_told
    refine ⟨hout, fun hopens => (hanswered hopens).imp_right ?_, hbegins⟩
    rintro ⟨hsilent, hleft⟩
    exact ⟨hsilent, hclosed.resolve_left (by rw [hleft]; exact nofun)⟩
  · intro hresults
    refine hbreak.mp (hclosed.resolve_right ?_)
    rintro ⟨reason, hresult, hchild⟩
    rcases hresults with ⟨dir, hother⟩ | hother | ⟨path, why, hother⟩ | hother
    · cases hresult.symm.trans hother
    all_goals
      obtain rfl := Except.error.inj (hresult.symm.trans hother)
      cases hchild
  · intro line reason hresult
    obtain ⟨command, error, hlast, hline, hreason, -⟩ := hends.of_command hresult
    refine ⟨command, error, hlast, hline, hreason, ?_⟩
    obtain ⟨before, hsteps⟩ := List.getLast?_eq_some_iff.mp hlast
    rw [hsteps] at htidy
    exact hbreak.symm.trans htidy.left_of_refused

end Run
end SoloRun
