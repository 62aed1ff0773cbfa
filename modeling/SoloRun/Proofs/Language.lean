import SoloRun.Proofs.Deeds
import SoloRun.Proofs.Worlds

/-!
A procedure performs a language of deeds if, whatever answers it gets, what it does up to its end is
a word of the language, and wherever it stops a word could still have come of it. Carried out
anywhere, its deeds are then the start of a word, and a step that fails is an attempt at the next
deed. A run performs the language of its plan.
-/

namespace SoloRun

theorem Log.eq_path_of_write {cwd : Place} {dir path : Path} {log : Log} {tree after : FileTree}
    (h : log.write cwd dir tree = (after, .ok path)) : path = log.path dir := by
  simp only [write] at h
  split at h
  · cases h
  · split at h <;> cases h
    rfl

theorem Log.exists_reason_of_write {cwd : Place} {dir : Path} {log : Log} {tree after : FileTree}
    {failure : Failure} (h : log.write cwd dir tree = (after, .error failure)) :
    ∃ reason, failure = .log (log.path dir) reason := by
  simp only [write] at h
  split at h
  · cases h
    exact ⟨_, rfl⟩
  · split at h <;> cases h
    exact ⟨_, rfl⟩

/-- A step that fails, and a deed that it was meant to be. -/
inductive Step.Misses : Step → Deed → Prop where
  | unended (command : Command) (capture : Capture) :
    Misses (.started command none) (.ran command capture)
  | refused (command : Command) (error : StartError) (capture : Capture) :
    Misses (.refused command error) (.ran command capture)
  | unsaved (log : Log) (path : Path) (reason : String) :
    Misses (.unsaved log (.log path reason)) (.kept path log)

/-- How a course can end, by its last step: only that one can fail, and then it is the reason. -/
inductive Ends {α : Type} : List Step → Except Stop α → Prop where
  | well {steps value} (deeds : ∀ step ∈ steps, step.deed?.isSome) : Ends steps (.ok value)
  | interrupted {steps} (deeds : ∀ step ∈ steps, step.deed?.isSome) :
    Ends steps (.error (.failed .interrupted))
  | overflow {steps} (deeds : ∀ step ∈ steps, step.deed?.isSome) : Ends steps (.error .overflow)
  | broken {steps} (deeds : ∀ step ∈ steps, step.deed?.isSome) (event : Event) (answer : Told)
    (last : steps.getLast? = some (.told event answer)) (broken : answer.broken = true) :
    Ends steps (.error .brokenConsole)
  | refused {steps} (deeds : ∀ step ∈ steps, step.deed?.isSome) (command : Command)
    (error : StartError) :
    Ends (steps ++ [.refused command error])
      (.error (.failed (.command command.line error.message)))
  | unended {steps} (deeds : ∀ step ∈ steps, step.deed?.isSome) (command : Command) (reason : Stop)
    (endless : reason = .interruptedTwice ∨ reason = .endless) :
    Ends (steps ++ [.started command none]) (.error reason)
  | unsaved {steps} (deeds : ∀ step ∈ steps, step.deed?.isSome) (log : Log) (path : Path)
    (reason : String) :
    Ends (steps ++ [.unsaved log (.log path reason)]) (.error (.failed (.log path reason)))

theorem Ends.cons {α : Type} {steps : List Step} {result : Except Stop α} (h : Ends steps result)
    {step : Step} (hdeed : step.deed?.isSome) : Ends (step :: steps) result := by
  cases h with
  | well deeds => exact .well (List.forall_mem_cons.mpr ⟨hdeed, deeds⟩)
  | interrupted deeds => exact .interrupted (List.forall_mem_cons.mpr ⟨hdeed, deeds⟩)
  | overflow deeds => exact .overflow (List.forall_mem_cons.mpr ⟨hdeed, deeds⟩)
  | broken deeds event answer last broken =>
    refine .broken (List.forall_mem_cons.mpr ⟨hdeed, deeds⟩) event answer ?_ broken
    rw [List.getLast?_cons, last]
    rfl
  | refused deeds command error =>
    exact .refused (List.forall_mem_cons.mpr ⟨hdeed, deeds⟩) command error
  | unended deeds command reason endless =>
    exact .unended (List.forall_mem_cons.mpr ⟨hdeed, deeds⟩) command reason endless
  | unsaved deeds log path reason =>
    exact .unsaved (List.forall_mem_cons.mpr ⟨hdeed, deeds⟩) log path reason

theorem Ends.isSome_of_ok {α : Type} {steps : List Step} {value : α} (h : Ends steps (.ok value)) :
    ∀ step ∈ steps, step.deed?.isSome := by
  cases h with
  | well deeds => exact deeds

theorem Ends.isSome_of_append {α : Type} {pre post : List Step} {step last : Step}
    {result : Except Stop α} (h : Ends (pre ++ last :: post) result) (hmem : step ∈ pre) :
    step.deed?.isSome := by
  have hdropped : ∀ other ∈ (pre ++ last :: post).dropLast, other.deed?.isSome := by
    intro other hother
    generalize pre ++ last :: post = steps at h hother
    cases h with
    | well deeds | interrupted deeds | overflow deeds | broken deeds =>
      exact deeds _ ((List.dropLast_sublist _).subset hother)
    | refused deeds | unended deeds | unsaved deeds =>
      rw [List.dropLast_concat] at hother
      exact deeds _ hother
  apply hdropped
  rw [List.dropLast_append_cons]
  exact List.mem_append_left _ hmem

/-- The deeds are the start of a word in which the next one is what the last step missed, if it
failed, and no log that is kept is left unannounced. -/
structure Course.Begins {α : Type} (course : Course α) (word : List Deed) : Prop where
  start : course.deeds <+: word
  missed : ∀ step, course.steps.getLast? = some step → step.deed? = none →
    ∃ deed, step.Misses deed ∧ course.deeds ++ [deed] <+: word
  announced : ∀ path log, course.deeds.getLast? ≠ some (.kept path log)

namespace Course

variable {α : Type} {course : Course α} {word : List Deed} {step : Step} {deed : Deed}

theorem deeds_after (hdeed : step.deed? = some deed) :
    (course.after step).deeds = deed :: course.deeds := by
  rw [deeds, after, List.filterMap_cons_some hdeed]
  rfl

theorem deeds_of_split {pre post : List Step} (hsteps : course.steps = pre ++ step :: post)
    (hdeed : step.deed? = some deed) :
    course.deeds = pre.filterMap Step.deed? ++ deed :: post.filterMap Step.deed? := by
  rw [deeds, hsteps, List.filterMap_append, List.filterMap_cons_some hdeed]

theorem Begins.after (h : course.Begins word) (hdeed : step.deed? = some deed)
    (hannounced : course.deeds = [] → deed.log? = none) :
    (course.after step).Begins (deed :: word) where
  start := by
    rw [deeds_after hdeed, List.cons_prefix_cons]
    exact ⟨rfl, h.start⟩
  missed last hlast hnone := by
    rw [Course.after, List.getLast?_cons] at hlast
    cases hsteps : course.steps.getLast? with
    | none =>
      obtain rfl : step = last := by simpa [hsteps] using hlast
      rw [hdeed] at hnone
      cases hnone
    | some other =>
      obtain rfl : other = last := by simpa [hsteps] using hlast
      obtain ⟨missed, hmisses, hstart⟩ := h.missed other hsteps hnone
      refine ⟨missed, hmisses, ?_⟩
      rw [deeds_after hdeed, List.cons_append, List.cons_prefix_cons]
      exact ⟨rfl, hstart⟩
  announced path log := by
    rw [deeds_after hdeed, List.getLast?_cons]
    cases hdeeds : course.deeds.getLast? with
    | none =>
      intro hkept
      obtain rfl : deed = .kept path log := Option.some.inj hkept
      cases hannounced (List.getLast?_eq_none_iff.mp hdeeds)
    | some last =>
      have hlast := h.announced path log
      rwa [hdeeds] at hlast

theorem begins_of_nil (hsteps : course.steps = []) (word : List Deed) : course.Begins word where
  start := by simp [deeds, hsteps]
  missed step hlast := by simp [hsteps] at hlast
  announced path log := by simp [deeds, hsteps]

theorem begins_of_missed (hsteps : course.steps = [step]) (hmisses : step.Misses deed)
    (hnone : step.deed? = none) (hword : [deed] <+: word) : course.Begins word where
  start := by simp [deeds, hsteps, hnone]
  missed last hlast _ := by
    obtain rfl : step = last := by simpa [hsteps] using hlast
    refine ⟨deed, hmisses, ?_⟩
    simpa [deeds, hsteps, hnone] using hword
  announced path log := by simp [deeds, hsteps, hnone]

end Course

namespace Procedure

variable {α β : Type}

structure Follows (procedure : Procedure α) (language : α → List Deed → Prop) : Prop where
  inhabited : ∃ value deeds, language value deeds
  ends : ∀ setting world value, (procedure.carryOut setting world).result = .ok value →
    language value (procedure.carryOut setting world).deeds
  stops : ∀ setting world reason, (procedure.carryOut setting world).result = .error reason →
    ∃ value deeds, language value deeds ∧ (procedure.carryOut setting world).deeds <+: deeds

theorem Follows.deeds_start {procedure : Procedure α} {language : α → List Deed → Prop}
    (hp : procedure.Follows language) (setting : Setting) (world : World) :
    ∃ value deeds, language value deeds ∧ (procedure.carryOut setting world).deeds <+: deeds := by
  cases h : (procedure.carryOut setting world).result with
  | ok value => exact ⟨value, _, hp.ends setting world value h, List.prefix_rfl⟩
  | error reason => exact hp.stops setting world reason h

/-- Of its own accord it stops as interrupted or for durations that do not add up, and a log that is
kept is announced at once. -/
def Performs : Procedure α → (α → List Deed → Prop) → Prop
  | .done value, language => language value []
  | .stop reason, language =>
    (reason = .failed .interrupted ∨ reason = .overflow) ∧ ∃ value deeds, language value deeds
  | .poll next, language => ∀ raised, (next raised).Performs language
  | .tell event next, language =>
    next.Performs fun value deeds => language value (.said event :: deeds)
  | .start command next, language =>
    ∀ capture, (next capture).Performs fun value deeds =>
      language value (.ran command capture :: deeds)
  | .save dir log next, language =>
    (∃ rest, next (log.path dir) = .tell (.logWritten (log.path dir)) rest) ∧
      ∀ path, path = log.path dir →
        (next path).Performs fun value deeds => language value (.kept path log :: deeds)

namespace Performs

variable {procedure : Procedure α} {language : α → List Deed → Prop}

theorem inhabited (hp : procedure.Performs language) : ∃ value deeds, language value deeds := by
  induction procedure generalizing language with
  | done value => exact ⟨value, [], hp⟩
  | stop reason => exact hp.2
  | poll next ih => exact ih true (hp true)
  | tell event next ih =>
    obtain ⟨value, deeds, h⟩ := ih hp
    exact ⟨value, _, h⟩
  | start command next ih =>
    obtain ⟨value, deeds, h⟩ := ih ⟨0, "", .zero⟩ (hp _)
    exact ⟨value, _, h⟩
  | save dir log next ih =>
    obtain ⟨value, deeds, h⟩ := ih _ (hp.2 _ rfl)
    exact ⟨value, _, h⟩

theorem mono {wider : α → List Deed → Prop} (hp : procedure.Performs language)
    (h : ∀ value deeds, language value deeds → wider value deeds) : procedure.Performs wider := by
  induction procedure generalizing language wider with
  | done value => exact h value [] hp
  | stop reason =>
    obtain ⟨hreason, value, deeds, hdeeds⟩ := hp
    exact ⟨hreason, value, deeds, h value deeds hdeeds⟩
  | poll next ih =>
    intro raised
    exact ih raised (hp raised) h
  | tell event next ih => exact ih hp fun value deeds => h value _
  | start command next ih =>
    intro capture
    exact ih capture (hp capture) fun value deeds => h value _
  | save dir log next ih =>
    refine ⟨hp.1, ?_⟩
    intro path hpath
    exact ih path (hp.2 path hpath) fun value deeds => h value _

theorem bind {f : α → Procedure β} {further : β → List Deed → Prop}
    (hp : procedure.Performs language)
    (hf : ∀ value deeds, language value deeds →
      (f value).Performs fun result more => further result (deeds ++ more)) :
    (procedure.bind f).Performs further := by
  induction procedure generalizing language further with
  | done value => exact hf value [] hp
  | stop reason =>
    obtain ⟨hreason, value, deeds, hdeeds⟩ := hp
    obtain ⟨result, more, hmore⟩ := (hf value deeds hdeeds).inhabited
    exact ⟨hreason, result, deeds ++ more, hmore⟩
  | poll next ih =>
    intro raised
    exact ih raised (hp raised) hf
  | tell event next ih => exact ih hp fun value deeds => hf value _
  | start command next ih =>
    intro capture
    exact ih capture (hp capture) fun value deeds => hf value _
  | save dir log next ih =>
    obtain ⟨⟨rest, hrest⟩, hnext⟩ := hp
    refine ⟨⟨rest.bind f, congrArg (·.bind f) hrest⟩, ?_⟩
    intro path hpath
    exact ih path (hnext path hpath) fun value deeds => hf value _

variable (setting : Setting)

theorem ends (hp : procedure.Performs language) (world : World) :
    Ends (procedure.carryOut setting world).steps (procedure.carryOut setting world).result := by
  induction procedure generalizing language world with
  | done value => exact .well (List.forall_mem_nil _)
  | stop reason =>
    rcases hp.1 with rfl | rfl
    · exact .interrupted (List.forall_mem_nil _)
    · exact .overflow (List.forall_mem_nil _)
  | poll next ih => exact ih _ (hp _) world
  | tell event next ih =>
    simp only [carryOut]
    split
    · next hbroken => exact .broken (by simp [Step.deed?]) event _ rfl hbroken
    · exact (ih hp _).cons rfl
  | start command next ih =>
    simp only [carryOut]
    cases hstart : world.start setting command with
    | refused error => exact @Ends.refused α [] (List.forall_mem_nil _) command error
    | stopped reason after =>
      exact @Ends.unended α [] (List.forall_mem_nil _) command reason
        (World.reason_of_stopped hstart)
    | ended capture after => exact (ih capture (hp capture) after).cons rfl
  | save dir log next ih =>
    simp only [carryOut]
    split
    · next tree failure hwrite =>
      obtain ⟨reason, rfl⟩ := Log.exists_reason_of_write hwrite
      exact @Ends.unsaved α [] (List.forall_mem_nil _) log _ reason
    · next tree path hwrite =>
      exact (ih path (hp.2 path (Log.eq_path_of_write hwrite)) _).cons rfl

theorem deeds_tell_ne_nil (event : Event) (next : Procedure α) (world : World) :
    ((Procedure.tell event next).carryOut setting world).deeds ≠ [] := by
  simp only [carryOut]
  split <;> simp [Course.deeds, Course.after, Step.deed?]

theorem begins (hp : procedure.Performs language) (world : World) :
    ∃ value word, language value word ∧ (procedure.carryOut setting world).Begins word ∧
      ∀ result, (procedure.carryOut setting world).result = .ok result →
        result = value ∧ (procedure.carryOut setting world).deeds = word := by
  induction procedure generalizing language world with
  | done value =>
    refine ⟨value, [], hp, Course.begins_of_nil rfl [], ?_⟩
    rintro result ⟨⟩
    exact ⟨rfl, rfl⟩
  | stop reason =>
    obtain ⟨-, value, word, hword⟩ := hp
    exact ⟨value, word, hword, Course.begins_of_nil rfl word, fun _ h => by cases h⟩
  | poll next ih => exact ih _ (hp _) world
  | tell event next ih =>
    have hnext : next.Performs fun value deeds => language value (.said event :: deeds) := hp
    simp only [carryOut]
    split
    · obtain ⟨value, word, hword⟩ := hnext.inhabited
      refine ⟨value, _, hword, ⟨?_, ?_, ?_⟩, fun _ h => by cases h⟩
      · exact List.prefix_append [.said event] word
      · simp [Step.deed?]
      · simp [Course.deeds, Step.deed?]
    · obtain ⟨value, word, hword, hbegins, hends⟩ := ih hp (world.afterTold setting event)
      refine ⟨value, _, hword, hbegins.after rfl (fun _ => rfl), ?_⟩
      intro result hresult
      rw [Course.deeds_after rfl]
      exact (hends result hresult).imp_right (congrArg _)
  | start command next ih =>
    simp only [carryOut]
    cases hstart : world.start setting command with
    | refused error =>
      obtain ⟨value, word, hword⟩ := inhabited (hp ⟨0, "", .zero⟩)
      exact ⟨value, _, hword, Course.begins_of_missed rfl (.refused command error _) rfl
        (List.prefix_append [_] word), fun _ h => by cases h⟩
    | stopped reason after =>
      obtain ⟨value, word, hword⟩ := inhabited (hp ⟨0, "", .zero⟩)
      exact ⟨value, _, hword, Course.begins_of_missed rfl (.unended command _) rfl
        (List.prefix_append [_] word), fun _ h => by cases h⟩
    | ended capture after =>
      obtain ⟨value, word, hword, hbegins, hends⟩ := ih capture (hp capture) after
      refine ⟨value, _, hword, hbegins.after rfl (fun _ => rfl), ?_⟩
      intro result hresult
      rw [Course.deeds_after rfl]
      exact (hends result hresult).imp_right (congrArg _)
  | save dir log next ih =>
    obtain ⟨⟨rest, hrest⟩, hnext⟩ := hp
    simp only [carryOut]
    split
    · next tree failure hwrite =>
      obtain ⟨reason, rfl⟩ := Log.exists_reason_of_write hwrite
      obtain ⟨value, word, hword⟩ := (hnext _ rfl).inhabited
      exact ⟨value, _, hword, Course.begins_of_missed rfl (.unsaved log _ reason) rfl
        (List.prefix_append [_] word), fun _ h => by cases h⟩
    · next tree path hwrite =>
      obtain rfl := Log.eq_path_of_write hwrite
      obtain ⟨value, word, hword, hbegins, hends⟩ := ih _ (hnext _ rfl) { world with tree }
      refine ⟨value, _, hword, hbegins.after rfl ?_, ?_⟩
      · -- what follows is that the log is announced
        intro hnil
        rw [hrest] at hnil
        exact absurd hnil (deeds_tell_ne_nil setting _ rest _)
      · intro result hresult
        rw [Course.deeds_after rfl]
        exact (hends result hresult).imp_right (congrArg _)

theorem follows (hp : procedure.Performs language) : procedure.Follows language where
  inhabited := hp.inhabited
  ends setting world result hresult := by
    obtain ⟨value, word, hword, -, hends⟩ := hp.begins setting world
    obtain ⟨rfl, hdeeds⟩ := hends result hresult
    exact hdeeds ▸ hword
  stops setting world reason _ := by
    obtain ⟨value, word, hword, hbegins, -⟩ := hp.begins setting world
    exact ⟨value, word, hword, hbegins.start⟩

end Performs
end Procedure

namespace Run

open Procedure

theorem tell_performs (event : Event) :
    (tell event).Performs fun _ deeds => deeds = [.said event] := rfl

theorem capture_performs (command : Command) :
    (capture command).Performs fun captured deeds => deeds = [.ran command captured] := by
  intro captured
  rfl

theorem checkInterrupt_performs : checkInterrupt.Performs fun _ deeds => deeds = [] := by
  rintro (_ | _)
  · rfl
  · exact ⟨.inl rfl, (), [], rfl⟩

theorem total_performs (results : List TestResult) :
    (total results).Performs fun duration deeds =>
      duration = (Report.total? results).getD .zero ∧ deeds = [] := by
  rw [total]
  split
  · next duration h => exact ⟨by simp [h], rfl⟩
  · exact ⟨.inr rfl, _, [], rfl, rfl⟩

variable (plan : Plan) (stamp : String)

theorem discover_performs (selector : List String) :
    (discover plan.workspaceRoot selector).Performs fun discovery deeds =>
      ∃ listing, discovery = .ofCapture listing ∧
        deeds = [.ran (Command.listing plan.workspaceRoot selector) listing] := by
  intro listing
  exact ⟨listing, rfl, rfl⟩

theorem runTest_performs (selector : List String) (name : String) (number count : Nat) :
    (runTest plan.workspaceRoot selector name number count).Performs fun result deeds =>
      result.name = name ∧ deeds = plan.testDeeds selector count number result := by
  intro test
  exact ⟨rfl, rfl⟩

theorem runTestsFrom_performs (selector : List String) (count number : Nat)
    (names : List String) :
    (runTestsFrom plan.workspaceRoot selector count number names).Performs fun results deeds =>
      results.map (·.name) = names ∧ deeds = plan.testsDeeds selector count number results := by
  induction names generalizing number with
  | nil =>
    refine checkInterrupt_performs.bind ?_
    rintro _ _ rfl
    exact ⟨rfl, rfl⟩
  | cons name rest ih =>
    refine checkInterrupt_performs.bind ?_
    rintro _ _ rfl
    refine (runTest_performs plan selector name number count).bind ?_
    rintro result _ ⟨hname, rfl⟩
    refine (ih (number + 1)).bind ?_
    rintro results _ ⟨hnames, rfl⟩
    exact ⟨by simp [hname, hnames], by simp [Plan.testsDeeds]⟩

theorem runNames_performs (selector names : List String) :
    (runNames plan.workspaceRoot selector names).Performs fun results deeds =>
      results.map (·.name) = names ∧ deeds = plan.testsDeeds selector names.length 1 results := by
  rw [runNames]
  split
  · next h => exact ⟨(List.isEmpty_iff.mp h).symm, rfl⟩
  · exact runTestsFrom_performs plan selector names.length 1 names

theorem saveLog_performs (log : Log) :
    (saveLog plan stamp log).Performs fun _ deeds => deeds = plan.logDeeds stamp log := by
  refine ⟨⟨_, rfl⟩, ?_⟩
  rintro path rfl
  rfl

theorem closeSuite_performs (suite : Suite) (outcome : SuiteOutcome) :
    (closeSuite plan stamp suite outcome.discovery outcome.results).Performs fun _ deeds =>
      deeds = .said (.suiteSummary suite.title (Report.passed outcome.results)
        (outcome.results.length - Report.passed outcome.results) outcome.total.seconds) ::
        plan.logDeeds stamp (outcome.log stamp suite) := by
  refine (total_performs _).bind ?_
  rintro _ _ ⟨rfl, rfl⟩
  refine (tell_performs _).bind ?_
  rintro _ _ rfl
  refine (saveLog_performs plan stamp _).mono ?_
  rintro _ _ rfl
  rfl

theorem runSuite_performs (suite : Suite) :
    (runSuite plan stamp suite).Performs fun _ deeds =>
      ∃ outcome : SuiteOutcome, outcome.Fits ∧ deeds = plan.suiteDeeds stamp suite outcome := by
  rw [runSuite_eq]
  refine checkInterrupt_performs.bind ?_
  rintro _ _ rfl
  refine (discover_performs plan suite.selector).bind ?_
  rintro _ _ ⟨listing, rfl, rfl⟩
  refine checkInterrupt_performs.bind ?_
  rintro _ _ rfl
  refine (tell_performs _).bind ?_
  rintro _ _ rfl
  refine (runNames_performs plan suite.selector _).bind ?_
  rintro results _ ⟨hnames, rfl⟩
  refine (closeSuite_performs plan stamp suite ⟨listing, results⟩).mono ?_
  rintro _ _ rfl
  refine ⟨⟨listing, results⟩, hnames, ?_⟩
  simp [Plan.suiteDeeds, SuiteOutcome.discovery, ← hnames]

theorem runCheck_performs (check : Check) :
    (runCheck plan stamp check).Performs fun _ deeds =>
      ∃ output, deeds = plan.checkDeeds stamp check output := by
  refine checkInterrupt_performs.bind ?_
  rintro _ _ rfl
  refine (tell_performs _).bind ?_
  rintro _ _ rfl
  refine (capture_performs _).bind ?_
  rintro output _ rfl
  refine (tell_performs _).bind ?_
  rintro _ _ rfl
  refine checkInterrupt_performs.bind ?_
  rintro _ _ rfl
  refine (saveLog_performs plan stamp _).mono ?_
  rintro _ _ rfl
  exact ⟨output, rfl⟩

theorem runSuites_performs (suites : List Suite) :
    (runSuites plan stamp suites).Performs fun _ deeds =>
      ∃ outcomes : List SuiteOutcome, outcomes.length = suites.length ∧
        (∀ outcome ∈ outcomes, outcome.Fits) ∧ deeds = plan.suitesDeeds stamp suites outcomes := by
  induction suites with
  | nil => exact ⟨[], rfl, by simp, rfl⟩
  | cons suite rest ih =>
    refine (runSuite_performs plan stamp suite).bind ?_
    rintro _ _ ⟨outcome, hfits, rfl⟩
    refine ih.mono ?_
    rintro _ _ ⟨outcomes, hlength, hall, rfl⟩
    exact ⟨outcome :: outcomes, by simp [hlength], List.forall_mem_cons.mpr ⟨hfits, hall⟩, rfl⟩

theorem runChecks_performs (checks : List Check) :
    (runChecks plan stamp checks).Performs fun _ deeds =>
      ∃ outputs : List Capture, outputs.length = checks.length ∧
        deeds = plan.checksDeeds stamp checks outputs := by
  induction checks with
  | nil => exact ⟨[], rfl, rfl⟩
  | cons check rest ih =>
    refine (runCheck_performs plan stamp check).bind ?_
    rintro _ _ ⟨output, rfl⟩
    refine ih.mono ?_
    rintro _ _ ⟨outputs, hlength, rfl⟩
    exact ⟨output :: outputs, by simp [hlength], rfl⟩

theorem phases_performs :
    (phases plan stamp).Performs fun _ deeds =>
      ∃ outcome : RunOutcome, outcome.Fits plan ∧ deeds = plan.phasesDeeds stamp outcome := by
  refine (tell_performs _).bind ?_
  rintro _ _ rfl
  refine (runSuites_performs plan stamp plan.suites).bind ?_
  rintro _ _ ⟨suites, hsuites, hall, rfl⟩
  refine (runChecks_performs plan stamp plan.checks).mono ?_
  rintro _ _ ⟨checks, hchecks, rfl⟩
  exact ⟨⟨suites, checks⟩, ⟨hsuites, hchecks, hall⟩, rfl⟩

theorem runAll_performs :
    (runAll plan stamp).Performs fun dir deeds =>
      dir = plan.outDir stamp ∧
        ∃ outcome : RunOutcome, outcome.Fits plan ∧ deeds = plan.deeds stamp outcome := by
  rw [runAll_eq]
  refine (phases_performs plan stamp).bind ?_
  rintro _ _ ⟨outcome, hfits, rfl⟩
  refine checkInterrupt_performs.bind ?_
  rintro _ _ rfl
  refine (tell_performs _).bind ?_
  rintro _ _ rfl
  exact ⟨rfl, outcome, hfits, by simp [Plan.deeds]⟩

theorem phases_follows :
    (phases plan stamp).Follows fun _ deeds =>
      ∃ outcome : RunOutcome, outcome.Fits plan ∧ deeds = plan.phasesDeeds stamp outcome :=
  (phases_performs plan stamp).follows

theorem runAll_follows :
    (runAll plan stamp).Follows fun dir deeds =>
      dir = plan.outDir stamp ∧
        ∃ outcome : RunOutcome, outcome.Fits plan ∧ deeds = plan.deeds stamp outcome :=
  (runAll_performs plan stamp).follows

end Run
end SoloRun
