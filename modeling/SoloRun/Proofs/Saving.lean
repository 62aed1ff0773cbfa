import SoloRun.Proofs.Replay
import SoloRun.Proofs.Worlds

/-!
Which logs a procedure saves: those of the given names, in order, until it is broken off. A run
saves one log for each suite and one for each check.
-/

namespace SoloRun

def Plan.logNames (plan : Plan) : List String :=
  plan.suites.map (·.logName) ++ plan.checks.map (·.logName)

namespace Procedure

variable {α β : Type} {dir : Path} {first second names : List String}

def Saves (dir : Path) : Procedure α → List String → Prop
  | .done _, names => names = []
  | .stop _, _ => True
  | .poll next, names => ∀ raised, (next raised).Saves dir names
  | .tell _ next, names => next.Saves dir names
  | .start _ next, names => ∀ capture, (next capture).Saves dir names
  | .save goal log next, names =>
    goal = dir ∧ ∃ rest, names = log.name :: rest ∧ ∀ path, (next path).Saves dir rest

theorem Saves.bind {procedure : Procedure α} {f : α → Procedure β}
    (hp : procedure.Saves dir first) (hf : ∀ value, (f value).Saves dir second) :
    (procedure.bind f).Saves dir (first ++ second) := by
  induction procedure generalizing first with
  | done value =>
    rw [Saves] at hp
    exact hp ▸ hf value
  | stop => trivial
  | poll next ih =>
    intro raised
    exact ih raised (hp raised)
  | tell event next ih => exact ih hp
  | start command next ih =>
    intro capture
    exact ih capture (hp capture)
  | save goal log next ih =>
    obtain ⟨hgoal, rest, rfl, hnext⟩ := hp
    refine ⟨hgoal, rest ++ second, rfl, ?_⟩
    intro path
    exact ih path (hnext path)

theorem Saves.replay {procedure : Procedure α} (hp : procedure.Saves dir names) (setting : Setting)
    (world : World) :
    Replay setting.cwd dir world.tree (procedure.carryOut setting world).steps
        (procedure.carryOut setting world).world.tree ∧
      logNames (procedure.carryOut setting world).steps <+: names := by
  induction procedure generalizing names world with
  | done | stop => exact ⟨.nil, List.nil_prefix⟩
  | poll next ih => exact ih _ (hp _) world
  | tell event next ih =>
    have htree := (World.afterTold_eq setting world event).1
    obtain ⟨hreplay, hnames⟩ := ih hp (world.afterTold setting event)
    rw [htree] at hreplay
    simp only [carryOut]
    split
    · exact ⟨htree ▸ .other rfl .nil, List.nil_prefix⟩
    · exact ⟨.other rfl hreplay, hnames⟩
  | start command next ih =>
    simp only [carryOut]
    cases hstart : world.start setting command with
    | refused error => exact ⟨.other rfl .nil, List.nil_prefix⟩
    | stopped reason after =>
      exact ⟨World.tree_of_stopped hstart ▸ .other rfl .nil, List.nil_prefix⟩
    | ended capture after =>
      obtain ⟨hreplay, hnames⟩ := ih capture (hp capture) after
      rw [World.tree_of_ended hstart] at hreplay
      exact ⟨.other rfl hreplay, hnames⟩
  | save goal log next ih =>
    obtain ⟨rfl, rest, rfl, hnext⟩ := hp
    simp only [carryOut]
    split
    · next made failure hwrite => exact ⟨.unsaved hwrite, ⟨rest, rfl⟩⟩
    · next made path hwrite =>
      obtain ⟨hreplay, hnames⟩ := ih path (hnext path) { world with tree := made }
      exact ⟨.saved hwrite hreplay, List.cons_prefix_cons.mpr ⟨rfl, hnames⟩⟩

end Procedure

namespace Run

open Procedure

variable {dir : Path}

theorem tell_saves (event : Event) : (tell event).Saves dir [] := rfl

theorem capture_saves (command : Command) : (capture command).Saves dir [] := by
  intro captured
  rfl

theorem checkInterrupt_saves : checkInterrupt.Saves dir [] := by
  rintro (_ | _)
  · rfl
  · trivial

theorem total_saves (results : List TestResult) : (total results).Saves dir [] := by
  rw [total]
  split
  · rfl
  · trivial

theorem runTest_saves (root : Path) (selector : List String) (name : String) (number count : Nat) :
    (runTest root selector name number count).Saves dir [] := by
  apply (tell_saves _).bind
  intro _
  apply (capture_saves _).bind
  intro test
  apply (tell_saves _).bind
  intro _
  apply (tell_saves _).bind
  intro _
  rfl

theorem runTestsFrom_saves (root : Path) (selector : List String) (count number : Nat)
    (names : List String) : (runTestsFrom root selector count number names).Saves dir [] := by
  induction names generalizing number with
  | nil =>
    apply checkInterrupt_saves.bind
    intro _
    rfl
  | cons name rest ih =>
    apply checkInterrupt_saves.bind
    intro _
    apply (runTest_saves root selector name number count).bind
    intro result
    apply (ih (number + 1)).bind
    intro results
    rfl

theorem runNames_saves (root : Path) (selector names : List String) :
    (runNames root selector names).Saves dir [] := by
  rw [runNames]
  split
  · rfl
  · exact runTestsFrom_saves root selector _ 1 names

variable (plan : Plan) (stamp : String)

theorem saveLog_saves (log : Log) :
    (saveLog plan stamp log).Saves (plan.outDir stamp) [log.name] := by
  refine ⟨rfl, [], rfl, ?_⟩
  intro path
  apply (tell_saves _).bind
  intro _
  rfl

theorem closeSuite_saves (suite : Suite) (discovery : Discovery) (results : List TestResult) :
    (closeSuite plan stamp suite discovery results).Saves (plan.outDir stamp) [suite.logName] := by
  apply (total_saves results).bind
  intro duration
  apply (tell_saves _).bind
  intro _
  exact saveLog_saves plan stamp _

theorem runSuite_saves (suite : Suite) :
    (runSuite plan stamp suite).Saves (plan.outDir stamp) [suite.logName] := by
  rw [runSuite_eq]
  apply checkInterrupt_saves.bind
  intro _
  apply (capture_saves _).bind
  intro listing
  apply checkInterrupt_saves.bind
  intro _
  apply (tell_saves _).bind
  intro _
  apply (runNames_saves _ _ _).bind
  intro results
  exact closeSuite_saves plan stamp suite _ results

theorem runCheck_saves (check : Check) :
    (runCheck plan stamp check).Saves (plan.outDir stamp) [check.logName] := by
  rw [runCheck_eq]
  apply checkInterrupt_saves.bind
  intro _
  apply (tell_saves _).bind
  intro _
  apply (capture_saves _).bind
  intro output
  apply (tell_saves _).bind
  intro _
  apply checkInterrupt_saves.bind
  intro _
  exact saveLog_saves plan stamp _

theorem runSuites_saves (suites : List Suite) :
    (runSuites plan stamp suites).Saves (plan.outDir stamp) (suites.map (·.logName)) := by
  induction suites with
  | nil => rfl
  | cons suite rest ih =>
    apply (runSuite_saves plan stamp suite).bind
    intro path
    exact ih

theorem runChecks_saves (checks : List Check) :
    (runChecks plan stamp checks).Saves (plan.outDir stamp) (checks.map (·.logName)) := by
  induction checks with
  | nil => rfl
  | cons check rest ih =>
    apply (runCheck_saves plan stamp check).bind
    intro path
    exact ih

theorem runAll_saves : (runAll plan stamp).Saves (plan.outDir stamp) plan.logNames := by
  have hphases : (phases plan stamp).Saves (plan.outDir stamp) plan.logNames := by
    apply (tell_saves _).bind
    intro _
    apply (runSuites_saves plan stamp plan.suites).bind
    intro _
    exact runChecks_saves plan stamp plan.checks
  rw [runAll_eq, ← List.append_nil plan.logNames]
  apply hphases.bind
  intro _
  apply checkInterrupt_saves.bind
  intro _
  apply (tell_saves _).bind
  intro _
  rfl

end Run
end SoloRun
