import Mathlib
import SoloRun.Proofs.Deeds

/-!
What a run comes to when every child answers: the outcome by the answers, the children numbered as
they are started, and the commands and the logs of an outcome.
-/

namespace SoloRun

theorem map_zipWith_of_left {α β γ δ : Type} {f : α → β → γ} {g : γ → δ} {key : α → δ}
    (hkey : ∀ a b, g (f a b) = key a) {as : List α} {bs : List β} (h : bs.length = as.length) :
    (List.zipWith f as bs).map g = as.map key := by
  induction as generalizing bs with
  | nil => rfl
  | cons a rest ih =>
    cases bs with
    | nil => cases h
    | cons b more =>
      have hrest := ih (Nat.succ.inj h)
      rw [List.zipWith_cons_cons, List.map_cons, List.map_cons, hkey, hrest]

namespace Duration

theorem exists_add? (first second : Duration)
    (h : first.toNanos + second.toNanos < UInt64.size * nanosPerSecond) :
    ∃ sum, first.add? second = some sum ∧ sum.toNanos = first.toNanos + second.toNanos := by
  have hper : nanosPerSecond = 1000000000 := rfl
  have hsize : UInt64.size = 18446744073709551616 := rfl
  have hfirst := first.nanos_lt
  have hsecond := second.nanos_lt
  simp only [toNanos, hper, hsize] at h hfirst hsecond ⊢
  rw [add?]
  by_cases hnanos : first.nanos + second.nanos < nanosPerSecond
  · rw [dif_pos hnanos, dif_pos (by omega)]
    exact ⟨_, rfl, by dsimp only; omega⟩
  · rw [dif_neg hnanos, dif_pos (by omega)]
    exact ⟨_, rfl, by dsimp only; omega⟩

theorem exists_foldlM_add? (durations : List Duration) (start : Duration)
    (h : start.toNanos + (durations.map toNanos).sum < UInt64.size * nanosPerSecond) :
    ∃ total, durations.foldlM add? start = some total ∧
      total.toNanos = start.toNanos + (durations.map toNanos).sum := by
  induction durations generalizing start with
  | nil => exact ⟨start, rfl, (Nat.add_zero _).symm⟩
  | cons first rest ih =>
    rw [List.map_cons, List.sum_cons, ← Nat.add_assoc] at h ⊢
    obtain ⟨sum, hadd, hsum⟩ :=
      exists_add? start first (Nat.lt_of_le_of_lt (Nat.le_add_right _ _) h)
    rw [← hsum] at h ⊢
    obtain ⟨total, htotal, heq⟩ := ih sum h
    exact ⟨total, by simp [List.foldlM_cons, hadd, htotal], heq⟩

theorem exists_total? {durations : List Duration}
    (h : (durations.map toNanos).sum < UInt64.size * nanosPerSecond) :
    ∃ total, total? durations = some total ∧ total.toNanos = (durations.map toNanos).sum := by
  have hzero : zero.toNanos = 0 := rfl
  have htotal := exists_foldlM_add? durations zero
  rw [hzero, Nat.zero_add] at htotal
  exact htotal h

end Duration

def Setting.answer (setting : Setting) (home : Place) (child : Nat) (command : Command) : Capture :=
  let behaviour := setting.script.behaviour command.args
  ⟨behaviour.ending.code, Utf8.decode (behaviour.merged home), setting.durations child⟩

section Answers

variable (answer : Nat → Command → Capture) (root : Path)

def testResults (selector : List String) : Nat → List String → List TestResult
  | _, [] => []
  | child, name :: rest =>
    ⟨answer child (Command.single root selector name), name⟩ ::
      testResults selector (child + 1) rest

def suiteOutcome (child : Nat) (suite : Suite) : SuiteOutcome :=
  let listing := answer child (Command.listing root suite.selector)
  ⟨listing, testResults answer root suite.selector (child + 1) (Discovery.ofCapture listing).names⟩

def SuiteOutcome.children (outcome : SuiteOutcome) : Nat :=
  1 + outcome.results.length

def suiteOutcomes : Nat → List Suite → List SuiteOutcome
  | _, [] => []
  | child, suite :: rest =>
    let outcome := suiteOutcome answer root child suite
    outcome :: suiteOutcomes (child + outcome.children) rest

def checkOutputs : Nat → List Check → List Capture
  | _, [] => []
  | child, check :: rest => answer child (check.command root) :: checkOutputs (child + 1) rest

end Answers

theorem Check.dir?_command (check : Check) (root : Path) :
    (check.command root).dir? = some root := by
  rw [command]
  split <;> rfl

def Plan.outcome (plan : Plan) (answer : Nat → Command → Capture) : RunOutcome :=
  let suites := suiteOutcomes answer plan.workspaceRoot 0 plan.suites
  ⟨suites, checkOutputs answer plan.workspaceRoot (suites.map (·.children)).sum plan.checks⟩

namespace Plan

variable (plan : Plan) (stamp : String)

def suiteCommands (suite : Suite) (outcome : SuiteOutcome) : List Command :=
  Command.listing plan.workspaceRoot suite.selector ::
    outcome.discovery.names.map (Command.single plan.workspaceRoot suite.selector)

def commands (outcome : RunOutcome) : List Command :=
  (List.zipWith plan.suiteCommands plan.suites outcome.suites).flatten ++
    plan.checks.map (Check.command plan.workspaceRoot)

def suiteLogs (suites : List Suite) (outcomes : List SuiteOutcome) : List Log :=
  List.zipWith (fun suite outcome => outcome.log stamp suite) suites outcomes

def checkLogs (checks : List Check) (outputs : List Capture) : List Log :=
  List.zipWith (Check.log plan.workspaceRoot) checks outputs

def logs (outcome : RunOutcome) : List Log :=
  suiteLogs stamp plan.suites outcome.suites ++ plan.checkLogs plan.checks outcome.checks

theorem dir?_of_mem_suiteCommands {suite : Suite} {outcome : SuiteOutcome} {command : Command}
    (h : command ∈ plan.suiteCommands suite outcome) : command.dir? = some plan.workspaceRoot := by
  rcases List.mem_cons.mp h with rfl | hmem
  · rfl
  · obtain ⟨name, -, rfl⟩ := List.mem_map.mp hmem
    rfl

end Plan
end SoloRun
