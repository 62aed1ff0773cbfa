import SoloRun.Command

/-!
What a run does: suites of tests, then checks, in one workspace, and where the logs go.
-/

namespace SoloRun

/-- A test target whose tests are listed and then run one by one. -/
structure Suite where
  logName : String
  title : String
  selector : List String
  deriving DecidableEq, Repr

inductive CheckKind where
  | lint (lints : List String)
  | format
  deriving DecidableEq, Repr

/-- One child whose whole output is kept. -/
structure Check where
  logName : String
  kind : CheckKind
  deriving DecidableEq, Repr

def Check.command (dir : Path) (check : Check) : Command :=
  match check.kind with
  | .lint lints => Command.lint dir lints
  | .format => Command.formatCheck dir

structure Plan where
  workspaceRoot : Path
  logRoot : Path
  suites : List Suite
  checks : List Check
  deriving DecidableEq, Repr

namespace Plan

def lintCategories : List String :=
  ["pedantic", "nursery", "perf", "correctness", "suspicious", "style", "complexity",
    "restriction"].map ("clippy::" ++ ·)

/-- Unit, integration and property tests, then lints and formatting. -/
def standard (root : Path) (logRoot? : Option Path) (integration property : String) : Plan where
  workspaceRoot := root
  logRoot := logRoot?.getD (root.join (Path.ofString "test_logs"))
  suites := [⟨"unit_tests", "Unit Tests", ["--lib", "--bins"]⟩,
    ⟨"integration_tests", "Integration Tests", ["--test", integration]⟩,
    ⟨"property_tests", "Property Tests", ["--test", property]⟩]
  checks := [⟨"clippy", .lint lintCategories⟩, ⟨"fmt", .format⟩]

/-- The directory of the run that started at the stamp. -/
def outDir (plan : Plan) (stamp : String) : Path :=
  plan.logRoot.join (Path.ofString stamp)

end Plan
end SoloRun
