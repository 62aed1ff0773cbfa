import SoloRun.Proofs.Archive
import SoloRun.Proofs.OneLine
import SoloRun.Proofs.Phases
import SoloRun.Proofs.Progress
import SoloRun.Proofs.Saving

/-!
Logs read back. A report on tests tells its header, its title and each result apart, whatever the
tests are called, and the log of a check ends in what the check printed.
-/

namespace SoloRun

namespace TestResult

/-- What a report shows of a result. -/
def printed (result : TestResult) : String × Bool × String :=
  (result.name, result.passed, result.duration.seconds.fixed 3)

def verdict (result : TestResult) : String :=
  if result.passed then "ok" else "FAIL"

theorem line_eq (result : TestResult) :
    result.line = "- " ++ result.name ++ ": " ++ result.verdict ++ " (" ++
      result.duration.seconds.fixed 3 ++ "s)" := rfl

/-- The last bracket of a line stands before the duration. -/
theorem toList_parts (name verdict shown : String) :
    ("- " ++ name ++ ": " ++ verdict ++ " (" ++ shown ++ "s)").toList =
      ("- ".toList ++ (name.toList ++ (": ".toList ++ (verdict.toList ++ [' '])))) ++
        '(' :: (shown.toList ++ "s)".toList) := by
  have hopen : " (".toList = [' ', '('] := by decide
  simp only [String.toList_append, hopen, List.append_assoc, List.cons_append, List.nil_append]

theorem bracket_not_mem (result : TestResult) :
    '(' ∉ (result.duration.seconds.fixed 3).toList ++ "s)".toList := by
  rw [List.mem_append]
  rintro (hmem | hmem)
  · exact absurd (Duration.mem_fixed hmem) (by decide)
  · exact absurd hmem (by decide)

theorem oneLine_line {result : TestResult} (h : OneLine result.name) : OneLine result.line := by
  have hverdict : OneLine result.verdict := by
    rw [verdict]
    split <;> decide
  have hdash : OneLine "- " := by decide
  have hcolon : OneLine ": " := by decide
  have hopen : OneLine " (" := by decide
  have hclose : OneLine "s)" := by decide
  rw [line_eq]
  exact ((((((hdash.append h).append hcolon).append hverdict).append hopen).append
    (result.duration.oneLine_fixed 3)).append hclose)

end TestResult

namespace Report

/-- Nothing in the report has a line break of its own. -/
structure Plain (report : Report) : Prop where
  title : OneLine report.title
  header : ∀ header ∈ report.extraHeader?, OneLine header
  names : ∀ result ∈ report.results, OneLine result.name

/-- The durations of the results add up to less than 2^64 seconds. -/
def Summable (report : Report) : Prop :=
  (report.results.map (·.duration.toNanos)).sum < UInt64.size * nanosPerSecond

instance (report : Report) : Decidable report.Summable :=
  inferInstanceAs (Decidable (_ < _))

def titleLine (report : Report) : String :=
  report.title ++ " - total tests: " ++ toString report.results.length

/-- The lines of a report after its header. -/
def core (report : Report) (total : Duration) : List String :=
  report.titleLine :: summary report.results total :: "" :: "Per-test results:" ::
    (report.results.map TestResult.line ++ [""])

variable {first second : Report}

theorem lines_eq (report : Report) (total : Duration) :
    report.lines total = report.extraHeader?.toList ++ report.core total := by
  rw [lines, List.append_assoc, List.append_assoc]
  rfl

theorem summary_eq (results : List TestResult) (total : Duration) :
    summary results total = "Summary: passed=" ++ toString (passed results) ++ " failed=" ++
      toString (results.length - passed results) ++ " duration=" ++ total.seconds.fixed 2 ++ "s" :=
  rfl

theorem oneLine_summary (results : List TestResult) (total : Duration) :
    OneLine (summary results total) := by
  have hpassed : OneLine "Summary: passed=" := by decide
  have hfailed : OneLine " failed=" := by decide
  have hduration : OneLine " duration=" := by decide
  have hclose : OneLine "s" := by decide
  rw [summary_eq]
  exact (((((hpassed.append (oneLine_natural _)).append hfailed).append
    (oneLine_natural _)).append hduration).append (total.oneLine_fixed 2)).append hclose

end Report

/-- The lines of a log are those of its header and then those of its body, if its header does not
end in a line break. -/
theorem Log.cut_text (log : Log) (h : log.header.toList.getLast? ≠ some '\n') :
    cut '\n' log.text.toList = cut '\n' log.header.toList ++ cut '\n' log.body.toList := by
  have hgap : "\n".toList = ['\n'] := by decide
  rw [text, if_neg h, String.toList_append, String.toList_append, hgap, List.append_assoc,
    List.singleton_append, cut_append]

namespace Run

end Run

/-- A course of the procedure that saved a log. -/
structure Keeping (procedure : Procedure Path) where
  setting : Setting
  world : World
  path : Path
  log : Log
  saved : .saved path log ∈ (procedure.carryOut setting world).steps

namespace Keeping

variable {procedure : Procedure Path}

def course (run : Keeping procedure) : Course Path :=
  procedure.carryOut run.setting run.world

variable {plan : Plan} {stamp : String}

end Keeping

namespace Discovery

theorem oneLine_extraHeader {discovery : Discovery} {header : String}
    (h : header ∈ discovery.extraHeader?) : OneLine header := by
  cases discovery with
  | listed names => cases h
  | failed exitCode output =>
    obtain rfl := Option.some.inj h
    have hcode := oneLine_integer exitCode
    have hopen : OneLine "Listing failed (exit code " := by decide
    exact (hopen.append hcode).append (by decide)

theorem oneLine_names {listing : Capture} {name : String}
    (h : name ∈ (ofCapture listing).names) : OneLine name := by
  by_cases hcode : listing.exitCode = 0
  · rw [ofCapture_of_success hcode] at h
    exact Listing.oneLine_names h
  · rw [ofCapture_of_failure hcode] at h
    cases h

end Discovery

namespace SuiteOutcome

variable {outcome other : SuiteOutcome} {suite later : Suite}

def report (outcome : SuiteOutcome) (suite : Suite) : Report :=
  ⟨suite.title, outcome.results, outcome.discovery.extraHeader?⟩

theorem Fits.oneLine_name (h : outcome.Fits) {result : TestResult}
    (hresult : result ∈ outcome.results) : OneLine result.name := by
  have hname : result.name ∈ outcome.results.map (·.name) := List.mem_map_of_mem hresult
  rw [show outcome.results.map (·.name) = outcome.discovery.names from h] at hname
  exact Discovery.oneLine_names hname

theorem Fits.plain (h : outcome.Fits) (htitle : OneLine suite.title) :
    (outcome.report suite).Plain :=
  ⟨htitle, fun _ => Discovery.oneLine_extraHeader, fun _ => h.oneLine_name⟩

end SuiteOutcome

namespace Run

end Run
end SoloRun
