import SoloRun.Proofs.Announced
import SoloRun.Proofs.Completed
import SoloRun.Proofs.Readback

/-!
A suite accounted for: by what is told of its tests while they are run, by its summary and by its
log. Whatever a run comes to, the accounts of a suite whose log was kept agree.
-/

namespace SoloRun

section Cut

variable {α : Type} [DecidableEq α] {mark : α}

theorem cut_joined_eq {parts : List (List α)} (hne : parts ≠ []) :
    cut mark (joined mark parts) = parts.flatMap (cut mark) := by
  induction parts with
  | nil => exact absurd rfl hne
  | cons part more ih =>
    by_cases hmore : more = []
    · subst hmore
      simp [joined]
    · rw [joined_cons hmore, cut_append, ih hmore, List.flatMap_cons]

theorem flatMap_cut_of_not_mem {parts : List (List α)} (h : ∀ part ∈ parts, mark ∉ part) :
    parts.flatMap (cut mark) = parts := by
  induction parts with
  | nil => rfl
  | cons part more ih =>
    obtain ⟨hpart, hmore⟩ := List.forall_mem_cons.mp h
    rw [List.flatMap_cons, cut_of_not_mem hpart, ih hmore]
    rfl

end Cut

theorem Log.text_eq (log : Log) :
    ∃ front, log.text.toList = front ++ '\n' :: log.body.toList := by
  by_cases hlast : log.header.toList.getLast? = some '\n'
  · obtain ⟨front, hheader⟩ := List.getLast?_eq_some_iff.mp hlast
    refine ⟨front, ?_⟩
    rw [text, if_pos hlast, String.toList_append, String.toList_append, hheader]
    simp
  · refine ⟨log.header.toList, ?_⟩
    rw [text, if_neg hlast, String.toList_append, String.toList_append, List.append_assoc]
    rfl

namespace Event

def opens : Event → Bool
  | .suiteStart _ _ | .listingFailed _ _ _ => true
  | _ => false

def verdict? : Event → Option (String × Bool)
  | .testResult name success _ => some (name, success)
  | _ => none

end Event

namespace TestResult

/-- The name in the front of a line, if the line is of that verdict. -/
def named? (verdict : String) (front : List Char) : Option String := do
  let rest ← front.dropPrefix? "- ".toList
  let name ← rest.dropSuffix? (": " ++ verdict ++ " ").toList
  return String.ofList name

def read? (line : List Char) : Option (String × Bool) :=
  -- the last bracket opens before the duration, which has none
  let front := joined '(' (cut '(' line).dropLast
  (named? "ok" front).map (·, true) <|> (named? "FAIL" front).map (·, false)

theorem named?_eq_some_iff {verdict name : String} {front : List Char} :
    named? verdict front = some name ↔
      front = "- ".toList ++ (name.toList ++ (": " ++ verdict ++ " ").toList) := by
  constructor
  · intro h
    obtain ⟨rest, hrest, h⟩ := Option.bind_eq_some_iff.mp h
    obtain ⟨chars, hchars, h⟩ := Option.bind_eq_some_iff.mp h
    obtain rfl := Option.some.inj h
    obtain ⟨dash, rfl, hdash⟩ := List.dropPrefix?_eq_some_iff.mp hrest
    obtain ⟨mark, rfl, hmark⟩ := List.dropSuffix?_eq_some_iff.mp hchars
    have hname : (String.ofList chars).toList = chars := String.toList_ofList
    rw [eq_of_beq hdash, eq_of_beq hmark, hname]
  · rintro rfl
    refine Option.bind_eq_some_iff.mpr
      ⟨_, List.dropPrefix?_append_of_beq _ (beq_self_eq_true _), ?_⟩
    refine Option.bind_eq_some_iff.mpr
      ⟨name.toList, List.dropSuffix?_eq_some_iff.mpr ⟨_, rfl, beq_self_eq_true _⟩, ?_⟩
    rw [String.ofList_toList]
    rfl

theorem front_line (result : TestResult) :
    joined '(' (cut '(' result.line.toList).dropLast =
      "- ".toList ++ (result.name.toList ++ (": " ++ result.verdict ++ " ").toList) := by
  rw [line_eq, toList_parts, cut_append, cut_of_not_mem result.bracket_not_mem,
    List.dropLast_concat, joined_cut]
  simp

theorem read?_line (result : TestResult) :
    read? result.line.toList = some (result.name, result.passed) := by
  have hnamed := named?_eq_some_iff.mpr result.front_line
  rw [read?]
  cases hpassed : result.passed with
  | true =>
    have hverdict : result.verdict = "ok" := by rw [verdict, hpassed]; rfl
    rw [hverdict] at hnamed
    rw [hnamed]
    rfl
  | false =>
    have hverdict : result.verdict = "FAIL" := by rw [verdict, hpassed]; rfl
    rw [hverdict] at hnamed
    have hother : named? "ok" (joined '(' (cut '(' result.line.toList).dropLast) = none := by
      rw [Option.eq_none_iff_forall_ne_some]
      intro name hname
      have hlines := (named?_eq_some_iff.mp hname).symm.trans (named?_eq_some_iff.mp hnamed)
      have hlast := congrArg (fun line : List Char => line.reverse.take 2) hlines
      simp at hlast
    rw [hnamed, hother]
    rfl

end TestResult

theorem Report.cut_text (report : Report)
    (hnames : ∀ result ∈ report.results, OneLine result.name)
    (total : Duration) :
    ∃ front, cut '\n' (report.text total).toList = front ++ cut '\n' report.titleLine.toList ++
      [(summary report.results total).toList, [], "Per-test results:".toList] ++
      report.results.map (·.line.toList) ++ [[]] := by
  let tail := [(summary report.results total).toList, [], "Per-test results:".toList] ++
    report.results.map (·.line.toList) ++ [[]]
  have htail : tail.flatMap (cut '\n') = tail := by
    refine flatMap_cut_of_not_mem
      (List.forall_mem_append.mpr ⟨List.forall_mem_append.mpr ⟨?_, ?_⟩, ?_⟩)
    · exact List.forall_mem_cons.mpr ⟨oneLine_summary report.results total, by decide⟩
    · intro line hmem
      obtain ⟨result, hresult, rfl⟩ := List.mem_map.mp hmem
      exact TestResult.oneLine_line (hnames result hresult)
    · decide
  have hlines : (report.lines total).map String.toList =
      report.extraHeader?.toList.map String.toList ++ report.titleLine.toList :: tail := by
    rw [lines_eq, core]
    simp [tail]
  refine ⟨(report.extraHeader?.toList.map String.toList).flatMap (cut '\n'), ?_⟩
  rw [text, unlines, String.toList_ofList, hlines, cut_joined_eq (by simp), List.flatMap_append,
    List.flatMap_cons, htail]
  simp only [tail, List.append_assoc]

/-- The verdicts on the tests of a suite, in the order of the tests, and how long they took. -/
structure Account where
  verdicts : List (String × Bool)
  seconds : Double
  deriving DecidableEq, Repr

namespace Account

def passed (account : Account) : Nat :=
  account.verdicts.countP (·.2)

def failed (account : Account) : Nat :=
  account.verdicts.countP (!·.2)

def summary (account : Account) (title : String) : Event :=
  .suiteSummary title account.passed account.failed account.seconds

inductive Opens (account : Account) (title : String) : Event → Prop
  | listed : Opens account title (.suiteStart title (account.passed + account.failed))
  | failed (exitCode : Int) (output : String) (passed : account.passed = 0)
    (failed : account.failed = 0) : Opens account title (.listingFailed title exitCode output)

/-- The events end in the summary of the suite, and since the suite was opened they tell of each
test what the account says. -/
def Told (account : Account) (title : String) (events : List Event) : Prop :=
  ∃ earlier opening between,
    events = earlier ++ opening :: (between ++ [account.summary title]) ∧
      account.Opens title opening ∧ (∀ event ∈ between, event.opens = false) ∧
      between.filterMap Event.verdict? = account.verdicts

/-- The lines of a log give the numbers of the account, and then a line on each test. -/
def Logged (account : Account) (title shown : String) (log : Log) : Prop :=
  ∃ front tests, cut '\n' log.text.toList = front ++
      cut '\n' (title ++ " - total tests: " ++ toString (account.passed + account.failed)).toList ++
      [("Summary: passed=" ++ toString account.passed ++ " failed=" ++ toString account.failed ++
        " duration=" ++ shown ++ "s").toList, [], "Per-test results:".toList] ++ tests ++ [[]] ∧
    tests.map TestResult.read? = account.verdicts.map some ∧
    tests.countP (fun line => (TestResult.read? line).any (·.2)) = account.passed ∧
    tests.countP (fun line => (TestResult.read? line).any (!·.2)) = account.failed

theorem countP_any_read? {tests : List (List Char)} {verdicts : List (String × Bool)}
    (h : tests.map TestResult.read? = verdicts.map some) (test : String × Bool → Bool) :
    tests.countP (fun line => (TestResult.read? line).any test) = verdicts.countP test := by
  have hcount := congrArg (List.countP (Option.any test)) h
  rw [List.countP_map, List.countP_map] at hcount
  exact hcount

end Account

namespace SuiteOutcome

variable {outcome : SuiteOutcome}

def account (outcome : SuiteOutcome) : Account :=
  ⟨outcome.results.map fun result => (result.name, result.success), outcome.total.seconds⟩

theorem passed_account (outcome : SuiteOutcome) :
    outcome.account.passed = Report.passed outcome.results := by
  rw [Account.passed, account, List.countP_map]
  rfl

theorem failed_account (outcome : SuiteOutcome) :
    outcome.account.failed = outcome.results.length - Report.passed outcome.results := by
  have hall := List.length_eq_countP_add_countP TestResult.passed (l := outcome.results)
  have hfailed : outcome.account.failed = outcome.results.countP fun result => ¬result.passed := by
    rw [Account.failed, account, List.countP_map]
    congr 1
    funext result
    simp [TestResult.passed]
  rw [Report.passed, hfailed]
  omega

theorem length_account (outcome : SuiteOutcome) :
    outcome.account.passed + outcome.account.failed = outcome.results.length := by
  have hle := Report.passed_le outcome.results
  rw [passed_account, failed_account]
  omega

theorem Fits.opens (h : outcome.Fits) (title : String) :
    outcome.account.Opens title (outcome.discovery.event title) := by
  have hnames : outcome.results.map (·.name) = outcome.discovery.names := h
  cases hdiscovery : outcome.discovery with
  | listed names =>
    rw [hdiscovery, Discovery.names] at hnames
    have hlength : names.length = outcome.account.passed + outcome.account.failed := by
      rw [length_account, ← hnames, List.length_map]
    rw [Discovery.event, hlength]
    exact .listed
  | failed exitCode output =>
    rw [hdiscovery, Discovery.names, List.map_eq_nil_iff] at hnames
    have hnone := outcome.length_account
    rw [hnames, List.length_nil] at hnone
    exact .failed exitCode output (by omega) (by omega)

theorem Fits.logged (h : outcome.Fits) (stamp : String) (suite : Suite) :
    outcome.account.Logged suite.title (outcome.total.seconds.fixed 2)
      (outcome.log stamp suite) := by
  obtain ⟨header, htext⟩ := (outcome.log stamp suite).text_eq
  obtain ⟨front, hlines⟩ :=
    (outcome.report suite).cut_text (fun _ => h.oneLine_name) outcome.total
  have hread : (outcome.results.map (·.line.toList)).map TestResult.read? =
      outcome.account.verdicts.map some := by
    rw [account, List.map_map, List.map_map]
    exact List.map_congr_left fun result _ => result.read?_line
  refine ⟨cut '\n' header ++ front, outcome.results.map (·.line.toList), ?_, hread,
    Account.countP_any_read? hread _, Account.countP_any_read? hread _⟩
  have hbody : (outcome.log stamp suite).body = (outcome.report suite).text outcome.total := rfl
  rw [htext, cut_append, hbody, hlines, length_account, passed_account, failed_account]
  simp only [List.append_assoc]
  rfl

end SuiteOutcome

namespace Plan

theorem testsDeeds_events (plan : Plan) (selector : List String) (count number : Nat)
    (results : List TestResult) :
    let events := (plan.testsDeeds selector count number results).filterMap Deed.event?
    (∀ event ∈ events, event.opens = false) ∧
      events.filterMap Event.verdict? =
        results.map fun result => (result.name, result.success) := by
  induction results generalizing number with
  | nil => exact ⟨List.forall_mem_nil _, rfl⟩
  | cons result rest ih =>
    obtain ⟨hopens, hverdicts⟩ := ih (number + 1)
    refine ⟨?_, congrArg (_ :: ·) hverdicts⟩
    exact List.forall_mem_cons.mpr ⟨rfl, List.forall_mem_cons.mpr ⟨rfl,
      List.forall_mem_cons.mpr ⟨rfl, hopens⟩⟩⟩

end Plan

theorem Phase.of_kept_at {plan : Plan} {stamp : String} {phase : Phase} {before after : List Deed}
    {path : Path} {log : Log} (h : phase.deeds plan stamp = before ++ Deed.kept path log :: after) :
    before = phase.body plan ∧ path = phase.path plan stamp ∧ log = phase.log plan stamp := by
  have hkept : .kept path log ∈ phase.deeds plan stamp := by
    rw [h]
    exact List.mem_append_right _ List.mem_cons_self
  obtain ⟨-, hpath, hlog⟩ := Phase.of_kept List.prefix_rfl hkept
  refine ⟨?_, hpath, hlog⟩
  rw [Phase.deeds, Plan.logDeeds] at h
  rcases List.append_eq_append_iff.mp h with ⟨more, rfl, hmore⟩ | ⟨more, hbody, hmore⟩
  · cases more with
    | nil => exact List.append_nil _
    | cons first more =>
      rw [List.cons_append] at hmore
      obtain ⟨-, hsaid⟩ := List.cons.inj hmore
      have hmem : .kept path log ∈ more ++ Deed.kept path log :: after :=
        List.mem_append_right _ List.mem_cons_self
      rw [← hsaid] at hmem
      cases List.mem_singleton.mp hmem
  · cases more with
    | nil => rw [hbody, List.append_nil]
    | cons first more =>
      obtain ⟨rfl, -⟩ := List.cons.inj hmore
      have hmem : .kept path log ∈ phase.body plan := by
        rw [hbody]
        exact List.mem_append_right _ List.mem_cons_self
      exact absurd hmem (phase.kept_not_mem_body path log)

namespace Course.Stands

variable {course : Course Path} {plan : Plan} {stamp : String} {done rest : List Phase}
  {part : List Deed}

theorem kept_not_mem_part (h : course.Stands plan stamp done part rest) (path : Path) (log : Log) :
    .kept path log ∉ part := by
  intro hmem
  cases hrest : rest with
  | nil => cases List.mem_singleton.mp ((h.last hrest).subset hmem)
  | cons phase later =>
    exact phase.kept_not_mem_body path log ((h.next phase later hrest).subset hmem)

theorem of_kept {before after : List Deed} {path : Path} {log : Log}
    (h : course.Stands plan stamp done part rest)
    (hdeeds : course.deeds = before ++ Deed.kept path log :: after) :
    ∃ earlier phase later, done = earlier ++ phase :: later ∧
      before = .said (.runStart (plan.outDir stamp) Command.runner) ::
        (earlier.flatMap (Phase.deeds plan stamp) ++ phase.body plan) ∧
      path = phase.path plan stamp ∧ log = phase.log plan stamp := by
  rcases h.split hdeeds with ⟨-, hstart⟩ | ⟨earlier, begun, rfl, hbegun⟩
  · cases hstart
  rcases hbegun with ⟨phase, later, more, rfl, hphase⟩ | ⟨-, rfl⟩
  · obtain ⟨rfl, hpath, hlog⟩ := Phase.of_kept_at hphase
    exact ⟨earlier, phase, later, rfl, rfl, hpath, hlog⟩
  · exact absurd (List.mem_append_right _ List.mem_cons_self) (h.kept_not_mem_part path log)

end Course.Stands

theorem filterMap_event?_eq (steps : List Step) :
    steps.filterMap Step.event? = (steps.filterMap Step.deed?).filterMap Deed.event? :=
  Course.events_eq (⟨steps, .ok (), .fresh .empty .unlimited⟩ : Course Unit)

theorem exists_saved {steps : List Step} {before after : List Log} {log : Log}
    (h : keptLogs steps = before ++ log :: after) :
    ∃ pre path post, steps = pre ++ Step.saved path log :: post ∧ keptLogs pre = before := by
  rw [keptLogs, List.filterMap_filterMap] at h
  obtain ⟨pre, step, post, rfl, rfl, hstep⟩ := exists_split_of_filterMap h
  obtain ⟨deed, hdeed, hlog⟩ := Option.bind_eq_some_iff.mp hstep
  cases step with
  | saved path kept =>
    cases hdeed
    cases hlog
    exact ⟨pre, path, post, rfl, List.filterMap_filterMap⟩
  | started command capture? =>
    cases capture? with
    | none => cases hdeed
    | some capture =>
      cases hdeed
      cases hlog
  | told =>
    cases hdeed
    cases hlog
  | refused | unsaved => cases hdeed

theorem Phase.told_body {plan : Plan} {suite : Suite} {outcome : SuiteOutcome} (h : outcome.Fits)
    (deeds : List Deed) :
    outcome.account.Told suite.title
      ((deeds ++ (Phase.tested suite outcome).body plan).filterMap Deed.event?) := by
  obtain ⟨hopens, hverdicts⟩ :=
    plan.testsDeeds_events suite.selector outcome.results.length 1 outcome.results
  refine ⟨deeds.filterMap Deed.event?, outcome.discovery.event suite.title, _, ?_,
    h.opens suite.title, hopens, hverdicts⟩
  have hevent (event : Event) : (Deed.said event).event? = some event := rfl
  rw [Account.summary, SuiteOutcome.passed_account, SuiteOutcome.failed_account, Phase.body,
    List.filterMap_append, List.filterMap_cons_none rfl, List.filterMap_cons_some (hevent _),
    List.filterMap_append]
  rfl

theorem Plan.phase_of_suite {plan : Plan} {outcome : RunOutcome} (h : outcome.Fits plan) {i : Nat}
    {suite : Suite} (hsuite : plan.suites[i]? = some suite) :
    ∃ tests ∈ outcome.suites, (plan.phases outcome)[i]? = some (.tested suite tests) := by
  obtain ⟨hlt, -⟩ := List.getElem?_eq_some_iff.mp hsuite
  obtain ⟨tests, htests⟩ : ∃ tests, outcome.suites[i]? = some tests :=
    ⟨_, List.getElem?_eq_getElem (h.suites_length ▸ hlt)⟩
  refine ⟨tests, List.mem_of_getElem? htests, ?_⟩
  rw [phases, List.getElem?_append_left (by simpa [h.suites_length] using hlt),
    List.getElem?_zipWith, hsuite, htests]

namespace Run

variable (plan : Plan) (stamp : String) (setting : Setting) (world : World)

/-- Whatever a run comes to, once the log of a suite was kept there is one account of its tests:
what was told since the suite was opened, the summary and the log agree on it, and the duration on
the console is the one in the log. -/
theorem accounts_of_suite_agree {pre post : List Step} {path : Path} {log : Log} {suite : Suite}
    (hsteps : ((runAll plan stamp).carryOut setting world).steps =
      pre ++ Step.saved path log :: post)
    (hsuite : plan.suites[(keptLogs pre).length]? = some suite) :
    log.name = suite.logName ∧ ∃ (account : Account) (shown : String),
      account.Told suite.title (pre.filterMap Step.event?) ∧
      account.Logged suite.title shown log ∧
      ∀ look, Console.text look (account.summary suite.title) =
        suite.title ++ " result: " ++ Console.status look (account.failed = 0) ++ ". " ++
          toString account.passed ++ " passed; " ++ toString account.failed ++
          " failed; finished in " ++ shown ++ "s\n\n" := by
  obtain ⟨outcome, done, part, rest, hfits, hphases, hstands⟩ :=
    runAll_stands plan stamp setting world
  have hdeeds : ((runAll plan stamp).carryOut setting world).deeds =
      pre.filterMap Step.deed? ++ Deed.kept path log :: post.filterMap Step.deed? :=
    Course.deeds_of_split hsteps rfl
  obtain ⟨earlier, phase, later, rfl, hbefore, -, rfl⟩ := hstands.of_kept hdeeds
  have hcount : (keptLogs pre).length = earlier.length := by
    rw [keptLogs, hbefore, List.filterMap_cons_none rfl, List.filterMap_append, Phase.log?_body,
      Phase.log?_flatMap_deeds, List.append_nil, List.length_map]
  obtain ⟨tests, hmem, hphase⟩ := Plan.phase_of_suite hfits hsuite
  rw [hcount, hphases, List.append_assoc, List.getElem?_append_right (le_refl _), Nat.sub_self]
    at hphase
  obtain rfl : phase = .tested suite tests := Option.some.inj hphase
  have hfit := hfits.suites_fit tests hmem
  refine ⟨rfl, tests.account, tests.total.seconds.fixed 2, ?_, hfit.logged stamp suite,
    fun look => rfl⟩
  rw [filterMap_event?_eq, hbefore, ← List.cons_append]
  exact Phase.told_body hfit _

theorem accounts_of_a_failed_listing_agree :
    let root := Path.ofString "/"
    let suite : Suite := ⟨"unit", "Unit Tests", []⟩
    let plan : Plan := ⟨root, Path.ofString "/logs", [suite], []⟩
    let setting : Setting := ⟨.entries [], fun _ => .zero, [], .lines, ⟨0, 0⟩, none⟩
    let course := (runAll plan "now").carryOut setting (.fresh .empty .unlimited)
    ∃ pre path log post, course.steps = pre ++ Step.saved path log :: post ∧
      plan.suites[(keptLogs pre).length]? = some suite ∧
      ∃ account : Account, ∃ shown, account.Told "Unit Tests" (pre.filterMap Step.event?) ∧
        account.Logged "Unit Tests" shown log := by
  intro root suite plan setting course
  have haccepts : FileTree.empty.Accepts [] (plan.outDir "now") plan.logNames := by
    refine FileTree.empty_accepts (by decide) ?_
    intro name hmem
    obtain rfl := List.mem_singleton.mp hmem
    exact ⟨by decide, by decide, by decide⟩
  obtain ⟨place, hplace⟩ := haccepts.exists_place
  have hcommands : plan.commands (plan.outcome (setting.answer [])) =
      [Command.listing root []] := by
    cbv
  have hspawns : ∀ command ∈ plan.commands (plan.outcome (setting.answer [])),
      setting.Spawns .empty [] command := by
    rw [hcommands]
    intro command hmem
    obtain rfl := List.mem_singleton.mp hmem
    exact ⟨by cbv, by cbv, by cbv⟩
  have htotals : (plan.outcome (setting.answer [])).suites.all
      (fun outcome => (Report.total? outcome.results).isSome) = true := by
    cbv
  obtain ⟨hresult, -⟩ := runAll_yields plan "now" (haccepts.takes (by decide) (by decide) hplace)
    rfl hspawns (fun outcome hmem => List.all_eq_true.mp htotals outcome hmem)
    (.fresh .empty .unlimited) (World.fresh_steady (.inl rfl) .empty)
  obtain ⟨-, outcome, hfits, hdeeds⟩ := (runAll_follows plan "now").ends _ _ _ hresult
  have hlogs : (keptLogs course.steps).length = 1 := by
    have hphases := congrArg List.length (Plan.map_logName_phases hfits)
    rw [List.length_map] at hphases
    rw [keptLogs, ← Course.deeds, hdeeds, Plan.log?_deeds, List.length_map, hphases]
    rfl
  obtain ⟨log, hlog⟩ := List.length_eq_one_iff.mp hlogs
  obtain ⟨pre, path, post, hsteps, hpre⟩ := exists_saved (hlog.trans (List.nil_append _).symm)
  have hsuite : plan.suites[(keptLogs pre).length]? = some suite := by
    rw [hpre]
    rfl
  obtain ⟨-, account, shown, htold, hlogged, -⟩ :=
    accounts_of_suite_agree plan "now" setting (.fresh .empty .unlimited) hsteps hsuite
  exact ⟨pre, path, log, post, hsteps, hsuite, account, shown, htold, hlogged⟩

end Run
end SoloRun
