import SoloRun.Failure
import SoloRun.Proofs.LostLines
import SoloRun.Proofs.OneLine

/-!
Colours change no words. A coloured text covers a plain one if it strips to it, whatever follows;
what the console and the reports on failures print in colour covers what they print without.
-/

namespace SoloRun

namespace Ansi

/-- No escape sequence can start in the text. -/
def Bare (text : String) : Prop :=
  '\x1b' ∉ text.toList

instance (text : String) : Decidable (Bare text) :=
  inferInstanceAs (Decidable (_ ∉ _))

theorem Bare.append {first second : String} (h₁ : Bare first) (h₂ : Bare second) :
    Bare (first ++ second) := by
  rw [Bare, String.toList_append, List.mem_append]
  exact not_or.mpr ⟨h₁, h₂⟩

theorem bare_natural (n : Nat) : Bare (toString n) := fun h =>
  absurd (isDigit_of_mem_toString h) (by decide)

theorem bare_integer (n : Int) : Bare (toString n) := fun h =>
  absurd (mem_toString_integer h) (by decide)

theorem bare_fixed (count : Nat) (seconds : Double) : Bare (seconds.fixed count) := by
  cases seconds with
  | finite negative units =>
    refine Bare.append ?_ fun h => absurd (Double.mem_places h) (by decide)
    split <;> decide
  | infinite negative =>
    rw [Double.fixed]
    split <;> decide
  | nan => exact (by decide : Bare "NaN")

theorem strip_nil : strip [] = [] := by
  rw [strip]

theorem strip_cons_of_ne {c : Char} (h : c ≠ '\x1b') (rest : List Char) :
    strip (c :: rest) = c :: strip rest := by
  rw [strip]
  intro more heq
  exact absurd heq h

theorem strip_append {text : List Char} (h : '\x1b' ∉ text) (rest : List Char) :
    strip (text ++ rest) = text ++ strip rest := by
  induction text with
  | nil => rfl
  | cons c more ih =>
    obtain ⟨hne, hmore⟩ := not_or.mp (List.mem_cons.not.mp h)
    rw [List.cons_append, strip_cons_of_ne (Ne.symm hne), ih hmore, List.cons_append]

theorem strip_sequence {more rest : List Char} (h : afterSequence? more = some rest) :
    strip ('\x1b' :: '[' :: more) = strip rest := by
  rw [strip]
  split
  · next heq =>
    rw [h] at heq
    rw [Option.some.inj heq]
  · next heq =>
    rw [h] at heq
    cases heq

theorem strip_opening (style : Style) (rest : List Char) :
    strip (opening style ++ rest) = strip rest := by
  cases style <;> exact strip_sequence rfl

theorem strip_reset (rest : List Char) : strip (reset ++ rest) = strip rest :=
  strip_sequence rfl

theorem reopened_of_not_mem {text : List Char} (style : Style) (h : '\x1b' ∉ text) :
    reopened style text = text := by
  induction text with
  | nil => rfl
  | cons c more ih =>
    obtain ⟨hne, hmore⟩ := not_or.mp (List.mem_cons.not.mp h)
    rw [reopened, ih hmore]
    intro rest heq
    exact absurd heq.symm hne

/-- The coloured text strips to the plain one, and does not run into what follows. -/
def Covers (coloured plain : String) : Prop :=
  ∀ rest, strip (coloured.toList ++ rest) = plain.toList ++ strip rest

section Covers

variable {coloured plain : String}

theorem Covers.strip_eq (h : Covers coloured plain) : strip coloured.toList = plain.toList := by
  have hend := h []
  rwa [List.append_nil, strip_nil, List.append_nil] at hend

theorem Covers.append {more rest : String} (h : Covers coloured plain) (hmore : Covers more rest) :
    Covers (coloured ++ more) (plain ++ rest) := by
  intro last
  rw [String.toList_append, String.toList_append, List.append_assoc, List.append_assoc, h, hmore]

theorem Bare.covers {text : String} (h : Bare text) : Covers text text :=
  strip_append h

theorem literal (text : String) (h : Bare text := by decide) : Covers text text :=
  h.covers

theorem Covers.bare {text : String} (h : Covers coloured plain) (htext : Bare text) :
    Covers (coloured ++ text) (plain ++ text) :=
  h.append htext.covers

theorem Covers.literal (h : Covers coloured plain) (text : String)
    (htext : Bare text := by decide) : Covers (coloured ++ text) (plain ++ text) :=
  h.bare htext

theorem Bare.covers_paint {text : String} (h : Bare text) (style : Style) :
    Covers (paint true style text) (paint false style text) := by
  intro rest
  rw [paint, paint, if_pos rfl, if_neg Bool.false_ne_true, String.toList_ofList,
    reopened_of_not_mem style h, List.append_assoc, List.append_assoc, strip_opening,
    strip_append h, strip_reset]

end Covers

end Ansi

open Ansi

/-- The texts told with an event. -/
def Event.texts : Event → List String
  | .note message => [message]
  | .runStart dir runner => [dir.display, runner]
  | .suiteStart title _ | .suiteSummary title _ _ _ => [title]
  | .listingFailed title _ output => [title, output]
  | .testStart name _ _ | .testResult name _ _ => [name]
  | .testOutput name output => [name, output]
  | .checkStart name | .checkResult name _ _ => [name]
  | .logWritten path | .runFinished path => [path.display]

namespace Console

variable (verbose : Bool)

theorem status_covers (success : Bool) :
    Covers (status ⟨verbose, true⟩ success) (status ⟨verbose, false⟩ success) := by
  cases success
  · exact Bare.covers_paint (by decide) _
  · exact Bare.covers_paint (by decide) _

theorem note_covers {coloured plain : String} (h : Covers coloured plain) :
    Covers (note ⟨verbose, true⟩ coloured) (note ⟨verbose, false⟩ plain) :=
  ((Bare.covers_paint (by decide) _).literal _).append h |>.literal _

theorem quoted_covers {name output : String} (hname : Bare name) (houtput : Bare output) :
    Covers (quoted name output) (quoted name output) :=
  (literal _).bare hname |>.literal _ |>.bare houtput |>.literal _

theorem bare_pluralize (count : Nat) : Bare (pluralize count "test" "tests") := by
  rw [pluralize]
  split <;> decide

theorem text_covers {event : Event} (h : ∀ text ∈ event.texts, Bare text) :
    Covers (text ⟨verbose, true⟩ event) (text ⟨verbose, false⟩ event) := by
  cases event with
  | note message => exact note_covers verbose (h message (by simp [Event.texts])).covers
  | runStart dir runner =>
    obtain ⟨hdir, hrunner⟩ : Bare dir.display ∧ Bare runner := by simpa [Event.texts] using h
    exact (literal _).bare hrunner |>.literal _ |>.bare hdir |>.literal _
  | suiteStart title total =>
    have htitle : Bare title := h title (by simp [Event.texts])
    exact (htitle.covers_paint _).literal _ |>.bare (bare_natural total) |>.literal _
      |>.bare (bare_pluralize total) |>.literal _
  | listingFailed title exitCode output =>
    obtain ⟨htitle, houtput⟩ : Bare title ∧ Bare output := by simpa [Event.texts] using h
    refine (note_covers verbose ?_).append ?_
    · exact (literal _).bare htitle |>.literal _ |>.bare (bare_integer exitCode) |>.literal _
    · cases verbose
      · exact literal ""
      · exact quoted_covers (htitle.append (by decide)) houtput
  | testStart name number total =>
    have hname : Bare name := h name (by simp [Event.texts])
    refine ((literal _).bare (bare_natural number) |>.literal _ |>.bare (bare_natural total)
      |>.literal _ |>.bare hname).append ?_
    cases verbose
    · exact literal _
    · exact literal _
  | testResult name success millis =>
    have hname : Bare name := h name (by simp [Event.texts])
    cases verbose
    · exact (status_covers false success).literal _
    · exact ((literal _).bare hname |>.literal _).append (status_covers true success) |>.literal _
        |>.bare (bare_natural millis) |>.literal _
  | testOutput name output =>
    obtain ⟨hname, houtput⟩ : Bare name ∧ Bare output := by simpa [Event.texts] using h
    cases verbose
    · exact literal ""
    · exact quoted_covers (hname.append (by decide)) houtput
  | suiteSummary title passed failed seconds =>
    have htitle : Bare title := h title (by simp [Event.texts])
    exact (htitle.covers.literal _).append (status_covers verbose _) |>.literal _
      |>.bare (bare_natural passed) |>.literal _ |>.bare (bare_natural failed) |>.literal _
      |>.bare (bare_fixed 2 seconds) |>.literal _
  | checkStart name =>
    have hname : Bare name := h name (by simp [Event.texts])
    exact (literal _).bare hname |>.literal _
  | checkResult name success seconds =>
    exact (status_covers verbose success).literal _ |>.bare (bare_fixed 2 seconds) |>.literal _
  | logWritten path =>
    have hpath : Bare path.display := h path.display (by simp [Event.texts])
    cases verbose
    · exact literal ""
    · exact note_covers true ((literal _).bare hpath)
  | runFinished dir =>
    have hdir : Bare dir.display := h dir.display (by simp [Event.texts])
    exact (literal _).bare hdir |>.literal _

end Console

namespace Reporter

theorem out_tells_covers (verbose : Bool) {calls : List (Clock × Event)}
    (h : ∀ call ∈ calls, ∀ text ∈ call.2.texts, Bare text) :
    ∃ coloured plain : String, Covers coloured plain ∧
      ((console ⟨verbose, true⟩).tells .unlimited calls).flatMap Told.out =
        Utf8.encode coloured ∧
      ((console ⟨verbose, false⟩).tells .unlimited calls).flatMap Told.out =
        Utf8.encode plain := by
  simp only [out_tells]
  induction calls with
  | nil => exact ⟨"", "", literal _, rfl, rfl⟩
  | cons call more ih =>
    obtain ⟨hcall, hmore⟩ := List.forall_mem_cons.mp h
    obtain ⟨coloured, plain, hcovers, hcoloured, hplain⟩ := ih hmore
    refine ⟨_, _, (Console.text_covers verbose hcall).append hcovers, ?_, ?_⟩
    · rw [Utf8.encode_append, ← hcoloured]
      rfl
    · rw [Utf8.encode_append, ← hplain]
      rfl

end Reporter

namespace Failure

/-- The texts that a failure's message is made of. -/
def texts : Failure → List String
  | .interrupted => []
  | .metadata reason => [reason]
  | .command line reason => [line, reason]
  | .log path reason => [path.display, reason]
  | .other cause contexts => [contexts.getLast?.getD cause]

/-- The failures that can be helped. -/
inductive Advised : Failure → Prop where
  | metadata (reason : String) : Advised (.metadata reason)
  | command (line reason : String) : Advised (.command line reason)

theorem highlighted_false (failure : Failure) : failure.highlighted false = failure.message := by
  cases failure <;> rfl

theorem highlighted_covers {failure : Failure} (h : ∀ text ∈ failure.texts, Bare text) :
    Covers (failure.highlighted true) (failure.highlighted false) := by
  cases failure with
  | interrupted => exact Bare.covers_paint (by decide) _
  | metadata reason =>
    have hreason : Bare reason := h reason (by simp [texts])
    exact (literal _).append (hreason.covers_paint _)
  | command line reason =>
    obtain ⟨hline, hreason⟩ : Bare line ∧ Bare reason := by simpa [texts] using h
    exact ((literal _).append (hline.covers_paint _) |>.literal _).append (hreason.covers_paint _)
  | log path reason =>
    obtain ⟨hpath, hreason⟩ : Bare path.display ∧ Bare reason := by simpa [texts] using h
    exact ((literal _).append (hpath.covers_paint _) |>.literal _).append (hreason.covers_paint _)
  | other cause contexts => exact (h _ (List.mem_singleton.mpr rfl)).covers

theorem tip_covers {coloured plain : String} (h : Covers coloured plain) :
    Covers ("  " ++ paint true .boldCyan "tip" ++ ": " ++ coloured ++ "\n")
      ("  " ++ paint false .boldCyan "tip" ++ ": " ++ plain ++ "\n") :=
  ((literal _).append (Bare.covers_paint (by decide) _) |>.literal _).append h |>.literal _

theorem report_covers {failure : Failure} (h : ∀ text ∈ failure.texts, Bare text) :
    Covers (failure.report true) (failure.report false) := by
  refine (((Bare.covers_paint (by decide) _).literal _).append (highlighted_covers h)
    |>.literal _).append ?_
  cases failure with
  | metadata reason =>
    exact tip_covers ((literal _).append (Bare.covers_paint (by decide) _) |>.literal _)
  | command line reason => exact tip_covers (literal _)
  | interrupted | log | other => exact literal ""

theorem report_of_advised {failure : Failure} (h : failure.Advised) :
    ∃ tip, OneLine tip ∧
      failure.report false =
        "error: " ++ failure.message ++ "\n" ++ ("  tip: " ++ tip ++ "\n") := by
  cases h with
  | metadata reason =>
    refine ⟨"run from inside a cargo workspace or pass '--manifest-path'", by decide, ?_⟩
    rw [report, highlighted_false]
    rfl
  | command line reason =>
    refine ⟨"make sure 'cargo' is installed and on your PATH", by decide, ?_⟩
    rw [report, highlighted_false]
    rfl

theorem report_of_not_advised {failure : Failure} (h : ¬failure.Advised) :
    failure.report false = "error: " ++ failure.message ++ "\n" := by
  rw [report, highlighted_false]
  cases failure with
  | metadata reason => exact absurd (.metadata reason) h
  | command line reason => exact absurd (.command line reason) h
  | interrupted | log | other => exact String.append_empty

end Failure

/-- With colours on, the console and the reports on failures print what they print with colours
off once the sequences for the colours are taken out, if no told text holds the start of one.
Without colours a report is the failure's message after `error: `, on a line that ends there, and
then a tip if the failure can be helped. -/
theorem colours_change_no_words :
    (∀ (verbose : Bool) (calls : List (Clock × Event)),
      (∀ call ∈ calls, ∀ text ∈ call.2.texts, Bare text) →
        ∃ coloured plain : String,
          ((Reporter.console ⟨verbose, true⟩).tells .unlimited calls).flatMap Told.out =
            Utf8.encode coloured ∧
          ((Reporter.console ⟨verbose, false⟩).tells .unlimited calls).flatMap Told.out =
            Utf8.encode plain ∧
          strip coloured.toList = plain.toList) ∧
    (∀ failure : Failure, (∀ text ∈ failure.texts, Bare text) →
      strip (failure.report true).toList = (failure.report false).toList) ∧
    ∀ failure : Failure,
      (failure.Advised → ∃ tip, OneLine tip ∧
        failure.report false =
          "error: " ++ failure.message ++ "\n" ++ ("  tip: " ++ tip ++ "\n")) ∧
      (¬failure.Advised → failure.report false = "error: " ++ failure.message ++ "\n") := by
  refine ⟨?_, fun failure h => (Failure.report_covers h).strip_eq, fun failure =>
    ⟨Failure.report_of_advised, Failure.report_of_not_advised⟩⟩
  intro verbose calls h
  obtain ⟨coloured, plain, hcovers, hcoloured, hplain⟩ := Reporter.out_tells_covers verbose h
  exact ⟨coloured, plain, hcoloured, hplain, hcovers.strip_eq⟩

/-- A suite that cannot be listed, shown in full, and a runner that is not there. -/
theorem colours_of_failed_listing :
    let calls : List (Clock × Event) :=
      [(⟨0, 0⟩, .suiteStart "[2m" 0), (⟨0, 0⟩, .listingFailed "Unit Tests" (-9) "m\n")]
    let failure := Failure.command "cargo test" "[0m not found"
    (∃ coloured plain : String,
      ((Reporter.console ⟨true, true⟩).tells .unlimited calls).flatMap Told.out =
        Utf8.encode coloured ∧
      ((Reporter.console ⟨true, false⟩).tells .unlimited calls).flatMap Told.out =
        Utf8.encode plain ∧ strip coloured.toList = plain.toList) ∧
    strip (failure.report true).toList = (failure.report false).toList ∧
    ∃ tip, OneLine tip ∧ failure.report false =
      "error: command 'cargo test' failed: [0m not found\n" ++ ("  tip: " ++ tip ++ "\n") := by
  intro calls failure
  obtain ⟨hconsole, hreport, htip⟩ := colours_change_no_words
  exact ⟨hconsole true calls (by decide), hreport failure (by decide),
    (htip failure).1 (.command _ _)⟩

end SoloRun
