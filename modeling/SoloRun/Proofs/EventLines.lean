import SoloRun.Reporter
import SoloRun.Proofs.JsonText

/-!
Event lines read back. What is told to a reporter of lines on a sink that takes all of it stands
there one line for each event, and what a line says under its names is the event and the time.
-/

namespace SoloRun

namespace Event

/-- The event as far as a line shows it: paths by their display, and no value of seconds. -/
def legible : Event → Event
  | .runStart dir runner => .runStart (.ofString dir.display) runner
  | .suiteSummary title passed failed _ => .suiteSummary title passed failed .nan
  | .checkResult name success _ => .checkResult name success .nan
  | .logWritten path => .logWritten (.ofString path.display)
  | .runFinished dir => .runFinished (.ofString dir.display)
  | event => event

end Event

/-- Whole milliseconds since 1970; the time before it counts as none. -/
def Clock.stamp (clock : Clock) : Nat :=
  if clock.secs < 0 then 0
  else (clock.secs.toNat * 1000000000 + clock.nanos) / 1000000

theorem Clock.getD_millis? (clock : Clock) : clock.millis?.getD 0 = clock.stamp := by
  rw [millis?, stamp]
  split
  · rfl
  · rw [Option.getD_some]
    omega

namespace EventLine

section Reader

def asText? : Json → Option String
  | .string text => some text
  | _ => none

def asPath? (json : Json) : Option Path :=
  (asText? json).map Path.ofString

def asFlag? : Json → Option Bool
  | .bool value => some value
  | _ => none

def natOf? (digits : List Char) : Option Nat :=
  if digits.all Char.isDigit then some (Decimal.natOf digits) else none

def asNatural? : Json → Option Nat
  | .number text => natOf? text.toList
  | _ => none

def asInteger? : Json → Option Int
  | .number text =>
    let (sign, digits) := Json.minus text.toList
    (natOf? digits).map fun (n : Nat) => if sign = [] then (n : Int) else -n
  | _ => none

/-- Some seconds, whatever they are. -/
def asSeconds? : Json → Option Double
  | .number _ | .null => some .nan
  | _ => none

def asMembers? : Json → Option (List (String × Json))
  | .object members => some members
  | _ => none

/-- Reads what stands under a name, if the name stands there once. -/
def field? {α : Type} (members : List (String × Json)) (name : String) (read : Json → Option α) :
    Option α :=
  match members.filter (·.1 = name) with
  | [(_, value)] => read value
  | _ => none

def event? (members : List (String × Json)) : EventKind → Option Event
  | .note => do some (.note (← field? members "message" asText?))
  | .runStart => do
    some (.runStart (← field? members "out_dir" asPath?) (← field? members "runner" asText?))
  | .suiteStart => do
    some (.suiteStart (← field? members "suite" asText?)
      (← field? members "total_tests" asNatural?))
  | .listingFailed => do
    some (.listingFailed (← field? members "suite" asText?)
      (← field? members "exit_code" asInteger?) (← field? members "output" asText?))
  | .testStart => do
    some (.testStart (← field? members "test" asText?) (← field? members "test_number" asNatural?)
      (← field? members "total_tests" asNatural?))
  | .testResult => do
    some (.testResult (← field? members "test" asText?) (← field? members "success" asFlag?)
      (← field? members "duration_ms" asNatural?))
  | .testOutput => do
    some (.testOutput (← field? members "test" asText?) (← field? members "output" asText?))
  | .suiteSummary => do
    some (.suiteSummary (← field? members "suite" asText?) (← field? members "passed" asNatural?)
      (← field? members "failed" asNatural?) (← field? members "duration_secs" asSeconds?))
  | .checkStart => do some (.checkStart (← field? members "check" asText?))
  | .checkResult => do
    some (.checkResult (← field? members "check" asText?) (← field? members "success" asFlag?)
      (← field? members "duration_secs" asSeconds?))
  | .logWritten => do some (.logWritten (← field? members "path" asPath?))
  | .runFinished => do some (.runFinished (← field? members "out_dir" asPath?))

/-- The time and the event that the members of a line say. -/
def report? (members : List (String × Json)) : Option (Nat × Event) := do
  let kind ← EventKind.ofName? (← field? members "event_type" asText?)
  let payload ← field? members "payload" asMembers?
  some (← field? members "timestamp" asNatural?, ← event? payload kind)

def lineFeed : UInt8 := 0x0A

def line? (bytes : Bytes) : Option (Nat × Event) :=
  match Utf8.decode? bytes with
  | .ok text => ((Json.read? text.toList).bind asMembers?).bind report?
  | .error _ => none

/-- What all the lines say, the last of which ends in a line feed too. -/
def reports? (bytes : Bytes) : Option (List (Nat × Event)) :=
  if (cut lineFeed bytes).getLast? = some [] then (cut lineFeed bytes).dropLast.mapM line?
  else none

end Reader

theorem natOf?_toString (n : Nat) : natOf? (toString n).toList = some n := by
  rw [natOf?, if_pos (List.all_eq_true.mpr (Json.digits_toString n)), Decimal.natOf_toString]

theorem asNatural?_ofNat (n : Nat) : asNatural? (.ofNat n) = some n :=
  natOf?_toString n

theorem asInteger?_signed {mark : List Char} {text : String} {n : Nat}
    (hmark : mark = [] ∨ mark = ['-']) (htext : text.toList = mark ++ (toString n).toList) :
    asInteger? (.number text) = some (if mark = [] then (n : Int) else -n) := by
  rw [asInteger?, htext, Json.minus_append hmark (Json.digits_toString n).head]
  dsimp only
  rw [natOf?_toString, Option.map_some]

theorem asInteger?_ofInt (n : Int) : asInteger? (.ofInt n) = some n := by
  rw [Json.ofInt, Decimal.toString_int]
  split
  · next hpos =>
    rw [asInteger?_signed (.inl rfl) (List.nil_append _).symm, if_pos rfl, Int.toNat_of_nonneg hpos]
  · next hneg =>
    rw [asInteger?_signed (.inr (Eq.refl ['-'])) String.toList_append, if_neg (by decide),
      Int.toNat_of_nonneg (by omega), Int.neg_neg]

theorem asSeconds?_seconds (d : Double) : asSeconds? (seconds d) = some .nan := by
  rw [seconds]
  cases d.shortest? layout <;> rfl

theorem event?_payload (event : Event) :
    event? (payload event) event.kind = some event.legible := by
  cases event <;>
    simp [event?, payload, Event.kind, Event.legible, field?, asText?, asPath?, asFlag?,
      asNatural?_ofNat, asInteger?_ofInt, asSeconds?_seconds]

theorem numeric_seconds (d : Double) : (seconds d).Numeric := by
  rw [seconds]
  cases hshortest : d.shortest? layout with
  | none => trivial
  | some text => exact Json.IsNumeral.shortest hshortest

theorem numeric_ofNat (n : Nat) : (Json.ofNat n).Numeric :=
  Json.IsNumeral.natural n

theorem numeric_ofInt (n : Int) : (Json.ofInt n).Numeric :=
  Json.IsNumeral.integer n

theorem numeric_payload (event : Event) : Json.NumericMembers (payload event) := by
  cases event <;>
    simp [payload, Json.NumericMembers, Json.Numeric, numeric_ofNat, numeric_ofInt, numeric_seconds]

theorem numeric_json (millis : Nat) (event : Event) : (json millis event).Numeric := by
  simp [json, Json.Numeric, Json.NumericMembers, numeric_payload, numeric_ofNat]

theorem report?_json (millis : Nat) (event : Event) :
    (asMembers? (json millis event)).bind report? = some (millis, event.legible) := by
  simp [json, asMembers?, report?, field?, asText?, asNatural?_ofNat, EventKind.ofName?_name,
    event?_payload]

/-- What is written of an event before its line feed. -/
def line (millis : Nat) (event : Event) : Bytes :=
  Utf8.encode (String.ofList (json millis event).written)

theorem encode_text (millis : Nat) (event : Event) :
    Utf8.encode (text millis event) = line millis event ++ [lineFeed] := by
  rw [text, String.ofList_append, Utf8.encode_append]
  rfl

theorem lineFeed_not_mem_line (millis : Nat) (event : Event) : lineFeed ∉ line millis event := by
  intro hmem
  have hbreak := Utf8.mem_of_mem_encode hmem (by decide)
  rw [String.toList_ofList] at hbreak
  exact Json.lineFeed_not_mem_written _ (numeric_json millis event) hbreak

theorem line?_line (millis : Nat) (event : Event) :
    line? (line millis event) = some (millis, event.legible) := by
  rw [line?, line, Utf8.decode?_encode]
  dsimp only
  rw [String.toList_ofList, Json.read?_written (numeric_json millis event), Option.bind_some,
    report?_json]

theorem cut_lines {lines : List Bytes} (h : ∀ line ∈ lines, lineFeed ∉ line) :
    cut lineFeed (lines.flatMap (· ++ [lineFeed])) = lines ++ [[]] := by
  induction lines with
  | nil => exact cut_nil
  | cons line more ih =>
    obtain ⟨hline, hmore⟩ := List.forall_mem_cons.mp h
    rw [List.flatMap_cons, List.append_assoc, List.singleton_append, cut_append,
      cut_of_not_mem hline, ih hmore]
    rfl

theorem count_lines {lines : List Bytes} (h : ∀ line ∈ lines, lineFeed ∉ line) :
    (lines.flatMap (· ++ [lineFeed])).count lineFeed = lines.length := by
  induction lines with
  | nil => rfl
  | cons line more ih =>
    obtain ⟨hline, hmore⟩ := List.forall_mem_cons.mp h
    rw [List.flatMap_cons, List.count_append, List.count_append, List.count_eq_zero.mpr hline,
      ih hmore]
    simp [Nat.add_comm]

end EventLine

namespace Reporter

/-- What is written of the events told one after the other, each at its time. -/
def writes (reporter : Reporter) : Sink → List (Clock × Event) → Bytes
  | _, [] => []
  | sink, (clock, event) :: more =>
    (reporter.tell clock sink event).out ++
      reporter.writes (reporter.sinkAfter clock sink event) more

theorem writes_lines {sink : Sink} (hroom : sink.room? = none) (calls : List (Clock × Event)) :
    lines.writes sink calls = (calls.map fun (clock, event) =>
      EventLine.line clock.stamp event).flatMap (· ++ [EventLine.lineFeed]) := by
  induction calls generalizing sink with
  | nil => rfl
  | cons call more ih =>
    obtain ⟨clock, event⟩ := call
    have hafter : (lines.sinkAfter clock sink event).room? = none := by
      simp [sinkAfter, Sink.after, hroom]
    have hout : (lines.tell clock sink event).out =
        EventLine.line clock.stamp event ++ [EventLine.lineFeed] := by
      rw [← EventLine.encode_text, ← clock.getD_millis?]
      simp [tell, Sink.kept, hroom, bytes, text]
    rw [writes, hout, ih hafter, List.map_cons, List.flatMap_cons]

end Reporter

namespace EventLine

theorem lineFeed_not_mem_lines (calls : List (Clock × Event)) :
    ∀ bytes ∈ calls.map fun (clock, event) => line clock.stamp event, lineFeed ∉ bytes := by
  intro bytes hmem
  obtain ⟨⟨clock, event⟩, -, rfl⟩ := List.mem_map.mp hmem
  exact lineFeed_not_mem_line clock.stamp event

theorem reports?_lines (calls : List (Clock × Event)) :
    reports? ((calls.map fun (clock, event) => line clock.stamp event).flatMap (· ++ [lineFeed])) =
      some (calls.map fun (clock, event) => (clock.stamp, event.legible)) := by
  rw [reports?, cut_lines (lineFeed_not_mem_lines calls), if_pos List.getLast?_concat,
    List.dropLast_concat]
  induction calls with
  | nil => rfl
  | cons call more ih =>
    obtain ⟨clock, event⟩ := call
    rw [List.map_cons, List.mapM_cons, line?_line, ih]
    rfl

/-- What was told comes back from the lines written about it: each event has one line, which a line
feed ends and in which there is no other. -/
theorem reports_of_lines (flushes : Bool) (calls : List (Clock × Event)) :
    ∃ line : Clock × Event → Bytes,
      Reporter.lines.writes ⟨none, flushes⟩ calls =
        (calls.map line).flatMap (· ++ [lineFeed]) ∧
      (Reporter.lines.writes ⟨none, flushes⟩ calls).count lineFeed = calls.length ∧
      (∀ call ∈ calls, lineFeed ∉ line call ∧ ∃ text members,
        Utf8.decode? (line call) = .ok text ∧
        Json.read? text.toList = some (.object members) ∧
        report? members = some (call.1.stamp, call.2.legible)) ∧
      reports? (Reporter.lines.writes ⟨none, flushes⟩ calls) =
        some (calls.map fun call => (call.1.stamp, call.2.legible)) := by
  have hwrites : Reporter.lines.writes ⟨none, flushes⟩ calls = _ := Reporter.writes_lines rfl calls
  refine ⟨fun call => line call.1.stamp call.2, hwrites, ?_, ?_, ?_⟩
  · rw [hwrites, count_lines (lineFeed_not_mem_lines calls), List.length_map]
  · intro call _
    refine ⟨lineFeed_not_mem_line _ _, String.ofList (json call.1.stamp call.2).written, _, ?_, ?_,
      report?_json _ _⟩
    · exact Utf8.decode?_encode _
    · rw [String.toList_ofList, Json.read?_written (numeric_json _ _)]
      rfl
  · rw [hwrites]
    exact reports?_lines calls

end EventLine
end SoloRun
