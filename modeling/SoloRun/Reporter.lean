import SoloRun.Event.Console
import SoloRun.Event.Line

/-!
Reporters: each event becomes bytes on a sink, as text for people or as lines for programs. A sink
may be full or refuse to be flushed; only the console gives up on that.
-/

namespace SoloRun

/-- Where bytes go: how many it still takes, if there is a limit, and whether it can be flushed. -/
structure Sink where
  room? : Option Nat
  flushes : Bool
  deriving DecidableEq, Repr

namespace Sink

def unlimited : Sink := ⟨none, true⟩

def kept (sink : Sink) (bytes : Bytes) : Bytes :=
  match sink.room? with
  | some room => bytes.take room
  | none => bytes

def takes (sink : Sink) (bytes : Bytes) : Bool :=
  match sink.room? with
  | some room => bytes.length ≤ room
  | none => true

def after (sink : Sink) (bytes : Bytes) : Sink :=
  { sink with room? := sink.room?.map (· - bytes.length) }

@[simp] theorem kept_nil (sink : Sink) : sink.kept [] = [] := by
  cases hroom : sink.room? <;> simp [kept, hroom]

@[simp] theorem takes_nil (sink : Sink) : sink.takes [] = true := by
  cases hroom : sink.room? <;> simp [takes, hroom]

@[simp] theorem after_nil (sink : Sink) : sink.after [] = sink := by
  obtain ⟨room?, flushes⟩ := sink
  cases room? <;> rfl

theorem after_append (sink : Sink) (first second : Bytes) :
    sink.after (first ++ second) = (sink.after first).after second := by
  cases hroom : sink.room? <;> simp [after, hroom, Nat.sub_add_eq]

theorem kept_eq_of_takes {sink : Sink} {bytes : Bytes} (h : sink.takes bytes = true) :
    sink.kept bytes = bytes := by
  cases hroom : sink.room? with
  | none => simp [kept, hroom]
  | some room =>
    have hle : bytes.length ≤ room := by simpa [takes, hroom] using h
    simp [kept, hroom, List.take_of_length_le hle]

/-- What is kept of two writes is what is kept of one write of both. -/
theorem kept_append (sink : Sink) (first second : Bytes) :
    sink.kept (first ++ second) = sink.kept first ++ (sink.after first).kept second := by
  cases hroom : sink.room? with
  | none => simp [kept, after, hroom]
  | some room => simp [kept, after, hroom, List.take_append]

theorem takes_append (sink : Sink) (first second : Bytes) :
    sink.takes (first ++ second) = (sink.takes first && (sink.after first).takes second) := by
  cases hroom : sink.room? with
  | none => simp [takes, after, hroom]
  | some room =>
    simp only [takes, after, hroom, Option.map_some, List.length_append]
    rw [Bool.eq_iff_iff, Bool.and_eq_true, decide_eq_true_iff, decide_eq_true_iff,
      decide_eq_true_iff]
    omega

/-- What is written to a sink after it was full does not change what it keeps. -/
theorem kept_append_of_not_takes {sink : Sink} {first : Bytes} (h : sink.takes first = false)
    (second : Bytes) : sink.kept (first ++ second) = sink.kept first := by
  cases hroom : sink.room? with
  | none => simp [takes, hroom] at h
  | some room =>
    have hlt : room < first.length := by simpa [takes, hroom] using h
    simp [kept, hroom, List.take_append_of_le_length (Nat.le_of_lt hlt)]

/-- A sink that was full takes nothing more. -/
theorem takes_after {sink : Sink} {second : Bytes} (first : Bytes) (h : second ≠ []) :
    (sink.after first).takes second = sink.takes (first ++ second) := by
  have hpos := List.length_pos_iff.mpr h
  cases hroom : sink.room? with
  | none => simp [takes, after, hroom]
  | some room =>
    simp only [takes, after, hroom, Option.map_some, List.length_append]
    exact decide_eq_decide.mpr (by omega)

end Sink

inductive Reporter where
  | console (look : Console.Look)
  | lines
  deriving DecidableEq, Repr

/-- What telling an event did: the bytes written, what was printed to standard error, and whether
the reporter broke over it. -/
structure Told where
  out : Bytes
  complaint : String
  broken : Bool
  deriving DecidableEq, Repr

namespace Reporter

def clockComplaint : String :=
  "Error getting system time: second time provided was later than self\n"

def writeComplaint : String :=
  "Write error: sink full\n"

/-- The text of an event; a clock before 1970 counts as zero. -/
def text (reporter : Reporter) (clock : Clock) (event : Event) : String :=
  match reporter with
  | .console look => Console.text look event
  | .lines => EventLine.text (clock.millis?.getD 0) event

def bytes (reporter : Reporter) (clock : Clock) (event : Event) : Bytes :=
  Utf8.encode (reporter.text clock event)

def tell (reporter : Reporter) (clock : Clock) (sink : Sink) (event : Event) : Told :=
  let bytes := reporter.bytes clock event
  match reporter with
  | .console _ =>
    ⟨sink.kept bytes, "", !sink.takes bytes || (Console.flushes event && !sink.flushes)⟩
  | .lines =>
    ⟨sink.kept bytes, (if clock.millis?.isSome then "" else clockComplaint) ++
      if sink.takes bytes then "" else writeComplaint, false⟩

/-- The sink after an event. -/
def sinkAfter (reporter : Reporter) (clock : Clock) (sink : Sink) (event : Event) : Sink :=
  sink.after (reporter.bytes clock event)

end Reporter
end SoloRun
