import SoloRun.Proofs.EventLines

/-!
Event lines told to a sink that is full after some bytes. The reporter goes on as if nothing had
happened: what the sink keeps is the start of the lines, and each line that does not get whole into
it is complained about.
-/

namespace SoloRun

namespace Reporter

/-- What telling the events does, one after the other, each at its time. -/
def tells (reporter : Reporter) : Sink → List (Clock × Event) → List Told
  | _, [] => []
  | sink, (clock, event) :: more =>
    reporter.tell clock sink event :: reporter.tells (reporter.sinkAfter clock sink event) more

variable {reporter : Reporter} {sink : Sink}

theorem out_tell (reporter : Reporter) (clock : Clock) (sink : Sink) (event : Event) :
    (reporter.tell clock sink event).out = sink.kept (reporter.bytes clock event) := by
  cases reporter <;> rfl

theorem out_tells (reporter : Reporter) (sink : Sink) (calls : List (Clock × Event)) :
    (reporter.tells sink calls).flatMap Told.out =
      sink.kept (calls.flatMap fun call => reporter.bytes call.1 call.2) := by
  induction calls generalizing sink with
  | nil => simp [tells]
  | cons call more ih =>
    rw [tells, List.flatMap_cons, List.flatMap_cons, out_tell, ih, Sink.kept_append]
    rfl

theorem tells_append (reporter : Reporter) (sink : Sink) (first second : List (Clock × Event)) :
    reporter.tells sink (first ++ second) = reporter.tells sink first ++
      reporter.tells (sink.after (first.flatMap fun call => reporter.bytes call.1 call.2))
        second := by
  induction first generalizing sink with
  | nil => simp [tells]
  | cons call more ih =>
    rw [List.cons_append, tells, tells, ih, List.flatMap_cons, Sink.after_append]
    rfl

theorem length_tells (reporter : Reporter) (sink : Sink) (calls : List (Clock × Event)) :
    (reporter.tells sink calls).length = calls.length := by
  induction calls generalizing sink with
  | nil => rfl
  | cons call more ih => rw [tells, List.length_cons, List.length_cons, ih]

theorem lines_bytes_ne_nil (clock : Clock) (event : Event) : lines.bytes clock event ≠ [] := by
  rw [bytes, text, EventLine.encode_text]
  exact List.append_ne_nil_of_right_ne_nil _ (List.cons_ne_nil _ _)

theorem not_broken_of_mem_tells {told : Told} {calls : List (Clock × Event)}
    (h : told ∈ lines.tells sink calls) : told.broken = false := by
  induction calls generalizing sink with
  | nil => cases h
  | cons call more ih =>
    rcases List.mem_cons.mp h with rfl | hmore
    · rfl
    · exact ih hmore

theorem tells_lines_of_flushes (room? : Option Nat) (flushes other : Bool)
    (calls : List (Clock × Event)) :
    lines.tells ⟨room?, flushes⟩ calls = lines.tells ⟨room?, other⟩ calls := by
  induction calls generalizing room? with
  | nil => rfl
  | cons call more ih =>
    rw [tells, tells]
    exact congrArg (_ :: ·) (ih _)

theorem complaint_tell_lines (clock : Clock) (sink : Sink) (event : Event) :
    (lines.tell clock sink event).complaint =
      (if clock.secs < 0 then clockComplaint else "") ++
        if sink.takes (lines.bytes clock event) then "" else writeComplaint := by
  have hclock : clock.millis?.isSome = decide (¬clock.secs < 0) := by
    rw [Clock.millis?]
    split <;> simp [*]
  simp only [tell, hclock]
  by_cases hsecs : clock.secs < 0 <;> simp [hsecs]

/-- Told to a sink that is full after so many bytes, events are lost from there on and no others:
nothing breaks, what the sink has is the start of what one without a limit would have, and each
event whose line does not end within it is complained about once. A sink that refuses to be flushed
makes no difference. -/
theorem full_sink_loses_tail (room : Nat) (flushes : Bool) (calls : List (Clock × Event)) :
    let whole := lines.tells .unlimited calls
    let cut := lines.tells ⟨some room, flushes⟩ calls
    cut.length = calls.length ∧ (∀ told ∈ cut, told.broken = false) ∧
      cut.flatMap Told.out = (whole.flatMap Told.out).take room ∧
      (∀ before call after, calls = before ++ call :: after →
        let ends := ((lines.tells .unlimited (before ++ [call])).flatMap Told.out).length
        ∃ told, cut[before.length]? = some told ∧
          told.complaint = (if call.1.secs < 0 then clockComplaint else "") ++
            if ends ≤ room then "" else writeComplaint) ∧
      cut = lines.tells ⟨some room, true⟩ calls := by
  intro whole cut
  refine ⟨length_tells _ _ _, fun told => not_broken_of_mem_tells, ?_, ?_,
    tells_lines_of_flushes _ _ _ _⟩
  · rw [out_tells, out_tells]
    rfl
  · rintro before ⟨clock, event⟩ after rfl ends
    let earlier := before.flatMap fun call => lines.bytes call.1 call.2
    refine ⟨lines.tell clock (Sink.after ⟨some room, flushes⟩ earlier) event, ?_, ?_⟩
    · simp only [cut, tells_append]
      rw [List.getElem?_append_right (by rw [length_tells]), length_tells, Nat.sub_self]
      rfl
    · have hends : ends = (earlier ++ lines.bytes clock event).length := by
        simp only [ends, out_tells, List.flatMap_append, List.flatMap_singleton]
        rfl
      rw [complaint_tell_lines, Sink.takes_after _ (lines_bytes_ne_nil clock event), hends]
      simp [Sink.takes]

end Reporter
end SoloRun
