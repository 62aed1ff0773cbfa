import SoloRun.Proofs.Course

/-!
What telling and starting do to the world, and what they leave as it was.
-/

namespace SoloRun

/-- A reporter that never breaks: one that writes lines, or a console on a sink that takes all. -/
def Reporter.Works (reporter : Reporter) (sink : Sink) : Prop :=
  reporter = .lines ∨ sink.room? = none ∧ sink.flushes = true

namespace Reporter

variable {reporter : Reporter} {sink : Sink}

theorem Works.broken_eq_false (h : reporter.Works sink) (clock : Clock) (event : Event) :
    (reporter.tell clock sink event).broken = false := by
  rcases h with rfl | ⟨hroom, hflushes⟩
  · rfl
  · cases reporter <;> simp [tell, Sink.takes, hroom, hflushes]

theorem Works.after (h : reporter.Works sink) (clock : Clock) (event : Event) :
    reporter.Works (reporter.sinkAfter clock sink event) := by
  rcases h with rfl | ⟨hroom, hflushes⟩
  · exact .inl rfl
  · exact .inr ⟨by simp [sinkAfter, Sink.after, hroom], hflushes⟩

end Reporter

def Setting.interrupts (setting : Setting) : Step → Bool
  | .started command _ => (setting.script.behaviour command.args).interrupting?.isSome
  | _ => false

/-- Interrupts were sent to no children but those started so far. -/
def World.Sane (world : World) : Prop :=
  ∀ child ∈ world.signals.hit, child < world.children

theorem World.fresh_sane (tree : FileTree) (sink : Sink) : (World.fresh tree sink).Sane := by
  simp [Sane, fresh, Signals.quiet]

theorem World.Sane.interrupt {setting : Setting} {world : World} (h : world.Sane) :
    (world.interrupt setting).Sane := by
  rw [World.interrupt]
  split <;> exact h

namespace Signals

theorem register_flag (signals : Signals) (child : Nat) :
    (signals.register child).flag = signals.flag := by
  rw [register]
  split <;> simp_all [forward]

theorem mem_register_hit_iff {signals : Signals} {child hit : Nat} :
    hit ∈ (signals.register child).hit ↔
      hit ∈ signals.hit ∨ hit = child ∧ signals.flag = true := by
  rw [register]
  cases signals.flag <;> simp [forward, or_comm]

theorem register_slot (signals : Signals) (child : Nat) :
    (signals.register child).slot? = some child := by
  rw [register]
  split <;> rfl

end Signals

namespace Behaviour

theorem eq_of_lastly {behaviour : Behaviour} {code : Int} {signals after : Signals}
    (h : behaviour.lastly signals = .ended code after) : after = signals := by
  rw [lastly] at h
  split at h <;> cases h
  rfl

theorem ended_cases {behaviour : Behaviour} {child : Nat} {code : Int} {signals after : Signals}
    (h : behaviour.fate child signals = .ended code after) :
    (child ∈ signals.hit ∧ after = signals) ∨
    (behaviour.interrupting? = none ∧ after = signals) ∨
    (behaviour.interrupting?.isSome = true ∧ signals.flag = false ∧ after = signals.forward) := by
  rw [fate] at h
  split at h
  · next hhit =>
    cases h
    exact .inl ⟨hhit.1, rfl⟩
  · cases hhow : behaviour.interrupting? with
    | none =>
      rw [hhow] at h
      exact .inr (.inl ⟨rfl, eq_of_lastly h⟩)
    | some how =>
      cases hflag : signals.flag with
      | true => simp [hhow, Signals.interrupt?, hflag] at h
      | false =>
        refine .inr (.inr ⟨rfl, rfl, ?_⟩)
        simp only [hhow, Signals.interrupt?, hflag, Bool.false_eq_true, if_false] at h
        cases how with
        | ignores => exact eq_of_lastly h
        | dies =>
          dsimp only at h
          split at h
          · cases h; rfl
          · cases h
        | insists =>
          dsimp only at h
          split at h <;> cases h

theorem flag_of_ended {behaviour : Behaviour} {child : Nat} {code : Int} {signals after : Signals}
    (h : behaviour.fate child signals = .ended code after)
    (hhit : child ∈ signals.hit → signals.flag = true) :
    after.flag = (signals.flag || behaviour.interrupting?.isSome) := by
  rcases ended_cases h with ⟨hmem, rfl⟩ | ⟨hnone, rfl⟩ | ⟨hsome, -, rfl⟩
  · simp [hhit hmem]
  · simp [hnone]
  · simp [hsome, Signals.forward]

theorem mem_hit_of_ended {behaviour : Behaviour} {child hit : Nat} {code : Int}
    {signals after : Signals} (h : behaviour.fate child signals = .ended code after)
    (hmem : hit ∈ after.hit) : hit ∈ signals.hit ∨ signals.slot? = some hit := by
  rcases ended_cases h with ⟨-, rfl⟩ | ⟨-, rfl⟩ | ⟨-, -, rfl⟩
  · exact .inl hmem
  · exact .inl hmem
  · simpa [Signals.forward, or_comm, eq_comm] using hmem

end Behaviour

namespace World

variable {setting : Setting} {world after : World} {command : Command} {capture : Capture}

/-- With the flag unset, no interrupt reaches the next child as it is registered. -/
theorem next_not_hit (hsane : world.Sane) (hunset : world.signals.flag = false) :
    world.children ∉ (world.signals.register world.children).hit := by
  intro hmem
  rcases Signals.mem_register_hit_iff.mp hmem with hold | ⟨-, hset⟩
  · exact Nat.lt_irrefl _ (hsane _ hold)
  · rw [hunset] at hset
    cases hset

theorem start_ended (h : world.start setting command = .ended capture after) (hsane : world.Sane) :
    after.Sane ∧ after.tree = world.tree ∧ after.raised = world.raised ∧
      after.fitted = world.fitted ∧ after.children = world.children + 1 ∧ after.sink = world.sink ∧
      after.signals.flag =
        (world.signals.flag || setting.interrupts (.started command (some capture))) := by
  rw [start] at h
  split at h
  · cases h
  · next dir hplace =>
    dsimp only at h
    have hregister : world.children ∈ (world.signals.register world.children).hit →
        (world.signals.register world.children).flag = true := by
      intro hmem
      rw [Signals.register_flag]
      rcases Signals.mem_register_hit_iff.mp hmem with hold | ⟨-, hflag⟩
      · exact absurd (hsane _ hold) (Nat.lt_irrefl _)
      · exact hflag
    split at h
    · next code signals hfate =>
      cases h
      refine ⟨?_, rfl, rfl, rfl, rfl, rfl, ?_⟩
      · intro hit hmem
        rcases Behaviour.mem_hit_of_ended hfate hmem with hold | hslot
        · rcases Signals.mem_register_hit_iff.mp hold with hold | ⟨rfl, -⟩
          · exact Nat.lt_succ_of_lt (hsane _ hold)
          · exact Nat.lt_succ_self _
        · rw [Signals.register_slot] at hslot
          cases hslot
          exact Nat.lt_succ_self _
      · have hflag := Behaviour.flag_of_ended hfate hregister
        rw [Signals.register_flag] at hflag
        exact hflag
    · cases h
    · cases h

theorem noted_eq (setting : Setting) (world : World) (event : Event) :
    (world.noted setting event).tree = world.tree ∧
      (world.noted setting event).signals = world.signals ∧
      (world.noted setting event).children = world.children := by
  rw [noted]
  split
  · exact ⟨rfl, rfl, rfl⟩
  · split <;> exact ⟨rfl, rfl, rfl⟩

theorem afterTold_eq (setting : Setting) (world : World) (event : Event) :
    (world.afterTold setting event).tree = world.tree ∧
      (world.afterTold setting event).signals = world.signals ∧
      (world.afterTold setting event).children = world.children := by
  rw [afterTold]
  split
  · exact ⟨rfl, rfl, rfl⟩
  · exact noted_eq setting world event

theorem afterTold_sane (event : Event) (hsane : world.Sane) :
    (world.afterTold setting event).Sane := by
  obtain ⟨-, hsignals, hchildren⟩ := afterTold_eq setting world event
  rw [Sane]
  rw [hsignals, hchildren]
  exact hsane

theorem tree_of_ended (h : world.start setting command = .ended capture after) :
    after.tree = world.tree := by
  rw [start] at h
  split at h
  · cases h
  · dsimp only at h
    split at h <;> cases h
    rfl

theorem sink_of_ended (h : world.start setting command = .ended capture after) :
    after.sink = world.sink := by
  rw [start] at h
  split at h
  · cases h
  · dsimp only at h
    split at h <;> cases h
    rfl

theorem tree_of_stopped {reason : Stop} (h : world.start setting command = .stopped reason after) :
    after.tree = world.tree := by
  rw [start] at h
  split at h
  · cases h
  · dsimp only at h
    split at h <;> cases h <;> rfl

theorem reason_of_stopped {reason : Stop}
    (h : world.start setting command = .stopped reason after) :
    reason = .interruptedTwice ∨ reason = .endless := by
  rw [start] at h
  split at h
  · cases h
  · dsimp only at h
    split at h
    · cases h
    · cases h
      exact .inl rfl
    · cases h
      exact .inr rfl

variable (world)

theorem told_not_broken {event : Event} (h : setting.reporter.Works world.sink) :
    (world.told setting event).broken = false :=
  h.broken_eq_false setting.clock event

theorem afterTold_works (event : Event) (h : setting.reporter.Works world.sink) :
    setting.reporter.Works (world.afterTold setting event).sink :=
  h.after setting.clock event

end World

namespace Run

open Procedure

variable {α : Type} (setting : Setting) {world : World}

theorem carryOut_tell_bind (event : Event) (f : Unit → Procedure α)
    (hworks : setting.reporter.Works world.sink) :
    ((tell event).bind f).carryOut setting world =
      ((f ()).carryOut setting (world.afterTold setting event)).after
        (.told event (world.told setting event)) := by
  simp only [tell, Procedure.bind, carryOut, world.told_not_broken hworks, Bool.false_eq_true,
    if_false]

theorem carryOut_capture_bind {after : World} {command : Command} {output : Capture}
    (f : Capture → Procedure α) (hstart : world.start setting command = .ended output after) :
    ((capture command).bind f).carryOut setting world =
      ((f output).carryOut setting after).after (.started command (some output)) := by
  simp only [capture, Procedure.bind, carryOut, hstart]

end Run
end SoloRun
