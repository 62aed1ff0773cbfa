import SoloRun.Proofs.Worlds

/-!
The flag a run looks at, by the steps done so far: it is set if it was set before, once the event of
the trigger was told often enough, or, if it is the flag of the signals, once a child was started
that sends an interrupt. A set flag stays set.
-/

namespace SoloRun

def Trigger.hears (trigger : Trigger) : Step → Bool
  | .told event told => !told.broken && trigger.fits event
  | _ => false

theorem append_cases {first rest pre post : List Step} {last : Step}
    (h : first ++ rest = pre ++ last :: post) :
    (∃ more, first = pre ++ [last] ++ more) ∨
      ∃ body, pre = first ++ body ∧ rest = body ++ last :: post := by
  rcases List.append_eq_append_iff.mp h with ⟨body, hpre, hrest⟩ | ⟨more, hfirst, hlast⟩
  · exact .inr ⟨body, hpre, hrest⟩
  · cases more with
    | nil =>
      rw [List.append_nil] at hfirst
      exact .inr ⟨[], by simp [hfirst], hlast.symm⟩
    | cons step more =>
      obtain ⟨rfl, -⟩ := List.cons.inj hlast
      exact .inl ⟨more, by simp [hfirst]⟩

theorem of_split_singleton {motive : Step → List Step → Prop} {first last : Step}
    {pre post : List Step} (h : [first] = pre ++ last :: post) (hfirst : motive first []) :
    motive last post := by
  cases pre with
  | nil =>
    cases h
    exact hfirst
  | cons step more => simp at h

def Setting.flagAfter (setting : Setting) (world : World) (steps : List Step) : Bool :=
  match setting.trigger? with
  | some trigger =>
    let heard := steps.countP trigger.hears
    world.raised || (0 < heard && trigger.nth ≤ world.fitted + heard)
  | none => world.signals.flag || steps.any setting.interrupts

namespace World

variable {setting : Setting} {world : World}

theorem afterTold_interrupted (event : Event) (h : world.interrupted setting = true) :
    (world.afterTold setting event).interrupted setting = true := by
  rw [interrupted] at h ⊢
  cases htrigger : setting.trigger? with
  | none => simpa [(afterTold_eq setting world event).2.1, htrigger] using h
  | some trigger =>
    have hraised : world.raised = true := by simpa [htrigger] using h
    simp only [afterTold, noted, htrigger]
    split
    · exact hraised
    · split <;> simp [hraised]

end World

namespace Setting

variable (setting : Setting) (world : World)

theorem flagAfter_nil : setting.flagAfter world [] = world.interrupted setting := by
  rw [flagAfter, World.interrupted]
  cases setting.trigger? <;> simp

theorem flagAfter_told {event : Event} (h : (world.told setting event).broken = false)
    (rest : List Step) :
    setting.flagAfter world (.told event (world.told setting event) :: rest) =
      setting.flagAfter (world.afterTold setting event) rest := by
  obtain ⟨-, hsignals, -⟩ := World.afterTold_eq setting world event
  simp only [flagAfter]
  cases htrigger : setting.trigger? with
  | none => simp [hsignals, interrupts]
  | some trigger =>
    simp only [World.afterTold, World.noted, htrigger, h, List.countP_cons, Trigger.hears]
    cases hfits : trigger.fits event with
    | false => simp
    | true =>
      cases world.raised with
      | true => simp
      | false =>
        rw [Bool.eq_iff_iff]
        simp [-List.countP_pos_iff]
        omega

theorem flagAfter_started {world after : World} {command : Command} {capture : Capture}
    (h : world.start setting command = .ended capture after) (hsane : world.Sane)
    (rest : List Step) :
    setting.flagAfter world (.started command (some capture) :: rest) =
      setting.flagAfter after rest := by
  obtain ⟨-, -, hraised, hfitted, -, -, hflag⟩ := World.start_ended h hsane
  simp only [flagAfter]
  split
  · simp [hraised, hfitted, Trigger.hears]
  · simp [hflag, Bool.or_assoc]

theorem flagAfter_saved (tree : FileTree) (path : Path) (log : Log) (rest : List Step) :
    setting.flagAfter world (.saved path log :: rest) =
      setting.flagAfter { world with tree } rest := by
  simp only [flagAfter]
  split <;> simp [Trigger.hears, interrupts]

theorem flagAfter_append {first : List Step} (h : setting.flagAfter world first = true)
    (rest : List Step) : setting.flagAfter world (first ++ rest) = true := by
  rw [flagAfter] at h ⊢
  cases htrigger : setting.trigger? with
  | none =>
    simp only [htrigger, Bool.or_eq_true] at h
    simp only [List.any_append, Bool.or_eq_true]
    exact h.imp_right .inl
  | some trigger =>
    simp only [htrigger, Bool.or_eq_true, Bool.and_eq_true, decide_eq_true_eq] at h
    simp only [List.countP_append, Bool.or_eq_true, Bool.and_eq_true, decide_eq_true_eq]
    rcases h with hraised | hheard
    · exact .inl hraised
    · exact .inr (by omega)

/-- A split of the steps where the flag is set, by whether the last before it is the first. -/
theorem of_flag_split {motive : Step → List Step → Prop} {world after : World}
    {first last : Step} {rest pre post : List Step} (h : first :: rest = pre ++ last :: post)
    (hshift : ∀ steps, setting.flagAfter world (first :: steps) = setting.flagAfter after steps)
    (hflag : setting.flagAfter world (pre ++ [last]) = true)
    (hfirst : after.interrupted setting = true → motive first rest)
    (hrest : ∀ more, rest = more ++ last :: post →
      setting.flagAfter after (more ++ [last]) = true → motive last post) : motive last post := by
  cases pre with
  | nil =>
    cases h
    rw [List.nil_append, hshift, flagAfter_nil] at hflag
    exact hfirst hflag
  | cons step more =>
    cases h
    rw [List.cons_append, hshift] at hflag
    exact hrest more rfl hflag

theorem interrupted_eq_false {steps : List Step} (h : setting.flagAfter world steps = false) :
    world.interrupted setting = false := by
  rw [← flagAfter_nil, Bool.eq_false_iff]
  intro hset
  have hlater := setting.flagAfter_append world hset steps
  rw [List.nil_append, h] at hlater
  cases hlater

theorem interrupted_of_started {world after : World} {command : Command} {capture : Capture}
    (h : world.start setting command = .ended capture after) (hsane : world.Sane)
    (hset : world.interrupted setting = true) : after.interrupted setting = true := by
  rw [← flagAfter_nil] at hset ⊢
  rw [← flagAfter_started setting h hsane []]
  exact flagAfter_append setting world hset [_]

theorem flagAfter_carryOut {α : Type} {procedure : Procedure α} {world : World} {value : α}
    (hsane : world.Sane) (h : (procedure.carryOut setting world).result = .ok value) :
    setting.flagAfter world (procedure.carryOut setting world).steps =
      (procedure.carryOut setting world).world.interrupted setting := by
  induction procedure generalizing world with
  | done => exact setting.flagAfter_nil world
  | stop => cases h
  | poll next ih => exact ih _ hsane h
  | tell event next ih =>
    simp only [Procedure.carryOut] at h ⊢
    split at h
    · cases h
    · next hbroken =>
      rw [if_neg hbroken]
      exact (setting.flagAfter_told world (by simpa using hbroken) _).trans
        (ih (World.afterTold_sane event hsane) h)
  | start command next ih =>
    simp only [Procedure.carryOut] at h ⊢
    cases hstart : world.start setting command with
    | refused error => rw [hstart] at h; cases h
    | stopped reason after => rw [hstart] at h; cases h
    | ended capture after =>
      rw [hstart] at h
      exact (setting.flagAfter_started hstart hsane _).trans
        (ih capture (World.start_ended hstart hsane).1 h)
  | save dir log next ih =>
    simp only [Procedure.carryOut] at h ⊢
    split at h
    · cases h
    · next tree path _ =>
      have hkept : World.Sane { world with tree } := hsane
      exact (setting.flagAfter_saved world tree path log _).trans (ih path hkept h)

end Setting
end SoloRun
