import Mathlib
import SoloRun.Proofs.Worlds

/-!
Which children are known and whose registration is held, by the order of the steps alone. A ward
keeps track of it: of the flag, the registered child and the children that an interrupt was sent to.
-/

namespace SoloRun

namespace Ward
namespace Step

def spawned? : Step → Option String
  | .spawn name => some name
  | _ => none

end Step

def Since (opening closing : Step) (steps : List Step) : Prop :=
  ∃ before after, steps = before ++ opening :: after ∧ closing ∉ after

def Known (steps : List Step) (name : String) : Prop :=
  Since (.spawn name) (.wait name) steps

/-- The child was registered while it was known, and its registration has not been dropped. -/
def Held (steps : List Step) (name : String) : Prop :=
  ∃ before after, steps = before ++ Step.register name :: after ∧ Known before name ∧
    .unregister name ∉ after

/-- At some moment there had been an interrupt and the registration of the child was held. -/
def Reached (steps : List Step) (name : String) : Prop :=
  ∃ early, early <+: steps ∧ .interrupt ∈ early ∧ Held early name

def spawns (steps : List Step) : List String :=
  steps.filterMap Step.spawned?

/-- No step writes the flag, no two children have the same name, and a child is registered only
after the registration before it was dropped. -/
structure Orderly (steps : List Step) : Prop where
  unwritten : ∀ flag, .write flag ∉ steps
  distinct : (spawns steps).Nodup
  dropped : ∀ before name after, steps = before ++ Step.register name :: after → Known before name →
    ∀ other, ¬ Held before other

section Concat

variable {steps : List Step} {step opening closing : Step} {name : String}

theorem append_concat_cases {before after : List Step} {last : Step}
    (h : steps ++ [step] = before ++ last :: after) :
    (after = [] ∧ steps = before ∧ step = last) ∨
      ∃ more, after = more ++ [step] ∧ steps = before ++ last :: more := by
  rcases List.eq_nil_or_concat after with rfl | ⟨more, final, rfl⟩
  · obtain ⟨rfl, hlast⟩ := List.append_inj' h rfl
    exact .inl ⟨rfl, rfl, List.singleton_inj.mp hlast⟩
  · rw [List.concat_eq_append, ← List.cons_append, ← List.append_assoc] at h
    obtain ⟨rfl, hlast⟩ := List.append_inj' h rfl
    obtain rfl := List.singleton_inj.mp hlast
    exact .inr ⟨more, List.concat_eq_append, rfl⟩

theorem since_concat_iff :
    Since opening closing (steps ++ [step]) ↔
      step = opening ∨ Since opening closing steps ∧ step ≠ closing := by
  constructor
  · rintro ⟨before, after, heq, hclosing⟩
    rcases append_concat_cases heq with ⟨-, -, rfl⟩ | ⟨more, rfl, rfl⟩
    · exact .inl rfl
    · rw [List.mem_append, List.mem_singleton, not_or] at hclosing
      exact .inr ⟨⟨before, more, rfl, hclosing.1⟩, fun h => hclosing.2 h.symm⟩
  · rintro (rfl | ⟨⟨before, after, rfl, hclosing⟩, hne⟩)
    · exact ⟨steps, [], rfl, List.not_mem_nil⟩
    · refine ⟨before, after ++ [step], by simp, ?_⟩
      rw [List.mem_append, List.mem_singleton, not_or]
      exact ⟨hclosing, fun h => hne h.symm⟩

theorem known_concat_iff :
    Known (steps ++ [step]) name ↔ step = .spawn name ∨ Known steps name ∧ step ≠ .wait name :=
  since_concat_iff

theorem held_concat_iff :
    Held (steps ++ [step]) name ↔
      (step = .register name ∧ Known steps name) ∨ Held steps name ∧ step ≠ .unregister name := by
  constructor
  · rintro ⟨before, after, heq, hknown, hdropped⟩
    rcases append_concat_cases heq with ⟨-, rfl, rfl⟩ | ⟨more, rfl, rfl⟩
    · exact .inl ⟨rfl, hknown⟩
    · rw [List.mem_append, List.mem_singleton, not_or] at hdropped
      exact .inr ⟨⟨before, more, rfl, hknown, hdropped.1⟩, fun h => hdropped.2 h.symm⟩
  · rintro (⟨rfl, hknown⟩ | ⟨⟨before, after, rfl, hknown, hdropped⟩, hne⟩)
    · exact ⟨steps, [], rfl, hknown, List.not_mem_nil⟩
    · refine ⟨before, after ++ [step], by simp, hknown, ?_⟩
      rw [List.mem_append, List.mem_singleton, not_or]
      exact ⟨hdropped, fun h => hne h.symm⟩

theorem reached_concat_iff :
    Reached (steps ++ [step]) name ↔
      Reached steps name ∨ .interrupt ∈ steps ++ [step] ∧ Held (steps ++ [step]) name := by
  constructor
  · rintro ⟨early, hearly, hinterrupt, hheld⟩
    rcases List.prefix_concat_iff.mp hearly with rfl | hearly
    · exact .inr ⟨hinterrupt, hheld⟩
    · exact .inl ⟨early, hearly, hinterrupt, hheld⟩
  · rintro (⟨early, hearly, hinterrupt, hheld⟩ | ⟨hinterrupt, hheld⟩)
    · exact ⟨early, hearly.trans (List.prefix_append _ _), hinterrupt, hheld⟩
    · exact ⟨_, List.prefix_rfl, hinterrupt, hheld⟩

theorem Held.reached (h : Held steps name) (hinterrupt : .interrupt ∈ steps) :
    Reached steps name :=
  ⟨steps, List.prefix_rfl, hinterrupt, h⟩

theorem spawns_concat (steps : List Step) (step : Step) :
    spawns (steps ++ [step]) = spawns steps ++ step.spawned?.toList := by
  rw [spawns, List.filterMap_append]
  cases step <;> rfl

theorem Known.mem_spawns (h : Known steps name) : name ∈ spawns steps := by
  obtain ⟨before, after, rfl, -⟩ := h
  exact List.mem_filterMap.mpr ⟨.spawn name, by simp, rfl⟩

theorem Held.mem_spawns (h : Held steps name) : name ∈ spawns steps := by
  obtain ⟨before, after, rfl, hknown, -⟩ := h
  rw [spawns, List.filterMap_append]
  exact List.mem_append_left _ hknown.mem_spawns

theorem Reached.mem_spawns (h : Reached steps name) : name ∈ spawns steps := by
  obtain ⟨early, hearly, -, hheld⟩ := h
  exact (hearly.filterMap Step.spawned?).subset hheld.mem_spawns

end Concat

def number (steps : List Step) (name : String) : Nat :=
  (spawns steps).idxOf name

theorem number_concat {steps : List Step} {name : String} (h : name ∈ spawns steps) (step : Step) :
    number (steps ++ [step]) name = number steps name := by
  rw [number, spawns_concat, List.idxOf_append_of_mem h]
  rfl

/-- What the ward keeps is what the steps so far say. -/
structure Tracks (ward : Ward) (steps : List Step) : Prop where
  flag : ward.signals.flag = true ↔ .interrupt ∈ steps
  spawned : ward.spawned = (spawns steps).length
  children : ∀ name child, ward.children.lookup name = some child ↔
    Known steps name ∧ child = number steps name
  held : ∀ name, name ∈ ward.held ↔ Held steps name
  alone : ∀ first second, Held steps first → Held steps second → first = second
  slot : ∀ child, ward.signals.slot? = some child ↔
    ∃ name, Held steps name ∧ child = number steps name
  hit : ∀ child, child ∈ ward.signals.hit ↔
    ∃ name, Reached steps name ∧ child = number steps name

theorem lookup_cons_eq (key name : String) (child : Nat) (children : List (String × Nat)) :
    ((key, child) :: children).lookup name =
      if name = key then some child else children.lookup name := by
  by_cases h : name = key
  · rw [if_pos h, List.lookup_cons, h, beq_self_eq_true]
  · rw [if_neg h, List.lookup_cons, beq_false_of_ne h]

theorem lookup_filter_ne (children : List (String × Nat)) (name other : String) :
    (children.filter (·.1 ≠ name)).lookup other =
      if other = name then none else children.lookup other := by
  induction children with
  | nil => simp
  | cons child rest ih =>
    obtain ⟨key, number⟩ := child
    by_cases hkey : key = name
    · subst hkey
      rw [List.filter_cons_of_neg (by simp), ih, lookup_cons_eq]
      split <;> rfl
    · rw [List.filter_cons_of_pos (by simp [hkey]), lookup_cons_eq, ih, lookup_cons_eq]
      by_cases hother : other = key
      · rw [if_pos hother, if_pos hother, if_neg (hother ▸ hkey)]
      · rw [if_neg hother, if_neg hother]

theorem exists_number_concat {steps : List Step} {now before : String → Prop} (step : Step)
    (h : ∀ name, now name ↔ before name) (hspawns : ∀ name, before name → name ∈ spawns steps)
    (child : Nat) :
    (∃ name, now name ∧ child = number (steps ++ [step]) name) ↔
      ∃ name, before name ∧ child = number steps name := by
  constructor
  · rintro ⟨name, hname, rfl⟩
    exact ⟨name, (h name).mp hname, number_concat (hspawns name ((h name).mp hname)) step⟩
  · rintro ⟨name, hname, rfl⟩
    exact ⟨name, (h name).mpr hname, (number_concat (hspawns name hname) step).symm⟩

theorem step_interrupt (ward : Ward) :
    ∃ signals, (ward.step .interrupt).1 = { ward with signals } ∧ signals.flag = true ∧
      signals.slot? = ward.signals.slot? ∧ ∀ child, child ∈ signals.hit ↔
        child ∈ ward.signals.hit ∨ ward.signals.flag = false ∧ ward.signals.slot? = some child := by
  cases hflag : ward.signals.flag with
  | true => exact ⟨ward.signals, by simp [step, Signals.interrupt?, hflag], hflag, rfl, by simp⟩
  | false =>
    refine ⟨ward.signals.forward, by simp [step, Signals.interrupt?, hflag], rfl, rfl, ?_⟩
    intro child
    simp [Signals.forward, or_comm]

namespace Tracks

variable {ward : Ward} {steps : List Step}

theorem children_concat {after : Ward} {step : Step} {remains : String → Prop}
    (h : Tracks ward steps)
    (hknown : ∀ name, Known (steps ++ [step]) name ↔ Known steps name ∧ remains name)
    (hlookup : ∀ name child, after.children.lookup name = some child ↔
      ward.children.lookup name = some child ∧ remains name) (name : String) (child : Nat) :
    after.children.lookup name = some child ↔
      Known (steps ++ [step]) name ∧ child = number (steps ++ [step]) name := by
  rw [hlookup, h.children, hknown]
  constructor
  · rintro ⟨⟨hold, rfl⟩, hremains⟩
    exact ⟨⟨hold, hremains⟩, (number_concat hold.mem_spawns step).symm⟩
  · rintro ⟨⟨hold, hremains⟩, rfl⟩
    exact ⟨⟨hold, number_concat hold.mem_spawns step⟩, hremains⟩

theorem interrupt (h : Tracks ward steps) :
    Tracks (ward.step .interrupt).1 (steps ++ [Step.interrupt]) := by
  have hknown (name : String) :
      Known (steps ++ [Step.interrupt]) name ↔ Known steps name ∧ True := by
    simp [known_concat_iff]
  have hheld (name : String) : Held (steps ++ [Step.interrupt]) name ↔ Held steps name := by
    simp [held_concat_iff]
  have hreached (name : String) :
      Reached (steps ++ [Step.interrupt]) name ↔ Reached steps name ∨ Held steps name := by
    simp [reached_concat_iff, hheld]
  obtain ⟨signals, hward, hflag, hslot, hhit⟩ := step_interrupt ward
  rw [hward]
  refine ⟨by simp [hflag], by simp [spawns_concat, Step.spawned?, h.spawned],
    h.children_concat hknown (by simp), fun name => (h.held name).trans (hheld name).symm,
    ?_, ?_, ?_⟩
  · intro first second hfirst hsecond
    exact h.alone first second ((hheld first).mp hfirst) ((hheld second).mp hsecond)
  · intro child
    rw [hslot, h.slot]
    exact (exists_number_concat _ hheld (fun _ => Held.mem_spawns) child).symm
  · intro child
    rw [hhit, h.hit, h.slot, exists_number_concat _ hreached
      (fun name hname => hname.elim Reached.mem_spawns Held.mem_spawns) child]
    constructor
    · rintro (⟨name, hname, heq⟩ | ⟨-, name, hname, heq⟩)
      · exact ⟨name, .inl hname, heq⟩
      · exact ⟨name, .inr hname, heq⟩
    · rintro ⟨name, hname | hname, heq⟩
      · exact .inl ⟨name, hname, heq⟩
      · cases hset : ward.signals.flag with
        | true => exact .inl ⟨name, hname.reached (h.flag.mp hset), heq⟩
        | false => exact .inr ⟨rfl, name, hname, heq⟩

/-- A step that leaves the signals and the registration alone. -/
theorem aside {after : Ward} {step : Step} (h : Tracks ward steps)
    (hsignals : after.signals = ward.signals) (hheld : after.held = ward.held)
    (hstep : step ≠ .interrupt)
    (hsame : ∀ name, Held (steps ++ [step]) name ↔ Held steps name)
    (hspawned : after.spawned = (spawns (steps ++ [step])).length)
    (hchildren : ∀ name child, after.children.lookup name = some child ↔
      Known (steps ++ [step]) name ∧ child = number (steps ++ [step]) name) :
    Tracks after (steps ++ [step]) := by
  have hinterrupt : .interrupt ∈ steps ++ [step] ↔ .interrupt ∈ steps := by
    simp [hstep.symm]
  have hreached (name : String) : Reached (steps ++ [step]) name ↔ Reached steps name := by
    rw [reached_concat_iff, hsame, hinterrupt]
    exact or_iff_left_of_imp fun hold => hold.2.reached hold.1
  refine ⟨hsignals ▸ h.flag.trans hinterrupt.symm, hspawned, hchildren,
    fun name => hheld ▸ (h.held name).trans (hsame name).symm, ?_, ?_, ?_⟩
  · intro first second hfirst hsecond
    exact h.alone first second ((hsame first).mp hfirst) ((hsame second).mp hsecond)
  · intro child
    rw [hsignals, h.slot]
    exact (exists_number_concat step hsame (fun _ => Held.mem_spawns) child).symm
  · intro child
    rw [hsignals, h.hit]
    exact (exists_number_concat step hreached (fun _ => Reached.mem_spawns) child).symm

theorem spawn {name : String} (h : Tracks ward steps) (hnew : name ∉ spawns steps) :
    Tracks (ward.step (.spawn name)).1 (steps ++ [Step.spawn name]) := by
  refine h.aside rfl rfl (by simp) (fun other => by simp [held_concat_iff])
    (by simp [step, spawns_concat, Step.spawned?, h.spawned]) ?_
  intro other child
  rw [step, lookup_cons_eq, lookup_filter_ne, known_concat_iff]
  by_cases hother : other = name
  · subst hother
    have hnumber : number (steps ++ [Step.spawn other]) other = ward.spawned := by
      rw [number, spawns_concat, Step.spawned?, List.idxOf_append_of_notMem hnew, h.spawned]
      simp
    simp [hnumber, eq_comm]
  · rw [if_neg hother, if_neg hother, h.children]
    have hne : Step.spawn name ≠ .spawn other := by simpa using fun heq => hother heq.symm
    constructor
    · rintro ⟨hknown, rfl⟩
      exact ⟨.inr ⟨hknown, by simp⟩, (number_concat hknown.mem_spawns _).symm⟩
    · rintro ⟨heq | ⟨hknown, -⟩, rfl⟩
      · exact absurd heq hne
      · exact ⟨hknown, number_concat hknown.mem_spawns _⟩

theorem wait {name : String} (h : Tracks ward steps) :
    Tracks (ward.step (.wait name)).1 (steps ++ [Step.wait name]) := by
  have hknown (other : String) :
      Known (steps ++ [Step.wait name]) other ↔ Known steps other ∧ other ≠ name := by
    simp [known_concat_iff, eq_comm]
  have hheld (other : String) : Held (steps ++ [Step.wait name]) other ↔ Held steps other := by
    simp [held_concat_iff]
  have hspawned : ward.spawned = (spawns (steps ++ [Step.wait name])).length := by
    simp [spawns_concat, Step.spawned?, h.spawned]
  simp only [step]
  split
  · next hnone =>
    refine h.aside rfl rfl (by simp) hheld hspawned (h.children_concat hknown ?_)
    intro other child
    refine (and_iff_left_of_imp ?_).symm
    rintro hchild rfl
    rw [hnone] at hchild
    cases hchild
  · next number hlookup =>
    refine h.aside rfl rfl (by simp) hheld hspawned (h.children_concat hknown ?_)
    intro other child
    rw [lookup_filter_ne]
    by_cases hother : other = name <;> simp [hother]

theorem unregister {name : String} (h : Tracks ward steps) :
    Tracks (ward.step (.unregister name)).1 (steps ++ [Step.unregister name]) := by
  have hknown (other : String) :
      Known (steps ++ [Step.unregister name]) other ↔ Known steps other ∧ True := by
    simp [known_concat_iff]
  have hheld (other : String) :
      Held (steps ++ [Step.unregister name]) other ↔ Held steps other ∧ other ≠ name := by
    simp [held_concat_iff, eq_comm]
  have hspawned : ward.spawned = (spawns (steps ++ [Step.unregister name])).length := by
    simp [spawns_concat, Step.spawned?, h.spawned]
  simp only [step, Ward.unregister]
  split
  · next hmem =>
    have hname : Held steps name := (h.held name).mp hmem
    have hnone (other : String) : ¬ Held (steps ++ [Step.unregister name]) other := by
      rw [hheld]
      rintro ⟨hother, hne⟩
      exact hne (h.alone other name hother hname)
    have hreached (other : String) :
        Reached (steps ++ [Step.unregister name]) other ↔ Reached steps other := by
      simp [reached_concat_iff, hnone]
    refine ⟨by simp [Signals.release, h.flag], hspawned, h.children_concat hknown (by simp),
      ?_, ?_, ?_, ?_⟩
    · intro other
      rw [List.mem_filter, h.held, hheld]
      simp
    · exact fun first second hfirst => absurd hfirst (hnone first)
    · intro child
      simp [Signals.release, hnone]
    · intro child
      exact (h.hit child).trans
        (exists_number_concat _ hreached (fun _ => Reached.mem_spawns) child).symm
  · next hmem =>
    refine h.aside rfl rfl (by simp) ?_ hspawned (h.children_concat hknown (by simp))
    intro other
    rw [hheld]
    refine and_iff_left_of_imp ?_
    rintro hother rfl
    exact hmem ((h.held other).mpr hother)

theorem register_unknown {name : String} (h : Tracks ward steps) (hunknown : ¬ Known steps name) :
    Tracks (ward.step (.register name)).1 (steps ++ [Step.register name]) := by
  have hknown (other : String) :
      Known (steps ++ [Step.register name]) other ↔ Known steps other ∧ True := by
    simp [known_concat_iff]
  have hheld (other : String) : Held (steps ++ [Step.register name]) other ↔ Held steps other := by
    rw [held_concat_iff]
    constructor
    · rintro (⟨heq, hother⟩ | ⟨hother, -⟩)
      · cases heq
        exact absurd hother hunknown
      · exact hother
    · exact fun hother => .inr ⟨hother, by simp⟩
  have hlookup : ward.children.lookup name = none := by
    rw [Option.eq_none_iff_forall_ne_some]
    exact fun child hchild => hunknown ((h.children name child).mp hchild).1
  simp only [step, Ward.register, hlookup]
  exact h.aside rfl rfl (by simp) hheld (by simp [spawns_concat, Step.spawned?, h.spawned])
    (h.children_concat hknown (by simp))

/-- A registration looks at the flag once it is held, so an interrupt from before reaches the child
as one from now on would. -/
theorem register_known {name : String} (h : Tracks ward steps) (hname : Known steps name)
    (hnone : ∀ other, ¬ Held steps other) :
    Tracks (ward.step (.register name)).1 (steps ++ [Step.register name]) := by
  have hknown (other : String) :
      Known (steps ++ [Step.register name]) other ↔ Known steps other ∧ True := by
    simp [known_concat_iff]
  have hheld (other : String) : Held (steps ++ [Step.register name]) other ↔ other = name := by
    simp only [held_concat_iff, hnone, false_and, or_false, Step.register.injEq]
    constructor
    · exact fun hother => hother.1.symm
    · rintro rfl
      exact ⟨rfl, hname⟩
  have hreached (other : String) : Reached (steps ++ [Step.register name]) other ↔
      Reached steps other ∨ .interrupt ∈ steps ∧ other = name := by
    simp [reached_concat_iff, hheld]
  have hmem : name ∈ spawns steps := hname.mem_spawns
  have hempty : ward.held = [] :=
    List.eq_nil_iff_forall_not_mem.mpr fun other hother => hnone other ((h.held other).mp hother)
  have hlookup := (h.children name _).mpr ⟨hname, rfl⟩
  have hafter : Ward.unregister { ward with signals := ward.signals.register (number steps name) }
      name = { ward with signals := ward.signals.register (number steps name) } := by
    simp [Ward.unregister, hempty]
  simp only [step, Ward.register, hlookup]
  rw [hafter]
  refine ⟨?_, by simp [spawns_concat, Step.spawned?, h.spawned],
    h.children_concat hknown (by simp), ?_, ?_, ?_, ?_⟩
  · simp [Signals.register_flag, h.flag]
  · intro other
    simp [hempty, hheld]
  · intro first second hfirst hsecond
    exact ((hheld first).mp hfirst).trans ((hheld second).mp hsecond).symm
  · intro child
    rw [exists_number_concat _ hheld (by rintro _ rfl; exact hmem), Signals.register_slot]
    simp [eq_comm]
  · intro child
    rw [exists_number_concat _ hreached
      (fun other hother => hother.elim Reached.mem_spawns fun heq => heq.2 ▸ hmem),
      Signals.mem_register_hit_iff, h.hit, h.flag]
    constructor
    · rintro (⟨other, hother, heq⟩ | ⟨heq, hset⟩)
      · exact ⟨other, .inl hother, heq⟩
      · exact ⟨name, .inr ⟨hset, rfl⟩, heq⟩
    · rintro ⟨other, hother | ⟨hset, rfl⟩, heq⟩
      · exact .inl ⟨other, hother, heq⟩
      · exact .inr ⟨heq, hset⟩

theorem step {last : Step} (h : Tracks ward steps) (horderly : Orderly (steps ++ [last])) :
    Tracks (ward.step last).1 (steps ++ [last]) := by
  cases last with
  | interrupt => exact h.interrupt
  | write flag =>
    exact absurd (List.mem_append_right _ (List.mem_singleton_self _)) (horderly.unwritten flag)
  | spawn name =>
    have hnodup := horderly.distinct
    rw [spawns_concat] at hnodup
    exact h.spawn fun hmem => List.disjoint_of_nodup_append hnodup hmem (List.mem_singleton_self _)
  | register name =>
    by_cases hname : Known steps name
    · exact h.register_known hname (horderly.dropped steps name [] rfl hname)
    · exact h.register_unknown hname
  | unregister name => exact h.unregister
  | wait name => exact h.wait

end Tracks

def after (ward : Ward) (steps : List Step) : Ward :=
  steps.foldl (fun ward step => (ward.step step).1) ward

theorem after_append (ward : Ward) (first second : List Step) :
    ward.after (first ++ second) = (ward.after first).after second :=
  List.foldl_append

end Ward
end SoloRun
