import SoloRun.Proofs.Announced
import SoloRun.Proofs.Heeding

/-!
A run that one of its children interrupts abandons the phase of that child: no other child is
started after it, the logs of the phases before are there, and those of this phase and of all later
ones are not.
-/

namespace SoloRun

theorem filterMap_command?_notes {steps : List Step} (h : ∀ step ∈ steps, step.isNote = true) :
    steps.filterMap Step.command? = [] := by
  rw [List.filterMap_eq_nil_iff]
  intro step hmem
  have hnote := h step hmem
  cases step with
  | told event answer => rfl
  | started | refused | saved | unsaved => cases hnote

namespace Course

variable {course : Course Path} {plan : Plan} {stamp : String} {done rest : List Phase}
  {part : List Deed}

theorem Stands.of_ran {before after : List Deed} {command : Command} {capture : Capture}
    (h : course.Stands plan stamp done part rest)
    (hdeeds : course.deeds = before ++ Deed.ran command capture :: after)
    (hnotes : ∀ event, .said event ∈ after → event.concludes = false) :
    ∃ phase later begun, rest = phase :: later ∧ part = begun ++ Deed.ran command capture :: after ∧
      begun ++ [Deed.ran command capture] <+: phase.body plan := by
  obtain ⟨begun, rfl⟩ : ∃ begun, part = begun ++ Deed.ran command capture :: after := by
    rw [h.deeds, ← List.cons_append] at hdeeds
    rcases List.append_eq_append_iff.mp hdeeds with ⟨more, -, hpart⟩ | ⟨more, hdone, hpart⟩
    · exact ⟨more, hpart⟩
    cases more with
    | nil => exact ⟨[], hpart.symm⟩
    | cons first more =>
      obtain ⟨rfl, rfl⟩ := List.cons.inj hpart
      rcases List.eq_nil_or_concat done with rfl | ⟨whole, phase, rfl⟩
      · cases before <;> simp at hdone
      · -- the phase done last ends with the announcement of its log, which concludes it
        rw [List.concat_eq_append, List.flatMap_append, List.flatMap_singleton, Phase.deeds_eq,
          ← List.append_assoc, ← List.cons_append] at hdone
        have hlast := congrArg List.getLast? hdone
        rw [List.getLast?_concat, List.getLast?_append_of_ne_nil _ (List.cons_ne_nil _ _)] at hlast
        rcases List.mem_cons.mp (List.mem_of_getLast? hlast.symm) with heq | hmem
        · cases heq
        · cases hnotes _ (List.mem_append_left _ hmem)
  have hmem : .ran command capture ∈ begun ++ Deed.ran command capture :: after :=
    List.mem_append_right _ List.mem_cons_self
  cases hrest : rest with
  | nil => cases List.mem_singleton.mp ((h.last hrest).subset hmem)
  | cons phase later =>
    have hbegun : begun ++ [Deed.ran command capture] <+:
        begun ++ Deed.ran command capture :: after :=
      ⟨after, List.append_assoc _ _ _⟩
    exact ⟨phase, later, begun, rfl, rfl, hbegun.trans (h.next phase later hrest)⟩

/-- The last child that was started belongs to the phase that is not done. -/
theorem Stands.of_last_child {pre post : List Step} {command : Command} {capture? : Option Capture}
    (h : course.Stands plan stamp done part rest) (hdone : ∀ phase ∈ done, phase.Fits)
    (hrest : ∀ phase ∈ rest, phase.Fits)
    (hsteps : course.steps = pre ++ Step.started command capture? :: post)
    (hended : ∀ other, .started other none ∉ pre) (hunended : capture? = none → post = [])
    (hnotes : ∀ step ∈ post, step.isNote = true) :
    ∃ phase later begun, rest = phase :: later ∧
      course.commands = done.flatMap (Phase.commands plan) ++ begun ++ [command] ∧
      begun ++ [command] <+: phase.commands plan := by
  have hcommands : course.commands =
      (pre.filterMap Step.deed?).filterMap Deed.command? ++ [command] := by
    have hcommand : (Step.started command capture?).command? = some command := rfl
    rw [commands, hsteps, List.filterMap_append, List.filterMap_cons_some hcommand,
      filterMap_command?_notes hnotes, filterMap_command?_eq hended]
  cases capture? with
  | none =>
    obtain rfl := hunended rfl
    have hlast : course.steps.getLast? = some (.started command none) := by
      rw [hsteps, List.getLast?_concat]
    obtain ⟨phase, later, hphase, hprefix⟩ :=
      h.of_unrun hrest hlast rfl (by rintro _ ⟨⟩; exact ⟨_, rfl⟩)
    have hdeeds : course.deeds = pre.filterMap Step.deed? := by
      rw [Course.deeds, hsteps, List.filterMap_append]
      exact List.append_nil _
    rw [← hdeeds, h.commands_eq hdone] at hcommands
    exact ⟨phase, later, _, hphase, hcommands, hprefix⟩
  | some capture =>
    have hdeeds : course.deeds =
        pre.filterMap Step.deed? ++ Deed.ran command capture :: post.filterMap Step.deed? :=
      deeds_of_split hsteps rfl
    have hsaid : ∀ event, .said event ∈ post.filterMap Step.deed? → event.concludes = false := by
      intro event hmem
      obtain ⟨step, hstep, hdeed⟩ := List.mem_filterMap.mp hmem
      have hnote := hnotes step hstep
      cases step with
      | told other answer =>
        obtain rfl : other = event := by simpa [Step.deed?] using hdeed
        simpa [Step.isNote] using hnote
      | started | refused | saved | unsaved => cases hnote
    obtain ⟨phase, later, begun, hphase, rfl, hprefix⟩ := h.of_ran hdeeds hsaid
    have hbefore : pre.filterMap Step.deed? =
        .said (.runStart (plan.outDir stamp) Command.runner) ::
          (done.flatMap (Phase.deeds plan stamp) ++ begun) := by
      rw [h.deeds, ← List.append_assoc, ← List.cons_append] at hdeeds
      exact (List.append_cancel_right hdeeds).symm
    have hran := hprefix.filterMap Deed.command?
    rw [Phase.command?_body (hrest phase (hphase ▸ List.mem_cons_self)), List.filterMap_append]
      at hran
    refine ⟨phase, later, begun.filterMap Deed.command?, hphase, ?_, hran⟩
    rw [hcommands, hbefore, List.filterMap_cons_none rfl, List.filterMap_append,
      List.filterMap_flatMap]
    congr 2
    exact List.flatMap_congr fun whole hmem => Phase.command?_deeds (hdone whole hmem)

/-- The logs of some phases are kept, each in its file, and there is no file for any of the rest. -/
structure Leaves (course : Course Path) (plan : Plan) (stamp : String) (cwd : Place)
    (done rest : List Phase) : Prop where
  logs : keptLogs course.steps = done.map (Phase.log plan stamp)
  kept : ∀ whole ∈ done, course.world.tree.content? cwd (whole.path plan stamp) =
    some (Utf8.encode (whole.log plan stamp).text)
  missing : ∀ place, course.world.tree.Hosts cwd (plan.outDir stamp) place →
    ∀ other ∈ rest, ∀ content,
      course.world.tree.find? (place ++ [Log.file other.logName]) ≠ some (.file content)

/-- A child was the last one that a run started: it is one of the phase, and the files are those of
the phases done before. -/
structure Abandons (course : Course Path) (plan : Plan) (stamp : String) (cwd : Place)
    (command : Command) (done : List Phase) (phase : Phase) (later : List Phase) : Prop where
  phases : ∃ outcome : RunOutcome, outcome.Fits plan ∧
    plan.phases outcome = done ++ phase :: later
  commands : ∃ begun,
    course.commands = done.flatMap (Phase.commands plan) ++ begun ++ [command] ∧
      begun ++ [command] <+: phase.commands plan
  kept : ∀ whole ∈ done, course.world.tree.content? cwd (whole.path plan stamp) =
    some (Utf8.encode (whole.log plan stamp).text)
  missing : ∀ place, course.world.tree.Hosts cwd (plan.outDir stamp) place →
    ∀ other ∈ phase :: later, ∀ content,
      course.world.tree.find? (place ++ [Log.file other.logName]) ≠ some (.file content)

end Course

namespace Run

variable (plan : Plan) (stamp : String) (setting : Setting) (world : World)

theorem runAll_leaves (hnodup : plan.logNames.Nodup)
    (hslash : ∀ name ∈ plan.logNames, '/' ∉ name.toList)
    (hvacant : world.tree.Vacant setting.cwd (plan.outDir stamp)) {outcome : RunOutcome}
    {done rest : List Phase} (hfits : outcome.Fits plan)
    (hphases : plan.phases outcome = done ++ rest)
    (hlogs : keptLogs ((runAll plan stamp).carryOut setting world).steps =
      done.map (Phase.log plan stamp))
    (hsaved : ∀ log failure,
      .unsaved log failure ∉ ((runAll plan stamp).carryOut setting world).steps) :
    ((runAll plan stamp).carryOut setting world).Leaves plan stamp setting.cwd done rest := by
  obtain ⟨place, hplace, hholds, hgrows, hexact⟩ :=
    runAll_holds plan stamp setting world hnodup hslash hvacant.unlinked
  refine ⟨hlogs, ?_, ?_⟩
  · intro whole hmem
    have hlog : whole.log plan stamp ∈
        keptLogs ((runAll plan stamp).carryOut setting world).steps :=
      hlogs ▸ List.mem_map_of_mem hmem
    exact (hholds.content? hplace hvacant.unlinked hgrows hlog).1
  · intro home hhosts other hmem content
    have hname : other.logName ∉ (keptLogs ((runAll plan stamp).carryOut setting world).steps).map
        (·.name) := by
      have hnames := Plan.map_logName_phases hfits
      rw [hphases, List.map_append] at hnames
      rw [← hnames, List.nodup_append] at hnodup
      rw [hlogs, List.map_map]
      intro hold
      obtain ⟨whole, hwhole, hsame⟩ := List.mem_map.mp hold
      exact hnodup.2.2 _ (List.mem_map_of_mem hwhole) _ (List.mem_map_of_mem hmem)
        (whole.log_name.symm.trans hsame)
    rw [hexact hsaved] at hhosts ⊢
    exact hvacant.find?_afterLogs_ne_file hplace hholds hname hhosts content

theorem runAll_abandons (hnodup : plan.logNames.Nodup)
    (hslash : ∀ name ∈ plan.logNames, '/' ∉ name.toList)
    (hvacant : world.tree.Vacant setting.cwd (plan.outDir stamp)) {pre post : List Step}
    {command : Command} {capture? : Option Capture}
    (hsteps : ((runAll plan stamp).carryOut setting world).steps =
      pre ++ Step.started command capture? :: post)
    (hunended : capture? = none → post = []) (hnotes : ∀ step ∈ post, step.isNote = true) :
    ∃ done phase later, ((runAll plan stamp).carryOut setting world).Abandons plan stamp setting.cwd
      command done phase later := by
  obtain ⟨outcome, done, part, rest, hfits, hphases, hstands⟩ :=
    runAll_stands plan stamp setting world
  have hends := (runAll_performs plan stamp).ends setting world
  rw [hsteps] at hends
  have hfit := Plan.phases_fit hfits
  rw [hphases] at hfit
  obtain ⟨hdone, hrest⟩ := List.forall_mem_append.mp hfit
  have hended : ∀ other, .started other none ∉ pre := by
    intro other hmem
    cases hends.isSome_of_append hmem
  have hsaved : ∀ log failure,
      .unsaved log failure ∉ ((runAll plan stamp).carryOut setting world).steps := by
    intro log failure hmem
    rw [hsteps, List.mem_append, List.mem_cons] at hmem
    rcases hmem with hmem | hmem | hmem
    · cases hends.isSome_of_append hmem
    · cases hmem
    · cases hnotes _ hmem
  obtain ⟨phase, later, begun, rfl, hcommands⟩ :=
    hstands.of_last_child hdone hrest hsteps hended hunended hnotes
  have hleaves := runAll_leaves plan stamp setting world hnodup hslash hvacant hfits hphases
    hstands.logs_eq hsaved
  exact ⟨done, phase, later, ⟨outcome, hfits, hphases⟩, ⟨begun, hcommands⟩, hleaves.kept,
    hleaves.missing⟩

end Run
end SoloRun
