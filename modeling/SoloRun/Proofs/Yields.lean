import SoloRun.Proofs.Outcome
import SoloRun.Proofs.Spawning
import SoloRun.Proofs.Worlds

/-!
Procedures that nothing breaks off: what they yield in a world where the flag is never set and the
reporter works, which commands they start and which logs they keep.
-/

namespace SoloRun

/-- The next child has the number, the files are those of the tree, and the flag is unset. -/
structure World.Steady (setting : Setting) (world : World) (child : Nat) (tree : FileTree) :
    Prop where
  unset : world.signals.flag = false
  sane : world.Sane
  works : setting.reporter.Works world.sink
  children : world.children = child
  tree : world.tree = tree

namespace World.Steady

variable {setting : Setting} {world : World} {child : Nat} {tree : FileTree}

theorem afterTold (h : world.Steady setting child tree) (event : Event) :
    (world.afterTold setting event).Steady setting child tree := by
  obtain ⟨htree, hsignals, hchildren⟩ := afterTold_eq setting world event
  exact ⟨hsignals ▸ h.unset, afterTold_sane event h.sane, afterTold_works world event h.works,
    hchildren.trans h.children, htree.trans h.tree⟩

theorem withTree (h : world.Steady setting child tree) (later : FileTree) :
    World.Steady setting { world with tree := later } child later :=
  ⟨h.unset, h.sane, h.works, h.children, rfl⟩

theorem start (h : world.Steady setting child tree) {home : Place} {command : Command}
    (hspawns : setting.Spawns tree home command) :
    ∃ after, world.start setting command = .ended (setting.answer home child command) after ∧
      after.Steady setting (child + 1) tree := by
  have hfate : (setting.script.behaviour command.args).fate world.children
      (world.signals.register world.children) =
        .ended (setting.script.behaviour command.args).ending.code
          (world.signals.register world.children) := by
    simp [Behaviour.fate, next_not_hit h.sane h.unset, hspawns.silent, Behaviour.lastly,
      hspawns.ends]
  have hstart : ∃ after, world.start setting command =
      .ended (setting.answer home child command) after := by
    simp only [World.start, h.tree, hspawns.place, hfate]
    rw [Setting.answer, ← h.children]
    exact ⟨_, rfl⟩
  obtain ⟨after, hstart⟩ := hstart
  obtain ⟨hsane, htree, -, -, hchildren, hsink, hflag⟩ := start_ended hstart h.sane
  refine ⟨after, hstart, ?_, hsane, hsink ▸ h.works, by rw [hchildren, h.children],
    htree.trans h.tree⟩
  simp [hflag, h.unset, Setting.interrupts, hspawns.silent]

end World.Steady

/-- The files by the logs that were written to a directory, of which each next one can be. -/
structure FileTree.Takes (tree : FileTree) (cwd : Place) (dir : Path) (names : List String)
    (disk : List Log → FileTree) : Prop where
  start : disk [] = tree
  keeps : ∀ logs, logs.map (·.name) <+: names → tree.KeepsWays (disk logs)
  write : ∀ logs log, logs.map (·.name) ++ [log.name] <+: names →
    log.write cwd dir (disk logs) = (disk (logs ++ [log]), .ok (log.path dir))

namespace Procedure

variable {α β : Type} (setting : Setting) (disk : List Log → FileTree)

/-- Carried out after so many children and after these logs, the procedure comes to the value; it
starts the commands and keeps the further logs. -/
def Yields (procedure : Procedure α) (child : Nat) (logs : List Log) (value : α)
    (commands : List Command) (kept : List Log) : Prop :=
  ∀ world : World, world.Steady setting child (disk logs) →
    let course := procedure.carryOut setting world
    course.result = .ok value ∧ course.commands = commands ∧
      course.world.Steady setting (child + commands.length) (disk (logs ++ kept))

namespace Yields

variable {setting disk} {child : Nat} {logs : List Log}

theorem done (value : α) : (Procedure.done value).Yields setting disk child logs value [] [] := by
  intro world h
  exact ⟨rfl, rfl, by simpa [carryOut] using h⟩

theorem bind {procedure : Procedure α} {f : α → Procedure β} {value : α} {result : β}
    {commands more : List Command} {kept further : List Log}
    (hp : procedure.Yields setting disk child logs value commands kept)
    (hf : (f value).Yields setting disk (child + commands.length) (logs ++ kept) result more
      further) :
    (procedure.bind f).Yields setting disk child logs result (commands ++ more)
      (kept ++ further) := by
  intro world h
  obtain ⟨hvalue, hcommands, hsteady⟩ := hp world h
  obtain ⟨hresult, hmore, hlast⟩ := hf _ hsteady
  dsimp only
  rw [carryOut_bind, Course.andThen_of_ok hvalue]
  refine ⟨hresult, ?_, ?_⟩
  · rw [← hcommands, ← hmore]
    exact List.filterMap_append
  · simpa [Nat.add_assoc] using hlast

theorem then_ {procedure : Procedure α} {f : α → Procedure β} {value : α} {result : β}
    {commands more : List Command} {further : List Log}
    (hp : procedure.Yields setting disk child logs value commands [])
    (hf : (f value).Yields setting disk (child + commands.length) logs result more further) :
    (procedure.bind f).Yields setting disk child logs result (commands ++ more) further :=
  hp.bind (by simpa using hf)

theorem finally_ {procedure : Procedure α} {f : α → Procedure β} {value : α} {result : β}
    {commands : List Command} {kept : List Log}
    (hp : procedure.Yields setting disk child logs value commands kept)
    (hf : (f value).Yields setting disk (child + commands.length) (logs ++ kept) result [] []) :
    (procedure.bind f).Yields setting disk child logs result commands kept := by
  have hbind := hp.bind hf
  rwa [List.append_nil, List.append_nil] at hbind

theorem finish {procedure : Procedure α} {value : α} {commands : List Command} {kept : List Log}
    (hp : procedure.Yields setting disk child logs value commands kept) (f : α → β) :
    (procedure.bind fun value => .done (f value)).Yields setting disk child logs (f value) commands
      kept :=
  hp.finally_ (.done (f value))

end Yields
end Procedure

namespace Run

open Procedure

variable {setting : Setting} {disk : List Log → FileTree} {child : Nat} {logs : List Log}

theorem tell_yields (event : Event) : (tell event).Yields setting disk child logs () [] [] := by
  intro world h
  simp only [tell, carryOut, world.told_not_broken h.works, Bool.false_eq_true, if_false]
  exact ⟨rfl, rfl, by simpa [Course.after] using h.afterTold event⟩

theorem capture_yields {home : Place} {command : Command}
    (hspawns : setting.Spawns (disk logs) home command) :
    (capture command).Yields setting disk child logs (setting.answer home child command)
      [command] [] := by
  intro world h
  obtain ⟨after, hstart, hafter⟩ := h.start hspawns
  simp only [capture, carryOut, hstart]
  exact ⟨rfl, rfl, by simpa [Course.after] using hafter⟩

theorem checkInterrupt_yields (htrigger : setting.trigger? = none) :
    checkInterrupt.Yields setting disk child logs () [] [] := by
  intro world h
  have hunset : world.interrupted setting = false := by
    simp [World.interrupted, htrigger, h.unset]
  have hcourse : checkInterrupt.carryOut setting world = ⟨[], .ok (), world⟩ := by
    simp [checkInterrupt, carryOut, hunset]
  dsimp only
  rw [hcourse]
  exact ⟨rfl, rfl, by simpa using h⟩

theorem total_yields {results : List TestResult} (h : (Report.total? results).isSome) :
    (total results).Yields setting disk child logs ((Report.total? results).getD .zero) [] [] := by
  obtain ⟨duration, hduration⟩ := Option.isSome_iff_exists.mp h
  rw [total, hduration]
  exact .done duration

theorem save_yields {dir : Path} {log : Log}
    (hwrite : log.write setting.cwd dir (disk logs) = (disk (logs ++ [log]), .ok (log.path dir))) :
    (save dir log).Yields setting disk child logs (log.path dir) [] [log] := by
  intro world h
  simp only [save, carryOut, h.tree, hwrite]
  exact ⟨rfl, rfl, by simpa [Course.after] using h.withTree _⟩

end Run
end SoloRun
