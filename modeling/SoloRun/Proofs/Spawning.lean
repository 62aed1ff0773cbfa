import SoloRun.Proofs.Walks
import SoloRun.World

/-!
Which commands start, and where: what a command needs to start it still has once there is more in
the tree.
-/

namespace SoloRun
namespace Script

variable {script : Script} {tree later : FileTree} {cwd home : Place} {command : Command}

theorem refusedProgram?_keeps {dir : Place} {program : Bytes}
    (h : script.refusedProgram? tree dir program = none) :
    script.refusedProgram? later dir program = none := by
  simp only [refusedProgram?] at h ⊢
  split at h
  · cases h
  · next hslash =>
    rw [if_neg hslash]
    exact h

theorem place_keeps (hkeeps : tree.KeepsWays later)
    (h : script.place tree cwd command = .ok home) : script.place later cwd command = .ok home := by
  rw [place] at h ⊢
  split at h
  · cases h
  next hnul =>
  rw [if_neg hnul]
  cases hpath : command.dir? with
  | none =>
    simp only [hpath, bind, Except.bind] at h ⊢
    split at h
    · cases h
    · next hprogram =>
      rw [refusedProgram?_keeps hprogram]
      exact h
  | some path =>
    cases hdir : tree.directory cwd path with
    | error error => simp [hpath, hdir, bind, Except.bind] at h
    | ok dir =>
      have hlater := FileTree.directory_keeps hkeeps hdir
      simp only [hpath, hdir, hlater, mapError_ok, bind, Except.bind] at h ⊢
      split at h
      · cases h
      · next hprogram =>
        rw [refusedProgram?_keeps hprogram]
        exact h

theorem directory_of_place {root : Path} (hroot : command.dir? = some root)
    (h : script.place tree cwd command = .ok home) : tree.directory cwd root = .ok home := by
  rw [place] at h
  split at h
  · cases h
  cases hdir : tree.directory cwd root with
  | error error => simp [hroot, hdir, bind, Except.bind] at h
  | ok dir =>
    simp only [hroot, hdir, mapError_ok, bind, Except.bind] at h
    split at h
    · cases h
    split at h
    · cases h
    · rw [Except.ok.inj h]

/-- A command that starts once there is more in the tree would have started before, if its directory
was there. -/
theorem place_of_later {root : Path} (hroot : command.dir? = some root)
    (hdir : tree.directory cwd root = .ok home) (h : script.place later cwd command = .ok home) :
    script.place tree cwd command = .ok home := by
  have hlater := directory_of_place hroot h
  rw [place] at h ⊢
  split at h
  · cases h
  next hnul =>
  simp only [if_neg hnul, hroot, hdir, hlater, mapError_ok, bind, Except.bind] at h ⊢
  split at h
  · cases h
  · next hprogram =>
    rw [refusedProgram?_keeps hprogram]
    exact h

end Script

/-- A command whose child starts in the place, sends no interrupt and comes to its own end. -/
structure Setting.Spawns (setting : Setting) (tree : FileTree) (home : Place) (command : Command) :
    Prop where
  place : setting.script.place tree setting.cwd command = .ok home
  silent : (setting.script.behaviour command.args).interrupting? = none
  ends : (setting.script.behaviour command.args).hangs = false

theorem Setting.spawns_iff {setting : Setting} {tree : FileTree} {home : Place} {command : Command} :
    setting.Spawns tree home command ↔
      (setting.script.place tree setting.cwd command).toOption = some home ∧
        (setting.script.behaviour command.args).interrupting? = none ∧
        (setting.script.behaviour command.args).hangs = false := by
  have hplace : (setting.script.place tree setting.cwd command).toOption = some home ↔
      setting.script.place tree setting.cwd command = .ok home := by
    cases setting.script.place tree setting.cwd command <;> simp [Except.toOption]
  rw [hplace]
  exact ⟨fun h => ⟨h.place, h.silent, h.ends⟩, fun ⟨place, silent, ends⟩ => ⟨place, silent, ends⟩⟩

instance (setting : Setting) (tree : FileTree) (home : Place) (command : Command) :
    Decidable (setting.Spawns tree home command) :=
  decidable_of_iff _ Setting.spawns_iff.symm

theorem Setting.Spawns.keeps {setting : Setting} {tree later : FileTree} {home : Place}
    {command : Command} (h : setting.Spawns tree home command) (hkeeps : tree.KeepsWays later) :
    setting.Spawns later home command :=
  ⟨Script.place_keeps hkeeps h.place, h.silent, h.ends⟩

end SoloRun
