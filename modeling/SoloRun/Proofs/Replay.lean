import SoloRun.Proofs.Course
import SoloRun.Proofs.LogFile

/-!
The files of a run by its steps. Logs of different names do not touch each other: once written, the
file of a log stays as it is to the end of the run.
-/

namespace SoloRun

def Step.log? : Step → Option Log
  | .saved _ log | .unsaved log _ => some log
  | _ => none

def logNames (steps : List Step) : List String :=
  steps.filterMap fun step => step.log?.map (·.name)

theorem logNames_cons_of_unlogged {step : Step} {steps : List Step} (h : step.log? = none) :
    logNames (step :: steps) = logNames steps := by
  simp [logNames, h]

theorem not_mem_of_nodup {before after : List String} {name : String}
    (h : (before ++ name :: after).Nodup) : name ∉ before := by
  intro hmem
  have hseparate := (List.nodup_append.mp h).2.2
  exact hseparate name hmem name List.mem_cons_self rfl

/-- What steps make of the files if they save logs to one directory; they end at a log that could
not be saved. -/
inductive Replay (cwd : Place) (dir : Path) : FileTree → List Step → FileTree → Prop where
  | nil {tree} : Replay cwd dir tree [] tree
  | other {tree after step steps} (unlogged : step.log? = none)
    (rest : Replay cwd dir tree steps after) : Replay cwd dir tree (step :: steps) after
  | saved {tree made after path log steps} (write : log.write cwd dir tree = (made, .ok path))
    (rest : Replay cwd dir made steps after) :
    Replay cwd dir tree (.saved path log :: steps) after
  | unsaved {tree made log failure} (write : log.write cwd dir tree = (made, .error failure)) :
    Replay cwd dir tree [.unsaved log failure] made

namespace FileTree

def KeepsFiles (tree later : FileTree) : Prop :=
  ∀ place content, tree.find? place = some (.file content) →
    later.find? place = some (.file content)

theorem KeepsFiles.refl (tree : FileTree) : tree.KeepsFiles tree :=
  fun _ _ h => h

theorem KeepsFiles.trans {tree middle later : FileTree} (h₁ : tree.KeepsFiles middle)
    (h₂ : middle.KeepsFiles later) : tree.KeepsFiles later :=
  fun place content h => h₂ place content (h₁ place content h)

theorem find?_insert_of_free {tree : FileTree} {place other : Place} {entry old : Entry}
    (hfree : tree.find? place = none) (h : tree.find? other = some old) :
    (tree.insert place entry).find? other = some old := by
  have hplace : place ≠ [] := by
    rintro rfl
    simp [find?] at hfree
  have hother : other ≠ place := by
    rintro rfl
    rw [hfree] at h
    cases h
  rw [find?_insert tree hplace, if_neg hother, h]

/-- Nothing stands yet at the place where the directory will be, or under it. -/
def Vacant (tree : FileTree) (cwd : Place) (dir : Path) : Prop :=
  ∀ place, (tree.makeDirectories cwd dir).1.Hosts cwd dir place →
    ∀ rest, tree.find? (place ++ rest) = none

theorem empty_vacant {cwd place : Place} {dir : Path} (hnonempty : dir.bytes ≠ [])
    (hplace : place ≠ [])
    (h : (empty.makeDirectories cwd dir).1.directory cwd dir = .ok place) :
    empty.Vacant cwd dir := by
  rintro other (⟨hempty, -⟩ | ⟨-, hdir⟩) rest
  · exact absurd hempty hnonempty
  · rw [h] at hdir
    cases hdir
    simp [find?, empty, hplace, PlaceMap.get?_empty]

def HostsOnly (tree : FileTree) (cwd : Place) (dir : Path) (names : List String) : Prop :=
  ∃ place, tree.Hosts cwd dir place ∧
    ∀ name entry, tree.find? (place ++ [Log.file name]) = some entry →
      entry = .directory ∨ name ∈ names ∧ ∃ content, entry = .file content

variable {tree made : FileTree} {cwd : Place} {dir : Path} {names : List String}

theorem Vacant.hostsOnly (h : tree.Vacant cwd dir)
    (hmade : (tree.makeDirectories cwd dir).2 = .ok ()) :
    (tree.makeDirectories cwd dir).1.HostsOnly cwd dir [] := by
  obtain ⟨place, hhosts⟩ := makeDirectories_ok hmade
  refine ⟨place, hhosts, fun name entry hentry => .inl ?_⟩
  rcases makeDirectories_grows tree cwd dir (place ++ [Log.file name]) with heq | ⟨-, hdir⟩
  · rw [heq, h place hhosts] at hentry
    cases hentry
  · rw [hdir] at hentry
    exact Option.some.inj hentry.symm

variable {log : Log}

theorem HostsOnly.write {result : Except Failure Path} (h : tree.HostsOnly cwd dir names)
    (hslash : '/' ∉ log.name.toList) (hnew : log.name ∉ names)
    (hwrite : log.write cwd dir tree = (made, result)) :
    tree.KeepsFiles made ∧ made.HostsOnly cwd dir (names ++ [log.name]) := by
  obtain ⟨place, hhosts, hentry⟩ := h
  have hmore (name : String) (entry : Entry)
      (hname : tree.find? (place ++ [Log.file name]) = some entry) :
      entry = .directory ∨ name ∈ names ++ [log.name] ∧ ∃ content, entry = .file content :=
    (hentry name entry hname).imp_right fun ⟨hmem, hfile⟩ => ⟨List.mem_append_left _ hmem, hfile⟩
  have hordinary : tree.Ordinary (place ++ [Log.file log.name]) :=
    fun entry hold => (hentry log.name entry hold).imp_right (·.2)
  rw [Log.write_of_hosts hhosts hslash hordinary] at hwrite
  split at hwrite
  · cases hwrite
    exact ⟨.refl tree, place, hhosts, hmore⟩
  · next opened hopen =>
    cases hwrite
    obtain ⟨opened, old?⟩ := opened
    obtain ⟨rfl, rfl, hdir⟩ := hhosts.of_writable_join (Log.file_isName hslash)
      (Log.file_plain log.name) hordinary hopen
    have hfree : tree.find? (place ++ [Log.file log.name]) = none := by
      rw [Option.eq_none_iff_forall_ne_some]
      intro entry hold
      rcases hentry log.name entry hold with rfl | ⟨hmem, -⟩
      · exact hdir hold
      · exact hnew hmem
    refine ⟨fun _ _ => find?_insert_of_free hfree, place,
      hhosts.keeps fun _ _ _ => find?_insert_of_free hfree, fun name entry hname => ?_⟩
    rw [find?_insert tree (by simp)] at hname
    split at hname
    · next heq =>
      obtain rfl := Option.some.inj hname
      have hsame : name = log.name := Log.file_injective (by simpa using heq)
      exact .inr ⟨by simp [hsame], _, rfl⟩
    · exact hmore name entry hname

def Logged (tree : FileTree) (cwd : Place) (dir : Path) (names : List String) : Prop :=
  names = [] ∧ tree.Vacant cwd dir ∨ tree.HostsOnly cwd dir names

theorem Logged.write {result : Except Failure Path} (h : tree.Logged cwd dir names)
    (hslash : '/' ∉ log.name.toList) (hnew : log.name ∉ names)
    (hwrite : log.write cwd dir tree = (made, result)) :
    tree.KeepsFiles made ∧
      (result.toBool = true → made.Logged cwd dir (names ++ [log.name])) := by
  rcases h with ⟨rfl, hvacant⟩ | honly
  · have hgrows := makeDirectories_grows tree cwd dir
    have hkeeps : tree.KeepsFiles (tree.makeDirectories cwd dir).1 := fun _ _ => hgrows.keeps
    cases hmade : (tree.makeDirectories cwd dir).2 with
    | error error =>
      rw [Log.write_of_not_made hmade] at hwrite
      cases hwrite
      exact ⟨hkeeps, nofun⟩
    | ok =>
      rw [Log.write_of_made hmade] at hwrite
      obtain ⟨hmore, honly⟩ := (hvacant.hostsOnly hmade).write hslash hnew hwrite
      exact ⟨hkeeps.trans hmore, fun _ => .inr honly⟩
  · obtain ⟨hkeeps, honly⟩ := honly.write hslash hnew hwrite
    exact ⟨hkeeps, fun _ => .inr honly⟩

structure Ready (tree : FileTree) (cwd : Place) (dir : Path) (names : List String)
    (steps : List Step) : Prop where
  logged : tree.Logged cwd dir names
  slashless : ∀ name ∈ logNames steps, '/' ∉ name.toList
  nodup : (names ++ logNames steps).Nodup

namespace Ready

variable {step : Step} {steps : List Step}

theorem other (h : tree.Ready cwd dir names (step :: steps)) (unlogged : step.log? = none) :
    tree.Ready cwd dir names steps := by
  have hnames : logNames (step :: steps) = logNames steps := logNames_cons_of_unlogged unlogged
  exact ⟨h.logged, hnames ▸ h.slashless, hnames ▸ h.nodup⟩

theorem write {result : Except Failure Path} (h : tree.Ready cwd dir names (step :: steps))
    (hlog : step.log? = some log) (hwrite : log.write cwd dir tree = (made, result)) :
    tree.KeepsFiles made ∧
      (result.toBool = true → made.Ready cwd dir (names ++ [log.name]) steps) := by
  have hnames : logNames (step :: steps) = log.name :: logNames steps := by
    simp [logNames, hlog]
  have hslash := List.forall_mem_cons.mp (hnames ▸ h.slashless)
  have hnodup := hnames ▸ h.nodup
  have hnew : log.name ∉ names := not_mem_of_nodup hnodup
  obtain ⟨hkeeps, hmade⟩ := h.logged.write hslash.1 hnew hwrite
  refine ⟨hkeeps, ?_⟩
  intro hok
  exact ⟨hmade hok, hslash.2, by simpa using hnodup⟩

end Ready
end FileTree

namespace Replay

variable {cwd : Place} {dir : Path} {tree after last : FileTree} {names : List String}
variable {steps more : List Step}

theorem keepsFiles (h : Replay cwd dir tree steps after) (hready : tree.Ready cwd dir names steps) :
    tree.KeepsFiles after := by
  induction h generalizing names with
  | nil => exact .refl _
  | other unlogged _ ih => exact ih (hready.other unlogged)
  | saved write _ ih =>
    obtain ⟨hkeeps, hmade⟩ := hready.write rfl write
    exact hkeeps.trans (ih (hmade rfl))
  | unsaved write => exact (hready.write rfl write).1

theorem of_unlogged {step : Step} (h : Replay cwd dir tree (step :: steps) last)
    (unlogged : step.log? = none) : Replay cwd dir tree steps last := by
  cases h with
  | other _ rest => exact rest
  | saved | unsaved => cases unlogged

theorem keepsFiles_of_prefix (h : Replay cwd dir tree steps after)
    (hwhole : Replay cwd dir tree (steps ++ more) last)
    (hready : tree.Ready cwd dir names (steps ++ more)) : after.KeepsFiles last := by
  induction h generalizing names with
  | nil => exact hwhole.keepsFiles hready
  | other unlogged _ ih => exact ih (hwhole.of_unlogged unlogged) (hready.other unlogged)
  | saved write _ ih =>
    cases hwhole with
    | other unlogged => cases unlogged
    | saved write' rest =>
      rw [write] at write'
      cases write'
      exact ih rest ((hready.write rfl write).2 rfl)
  | unsaved write =>
    cases hwhole with
    | other unlogged => cases unlogged
    | unsaved write' =>
      rw [write] at write'
      cases write'
      exact .refl _

end Replay
end SoloRun
