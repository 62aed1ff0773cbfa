import SoloRun.Proofs.Deeds
import SoloRun.Proofs.Ledger
import SoloRun.Proofs.Replay

/-!
The files after some logs were saved and perhaps one was not: each saved log is whole in the file of
its name, over whatever an earlier run left there, and every other file is as it was.
-/

namespace SoloRun

namespace FileTree

variable {tree later : FileTree} {cwd place other : Place} {dir : Path} {content : Bytes}

/-- The path leads to the place, links followed. -/
def Reaches (tree : FileTree) (cwd : Place) (path : Path) (place : Place) : Prop :=
  ∃ slashed, tree.spot? cwd .target path = .ok (.taken place slashed)

/-- Neither a link nor a device stands in the directory under the name of a log; the directory may
be missing. -/
def Unlinked (tree : FileTree) (cwd : Place) (dir : Path) : Prop :=
  ∀ place, (tree.makeDirectories cwd dir).1.Hosts cwd dir place →
    ∀ name, tree.Ordinary (place ++ [Log.file name])

theorem Grows.find?_file_iff (h : tree.Grows later) :
    later.find? place = some (.file content) ↔ tree.find? place = some (.file content) := by
  refine ⟨?_, h.keeps⟩
  intro hfile
  rcases h place with heq | ⟨-, hdir⟩
  · exact heq ▸ hfile
  · rw [hdir] at hfile
    cases hfile

theorem exists_place (tree : FileTree) (cwd : Place) (dir : Path) :
    ∃ place, (tree.makeDirectories cwd dir).2 = .ok () →
      (tree.makeDirectories cwd dir).1.Hosts cwd dir place := by
  cases hmade : (tree.makeDirectories cwd dir).2 with
  | error error => exact ⟨[], nofun⟩
  | ok =>
    obtain ⟨place, hhosts⟩ := makeDirectories_ok hmade
    exact ⟨place, fun _ => hhosts⟩

theorem empty_ordinary (place : Place) : empty.Ordinary place := by
  intro entry hentry
  simp only [find?, empty, PlaceMap.get?_empty] at hentry
  split at hentry
  · exact .inl (Option.some.inj hentry).symm
  · cases hentry

theorem Ordinary.insert {entry : Entry} (h : tree.Ordinary other) (hplace : place ≠ [])
    (hentry : entry = .directory ∨ ∃ content, entry = .file content) :
    (tree.insert place entry).Ordinary other := by
  intro found hfound
  rw [find?_insert tree hplace] at hfound
  split at hfound
  · exact Option.some.inj hfound ▸ hentry
  · exact h found hfound

/-- The logs have been saved to the directory at the place, and to files. -/
structure Holds (tree : FileTree) (cwd : Place) (dir : Path) (place : Place) (logs : List Log) :
    Prop where
  made : logs ≠ [] → (tree.makeDirectories cwd dir).2 = .ok ()
  slashless : ∀ log ∈ logs, '/' ∉ log.name.toList
  fits : ∀ log ∈ logs, Log.Fits dir log.name
  files : ∀ log ∈ logs,
    (tree.makeDirectories cwd dir).1.find? (place ++ [Log.file log.name]) ≠ some .directory
  nodup : (logs.map (·.name)).Nodup

theorem holds_nil : tree.Holds cwd dir place [] :=
  ⟨fun h => absurd rfl h, nofun, nofun, nofun, .nil⟩

section Holds

variable {logs : List Log} {log : Log}
  (hplace : (tree.makeDirectories cwd dir).2 = .ok () →
    (tree.makeDirectories cwd dir).1.Hosts cwd dir place)
  (hplain : tree.Unlinked cwd dir)
include hplace hplain

theorem Unlinked.ordinary_made (hmade : (tree.makeDirectories cwd dir).2 = .ok ())
    (name : String) : (tree.makeDirectories cwd dir).1.Ordinary (place ++ [Log.file name]) :=
  (hplain place (hplace hmade) name).grows (makeDirectories_grows tree cwd dir)

theorem Holds.withLogs_keepsWays (h : tree.Holds cwd dir place logs)
    (hmade : (tree.makeDirectories cwd dir).2 = .ok ()) :
    (tree.makeDirectories cwd dir).1.KeepsWays
      ((tree.makeDirectories cwd dir).1.withLogs place logs) := by
  refine FileTree.withLogs_keepsWays fun log hmem entry hentry => ?_
  rcases Unlinked.ordinary_made hplace hplain hmade log.name entry hentry with rfl | ⟨content, rfl⟩
  · exact absurd hentry (h.files log hmem)
  · rfl

theorem Holds.hosts (h : tree.Holds cwd dir place logs)
    (hmade : (tree.makeDirectories cwd dir).2 = .ok ()) :
    ((tree.makeDirectories cwd dir).1.withLogs place logs).Hosts cwd dir place :=
  (hplace hmade).keeps (h.withLogs_keepsWays hplace hplain hmade)

theorem Holds.afterLogs_keepsWays (h : tree.Holds cwd dir place logs) :
    tree.KeepsWays (tree.afterLogs cwd dir place logs) := by
  by_cases hlogs : logs = []
  · rw [hlogs]
    exact .refl tree
  · rw [afterLogs_of_ne_nil hlogs]
    exact (makeDirectories_grows tree cwd dir).keepsWays.trans
      (h.withLogs_keepsWays hplace hplain (h.made hlogs))

omit hplace hplain in
theorem Holds.write_afterLogs (h : tree.Holds cwd dir place logs)
    (hmade : (tree.makeDirectories cwd dir).2 = .ok ()) :
    log.write cwd dir (tree.afterLogs cwd dir place logs) =
      log.write cwd dir ((tree.makeDirectories cwd dir).1.withLogs place logs) := by
  cases logs with
  | nil => exact Log.write_of_made hmade
  | cons => rfl

omit hplace hplain in
theorem afterLogs_grows : (tree.afterLogs cwd dir place logs).Grows
    ((tree.makeDirectories cwd dir).1.withLogs place logs) := by
  cases logs with
  | nil => exact makeDirectories_grows tree cwd dir
  | cons => exact .refl _

theorem Holds.write {after : FileTree} {result : Except Failure Path}
    (h : tree.Holds cwd dir place logs) (hslash : '/' ∉ log.name.toList)
    (hnew : log.name ∉ logs.map (·.name))
    (hwrite : log.write cwd dir (tree.afterLogs cwd dir place logs) = (after, result)) :
    result.toBool = false ∧ (tree.afterLogs cwd dir place logs).Grows after ∨
      result.toBool = true ∧ after = tree.afterLogs cwd dir place (logs ++ [log]) ∧
        tree.Holds cwd dir place (logs ++ [log]) := by
  cases hmade : (tree.makeDirectories cwd dir).2 with
  | error error =>
    cases logs with
    | cons first rest =>
      rw [h.made (List.cons_ne_nil first rest)] at hmade
      cases hmade
    | nil =>
      rw [afterLogs, Log.write_of_not_made hmade] at hwrite
      cases hwrite
      exact .inl ⟨rfl, makeDirectories_grows tree cwd dir⟩
  | ok =>
    have hordinary := Unlinked.ordinary_made hplace hplain hmade log.name
    have hfind : ((tree.makeDirectories cwd dir).1.withLogs place logs).find?
        (place ++ [Log.file log.name]) = _ := find?_withLogs_of_not_mem hnew
    rw [Ordinary, ← hfind] at hordinary
    have hhosts := h.hosts hplace hplain hmade
    rw [h.write_afterLogs hmade, Log.write_of_hosts hhosts hslash hordinary] at hwrite
    split at hwrite
    · cases hwrite
      exact .inl ⟨rfl, afterLogs_grows⟩
    · next opened hopen =>
      obtain ⟨hfits, hfile⟩ := Log.fits_of_writable hhosts hslash hordinary hopen
      rw [hfind] at hfile
      cases hwrite
      refine .inr ⟨rfl, ?_, fun _ => hmade, ?_, ?_, ?_, ?_⟩
      · rw [afterLogs_of_ne_nil (by simp), withLogs_concat]
      · simpa [or_imp, forall_and] using ⟨h.slashless, hslash⟩
      · simpa [or_imp, forall_and] using ⟨h.fits, hfits⟩
      · simpa [or_imp, forall_and] using ⟨h.files, hfile⟩
      · rw [List.map_append, List.nodup_append]
        refine ⟨h.nodup, by simp, ?_⟩
        rintro name hmem _ (_ | ⟨_, ⟨⟩⟩) rfl
        exact hnew hmem

variable {final : FileTree} (hgrows : (tree.afterLogs cwd dir place logs).Grows final)
include hgrows

theorem Holds.content? (h : tree.Holds cwd dir place logs) (hmem : log ∈ logs) :
    final.content? cwd (log.path dir) = some (Utf8.encode log.text) ∧
      final.Reaches cwd (log.path dir) (place ++ [Log.file log.name]) := by
  have hne := List.ne_nil_of_mem hmem
  have hmade := h.made hne
  rw [afterLogs_of_ne_nil hne] at hgrows
  have hhosts := (h.hosts hplace hplain hmade).keeps hgrows.keepsWays
  have hfile := hgrows.keeps (find?_withLogs h.nodup hmem)
  have hordinary : final.Ordinary (place ++ [Log.file log.name]) := by
    intro entry hentry
    rw [hfile] at hentry
    exact .inr ⟨_, (Option.some.inj hentry).symm⟩
  have hslash := h.slashless log hmem
  rw [Log.path_eq]
  refine ⟨Log.content?_of_fits hhosts hslash (h.fits log hmem) hfile, false, ?_⟩
  rw [Log.spot?_of_fits hhosts hslash (h.fits log hmem) .target hordinary, hfile]
  rfl

omit hplace hplain in
theorem find?_afterLogs_file_iff (h : ∀ log ∈ logs, other ≠ place ++ [Log.file log.name]) :
    final.find? other = some (.file content) ↔ tree.find? other = some (.file content) := by
  rw [hgrows.find?_file_iff]
  cases logs with
  | nil => rfl
  | cons first rest =>
    rw [afterLogs_of_ne_nil (List.cons_ne_nil first rest), find?_withLogs_of_ne h]
    exact (makeDirectories_grows tree cwd dir).find?_file_iff

end Holds

theorem Vacant.unlinked (h : tree.Vacant cwd dir) : tree.Unlinked cwd dir := by
  intro home hhosts name entry hentry
  rw [h home hhosts] at hentry
  cases hentry

/-- In a directory that was not there before the logs, no file has the name of another log. -/
theorem Vacant.find?_afterLogs_ne_file {logs : List Log} {name : String}
    (hvacant : tree.Vacant cwd dir)
    (hplace : (tree.makeDirectories cwd dir).2 = .ok () →
      (tree.makeDirectories cwd dir).1.Hosts cwd dir place)
    (h : tree.Holds cwd dir place logs) (hname : name ∉ logs.map (·.name))
    (hhosts : (tree.afterLogs cwd dir place logs).Hosts cwd dir other) (content : Bytes) :
    (tree.afterLogs cwd dir place logs).find? (other ++ [Log.file name]) ≠
      some (.file content) := by
  intro hfile
  by_cases hlogs : logs = []
  · subst hlogs
    have hmade : tree.makeDirectories cwd dir = (tree, .ok ()) := makeDirectories_of_hosts hhosts
    rw [afterLogs, hvacant other (by rw [hmade]; exact hhosts)] at hfile
    cases hfile
  · have hmade := h.made hlogs
    rw [afterLogs_of_ne_nil hlogs] at hhosts
    obtain rfl := hhosts.unique (h.hosts hplace hvacant.unlinked hmade)
    rw [find?_afterLogs_file_iff (.refl _), hvacant other (hplace hmade)] at hfile
    · cases hfile
    · intro log hmem heq
      have hsame : name = log.name := Log.file_injective (by simpa using heq)
      exact hname (hsame ▸ List.mem_map_of_mem hmem)

end FileTree

def keptLogs (steps : List Step) : List Log :=
  (steps.filterMap Step.deed?).filterMap Deed.log?

theorem keptLogs_cons_of_unlogged {step : Step} {steps : List Step} (h : step.log? = none) :
    keptLogs (step :: steps) = keptLogs steps := by
  cases step with
  | told | refused => rfl
  | started command capture? => cases capture? <;> rfl
  | saved | unsaved => cases h

theorem Replay.holds {tree current after : FileTree} {cwd place : Place} {dir : Path}
    {steps : List Step} {logs : List Log} (h : Replay cwd dir current steps after)
    (hplace : (tree.makeDirectories cwd dir).2 = .ok () →
      (tree.makeDirectories cwd dir).1.Hosts cwd dir place)
    (hplain : tree.Unlinked cwd dir) (hslash : ∀ name ∈ logNames steps, '/' ∉ name.toList)
    (hnodup : (logs.map (·.name) ++ logNames steps).Nodup) (hholds : tree.Holds cwd dir place logs)
    (hcurrent : current = tree.afterLogs cwd dir place logs) :
    tree.Holds cwd dir place (logs ++ keptLogs steps) ∧
      (tree.afterLogs cwd dir place (logs ++ keptLogs steps)).Grows after ∧
      ((∀ log failure, .unsaved log failure ∉ steps) →
        after = tree.afterLogs cwd dir place (logs ++ keptLogs steps)) := by
  induction h generalizing logs with
  | nil =>
    rw [keptLogs, List.filterMap_nil, List.filterMap_nil, List.append_nil, ← hcurrent]
    exact ⟨hholds, .refl _, fun _ => rfl⟩
  | other unlogged _ ih =>
    rw [logNames_cons_of_unlogged unlogged] at hslash hnodup
    rw [keptLogs_cons_of_unlogged unlogged]
    obtain ⟨hmore, hgrows, heq⟩ := ih hslash hnodup hholds hcurrent
    exact ⟨hmore, hgrows, fun hsaved =>
      heq fun log failure hmem => hsaved log failure (List.mem_cons_of_mem _ hmem)⟩
  | @saved _ _ _ path log steps write _ ih =>
    have hnames : logNames (.saved path log :: steps) = log.name :: logNames steps := rfl
    rw [hnames] at hslash hnodup
    obtain ⟨hfirst, hrest⟩ := List.forall_mem_cons.mp hslash
    rcases hholds.write hplace hplain hfirst (not_mem_of_nodup hnodup) (hcurrent ▸ write) with
      ⟨hfailed, -⟩ | ⟨-, hmade, hmore⟩
    · cases hfailed
    · obtain ⟨hall, hgrows, heq⟩ := ih hrest (by simpa using hnodup) hmore hmade
      rw [List.append_assoc] at hall hgrows heq
      exact ⟨hall, hgrows, fun hsaved =>
        heq fun log failure hmem => hsaved log failure (List.mem_cons_of_mem _ hmem)⟩
  | @unsaved _ _ log failure write =>
    have hnames : logNames [.unsaved log failure] = [log.name] := rfl
    have hkept : keptLogs [.unsaved log failure] = [] := rfl
    rw [hnames] at hslash hnodup
    rw [hkept, List.append_nil]
    refine ⟨hholds, ?_, fun hsaved => absurd List.mem_cons_self (hsaved log failure)⟩
    rcases hholds.write hplace hplain (hslash _ List.mem_cons_self) (not_mem_of_nodup hnodup)
      (hcurrent ▸ write) with ⟨-, hgrows⟩ | ⟨hwritten, -⟩
    · exact hgrows
    · cases hwritten

end SoloRun
