import SoloRun.Proofs.LogFile

/-!
The files after logs of different names were written one by one: each is found at its own name, and
the next one can be written if it could have been written alone.
-/

namespace SoloRun

namespace FileTree

def content? (tree : FileTree) (cwd : Place) (path : Path) : Option Bytes :=
  match tree.spot? cwd .target path with
  | .ok (.taken place _) =>
    match tree.find? place with
    | some (.file content) => some content
    | _ => none
  | _ => none

def withLogs (tree : FileTree) (place : Place) (logs : List Log) : FileTree :=
  logs.foldl (fun tree log =>
    tree.insert (place ++ [Log.file log.name]) (.file (Utf8.encode log.text))) tree

variable {tree : FileTree} {place other : Place} {log : Log} {logs : List Log}

theorem withLogs_concat :
    tree.withLogs place (logs ++ [log]) = (tree.withLogs place logs).insert
      (place ++ [Log.file log.name]) (.file (Utf8.encode log.text)) := by
  simp [withLogs]

theorem find?_withLogs_of_ne (h : ∀ log ∈ logs, other ≠ place ++ [Log.file log.name]) :
    (tree.withLogs place logs).find? other = tree.find? other := by
  induction logs generalizing tree with
  | nil => rfl
  | cons first rest ih =>
    obtain ⟨hfirst, hrest⟩ := List.forall_mem_cons.mp h
    exact (ih hrest).trans (by rw [find?_insert tree (by simp), if_neg hfirst])

theorem find?_withLogs_of_not_mem {name : String} (h : name ∉ logs.map (·.name)) :
    (tree.withLogs place logs).find? (place ++ [Log.file name]) =
      tree.find? (place ++ [Log.file name]) := by
  refine find?_withLogs_of_ne fun log hmem heq => h ?_
  have hsame : name = log.name := Log.file_injective (by simpa using heq)
  exact hsame ▸ List.mem_map_of_mem hmem

theorem find?_withLogs (hnodup : (logs.map (·.name)).Nodup) (hmem : log ∈ logs) :
    (tree.withLogs place logs).find? (place ++ [Log.file log.name]) =
      some (.file (Utf8.encode log.text)) := by
  induction logs generalizing tree with
  | nil => cases hmem
  | cons first rest ih =>
    obtain ⟨hnew, hrest⟩ := List.nodup_cons.mp hnodup
    rcases List.mem_cons.mp hmem with rfl | hmem
    · refine (find?_withLogs_of_not_mem hnew).trans ?_
      rw [find?_insert tree (by simp), if_pos rfl]
    · exact ih hrest hmem

theorem withLogs_keepsWays (h : ∀ log ∈ logs, ∀ entry,
      tree.find? (place ++ [Log.file log.name]) = some entry → entry.isWay = false) :
    tree.KeepsWays (tree.withLogs place logs) := by
  intro other entry hway hentry
  rw [find?_withLogs_of_ne]
  · exact hentry
  · rintro log hmem rfl
    rw [h log hmem entry hentry] at hway
    cases hway

end FileTree

namespace Log

open FileTree

def Fits (dir : Path) (name : String) : Prop :=
  (dir.join ⟨file name⟩).hasNul = false ∧ (dir.join ⟨file name⟩).bytes.length < maxPath ∧
    (file name).length ≤ maxName

variable {tree : FileTree} {cwd place : Place} {dir : Path} {name : String}

theorem spot?_of_fits (hhosts : tree.Hosts cwd dir place) (hslash : '/' ∉ name.toList)
    (hfits : Fits dir name) (purpose : Purpose)
    (hordinary : tree.Ordinary (place ++ [file name])) :
    tree.spot? cwd purpose (dir.join ⟨file name⟩) =
      if tree.find? (place ++ [file name]) = none then .ok (.free place (file name) false)
      else .ok (.taken (place ++ [file name]) false) := by
  obtain ⟨hnul, hshort, hnarrow⟩ := hfits
  rw [hhosts.spot?_join (file_isName hslash) (file_plain name) purpose hordinary.not_link,
    if_neg (by simp [hnul]), if_neg (by omega)]

theorem writable_of_fits (hhosts : tree.Hosts cwd dir place) (hslash : '/' ∉ name.toList)
    (hfits : Fits dir name) (hordinary : tree.Ordinary (place ++ [file name]))
    (hdir : tree.find? (place ++ [file name]) ≠ some .directory) :
    ∃ opened, tree.writable cwd (dir.join ⟨file name⟩) = .ok opened := by
  obtain ⟨hnul, hshort, hnarrow⟩ := hfits
  rw [hhosts.writable_join (file_isName hslash) (file_plain name) hordinary.not_link,
    if_neg (by simp [hnul]), if_neg (by omega), if_neg hdir]
  exact ⟨_, rfl⟩

theorem fits_of_writable {opened : Place × Option Entry} (hhosts : tree.Hosts cwd dir place)
    (hslash : '/' ∉ name.toList) (hordinary : tree.Ordinary (place ++ [file name]))
    (h : tree.writable cwd (dir.join ⟨file name⟩) = .ok opened) :
    Fits dir name ∧ tree.find? (place ++ [file name]) ≠ some .directory := by
  rw [hhosts.writable_join (file_isName hslash) (file_plain name) hordinary.not_link] at h
  split at h
  · cases h
  split at h
  · cases h
  split at h
  · cases h
  · next hnul hlengths hdir =>
    exact ⟨⟨by simpa using hnul, by omega, by omega⟩, hdir⟩

theorem content?_of_fits {content : Bytes} (hhosts : tree.Hosts cwd dir place)
    (hslash : '/' ∉ name.toList) (hfits : Fits dir name)
    (hfile : tree.find? (place ++ [file name]) = some (.file content)) :
    tree.content? cwd (dir.join ⟨file name⟩) = some content := by
  have hordinary : tree.Ordinary (place ++ [file name]) := by
    intro entry hentry
    rw [hfile] at hentry
    exact .inr ⟨content, (Option.some.inj hentry).symm⟩
  rw [content?, spot?_of_fits hhosts hslash hfits .target hordinary, hfile]
  simp [hfile]

end Log

namespace FileTree

/-- Each log with one of the names can be written alone, and where it goes is neither a link nor a
device. -/
structure Accepts (tree : FileTree) (cwd : Place) (dir : Path) (names : List String) : Prop where
  writes : ∀ log : Log, log.name ∈ names → ∃ path, (log.write cwd dir tree).2 = .ok path
  ordinary : ∀ place, (tree.makeDirectories cwd dir).1.Hosts cwd dir place →
    ∀ name ∈ names, tree.Ordinary (place ++ [Log.file name])

def afterLogs (tree : FileTree) (cwd : Place) (dir : Path) (place : Place) : List Log → FileTree
  | [] => tree
  | logs => (tree.makeDirectories cwd dir).1.withLogs place logs

variable {tree : FileTree} {cwd place : Place} {dir : Path} {names : List String} {name : String}

theorem afterLogs_of_ne_nil {logs : List Log} (h : logs ≠ []) :
    tree.afterLogs cwd dir place logs = (tree.makeDirectories cwd dir).1.withLogs place logs := by
  cases logs with
  | nil => exact absurd rfl h
  | cons => rfl

namespace Accepts

theorem made (h : tree.Accepts cwd dir names) (hname : name ∈ names) :
    (tree.makeDirectories cwd dir).2 = .ok () := by
  obtain ⟨path, hpath⟩ := h.writes ⟨name, "", ""⟩ hname
  cases hmade : (tree.makeDirectories cwd dir).2 with
  | ok => rfl
  | error error =>
    rw [Log.write_of_not_made hmade] at hpath
    cases hpath

theorem exists_place (h : tree.Accepts cwd dir names) :
    ∃ place, names ≠ [] → (tree.makeDirectories cwd dir).1.Hosts cwd dir place := by
  cases names with
  | nil => exact ⟨[], fun hne => absurd rfl hne⟩
  | cons name rest =>
    obtain ⟨place, hhosts⟩ := makeDirectories_ok (h.made List.mem_cons_self)
    exact ⟨place, fun _ => hhosts⟩

variable (hhosts : (tree.makeDirectories cwd dir).1.Hosts cwd dir place)
include hhosts

theorem ordinary_made (h : tree.Accepts cwd dir names) (hname : name ∈ names) :
    (tree.makeDirectories cwd dir).1.Ordinary (place ++ [Log.file name]) :=
  (h.ordinary place hhosts name hname).grows (makeDirectories_grows tree cwd dir)

theorem fits (h : tree.Accepts cwd dir names) (hname : name ∈ names) (hslash : '/' ∉ name.toList) :
    Log.Fits dir name ∧
      (tree.makeDirectories cwd dir).1.find? (place ++ [Log.file name]) ≠ some .directory := by
  obtain ⟨path, hpath⟩ := h.writes ⟨name, "", ""⟩ hname
  rw [Log.write_of_made (h.made hname),
    Log.write_of_hosts hhosts hslash (h.ordinary_made hhosts hname)] at hpath
  split at hpath
  · cases hpath
  · next opened hopen =>
    exact Log.fits_of_writable hhosts hslash (h.ordinary_made hhosts hname) hopen

theorem withLogs_keepsWays (h : tree.Accepts cwd dir names)
    (hslash : ∀ name ∈ names, '/' ∉ name.toList) {logs : List Log}
    (hlogs : ∀ log ∈ logs, log.name ∈ names) :
    (tree.makeDirectories cwd dir).1.KeepsWays
      ((tree.makeDirectories cwd dir).1.withLogs place logs) := by
  refine FileTree.withLogs_keepsWays fun log hmem entry hentry => ?_
  have hname := hlogs log hmem
  have hdir := (h.fits hhosts hname (hslash _ hname)).2
  rcases h.ordinary_made hhosts hname entry hentry with rfl | ⟨content, rfl⟩
  · exact absurd hentry hdir
  · rfl

theorem write (h : tree.Accepts cwd dir names) (hslash : ∀ name ∈ names, '/' ∉ name.toList)
    {logs : List Log} {log : Log} (hlogs : ∀ log ∈ logs, log.name ∈ names)
    (hname : log.name ∈ names) (hnew : log.name ∉ logs.map (·.name)) :
    log.write cwd dir (tree.afterLogs cwd dir place logs) =
      (tree.afterLogs cwd dir place (logs ++ [log]), .ok (log.path dir)) := by
  have hfind : ((tree.makeDirectories cwd dir).1.withLogs place logs).find?
      (place ++ [Log.file log.name]) = _ := find?_withLogs_of_not_mem hnew
  have hkeeps := hhosts.keeps (h.withLogs_keepsWays hhosts hslash hlogs)
  obtain ⟨hfits, hdir⟩ := h.fits hhosts hname (hslash _ hname)
  have hordinary := h.ordinary_made hhosts hname
  rw [Ordinary] at hordinary
  rw [← hfind] at hdir hordinary
  obtain ⟨opened, hopen⟩ := Log.writable_of_fits hkeeps (hslash _ hname) hfits hordinary hdir
  have hwrite : log.write cwd dir ((tree.makeDirectories cwd dir).1.withLogs place logs) =
      (tree.afterLogs cwd dir place (logs ++ [log]), .ok (log.path dir)) := by
    rw [Log.write_of_hosts hkeeps (hslash _ hname) hordinary, Log.path_eq, hopen,
      afterLogs_of_ne_nil (by simp), withLogs_concat]
  cases logs with
  | nil => exact (Log.write_of_made (h.made hname)).trans hwrite
  | cons => exact hwrite

omit hhosts in
theorem afterLogs_keepsWays (h : tree.Accepts cwd dir names)
    (hslash : ∀ name ∈ names, '/' ∉ name.toList)
    (hplace : names ≠ [] → (tree.makeDirectories cwd dir).1.Hosts cwd dir place) {logs : List Log}
    (hlogs : ∀ log ∈ logs, log.name ∈ names) :
    tree.KeepsWays (tree.afterLogs cwd dir place logs) := by
  cases logs with
  | nil => exact .refl tree
  | cons log rest =>
    have hhosts := hplace (List.ne_nil_of_mem (hlogs log List.mem_cons_self))
    exact (makeDirectories_grows tree cwd dir).keepsWays.trans
      (h.withLogs_keepsWays hhosts hslash hlogs)

end Accepts
end FileTree
end SoloRun
