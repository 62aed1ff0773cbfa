import SoloRun.Proofs.Overwriting
import SoloRun.Proofs.Yields

/-!
Logs written one after the other. If each of them could be written alone, all of them can be
written in their order, whatever their names are; each stands whole in its file unless a later one
goes to the same file.
-/

namespace SoloRun
namespace FileTree

/-- The files once the logs were written in their order. -/
def archived (tree : FileTree) (cwd : Place) (dir : Path) (logs : List Log) : FileTree :=
  logs.foldl (fun tree log => (log.write cwd dir tree).1) tree

/-- Any log of one of the names could be written if it was the only one. -/
def Welcomes (tree : FileTree) (cwd : Place) (dir : Path) (names : List String) : Prop :=
  ∀ name ∈ names, ∃ path, ((⟨name, "", ""⟩ : Log).write cwd dir tree).2 = .ok path

/-- There is the directory, and each log of the names has a file that can be opened. -/
structure Receives (made : FileTree) (cwd : Place) (dir : Path) (names : List String) : Prop where
  hosts : ∃ home, made.Hosts cwd dir home
  opens : ∀ log : Log, log.name ∈ names → ∃ place, made.Opened cwd (log.path dir) place

/-- In the later tree the same files can be opened for the logs of the names. -/
structure StaysOpen (made later : FileTree) (cwd : Place) (dir : Path) (names : List String) :
    Prop where
  ways : made.KeepsWays later
  writable : ∀ log : Log, log.name ∈ names → ∀ place, made.Opened cwd (log.path dir) place →
    later.Writable place

/-- The logs go to the same file. -/
def Collide (made : FileTree) (cwd : Place) (dir : Path) (first second : Log) : Prop :=
  ∃ place, made.Opened cwd (first.path dir) place ∧ made.Opened cwd (second.path dir) place

variable {tree made later : FileTree} {cwd place : Place} {dir : Path} {names : List String}
  {log : Log} {logs : List Log}

theorem archived_concat :
    tree.archived cwd dir (logs ++ [log]) = (log.write cwd dir (tree.archived cwd dir logs)).1 := by
  simp [archived]

theorem archived_append (more : List Log) :
    tree.archived cwd dir (logs ++ more) = (tree.archived cwd dir logs).archived cwd dir more :=
  List.foldl_append

theorem Writable.insert {other : Place} {content : Bytes} (h : tree.Writable place)
    (hother : other ≠ []) : (tree.insert other (.file content)).Writable place := by
  rw [Writable, find?_insert tree hother]
  split
  · exact .inr ⟨content, rfl⟩
  · exact h

namespace StaysOpen

theorem refl (made : FileTree) : made.StaysOpen made cwd dir names :=
  ⟨.refl made, fun _ _ _ hopened => hopened.opens.writable⟩

theorem insert {content : Bytes} (h : made.StaysOpen later cwd dir names) (hplace : place ≠ [])
    (hwritable : later.Writable place) :
    made.StaysOpen (later.insert place (.file content)) cwd dir names :=
  ⟨h.ways.trans (insert_file_keepsWays hplace hwritable),
    fun log hname other hopened => (h.writable log hname other hopened).insert hplace⟩

theorem write (h : made.StaysOpen later cwd dir names) (hreceives : made.Receives cwd dir names)
    (hname : log.name ∈ names) :
    ∃ place, made.Opened cwd (log.path dir) place ∧ place ≠ [] ∧
      made.StaysOpen (later.insert place (.file (Utf8.encode log.text))) cwd dir names ∧
      log.write cwd dir later =
        (later.insert place (.file (Utf8.encode log.text)), .ok (log.path dir)) := by
  obtain ⟨home, hhosts⟩ := hreceives.hosts
  obtain ⟨place, hopened⟩ := hreceives.opens log hname
  have hwritable := h.writable log hname place hopened
  exact ⟨place, hopened, hopened.opens.ne_nil, h.insert hopened.opens.ne_nil hwritable,
    Log.write_of_opened hhosts hopened h.ways hwritable⟩

theorem archived (h : made.StaysOpen later cwd dir names) (hreceives : made.Receives cwd dir names)
    (hlogs : ∀ log ∈ logs, log.name ∈ names) :
    made.StaysOpen (later.archived cwd dir logs) cwd dir names := by
  induction logs generalizing later with
  | nil => exact h
  | cons log rest ih =>
    obtain ⟨hname, hrest⟩ := List.forall_mem_cons.mp hlogs
    obtain ⟨place, -, -, hstays, hwrite⟩ := h.write hreceives hname
    rw [FileTree.archived, List.foldl_cons, hwrite]
    exact ih hstays hrest

theorem find?_archived (h : made.StaysOpen later cwd dir names)
    (hreceives : made.Receives cwd dir names) (hlogs : ∀ log ∈ logs, log.name ∈ names)
    (hothers : ∀ log ∈ logs, ¬ made.Opened cwd (log.path dir) place) :
    (later.archived cwd dir logs).find? place = later.find? place := by
  induction logs generalizing later with
  | nil => rfl
  | cons log rest ih =>
    obtain ⟨hname, hrest⟩ := List.forall_mem_cons.mp hlogs
    obtain ⟨hother, hothers⟩ := List.forall_mem_cons.mp hothers
    obtain ⟨target, hopened, htarget, hstays, hwrite⟩ := h.write hreceives hname
    have hne : place ≠ target := by
      rintro rfl
      exact hother hopened
    have hsame := ih hstays hrest hothers
    rw [find?_insert later htarget, if_neg hne] at hsame
    rw [FileTree.archived, List.foldl_cons, hwrite]
    exact hsame

end StaysOpen

theorem Receives.content?_archived (h : made.Receives cwd dir names) {before after : List Log}
    (hlogs : ∀ other ∈ before ++ log :: after, other.name ∈ names)
    (hlast : ∀ other ∈ after, ¬ made.Collide cwd dir log other) :
    (made.archived cwd dir (before ++ log :: after)).content? cwd (log.path dir) =
      some (Utf8.encode log.text) := by
  obtain ⟨hbefore, hrest⟩ := List.forall_mem_append.mp hlogs
  obtain ⟨hname, hafter⟩ := List.forall_mem_cons.mp hrest
  have hstays := (StaysOpen.refl made).archived h hbefore
  obtain ⟨place, hopened, hplace, hwritten, hwrite⟩ := hstays.write h hname
  have hfile : (made.archived cwd dir (before ++ log :: after)).find? place =
      some (.file (Utf8.encode log.text)) := by
    rw [archived_append, archived, List.foldl_cons, hwrite]
    have hsame := hwritten.find?_archived h hafter fun other hmem hother =>
      hlast other hmem ⟨place, hopened, hother⟩
    rw [find?_insert _ hplace, if_pos rfl] at hsame
    exact hsame
  exact (hopened.reaches ((StaysOpen.refl made).archived h hlogs).ways hfile).content? hfile

theorem archived_of_made (hmade : (tree.makeDirectories cwd dir).2 = .ok ()) (hne : logs ≠ []) :
    tree.archived cwd dir logs = (tree.makeDirectories cwd dir).1.archived cwd dir logs := by
  cases logs with
  | nil => exact absurd rfl hne
  | cons log rest =>
    rw [archived, archived, List.foldl_cons, List.foldl_cons, Log.write_of_made hmade]

namespace Welcomes

variable (h : tree.Welcomes cwd dir names)
include h

theorem made_ok (hname : log.name ∈ names) : (tree.makeDirectories cwd dir).2 = .ok () := by
  obtain ⟨path, hwritten⟩ := h log.name hname
  cases hmade : (tree.makeDirectories cwd dir).2 with
  | ok => rfl
  | error error =>
    rw [Log.write_of_not_made hmade] at hwritten
    cases hwritten

variable (hproper : tree.Proper cwd)
include hproper

theorem receives (hname : log.name ∈ names) :
    (tree.makeDirectories cwd dir).1.Receives cwd dir names := by
  have hopened (name : String) (hmem : name ∈ names) : ∃ home place,
      (tree.makeDirectories cwd dir).1.Hosts cwd dir home ∧
        (tree.makeDirectories cwd dir).1.Opened cwd ((⟨name, "", ""⟩ : Log).path dir) place := by
    obtain ⟨path, hwritten⟩ := h name hmem
    rcases Log.write_cases ⟨name, "", ""⟩ dir hproper with
      ⟨error, hwrite⟩ | ⟨home, place, hhosts, hopened, -⟩
    · rw [hwrite] at hwritten
      cases hwritten
    · exact ⟨home, place, hhosts, hopened⟩
  obtain ⟨home, -, hhosts, -⟩ := hopened log.name hname
  refine ⟨⟨home, hhosts⟩, fun other hother => ?_⟩
  obtain ⟨-, place, -, hplace⟩ := hopened other.name hother
  exact ⟨place, hplace⟩

theorem takes : tree.Takes cwd dir names (tree.archived cwd dir) where
  start := rfl
  keeps logs hlogs := by
    cases logs with
    | nil => exact .refl tree
    | cons log rest =>
      have hnames : ∀ other ∈ log :: rest, other.name ∈ names := fun other hmem =>
        hlogs.subset (List.mem_map_of_mem hmem)
      have hname := hnames log List.mem_cons_self
      rw [archived_of_made (h.made_ok hname) (List.cons_ne_nil _ _)]
      exact (makeDirectories_grows tree cwd dir).keepsWays.trans
        ((StaysOpen.refl _).archived (h.receives hproper hname) hnames).ways
  write logs log hlogs := by
    have hname : log.name ∈ names := hlogs.subset (by simp)
    have hnames : ∀ other ∈ logs, other.name ∈ names := fun other hmem =>
      hlogs.subset (List.mem_append_left _ (List.mem_map_of_mem hmem))
    have hmade := h.made_ok hname
    have hstays := (StaysOpen.refl _).archived (h.receives hproper hname) hnames
    obtain ⟨place, -, -, -, hwrite⟩ := hstays.write (h.receives hproper hname) hname
    have hwritten : log.write cwd dir (tree.archived cwd dir logs) =
        log.write cwd dir ((tree.makeDirectories cwd dir).1.archived cwd dir logs) := by
      cases logs with
      | nil => exact Log.write_of_made hmade
      | cons first rest => rw [archived_of_made hmade (List.cons_ne_nil _ _)]
    rw [archived_concat, hwritten, hwrite]

theorem write_ok {before after : List Log} (hlogs : (before ++ log :: after).map (·.name) = names) :
    (log.write cwd dir (tree.archived cwd dir before)).2 = .ok (log.path dir) := by
  have hprefix : before.map (·.name) ++ [log.name] <+: names :=
    hlogs ▸ ⟨after.map (·.name), by simp⟩
  rw [(h.takes hproper).write before log hprefix]

theorem content?_archived {before after : List Log}
    (hlogs : (before ++ log :: after).map (·.name) = names)
    (hlast : ∀ other ∈ after, ¬ (tree.makeDirectories cwd dir).1.Collide cwd dir log other) :
    (tree.archived cwd dir (before ++ log :: after)).content? cwd (log.path dir) =
      some (Utf8.encode log.text) := by
  have hnames : ∀ other ∈ before ++ log :: after, other.name ∈ names := fun other hmem =>
    hlogs ▸ List.mem_map_of_mem hmem
  have hname := hnames log (by simp)
  rw [archived_of_made (h.made_ok hname) (by simp)]
  exact (h.receives hproper hname).content?_archived hnames hlast

end Welcomes

end FileTree
end SoloRun
