import Mathlib
import SoloRun.Proofs.Archive

/-!
A log written at any path: it replaces one file whole, wherever the path leads, or leaves every file
as it was. Writing it once more changes nothing.
-/

namespace SoloRun

namespace PlaceMap

variable {α : Type} {value : α}

theorem change_eq_self {name : Bytes} {f : Option α × PlaceMap α → Option α × PlaceMap α}
    {map : PlaceMap α} (hthere : map.child name ≠ (none, .empty))
    (hsame : f (map.child name) = map.child name) : map.change name f = map := by
  induction map with
  | empty => exact absurd rfl hthere
  | branch n value? under beside _ ih =>
    rw [child] at hthere hsame
    rw [change]
    split at hthere
    · next hname =>
      rw [if_pos hname] at hsame ⊢
      rw [hsame]
    · next hname =>
      rw [if_neg hname] at hsame ⊢
      rw [ih hthere hsame]

theorem insert_eq_self {map : PlaceMap α} {place : Place} (h : map.get? place = some value) :
    map.insert place value = map := by
  induction place generalizing map with
  | nil => rfl
  | cons name rest ih =>
    cases rest with
    | nil =>
      have hvalue : (map.child name).1 = some value := h
      apply change_eq_self
      · intro hnone
        rw [hnone] at hvalue
        cases hvalue
      · rw [← hvalue]
    | cons second others =>
      have hunder : (map.child name).2.get? (second :: others) = some value := h
      apply change_eq_self
      · intro hnone
        rw [hnone, get?_empty] at hunder
        cases hunder
      · rw [ih hunder]

end PlaceMap

namespace FileTree

theorem insert_eq_self {tree : FileTree} {place : Place} {entry : Entry} (hplace : place ≠ [])
    (h : tree.find? place = some entry) : tree.insert place entry = tree := by
  rw [find?, if_neg hplace] at h
  rw [insert, PlaceMap.insert_eq_self h]

/-- There are only files, directories and links, each of them in a directory, and the working
directory is one. -/
structure Proper (tree : FileTree) (cwd : Place) : Prop where
  home : tree.find? cwd = some .directory
  above : ∀ place name entry, tree.find? (place ++ [name]) = some entry →
    tree.find? place = some .directory
  kinds : ∀ place full, tree.find? place ≠ some (.device full)

variable {tree later : FileTree} {cwd place here : Place} {dir path : Path} {links : Nat}
  {names : List Bytes} {content : Bytes}

theorem empty_proper : empty.Proper [] := by
  refine ⟨rfl, ?_, ?_⟩
  · intro place name entry hentry
    simp [find?, empty, PlaceMap.get?_empty] at hentry
  · intro place full hentry
    rcases empty_ordinary place _ hentry with heq | ⟨content, heq⟩ <;> cases heq

namespace Proper

theorem dropLast (h : tree.Proper cwd) (hdir : tree.find? place = some .directory) :
    tree.find? place.dropLast = some .directory := by
  rcases List.eq_nil_or_concat place with rfl | ⟨start, name, rfl⟩
  · exact hdir
  · rw [List.concat_eq_append] at hdir ⊢
    rw [List.dropLast_concat]
    exact h.above start name _ hdir

theorem find?_start (h : tree.Proper cwd) (path : Path) :
    tree.find? (start cwd path) = some .directory := by
  rw [start]
  split
  · rfl
  · exact h.home

theorem insert (place : Place) (name : Bytes) {entry : Entry} (h : tree.Proper cwd)
    (hdir : tree.find? place = some .directory) (hfree : tree.find? (place ++ [name]) = none)
    (hentry : ∀ full, entry ≠ .device full) : (tree.insert (place ++ [name]) entry).Proper cwd where
  home := find?_insert_of_free hfree h.home
  above other last found hfound := by
    apply find?_insert_of_free hfree
    rw [find?_insert tree (by simp)] at hfound
    split at hfound
    · next heq => exact (List.append_inj_left' heq rfl).symm ▸ hdir
    · exact h.above other last found hfound
  kinds other full hfound := by
    rw [find?_insert tree (by simp)] at hfound
    split at hfound
    · exact hentry full (Option.some.inj hfound)
    · exact h.kinds other full hfound

theorem find?_of_free {last : Bytes} {ends : Bool} (h : tree.Proper cwd)
    (hhere : tree.find? here = some .directory)
    (hwalks : tree.Walks (.free place last ends) links here names) :
    tree.find? place = some .directory := by
  induction hwalks with
  | stay taken => cases taken
  | dot _ ih => exact ih hhere
  | up _ ih => exact ih (h.dropLast hhere)
  | last plain short same free => exact (List.append_inj_left' same rfl).symm ▸ hhere
  | down plain short entry _ ih => exact ih entry
  | follow plain short entry nonempty _ ih =>
    apply ih
    split
    · rfl
    · exact hhere

theorem makeDirectory (h : tree.Proper cwd) (hmade : tree.makeDirectory cwd path = .ok later) :
    later.Proper cwd := by
  cases hspot : tree.spot? cwd .entry path with
  | error error => simp [FileTree.makeDirectory, hspot, bind, Except.bind] at hmade
  | ok spot =>
    cases spot with
    | taken place ends => simp [FileTree.makeDirectory, hspot, bind, Except.bind] at hmade
    | free dir name ends =>
      obtain rfl : tree.insert (dir ++ [name]) .directory = later := by
        simpa [FileTree.makeDirectory, hspot, bind, Except.bind] using hmade
      obtain ⟨-, -, hwalks⟩ := walks_of_spot (spot?_eq_ok_iff.mp hspot).2
      have hdir := h.find?_of_free (h.find?_start path) hwalks
      exact h.insert dir name hdir hwalks.find?_free (by rintro _ ⟨⟩)

end Proper

/-- What each single directory that is made leaves true, directories that are made together do. -/
theorem makeDirectories_keeps {Keeps : FileTree → Prop}
    (hmake : ∀ tree path later, Keeps tree → tree.makeDirectory cwd path = .ok later → Keeps later)
    (h : Keeps tree) (path : Path) : Keeps (tree.makeDirectories cwd path).1 := by
  have hsettle (tree : FileTree) (path : Path) (h : Keeps tree) :
      Keeps (tree.settleDirectory cwd path).1 := by
    rw [settleDirectory]
    split
    · next hmade => exact hmake _ _ _ h hmade
    · exact h
  rw [makeDirectories]
  induction path.ancestors with
  | nil => exact h
  | cons path above ih =>
    rw [climbDirectories]
    split
    · exact h
    split
    · next hmade => exact hmake _ _ _ h hmade
    · split
      · next hclimbed =>
        rw [hclimbed] at ih
        exact hsettle _ _ ih
      · next hclimbed =>
        rw [hclimbed] at ih
        exact ih
    · exact h

theorem Proper.makeDirectories (h : tree.Proper cwd) (path : Path) :
    (tree.makeDirectories cwd path).1.Proper cwd := by
  have hmake (tree : FileTree) (path : Path) (later : FileTree) (hproper : tree.Proper cwd)
      (hmade : tree.makeDirectory cwd path = .ok later) : later.Proper cwd :=
    hproper.makeDirectory hmade
  exact makeDirectories_keeps hmake h path

/-- Nothing but a file is at the place. -/
def Writable (tree : FileTree) (place : Place) : Prop :=
  tree.find? place = none ∨ ∃ content, tree.find? place = some (.file content)

/-- The names lead to a place where a file is or can be made. -/
inductive Opens (tree : FileTree) (place : Place) : Nat → Bool → Place → List Bytes → Prop where
  | dot {links slashed here rest} (next : Opens tree place links slashed here rest) :
    Opens tree place links slashed here (Path.dot :: rest)
  | up {links slashed here rest} (next : Opens tree place links slashed here.dropLast rest) :
    Opens tree place links slashed here (Path.dots :: rest)
  | last {links here name} (plain : Plain name) (short : name.length ≤ maxName)
    (same : place = here ++ [name]) (writable : tree.Writable place) :
    Opens tree place links false here [name]
  | down {links slashed here name rest} (plain : Plain name) (short : name.length ≤ maxName)
    (open_ : ¬ (slashed = true ∧ rest = []))
    (entry : tree.find? (here ++ [name]) = some .directory)
    (next : Opens tree place links slashed (here ++ [name]) rest) :
    Opens tree place links slashed here (name :: rest)
  | follow {links slashed here name rest} {path : Path} (plain : Plain name)
    (short : name.length ≤ maxName) (open_ : ¬ (slashed = true ∧ rest = []))
    (entry : tree.find? (here ++ [name]) = some (.link path)) (nonempty : path.bytes ≠ [])
    (next : Opens tree place links (slashed || (rest.isEmpty && path.endsInSlash))
      (if path.isAbsolute then [] else here) (path.names ++ rest)) :
    Opens tree place (links + 1) slashed here (name :: rest)

section Walk

variable {slashed : Bool} {spot : Spot}

theorem opens_of_walk_of_follow (hproper : tree.Proper cwd)
    (hfollow : ∀ left, links = left + 1 → ∀ slashed here names,
      tree.find? here = some .directory →
      tree.walk .write left slashed (tree.trail here) names = .ok spot →
        tree.find? spot.place = some .directory ∨ tree.Opens spot.place left slashed here names)
    (hhere : tree.find? here = some .directory)
    (h : tree.walk .write links slashed (tree.trail here) names = .ok spot) :
    tree.find? spot.place = some .directory ∨ tree.Opens spot.place links slashed here names := by
  induction names generalizing here with
  | nil =>
    rw [walk, place_trail] at h
    cases h
    exact .inl hhere
  | cons name rest ih =>
    rw [walk_cons] at h
    split at h
    · next hdot => exact hdot ▸ (ih hhere h).imp_right .dot
    split at h
    · next hdots => exact hdots ▸ (ih (hproper.dropLast hhere) h).imp_right .up
    split at h
    · cases h
    split at h
    · cases h
    rename_i hdot hdots hopen hshort
    have plain : Plain name := ⟨hdot, hdots⟩
    have short : name.length ≤ maxName := Nat.not_lt.mp hshort
    have hopen : ¬ (slashed = true ∧ rest = []) := fun hends => hopen ⟨rfl, hends⟩
    have hlast (hrest : rest = []) : slashed = false := by
      simpa [hrest] using hopen
    split at h
    · next hentry =>
      split at h
      · next hempty =>
        cases h
        obtain rfl := List.isEmpty_iff.mp hempty
        obtain rfl := hlast rfl
        exact .inr (.last plain short rfl (.inl hentry))
      · cases h
    · next hentry => exact (ih hentry h).imp_right (.down plain short hopen hentry)
    · next path hentry =>
      split at h
      · next hends => cases hends.2
      split at h
      · cases h
      split at h
      · cases h
      · next nonempty =>
        have hstart : tree.find? (if path.isAbsolute then [] else here) = some .directory := by
          split
          · rfl
          · exact hhere
        exact (hfollow _ rfl _ _ _ hstart h).imp_right (.follow plain short hopen hentry nonempty)
    · next entry hdir hlink hentry =>
      split at h
      · next hempty =>
        cases h
        obtain rfl := List.isEmpty_iff.mp hempty
        obtain rfl := hlast rfl
        cases entry with
        | directory => exact absurd rfl hdir
        | link target => exact absurd rfl (hlink target)
        | device full => exact absurd hentry (hproper.kinds _ full)
        | file content => exact .inr (.last plain short rfl (.inr ⟨content, hentry⟩))
      · cases h

theorem opens_of_walk (hproper : tree.Proper cwd) (hhere : tree.find? here = some .directory)
    (h : tree.walk .write links slashed (tree.trail here) names = .ok spot) :
    tree.find? spot.place = some .directory ∨ tree.Opens spot.place links slashed here names := by
  -- as for `walks_of_walk`, the links left come first and the names within them
  induction links generalizing here names slashed with
  | zero =>
    apply opens_of_walk_of_follow hproper _ hhere h
    intro left heq
    cases heq
  | succ n ih =>
    apply opens_of_walk_of_follow hproper _ hhere h
    intro left heq slashed here names hhere hleft
    cases heq
    exact ih hhere hleft

namespace Opens

theorem ne_nil (h : tree.Opens place links slashed here names) : place ≠ [] := by
  induction h with
  | last plain short same writable => simp [same]
  | dot _ ih | up _ ih | down _ _ _ _ _ ih | follow _ _ _ _ _ _ ih => exact ih

theorem writable (h : tree.Opens place links slashed here names) : tree.Writable place := by
  induction h with
  | last plain short same writable => exact writable
  | dot _ ih | up _ ih | down _ _ _ _ _ ih | follow _ _ _ _ _ _ ih => exact ih

/-- The walk ends at the same place in a tree that keeps directories and links and has no more than
a file at the place. -/
theorem walk {purpose : Purpose} (hpurpose : purpose ≠ .entry)
    (h : tree.Opens place links slashed here names) (hkeeps : tree.KeepsWays later)
    (hwritable : later.Writable place) :
    ∃ spot, later.walk purpose links slashed (later.trail here) names = .ok spot ∧
      spot.place = place ∧ (later.find? place ≠ none → ∃ ends, spot = .taken place ends) := by
  induction h with
  | dot _ ih =>
    rw [walk_dot]
    exact ih
  | up _ ih =>
    rw [walk_dots]
    exact ih
  | last plain short same _ =>
    subst same
    rw [walk_cons, if_neg plain.1, if_neg plain.2, if_neg (by simp), if_neg (Nat.not_lt.mpr short)]
    rcases hwritable with hnone | ⟨content, hfile⟩
    · rw [hnone]
      exact ⟨_, rfl, rfl, fun hsome => absurd rfl hsome⟩
    · rw [hfile]
      exact ⟨_, rfl, rfl, fun _ => ⟨_, rfl⟩⟩
  | down plain short hopen entry _ ih =>
    rw [walk_directory plain short (fun hends => hopen hends.2) (hkeeps _ _ rfl entry)]
    exact ih
  | follow plain short hopen entry nonempty _ ih =>
    rw [walk_link plain short (fun hends => hopen hends.2) (hkeeps _ _ rfl entry) nonempty
      (fun hends => hpurpose hends.2)]
    exact ih

end Opens
end Walk

/-- A file is opened at the place when the path is opened for writing. -/
structure Opened (tree : FileTree) (cwd : Place) (path : Path) (place : Place) : Prop where
  plain : path.hasNul = false
  nonempty : path.bytes ≠ []
  short : path.bytes.length < maxPath
  opens : tree.Opens place maxLinks path.endsInSlash (start cwd path) path.names

theorem opened_of_writable {old? : Option Entry} (hproper : tree.Proper cwd)
    (h : tree.writable cwd path = .ok (place, old?)) :
    tree.Opened cwd path place ∧ old? = tree.find? place := by
  have hopened {spot : Spot} (hspot : tree.spot? cwd .write path = .ok spot)
      (hdir : tree.find? spot.place ≠ some .directory) : tree.Opened cwd path spot.place := by
    obtain ⟨hnul, hspot⟩ := spot?_eq_ok_iff.mp hspot
    obtain ⟨hnonempty, hshort, -⟩ := walks_of_spot hspot
    rw [spot_eq, if_neg hnonempty, if_neg (Nat.not_le.mpr hshort)] at hspot
    exact ⟨hnul, hnonempty, hshort,
      (opens_of_walk hproper (hproper.find?_start path) hspot).resolve_left hdir⟩
  cases hspot : tree.spot? cwd .write path with
  | error error => simp [FileTree.writable, hspot, bind, Except.bind] at h
  | ok spot =>
    cases spot with
    | free dir name ends =>
      obtain ⟨rfl, rfl⟩ : dir ++ [name] = place ∧ none = old? := by
        simpa [FileTree.writable, hspot, bind, Except.bind] using h
      have hfree := (walks_of_spot (spot?_eq_ok_iff.mp hspot).2).2.2.find?_free
      exact ⟨hopened hspot (by simp [Spot.place, hfree]), hfree.symm⟩
    | taken target ends =>
      by_cases hdir : tree.find? target = some .directory
      · simp [FileTree.writable, hspot, hdir, bind, Except.bind] at h
      · obtain ⟨rfl, rfl⟩ : target = place ∧ tree.find? target = old? := by
          simpa [FileTree.writable, hspot, hdir, bind, Except.bind] using h
        exact ⟨hopened hspot hdir, rfl⟩

namespace Opened

theorem spot? (purpose : Purpose) (hpurpose : purpose ≠ .entry) (h : tree.Opened cwd path place)
    (hkeeps : tree.KeepsWays later) (hwritable : later.Writable place) :
    ∃ spot, later.spot? cwd purpose path = .ok spot ∧ spot.place = place ∧
      (later.find? place ≠ none → ∃ ends, spot = .taken place ends) := by
  obtain ⟨spot, hwalk, hends⟩ := h.opens.walk hpurpose hkeeps hwritable
  refine ⟨spot, spot?_eq_ok_iff.mpr ⟨h.plain, ?_⟩, hends⟩
  rw [spot_eq, if_neg h.nonempty, if_neg (Nat.not_le.mpr h.short), hwalk]

theorem writable (h : tree.Opened cwd path place) (hkeeps : tree.KeepsWays later)
    (hwritable : later.Writable place) :
    later.writable cwd path = .ok (place, later.find? place) := by
  obtain ⟨spot, hspot, hplace, htaken⟩ := h.spot? .write nofun hkeeps hwritable
  have hdir : later.find? place ≠ some .directory := by
    rcases hwritable with hnone | ⟨content, hfile⟩
    · simp [hnone]
    · simp [hfile]
  cases spot with
  | free dir name ends =>
    have hnone : later.find? place = none := by
      cases hfound : later.find? place with
      | none => rfl
      | some entry =>
        obtain ⟨_, heq⟩ := htaken (by simp [hfound])
        cases heq
    obtain rfl : dir ++ [name] = place := hplace
    simp [FileTree.writable, hspot, hnone, bind, Except.bind]
  | taken target ends =>
    obtain rfl : target = place := hplace
    simp [FileTree.writable, hspot, hdir, bind, Except.bind]

theorem reaches (h : tree.Opened cwd path place) (hkeeps : tree.KeepsWays later)
    (hfile : later.find? place = some (.file content)) : later.Reaches cwd path place := by
  obtain ⟨spot, hspot, -, htaken⟩ := h.spot? .target nofun hkeeps (.inr ⟨_, hfile⟩)
  obtain ⟨ends, rfl⟩ := htaken (by simp [hfile])
  exact ⟨ends, hspot⟩

end Opened

theorem Reaches.content? (h : tree.Reaches cwd path place)
    (hfile : tree.find? place = some (.file content)) : tree.content? cwd path = some content := by
  obtain ⟨ends, hspot⟩ := h
  simp [FileTree.content?, hspot, hfile]

theorem insert_file_keepsWays (hplace : place ≠ []) (hwritable : tree.Writable place) :
    tree.KeepsWays (tree.insert place (.file content)) := by
  intro other entry hway hentry
  rw [find?_insert tree hplace, if_neg]
  · exact hentry
  · rintro rfl
    rcases hwritable with hnone | ⟨old, hfile⟩
    · rw [hnone] at hentry
      cases hentry
    · rw [hfile] at hentry
      cases hentry
      cases hway

theorem Opened.writeFile (h : tree.Opened cwd path place) (hkeeps : tree.KeepsWays later)
    (hwritable : later.Writable place) (content : Bytes) :
    later.writeFile cwd path content = (later.insert place (.file content), .ok ()) := by
  rw [FileTree.writeFile, h.writable hkeeps hwritable]
  rcases hwritable with hnone | ⟨old, hfile⟩
  · rw [hnone]
  · rw [hfile]

end FileTree

namespace Log

open FileTree

variable {tree later : FileTree} {cwd home place : Place} {dir : Path} {log : Log}

theorem write_of_opened (hhosts : tree.Hosts cwd dir home)
    (hopened : tree.Opened cwd (log.path dir) place) (hkeeps : tree.KeepsWays later)
    (hwritable : later.Writable place) :
    log.write cwd dir later =
      (later.insert place (.file (Utf8.encode log.text)), .ok (log.path dir)) := by
  rw [write, makeDirectories_of_hosts (hhosts.keeps hkeeps)]
  simp only [hopened.writeFile hkeeps hwritable]

theorem write_cases (log : Log) (dir : Path) (hproper : tree.Proper cwd) :
    (∃ error : FileError, log.write cwd dir tree =
        ((tree.makeDirectories cwd dir).1, .error (.log (log.path dir) error.message))) ∨
      ∃ home place, (tree.makeDirectories cwd dir).1.Hosts cwd dir home ∧
        (tree.makeDirectories cwd dir).1.Opened cwd (log.path dir) place ∧
        log.write cwd dir tree =
          ((tree.makeDirectories cwd dir).1.insert place (.file (Utf8.encode log.text)),
            .ok (log.path dir)) := by
  cases hmade : (tree.makeDirectories cwd dir).2 with
  | error error => exact .inl ⟨error, write_of_not_made hmade⟩
  | ok =>
    obtain ⟨home, hhosts⟩ := makeDirectories_ok hmade
    rw [write_of_made hmade]
    cases hopen : (tree.makeDirectories cwd dir).1.writable cwd (log.path dir) with
    | error error =>
      refine .inl ⟨error, ?_⟩
      rw [write, makeDirectories_of_hosts hhosts]
      simp only [writeFile, hopen]
    | ok opened =>
      obtain ⟨hopened, -⟩ := opened_of_writable (hproper.makeDirectories dir) hopen
      exact .inr ⟨home, opened.1, hhosts, hopened,
        write_of_opened hhosts hopened (.refl _) hopened.opens.writable⟩

/-- A log that is written is whole in one file, wherever its path leads, over whatever was there,
and no other file is touched; to write it again changes nothing. A log that is not written leaves
every file as it was and at most some new directories. -/
theorem write_replaces_one_file_or_none (tree : FileTree) (cwd : Place) (dir : Path) (log : Log)
    (hproper : tree.Proper cwd) (hdir : dir.bytes ≠ []) :
    let path := dir.join (Path.ofString (log.name ++ ".log"))
    let gap := if log.header.toList.getLast? = some '\n' then "" else "\n"
    let after := (log.write cwd dir tree).1
    (∀ written, (log.write cwd dir tree).2 = .ok written →
      written = path ∧
        after.content? cwd path = some (Utf8.encode (log.header ++ gap ++ log.body)) ∧
        after.isDirectory cwd dir = true ∧
        (∃ place, after.Reaches cwd path place ∧ ∀ other, other ≠ place →
          after.find? other = tree.find? other ∨
            tree.find? other = none ∧ after.find? other = some .directory) ∧
        log.write cwd dir after = (after, .ok path)) ∧
      ∀ failure, (log.write cwd dir tree).2 = .error failure →
        (∃ reason, failure = .log path reason) ∧
          (∀ place content, after.find? place = some (.file content) ↔
            tree.find? place = some (.file content)) ∧
          tree.Grows after := by
  intro path gap after
  have hgrows := makeDirectories_grows tree cwd dir
  rcases write_cases log dir hproper with ⟨error, hwrite⟩ | ⟨home, place, hhosts, hopened, hwrite⟩
  · have hafter : after = (tree.makeDirectories cwd dir).1 := congrArg Prod.fst hwrite
    rw [hwrite]
    refine ⟨nofun, ?_⟩
    rintro _ ⟨⟩
    rw [hafter]
    exact ⟨⟨_, rfl⟩, fun _ _ => hgrows.find?_file_iff, hgrows⟩
  · have hafter : after = (tree.makeDirectories cwd dir).1.insert place
        (.file (Utf8.encode log.text)) := congrArg Prod.fst hwrite
    have hplace := hopened.opens.ne_nil
    have hkeeps : (tree.makeDirectories cwd dir).1.KeepsWays after :=
      hafter ▸ insert_file_keepsWays hplace hopened.opens.writable
    have hfile : after.find? place = some (.file (Utf8.encode log.text)) := by
      rw [hafter, find?_insert _ hplace, if_pos rfl]
    have hreaches := hopened.reaches hkeeps hfile
    rw [hwrite]
    refine ⟨?_, nofun⟩
    rintro _ ⟨⟩
    refine ⟨rfl, hreaches.content? hfile, ?_, ⟨place, hreaches, ?_⟩, ?_⟩
    · obtain ⟨hnul, hdirectory⟩ := (hhosts.keeps hkeeps).resolve_left fun hempty => hdir hempty.1
      simp [isDirectory, hnul, hdirectory, Except.toBool]
    · intro other hother
      rw [hafter, find?_insert _ hplace, if_neg hother]
      exact hgrows other
    · rw [write_of_opened hhosts hopened hkeeps (.inr ⟨_, hfile⟩), insert_eq_self hplace hfile]
      rfl

def logsDirectory : FileTree :=
  FileTree.empty.insert [Utf8.encode "logs"] .directory

/-- A link stands for the log `now`, and a file that an earlier run left is where it leads. -/
def linkedLog : FileTree :=
  (logsDirectory.insert ([Utf8.encode "logs"] ++ [file "now"])
    (.link (Path.ofString "../old"))).insert ([] ++ [Utf8.encode "old"])
      (.file (Utf8.encode "an earlier and longer log"))

theorem linkedLog_proper : linkedLog.Proper [] := by
  have hlogs : logsDirectory.Proper [] :=
    empty_proper.insert [] (Utf8.encode "logs") rfl rfl (by rintro _ ⟨⟩)
  have hdir : logsDirectory.find? [Utf8.encode "logs"] = some .directory := by cbv
  have hfree : logsDirectory.find? ([Utf8.encode "logs"] ++ [file "now"]) = none := by cbv
  have hlink : (logsDirectory.insert ([Utf8.encode "logs"] ++ [file "now"])
      (.link (Path.ofString "../old"))).Proper [] := hlogs.insert _ _ hdir hfree (by rintro _ ⟨⟩)
  exact hlink.insert [] (Utf8.encode "old") rfl (by cbv) (by rintro _ ⟨⟩)

theorem linkedLog_opened : linkedLog.Opened [] ((Path.ofString "/logs").join ⟨file "now"⟩)
    [Utf8.encode "old"] := by
  have hopen : linkedLog.writable [] ((Path.ofString "/logs").join ⟨file "now"⟩) =
      .ok ([Utf8.encode "old"], some (.file (Utf8.encode "an earlier and longer log"))) := by cbv
  exact (opened_of_writable linkedLog_proper hopen).1

theorem write_through_link_to_longer_file :
    let dir := Path.ofString "/logs"
    let log : Log := ⟨"now", "Started", "all passed"⟩
    let after := (log.write [] dir linkedLog).1
    linkedLog.Proper [] ∧ dir.bytes ≠ [] ∧
      after.content? [] (dir.join (Path.ofString ("now" ++ ".log"))) =
        some (Utf8.encode ("Started" ++ "\n" ++ "all passed")) ∧
      log.write [] dir after = (after, .ok (dir.join (Path.ofString ("now" ++ ".log")))) := by
  intro dir log after
  have hdir : dir.bytes ≠ [] := by decide
  have hhosts : linkedLog.Hosts [] dir [Utf8.encode "logs"] := .inr ⟨by decide, by cbv⟩
  have hwritten : log.write [] dir linkedLog = _ :=
    write_of_opened hhosts linkedLog_opened (.refl linkedLog) linkedLog_opened.opens.writable
  obtain ⟨-, hcontent, -, -, hagain⟩ :=
    (write_replaces_one_file_or_none linkedLog [] dir log linkedLog_proper hdir).1 _
      (congrArg Prod.snd hwritten)
  rw [if_neg (by decide)] at hcontent
  exact ⟨linkedLog_proper, hdir, hcontent, hagain⟩

end Log
end SoloRun
