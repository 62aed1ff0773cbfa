import SoloRun.Proofs.Directories
import SoloRun.Proofs.Names

/-!
The file of a log: a directory that hosts logs takes each under the log's own name, if the name can
be written at all and no link stands in its place.
-/

namespace SoloRun

namespace FileTree

variable {tree : FileTree} {cwd place : Place} {dir : Path} {file : Bytes}

theorem Hosts.walk_join (h : tree.Hosts cwd dir place) (hname : Path.IsName file)
    (purpose : Purpose) :
    ∃ left, tree.walk purpose maxLinks (dir.join ⟨file⟩).endsInSlash
        (tree.trail (start cwd (dir.join ⟨file⟩))) (dir.join ⟨file⟩).names =
      tree.walk purpose left false (tree.trail place) [file] := by
  rw [Path.names_join dir hname, Path.endsInSlash_join dir hname, start,
    Path.isAbsolute_join dir hname]
  rcases h with ⟨hempty, rfl⟩ | ⟨-, hdir⟩
  · exact ⟨maxLinks, by simp [Path.names, Path.isAbsolute, hempty, cut_nil]⟩
  · exact (directory_eq_ok_iff.mp hdir).2.2.1.walk_concat purpose false file

theorem Hosts.spot?_join (h : tree.Hosts cwd dir place) (hname : Path.IsName file)
    (plain : Plain file) (purpose : Purpose)
    (hlink : ∀ path, tree.find? (place ++ [file]) ≠ some (.link path)) :
    tree.spot? cwd purpose (dir.join ⟨file⟩) =
      if (dir.join ⟨file⟩).hasNul then .error .nulByte
      else if maxPath ≤ (dir.join ⟨file⟩).bytes.length ∨ maxName < file.length then
        .error (.os .nameTooLong)
      else if tree.find? (place ++ [file]) = none then .ok (.free place file false)
      else .ok (.taken (place ++ [file]) false) := by
  obtain ⟨left, hwalk⟩ := h.walk_join hname purpose
  obtain ⟨before, hbytes, -⟩ := Path.bytes_join dir hname
  have hnonempty : (dir.join ⟨file⟩).bytes ≠ [] := by simp [hbytes, hname.1]
  rw [spot?]
  split
  · rfl
  rw [spot_eq, if_neg hnonempty, hwalk]
  by_cases hlong : maxPath ≤ (dir.join ⟨file⟩).bytes.length
  · simp [hlong]
  by_cases hwide : maxName < file.length
  · simp [walk_cons, plain.1, plain.2, hlong, hwide]
  rw [if_neg hlong, if_neg (not_or.mpr ⟨hlong, hwide⟩), walk_cons, if_neg plain.1, if_neg plain.2,
    if_neg (by simp), if_neg hwide]
  cases hentry : tree.find? (place ++ [file]) with
  | none => simp
  | some entry =>
    cases entry with
    | directory => simp [walk, place_trail]
    | link path => exact absurd hentry (hlink path)
    | file content | device full => simp

theorem Hosts.writable_join (h : tree.Hosts cwd dir place) (hname : Path.IsName file)
    (plain : Plain file) (hlink : ∀ path, tree.find? (place ++ [file]) ≠ some (.link path)) :
    tree.writable cwd (dir.join ⟨file⟩) =
      if (dir.join ⟨file⟩).hasNul then .error .nulByte
      else if maxPath ≤ (dir.join ⟨file⟩).bytes.length ∨ maxName < file.length then
        .error (.os .nameTooLong)
      else if tree.find? (place ++ [file]) = some .directory then .error (.os .isDirectory)
      else .ok (place ++ [file], tree.find? (place ++ [file])) := by
  rw [writable]
  rw [h.spot?_join hname plain .write hlink]
  split
  · rfl
  split
  · rfl
  split
  · next hfree => simp [hfree, bind, Except.bind]
  · simp [bind, Except.bind]

def Ordinary (tree : FileTree) (place : Place) : Prop :=
  ∀ entry, tree.find? place = some entry → entry = .directory ∨ ∃ content, entry = .file content

theorem Ordinary.not_link (h : tree.Ordinary place) (path : Path) :
    tree.find? place ≠ some (.link path) := by
  intro hlink
  rcases h _ hlink with heq | ⟨content, heq⟩ <;> cases heq

theorem Ordinary.grows {later : FileTree} (h : tree.Ordinary place) (hgrows : tree.Grows later) :
    later.Ordinary place := by
  intro entry hentry
  rcases hgrows place with heq | ⟨-, hdir⟩
  · exact h entry (heq ▸ hentry)
  · rw [hdir] at hentry
    exact .inl (Option.some.inj hentry).symm

theorem Hosts.of_writable_join {opened : Place} {old? : Option Entry} (h : tree.Hosts cwd dir place)
    (hname : Path.IsName file) (plain : Plain file)
    (hordinary : tree.Ordinary (place ++ [file]))
    (hok : tree.writable cwd (dir.join ⟨file⟩) = .ok (opened, old?)) :
    opened = place ++ [file] ∧ old? = tree.find? opened ∧ old? ≠ some .directory := by
  rw [h.writable_join hname plain hordinary.not_link] at hok
  split at hok
  · cases hok
  split at hok
  · cases hok
  split at hok
  · cases hok
  · next hentry =>
    cases hok
    exact ⟨rfl, rfl, hentry⟩

end FileTree

def Log.file (name : String) : Bytes :=
  Utf8.encode (name ++ ".log")

namespace Log

open FileTree

theorem path_eq (dir : Path) (log : Log) : log.path dir = dir.join ⟨file log.name⟩ := rfl

theorem file_injective {first second : String} (h : file first = file second) : first = second := by
  have happend := Utf8.encode_injective h
  rwa [String.append_left_inj] at happend

theorem four_le_length_file (name : String) : 4 ≤ (file name).length := by
  have hlog : (Utf8.encode ".log").length = 4 := by decide
  rw [file, Utf8.encode_append, List.length_append, hlog]
  exact Nat.le_add_left _ _

theorem file_plain (name : String) : Plain (file name) := by
  have hlength := four_le_length_file name
  constructor <;> intro h <;> rw [h] at hlength <;> exact absurd hlength (by decide)

theorem file_isName {name : String} (h : '/' ∉ name.toList) : Path.IsName (file name) := by
  constructor
  · intro hempty
    have hlength := four_le_length_file name
    rw [hempty] at hlength
    exact absurd hlength (by decide)
  · intro hslash
    have hmem := Utf8.mem_of_mem_encode hslash (by decide)
    rw [String.toList_append, List.mem_append] at hmem
    rcases hmem with hmem | hmem
    · exact h hmem
    · exact absurd hmem (by decide)

variable {tree : FileTree} {cwd place : Place} {dir : Path} {log : Log}

theorem write_of_made (h : (tree.makeDirectories cwd dir).2 = .ok ()) :
    log.write cwd dir tree = log.write cwd dir (tree.makeDirectories cwd dir).1 := by
  obtain ⟨place, hhosts⟩ := makeDirectories_ok h
  have hmade : tree.makeDirectories cwd dir = ((tree.makeDirectories cwd dir).1, .ok ()) := by
    rw [← h]
  rw [write, hmade, write, makeDirectories_of_hosts hhosts]

theorem write_of_not_made {error : FileError}
    (h : (tree.makeDirectories cwd dir).2 = .error error) :
    log.write cwd dir tree =
      ((tree.makeDirectories cwd dir).1, .error (.log (log.path dir) error.message)) := by
  have hmade : tree.makeDirectories cwd dir =
      ((tree.makeDirectories cwd dir).1, .error error) := by
    rw [← h]
  rw [write, hmade]

theorem write_of_hosts (h : tree.Hosts cwd dir place) (hslash : '/' ∉ log.name.toList)
    (hordinary : tree.Ordinary (place ++ [file log.name])) :
    log.write cwd dir tree =
      match tree.writable cwd (log.path dir) with
      | .error error => (tree, .error (.log (log.path dir) error.message))
      | .ok _ => (tree.insert (place ++ [file log.name]) (.file (Utf8.encode log.text)),
        .ok (log.path dir)) := by
  rw [write, makeDirectories_of_hosts h]
  simp only [writeFile]
  cases hopen : tree.writable cwd (log.path dir) with
  | error error => rfl
  | ok opened =>
    obtain ⟨opened, old?⟩ := opened
    obtain ⟨rfl, rfl, hdir⟩ :=
      h.of_writable_join (file_isName hslash) (file_plain log.name) hordinary hopen
    cases hold : tree.find? (place ++ [file log.name]) with
    | none => rfl
    | some entry =>
      rcases hordinary entry hold with rfl | ⟨content, rfl⟩
      · exact absurd hold hdir
      · rfl

end Log
end SoloRun
