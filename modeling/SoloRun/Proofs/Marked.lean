import Mathlib
import SoloRun.Proofs.OneLine

/-!
Which lines of a listing give a name: those that end in the marker once the blanks around them are
gone. Listings put one under the other give the names of both, and names written with the marker and
any blanks around them are read back.
-/

namespace SoloRun

namespace Blank

def Blanks (text : List Char) : Prop :=
  ∀ c ∈ text, isBlank c = true

def Trimmed (text : List Char) : Prop :=
  (∀ c ∈ text.head?, isBlank c = false) ∧ ∀ c ∈ text.getLast?, isBlank c = false

variable {left right core text : List Char}

theorem blanks_return : Blanks ['\r'] := by
  intro c hmem
  obtain rfl := List.mem_singleton.mp hmem
  decide

theorem trimStart_append (h : Blanks left) : trimStart (left ++ text) = trimStart text :=
  List.dropWhile_append_of_pos h

theorem trimStart_eq_self (h : ∀ c ∈ text.head?, isBlank c = false) : trimStart text = text := by
  cases text with
  | nil => rfl
  | cons c rest => exact List.dropWhile_cons_of_neg (by simp [h c rfl])

theorem exists_blanks_trimStart (text : List Char) :
    ∃ left, Blanks left ∧ text = left ++ trimStart text :=
  ⟨text.takeWhile isBlank, fun _ hmem => List.all_eq_true.mp List.all_takeWhile _ hmem,
    List.takeWhile_append_dropWhile.symm⟩

theorem head?_trimStart (text : List Char) : ∀ c ∈ (trimStart text).head?, isBlank c = false := by
  intro c hmem
  have hhead := List.head?_dropWhile_not isBlank text
  rw [trimStart] at hmem
  rw [Option.mem_def.mp hmem] at hhead
  simpa using hhead

theorem trimEnd_append (h : Blanks right) : trimEnd (text ++ right) = trimEnd text := by
  have hback : Blanks right.reverse := fun c hmem => h c (List.mem_reverse.mp hmem)
  rw [trimEnd, List.reverse_append, trimStart_append hback]
  rfl

theorem trimEnd_eq_self (h : ∀ c ∈ text.getLast?, isBlank c = false) : trimEnd text = text := by
  rw [trimEnd, trimStart_eq_self (by simpa using h), List.reverse_reverse]

theorem exists_blanks_trimEnd (text : List Char) :
    ∃ right, Blanks right ∧ text = trimEnd text ++ right := by
  obtain ⟨left, hleft, htext⟩ := exists_blanks_trimStart text.reverse
  refine ⟨left.reverse, fun c hmem => hleft c (List.mem_reverse.mp hmem), ?_⟩
  have hback := congrArg List.reverse htext
  rwa [List.reverse_reverse, List.reverse_append] at hback

theorem getLast?_trimEnd (text : List Char) : ∀ c ∈ (trimEnd text).getLast?, isBlank c = false := by
  rw [trimEnd, List.getLast?_reverse]
  exact head?_trimStart text.reverse

theorem trim_padded (hleft : Blanks left) (hright : Blanks right) (hcore : Trimmed core) :
    trim (left ++ core ++ right) = core := by
  rw [trim, List.append_assoc, trimStart_append hleft]
  by_cases hempty : core = []
  · have hgone : trimStart right = [] := by
      have happend : trimStart (right ++ []) = trimStart [] := trimStart_append hright
      rwa [List.append_nil] at happend
    rw [hempty, List.nil_append, hgone]
    rfl
  · obtain ⟨first, rest, rfl⟩ := List.exists_cons_of_ne_nil hempty
    have hhead : ∀ c ∈ (first :: rest ++ right).head?, isBlank c = false := hcore.1
    rw [trimStart_eq_self hhead, trimEnd_append hright, trimEnd_eq_self hcore.2]

theorem trimmed_trim (text : List Char) : Trimmed (trim text) := by
  refine ⟨?_, getLast?_trimEnd _⟩
  intro c hmem
  obtain ⟨right, -, htext⟩ := exists_blanks_trimEnd (trimStart text)
  apply head?_trimStart text c
  rw [trim] at hmem
  rw [htext, List.head?_append, Option.mem_def.mp hmem]
  rfl

theorem exists_padding (text : List Char) :
    ∃ left right, Blanks left ∧ Blanks right ∧ text = left ++ trim text ++ right := by
  obtain ⟨left, hleft, hstart⟩ := exists_blanks_trimStart text
  obtain ⟨right, hright, hend⟩ := exists_blanks_trimEnd (trimStart text)
  refine ⟨left, right, hleft, hright, ?_⟩
  rw [List.append_assoc, trim, ← hend, ← hstart]

theorem trim_append_blanks (h : Blanks right) : trim (text ++ right) = trim text := by
  obtain ⟨left, more, hleft, hmore, htext⟩ := exists_padding text
  have hblanks : Blanks (more ++ right) := List.forall_mem_append.mpr ⟨hmore, h⟩
  have hpadded := trim_padded hleft hblanks (trimmed_trim text)
  rwa [← List.append_assoc, ← htext] at hpadded

end Blank

namespace Lines

/-- The lines of a text: one for each line feed, without it and without a carriage return before it,
and one for what stands after the last line feed, if anything does. -/
inductive Divides : List Char → List (List Char) → Prop where
  | none : Divides [] []
  | last {line} (ne : line ≠ []) (unbroken : '\n' ∉ line) : Divides line [line]
  | line {line rest lines} (unbroken : '\n' ∉ line) (more : Divides rest lines) :
    Divides (line ++ '\n' :: rest) (dropReturn line :: lines)

theorem divides_joined {parts : List (List Char)} (hne : parts ≠ [])
    (hparts : ∀ part ∈ parts, '\n' ∉ part) : Divides (joined '\n' parts) (ofParts parts) := by
  induction parts with
  | nil => exact absurd rfl hne
  | cons part more ih =>
    obtain ⟨hpart, hmore⟩ := List.forall_mem_cons.mp hparts
    cases more with
    | nil =>
      cases part with
      | nil => exact .none
      | cons c rest => exact .last (List.cons_ne_nil c rest) hpart
    | cons second others => exact .line hpart (ih (List.cons_ne_nil second others) hmore)

theorem divides_lines (text : List Char) : Divides text (lines text) := by
  have hdivides := divides_joined (cut_ne_nil '\n' text) fun _ => not_mem_of_mem_cut
  rwa [joined_cut] at hdivides

end Lines

namespace Listing

open Blank

/-- The line is a name and the marker after it, with blanks around both that are not the name's. -/
def Names (line : List Char) (name : String) : Prop :=
  (∀ c ∈ name.toList.head?, isBlank c = false) ∧
    ∃ left right, Blanks left ∧ Blanks right ∧ line = left ++ (name.toList ++ marker) ++ right

/-- The names that lines give, in the order of the lines. -/
inductive Listed : List (List Char) → List String → Prop where
  | none : Listed [] []
  | name {line lines name names} (gives : Names line name) (more : Listed lines names) :
    Listed (line :: lines) (name :: names)
  | noise {line lines names} (silent : ∀ name, ¬ Names line name) (more : Listed lines names) :
    Listed (line :: lines) names

variable {line : List Char} {name : String}

theorem trimmed_marked (name : List Char) :
    Trimmed (name ++ marker) ↔ ∀ c ∈ name.head?, isBlank c = false := by
  have hplain {c : Char} (h : isBlank c = false) : ∀ d ∈ some c, isBlank d = false := by
    rintro d ⟨⟩
    exact h
  have hlast : ∀ c ∈ (name ++ marker).getLast?, isBlank c = false := by
    have hmarker : (name ++ marker).getLast? = some 't' := List.getLast?_append
    rw [hmarker]
    exact hplain (by decide)
  cases name with
  | nil =>
    have hcolon : ∀ c ∈ marker.head?, isBlank c = false := hplain (by decide)
    exact iff_of_true ⟨hcolon, hlast⟩ nofun
  | cons c rest => exact and_iff_left hlast

theorem nameOf?_eq_some_iff : nameOf? line = some name ↔ Names line name := by
  have hmarked : nameOf? line = some name ↔ trim line = name.toList ++ marker := by
    rw [nameOf?]
    split
    · next hsuffix =>
      obtain ⟨start, hstart⟩ := List.isSuffixOf_iff_suffix.mp hsuffix
      rw [← hstart, List.length_append, Nat.add_sub_cancel, List.take_left, Option.some_inj,
        List.append_left_inj, ← String.toList_inj, String.toList_ofList]
    · next hsuffix =>
      refine iff_of_false (Option.some_ne_none name).symm fun htrim => hsuffix ?_
      rw [htrim]
      exact List.isSuffixOf_iff_suffix.mpr (List.suffix_append _ _)
  rw [hmarked]
  constructor
  · intro htrim
    obtain ⟨left, right, hleft, hright, hline⟩ := exists_padding line
    have htrimmed := trimmed_trim line
    rw [htrim] at hline htrimmed
    exact ⟨(trimmed_marked _).mp htrimmed, left, right, hleft, hright, hline⟩
  · rintro ⟨hname, left, right, hleft, hright, rfl⟩
    exact trim_padded hleft hright ((trimmed_marked _).mpr hname)

theorem listed_filterMap (lines : List (List Char)) : Listed lines (lines.filterMap nameOf?) := by
  induction lines with
  | nil => exact .none
  | cons line rest ih =>
    cases hline : nameOf? line with
    | none =>
      rw [List.filterMap_cons_none hline]
      refine .noise ?_ ih
      intro name hname
      rw [nameOf?_eq_some_iff.mpr hname] at hline
      cases hline
    | some name =>
      rw [List.filterMap_cons_some hline]
      exact .name (nameOf?_eq_some_iff.mp hline) ih

theorem nameOf?_dropReturn (line : List Char) : nameOf? (Lines.dropReturn line) = nameOf? line := by
  rw [Lines.dropReturn]
  split
  · next hlast =>
    obtain ⟨start, rfl⟩ := List.getLast?_eq_some_iff.mp hlast
    rw [List.dropLast_concat, nameOf?, nameOf?, trim_append_blanks blanks_return]
  · rfl

theorem names_eq_parts (text : String) :
    names text = (cut '\n' text.toList).filterMap nameOf? := by
  have hparts (parts : List (List Char)) :
      (Lines.ofParts parts).filterMap nameOf? = parts.filterMap nameOf? := by
    fun_induction Lines.ofParts parts with
    | case1 => rfl
    | case2 rest hempty =>
      obtain rfl := List.isEmpty_iff.mp hempty
      rfl
    | case3 rest hne => rfl
    | case4 first more hmore ih => rw [List.filterMap_cons, List.filterMap_cons,
        nameOf?_dropReturn, ih]
  exact hparts _

theorem names_append (first second : String) :
    names (first ++ "\n" ++ second) = names first ++ names second := by
  have hbreak : "\n".toList = ['\n'] := rfl
  rw [names_eq_parts, names_eq_parts, names_eq_parts, String.toList_append, String.toList_append,
    hbreak, List.append_assoc, List.singleton_append, cut_append, List.filterMap_append]

/-- A line that is written for a name, the blanks before and after it included. -/
structure Row where
  left : List Char
  name : String
  right : List Char
  returns : Bool
  left_blanks : Blanks left
  right_blanks : Blanks right
  left_unbroken : '\n' ∉ left
  right_unbroken : '\n' ∉ right
  oneLine : OneLine name
  head_plain : ∀ c ∈ name.toList.head?, isBlank c = false

namespace Row

/-- What stands before the line feed. -/
def part (row : Row) : List Char :=
  row.left ++ (row.name.toList ++ marker) ++ (row.right ++ if row.returns then ['\r'] else [])

def text (rows : List Row) : String :=
  String.ofList (rows.flatMap fun row => row.part ++ ['\n'])

theorem part_names (row : Row) : Names row.part row.name := by
  refine ⟨row.head_plain, row.left, _, row.left_blanks, ?_, rfl⟩
  refine List.forall_mem_append.mpr ⟨row.right_blanks, ?_⟩
  split
  · exact blanks_return
  · exact nofun

theorem part_unbroken (row : Row) : '\n' ∉ row.part := by
  have hname : '\n' ∉ row.name.toList := row.oneLine
  have hmarker : '\n' ∉ marker := by decide
  have hreturn : '\n' ∉ if row.returns then ['\r'] else [] := by split <;> decide
  simp only [part, List.mem_append, row.left_unbroken, row.right_unbroken, hname, hmarker, hreturn,
    or_self, not_false_iff]

theorem names_text (rows : List Row) : names (text rows) = rows.map Row.name := by
  rw [names_eq_parts, text, String.toList_ofList]
  induction rows with
  | nil => rw [List.flatMap_nil, cut_nil]; rfl
  | cons row rest ih =>
    rw [List.flatMap_cons, List.append_assoc, List.singleton_append, cut_append,
      cut_of_not_mem row.part_unbroken, List.singleton_append,
      List.filterMap_cons_some (nameOf?_eq_some_iff.mpr row.part_names), ih, List.map_cons]

end Row

theorem head_plain_of_mem_names {text : String} (h : name ∈ names text) :
    ∀ c ∈ name.toList.head?, isBlank c = false := by
  obtain ⟨line, -, hname⟩ := List.mem_filterMap.mp h
  exact (nameOf?_eq_some_iff.mp hname).1

def written (names : List String) : String :=
  String.join (names.map (· ++ ": test\n"))

def Row.bare (name : String) (oneLine : OneLine name)
    (head_plain : ∀ c ∈ name.toList.head?, isBlank c = false) : Row :=
  ⟨[], name, [], false, nofun, nofun, nofun, nofun, oneLine, head_plain⟩

theorem names_written {kept : List String}
    (h : ∀ name ∈ kept, OneLine name ∧ ∀ c ∈ name.toList.head?, isBlank c = false) :
    names (written kept) = kept := by
  have hrows : ∃ rows : List Row, rows.map Row.name = kept ∧ Row.text rows = written kept := by
    induction kept with
    | nil => exact ⟨[], rfl, rfl⟩
    | cons name rest ih =>
      obtain ⟨⟨hline, hhead⟩, hrest⟩ := List.forall_mem_cons.mp h
      obtain ⟨rows, hnames, htext⟩ := ih hrest
      refine ⟨Row.bare name hline hhead :: rows, congrArg _ hnames, ?_⟩
      rw [written, List.map_cons, String.join_cons, ← written, ← htext, Row.text, Row.text,
        List.flatMap_cons, String.ofList_append]
      congr 1
      apply String.toList_inj.mp
      simp [Row.part, Row.bare, marker, String.toList_append]
  obtain ⟨rows, hnames, htext⟩ := hrows
  rw [← htext, Row.names_text, hnames]

/-- The names of a listing are those of its lines that end in the marker, blanks aside. So the names
of two listings in one are those of both, lines without a name can be put in anywhere, and names
that are written out with any blanks around them are read back, as are those a listing gave. -/
theorem names_of_marked_lines :
    (∀ text : String, ∃ lines, Lines.Divides text.toList lines ∧ Listed lines (names text)) ∧
      (∀ first second : String, names (first ++ "\n" ++ second) = names first ++ names second) ∧
      (∀ before noise after : String, names noise = [] →
        names (before ++ "\n" ++ noise ++ "\n" ++ after) = names (before ++ "\n" ++ after)) ∧
      (∀ rows : List Row, names (Row.text rows) = rows.map Row.name) ∧
      ∀ text : String,
        (∀ name ∈ names text, OneLine name ∧ ∀ c ∈ name.toList.head?, isBlank c = false) ∧
          names (written (names text)) = names text := by
  have hkept (text : String) :
      ∀ name ∈ names text, OneLine name ∧ ∀ c ∈ name.toList.head?, isBlank c = false :=
    fun _ hmem => ⟨oneLine_names hmem, head_plain_of_mem_names hmem⟩
  refine ⟨?_, names_append, ?_, Row.names_text,
    fun text => ⟨hkept text, names_written (hkept text)⟩⟩
  · intro text
    exact ⟨Lines.lines text.toList, Lines.divides_lines _, listed_filterMap _⟩
  · intro before noise after hnoise
    rw [names_append, names_append, hnoise, List.append_nil, names_append]

theorem names_around_noise :
    names "2 tests, 0 benchmarks" = [] ∧
      names ("a : test" ++ "\n" ++ "2 tests, 0 benchmarks" ++ "\n" ++ "\tb: test: test \r") =
        ["a ", "b: test"] ∧
      OneLine "b: test" := by
  have hnoise : names "2 tests, 0 benchmarks" = [] := by cbv
  have hboth : names ("a : test" ++ "\n" ++ "\tb: test: test \r") = ["a ", "b: test"] := by cbv
  obtain ⟨-, -, hinsert, -, hkept⟩ := names_of_marked_lines
  refine ⟨hnoise, (hinsert _ _ _ hnoise).trans hboth, ?_⟩
  exact ((hkept ("a : test" ++ "\n" ++ "\tb: test: test \r")).1 _ (by rw [hboth]; decide)).1

end Listing
end SoloRun
