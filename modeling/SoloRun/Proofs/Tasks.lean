import Mathlib
import SoloRun.Command
import SoloRun.Proofs.Names

/-!
Commands tell apart what they are for. The parts that a caller chooses stand between fixed words
with nothing to set them off, and still they can be told from both ends, but for a part with a NUL
in it, which another text stands in for. The description of a suite is how its commands begin.
-/

namespace SoloRun

section Joined

variable {α : Type} {mark : α} {parts more : List (List α)}

theorem joined_append (hparts : parts ≠ []) (hmore : more ≠ []) :
    joined mark (parts ++ more) = joined mark parts ++ mark :: joined mark more := by
  induction parts with
  | nil => exact absurd rfl hparts
  | cons part rest ih =>
    cases rest with
    | nil => exact joined_cons hmore
    | cons next others =>
      have hrest : next :: others ++ more ≠ [] := List.cons_ne_nil _ _
      rw [List.cons_append, joined_cons hrest, ih (List.cons_ne_nil _ _),
        joined_cons (List.cons_ne_nil _ _), List.append_assoc, List.cons_append]

theorem spaced_append {xs ys : List String} (hxs : xs ≠ []) (hys : ys ≠ []) :
    spaced (xs ++ ys) = spaced xs ++ " " ++ spaced ys := by
  have hgap : " ".toList = [' '] := by decide
  apply String.toList_inj.mp
  simp only [spaced, String.toList_append, String.toList_ofList, hgap, List.map_append,
    List.append_assoc, List.singleton_append]
  exact joined_append (by simpa using hxs) (by simpa using hys)

theorem spaced_singleton (part : String) : spaced [part] = part :=
  String.ofList_toList

end Joined

namespace Command

variable {part : String}

/-- The program and its arguments as a command shows them. -/
def vector (command : Command) : List String :=
  (command.program :: command.args).map shown

/-- What a vector shows for a part. -/
def standIn (part : String) : String :=
  if '\x00' ∈ part.toList then "<string-with-nul>" else part

theorem zero_mem_encode_iff : 0 ∈ Utf8.encode part ↔ '\x00' ∈ part.toList := by
  constructor
  · intro h
    exact Utf8.mem_of_mem_encode h (by decide)
  · intro h
    exact List.mem_flatMap.mpr ⟨'\x00', h, by decide⟩

theorem shown_encode (part : String) : shown (Utf8.encode part) = standIn part := by
  rw [shown, standIn, Utf8.decode_encode]
  simp only [List.contains_iff_mem, zero_mem_encode_iff]

theorem standIn_eq (h : '\x00' ∉ part.toList) : standIn part = part :=
  if_neg h

theorem map_standIn_eq {parts : List String} (h : ∀ part ∈ parts, '\x00' ∉ part.toList) :
    parts.map standIn = parts :=
  (List.map_congr_left fun part hmem => standIn_eq (h part hmem)).trans parts.map_id

theorem vector_cargo (dir : Path) (args : List String) :
    (cargo dir args).vector = (runner :: args).map standIn := by
  have hparts : (cargo dir args).program :: (cargo dir args).args =
      (runner :: args).map Utf8.encode := rfl
  rw [vector, hparts, List.map_map]
  exact List.map_congr_left fun part _ => shown_encode part

theorem line_eq (command : Command) : command.line = spaced command.vector := rfl

end Command

/-- What a command is for. -/
inductive Task where
  | listing (selector : List String)
  | single (selector : List String) (name : String)
  | lint (lints : List String)
  | formatCheck
  deriving DecidableEq, Repr

namespace Task

open Command

variable {first second : Task}

def command (dir : Path) : Task → Command
  | .listing selector => Command.listing dir selector
  | .single selector name => Command.single dir selector name
  | .lint lints => Command.lint dir lints
  | .formatCheck => Command.formatCheck dir

/-- The parts that the caller chooses. -/
def parts : Task → List String
  | .listing selector => selector
  | .single selector name => selector ++ [name]
  | .lint lints => lints
  | .formatCheck => []

def NulFree (task : Task) : Prop :=
  ∀ part ∈ task.parts, '\x00' ∉ part.toList

instance (task : Task) : Decidable task.NulFree :=
  inferInstanceAs (Decidable (∀ part ∈ task.parts, '\x00' ∉ part.toList))

def mapParts (f : String → String) : Task → Task
  | .listing selector => .listing (selector.map f)
  | .single selector name => .single (selector.map f) (f name)
  | .lint lints => .lint (lints.map f)
  | .formatCheck => .formatCheck

def flagged (lints : List String) : List String :=
  lints.flatMap fun lint => ["-W", lint]

/-- The words of the command, all of them texts. -/
def words : Task → List String
  | .listing selector => runner :: (["test", "-q"] ++ selector ++ ["--", "--list"])
  | .single selector name =>
    runner :: (["test", "-q"] ++ selector ++ [name, "--", "--exact", "--nocapture"])
  | .lint lints => runner :: (["clippy", "--all-targets", "--"] ++ flagged lints)
  | .formatCheck => runner :: ["fmt", "--all", "--", "--check"]

theorem map_flagged (f : String → String) (hflag : f "-W" = "-W") (lints : List String) :
    (flagged lints).map f = flagged (lints.map f) := by
  rw [flagged, flagged, List.map_flatMap, List.flatMap_map]
  simp only [List.map_cons, List.map_nil, hflag]

theorem vector_command (dir : Path) (task : Task) :
    (task.command dir).vector = (task.mapParts standIn).words := by
  cases task with
  | listing selector =>
    simp only [command, Command.listing, vector_cargo, List.map_cons, List.map_append]
    rfl
  | single selector name =>
    simp only [command, Command.single, vector_cargo, List.map_cons, List.map_append]
    rfl
  | lint lints =>
    have hflagged := map_flagged standIn (by decide) lints
    simp only [command, Command.lint, vector_cargo, List.map_cons, List.map_append]
    rw [← flagged, hflagged]
    rfl
  | formatCheck => exact (vector_cargo dir _).trans (by decide)

theorem flagged_injective {lints others : List String} (h : flagged lints = flagged others) :
    lints = others := by
  induction lints generalizing others with
  | nil =>
    cases others with
    | nil => rfl
    | cons => cases h
  | cons lint rest ih =>
    cases others with
    | nil => cases h
    | cons other more =>
      rw [flagged, flagged, List.flatMap_cons, List.flatMap_cons] at h
      obtain ⟨hpair, hrest⟩ := List.append_inj h rfl
      obtain ⟨-, hlint⟩ := List.cons.inj hpair
      rw [(List.cons.inj hlint).1, ih hrest]

theorem getLast?_words_listing (selector : List String) :
    (listing selector).words.getLast? = some "--list" := by
  simp only [words, ← List.cons_append, List.getLast?_append]
  rfl

theorem getLast?_words_single (selector : List String) (name : String) :
    (single selector name).words.getLast? = some "--nocapture" := by
  simp only [words, ← List.cons_append, List.getLast?_append]
  rfl

theorem eq_of_words_eq (h : first.words = second.words) : first = second := by
  -- the first argument tells tests, lints and formatting apart, the last a listing from one test
  cases first with
  | listing selector =>
    cases second with
    | listing other =>
      have hselectors := List.append_cancel_left (List.append_cancel_right (List.cons.inj h).2)
      rw [hselectors]
    | single other name =>
      have hlast := congrArg List.getLast? h
      rw [getLast?_words_listing, getLast?_words_single] at hlast
      exact absurd hlast (by decide)
    | lint | formatCheck => simp [words] at h
  | single selector name =>
    cases second with
    | listing other =>
      have hlast := congrArg List.getLast? h
      rw [getLast?_words_listing, getLast?_words_single] at hlast
      exact absurd hlast (by decide)
    | single other another =>
      have hparts := (List.cons.inj h).2
      rw [List.append_assoc, List.append_assoc] at hparts
      obtain ⟨hselectors, hnames⟩ := List.append_inj' (List.append_cancel_left hparts) rfl
      rw [hselectors, (List.cons.inj hnames).1]
    | lint | formatCheck => simp [words] at h
  | lint lints =>
    cases second with
    | lint others => rw [flagged_injective (List.append_cancel_left (List.cons.inj h).2)]
    | listing | single | formatCheck => simp [words] at h
  | formatCheck =>
    cases second with
    | formatCheck => rfl
    | listing | single | lint => simp [words] at h

theorem nulFree_single_iff {selector : List String} {name : String} :
    (single selector name).NulFree ↔
      (∀ part ∈ selector, '\x00' ∉ part.toList) ∧ '\x00' ∉ name.toList := by
  simp only [NulFree, parts, List.forall_mem_append, List.mem_singleton, forall_eq]

theorem mapParts_standIn {task : Task} (h : task.NulFree) : task.mapParts standIn = task := by
  cases task with
  | listing selector => exact congrArg listing (map_standIn_eq h)
  | single selector name =>
    obtain ⟨hselector, hname⟩ := nulFree_single_iff.mp h
    exact congrArg₂ single (map_standIn_eq hselector) (standIn_eq hname)
  | lint lints => exact congrArg lint (map_standIn_eq h)
  | formatCheck => rfl

theorem vector_eq_iff {dir other : Path} :
    (first.command dir).vector = (second.command other).vector ↔
      first.mapParts standIn = second.mapParts standIn := by
  rw [vector_command, vector_command]
  exact ⟨eq_of_words_eq, congrArg words⟩

theorem line_command (dir : Path) {task : Task} (h : task.NulFree) :
    (task.command dir).line = spaced task.words := by
  rw [line_eq, vector_command, mapParts_standIn h]

end Task

namespace Command

variable {dir : Path} {selector : List String} {name : String}

theorem spaced_description (selector : List String) {tail : List String} (htail : tail ≠ []) :
    spaced (runner :: (["test", "-q"] ++ selector ++ tail)) =
      description selector ++ " " ++ spaced tail := by
  rw [← List.cons_append, spaced_append (List.cons_ne_nil _ _) htail]
  rfl

theorem line_listing (hselector : ∀ part ∈ selector, '\x00' ∉ part.toList) :
    (listing dir selector).line = description selector ++ " -- --list" := by
  have hfree : (Task.listing selector).NulFree := hselector
  have hline := (Task.line_command dir hfree).trans
    (spaced_description selector (List.cons_ne_nil "--" ["--list"]))
  have htail : " " ++ spaced ["--", "--list"] = " -- --list" := by decide
  rwa [String.append_assoc, htail] at hline

theorem line_single (hselector : ∀ part ∈ selector, '\x00' ∉ part.toList)
    (hname : '\x00' ∉ name.toList) : (single dir selector name).line =
      description selector ++ " " ++ name ++ " -- --exact --nocapture" := by
  have hfree : (Task.single selector name).NulFree := Task.nulFree_single_iff.mpr ⟨hselector, hname⟩
  have hline := (Task.line_command dir hfree).trans
    (spaced_description selector (List.cons_ne_nil name ["--", "--exact", "--nocapture"]))
  have htail : " " ++ spaced ["--", "--exact", "--nocapture"] = " -- --exact --nocapture" := by decide
  have hwords : spaced [name, "--", "--exact", "--nocapture"] =
      name ++ " -- --exact --nocapture" := by
    rw [← List.singleton_append, spaced_append (List.cons_ne_nil _ _) (List.cons_ne_nil _ _),
      spaced_singleton, String.append_assoc, htail]
  rwa [hwords, ← String.append_assoc] at hline

end Command

/-- Two commands show the same vector just if they are for the same thing, parts with a NUL being
shown as the text that stands in for them; without such parts, just if all their parts are the
same. The description of a suite is what the lines of its commands begin with. -/
theorem commands_tell_tasks_apart :
    (∀ (dir other : Path) (first second : Task),
      (first.command dir).vector = (second.command other).vector ↔
        first.mapParts Command.standIn = second.mapParts Command.standIn) ∧
    (∀ (dir other : Path) (first second : Task), first.NulFree → second.NulFree →
      ((first.command dir).vector = (second.command other).vector ↔ first = second)) ∧
    (∀ (dir : Path) (selector : List String), (∀ part ∈ selector, '\x00' ∉ part.toList) →
      (Command.listing dir selector).line = Command.description selector ++ " -- --list" ∧
      ∀ name : String, '\x00' ∉ name.toList →
        (Command.single dir selector name).line =
          Command.description selector ++ " " ++ name ++ " -- --exact --nocapture") := by
  refine ⟨fun _ _ _ _ => Task.vector_eq_iff, ?_, ?_⟩
  · intro dir other first second hfirst hsecond
    rw [Task.vector_eq_iff, Task.mapParts_standIn hfirst, Task.mapParts_standIn hsecond]
  · intro dir selector hselector
    exact ⟨Command.line_listing hselector, fun _ hname => Command.line_single hselector hname⟩

theorem marks_in_names_tell_tasks_apart :
    let root := Path.ofString "/ws"
    let listing := Task.listing ["--test", "--", "--exact"]
    let single := Task.single ["--test"] "--"
    listing.NulFree ∧ single.NulFree ∧
      (listing.command root).vector ≠ (single.command root).vector ∧
      (Command.listing root ["--test", "--"]).line = "cargo test -q --test -- -- --list" ∧
      (Command.single root ["--test", "--"] "-W").line =
        "cargo test -q --test -- -W -- --exact --nocapture" := by
  intro root listing single
  have hlisting : listing.NulFree := by decide
  have hsingle : single.NulFree := by decide
  obtain ⟨-, hvectors, hlines⟩ := commands_tell_tasks_apart
  have hline := hlines root ["--test", "--"] (by decide)
  refine ⟨hlisting, hsingle, ?_, hline.1.trans (by decide), (hline.2 "-W" (by decide)).trans (by decide)⟩
  rw [Ne, hvectors root root listing single hlisting hsingle]
  exact Task.noConfusion

/-- A part with a NUL in it is shown as a text that may be a part itself. -/
theorem nul_parts_share_a_vector :
    let root := Path.ofString "/ws"
    ((Task.listing ["\x00"]).command root).vector =
        ((Task.listing ["<string-with-nul>"]).command root).vector ∧
      Task.listing ["\x00"] ≠ Task.listing ["<string-with-nul>"] := by
  exact ⟨Task.vector_eq_iff.mpr (by decide), by decide⟩

end SoloRun
