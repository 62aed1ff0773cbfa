import SoloRun.FileTree.PlaceMap
import SoloRun.OsError

/-!
A tree of files as a map from places to entries, and the walk of a path through it. A walk keeps
what lies under the names it came by; `walk_cons` says what a step does by places alone.
-/

namespace SoloRun

inductive Entry where
  | directory
  | file (content : Bytes)
  | link (target : Path)
  /-- Takes nothing if it is full, and everything without keeping it if not. -/
  | device (full : Bool)
  deriving DecidableEq, Repr

structure FileTree where
  entries : PlaceMap Entry
  deriving DecidableEq, Repr

namespace FileTree

def empty : FileTree := ⟨.empty⟩

def find? (tree : FileTree) (place : Place) : Option Entry :=
  if place = [] then some .directory else tree.entries.get? place

def insert (tree : FileTree) (place : Place) (entry : Entry) : FileTree :=
  ⟨tree.entries.insert place entry⟩

/-- Removes the entry and everything below it. -/
def erase (tree : FileTree) (place : Place) : FileTree :=
  ⟨tree.entries.erase place⟩

/-- Removes everything below the entry. -/
def clear (tree : FileTree) (place : Place) : FileTree :=
  ⟨tree.entries.clear place⟩

theorem find?_insert (tree : FileTree) {place : Place} (hp : place ≠ []) (q : Place)
    (entry : Entry) :
    (tree.insert place entry).find? q = if q = place then some entry else tree.find? q := by
  simp only [find?, insert, PlaceMap.get?_insert _ hp]
  by_cases hq : q = [] <;> grind

theorem find?_erase (tree : FileTree) {place : Place} (hp : place ≠ []) (q : Place) :
    (tree.erase place).find? q = if place.isPrefixOf q then none else tree.find? q := by
  simp only [find?, erase, PlaceMap.get?_erase]
  by_cases hq : q = []
  · cases place <;> simp_all
  · simp [hq]

theorem find?_clear (tree : FileTree) (place q : Place) :
    (tree.clear place).find? q =
      if place.isPrefixOf q && q ≠ place then none else tree.find? q := by
  simp only [find?, clear, PlaceMap.get?_clear]
  by_cases hq : q = []
  · cases place <;> simp [hq]
  · simp [hq]

/-- The names to a place, innermost first, each with what lies under it. -/
abbrev Trail := List (Bytes × PlaceMap Entry)

def Trail.place (trail : Trail) : Place :=
  (trail.map (·.1)).reverse

/-- What lies under the end of a trail. -/
def under (tree : FileTree) : Trail → PlaceMap Entry
  | [] => tree.entries
  | (_, under) :: _ => under

def trail (tree : FileTree) (place : Place) : Trail :=
  place.foldl (fun trail name => (name, ((tree.under trail).child name).2) :: trail) []

theorem place_trail (tree : FileTree) (place : Place) : (tree.trail place).place = place := by
  suffices h : ∀ start : Trail, Trail.place (place.foldl (fun trail name =>
      (name, ((tree.under trail).child name).2) :: trail) start) = start.place ++ place from h []
  induction place with
  | nil => simp
  | cons name rest ih =>
    intro start
    rw [List.foldl_cons, ih]
    simp [Trail.place]

theorem under_trail (tree : FileTree) (place : Place) :
    tree.under (tree.trail place) = tree.entries.under place := by
  suffices h : ∀ start, tree.under (place.foldl (fun trail name =>
      (name, ((tree.under trail).child name).2) :: trail) start) =
        (tree.under start).under place from h []
  induction place with
  | nil => intro start; rfl
  | cons name rest ih => intro start; exact ih _

theorem trail_concat (tree : FileTree) (place : Place) (name : Bytes) :
    tree.trail (place ++ [name]) =
      (name, ((tree.under (tree.trail place)).child name).2) :: tree.trail place := by
  simp [trail]

theorem tail_trail (tree : FileTree) (place : Place) :
    (tree.trail place).tail = tree.trail place.dropLast := by
  rcases List.eq_nil_or_concat place with h | ⟨start, name, h⟩
  · simp [h, trail]
  · rw [h, List.concat_eq_append, trail_concat, List.dropLast_concat, List.tail_cons]

theorem find?_concat (tree : FileTree) (place : Place) (name : Bytes) :
    tree.find? (place ++ [name]) = ((tree.under (tree.trail place)).child name).1 := by
  simp [find?, under_trail, PlaceMap.get?_concat]

/-- Where a walk ends: at an entry, or at a name that is still free in a directory. A slash at the
end of the path, or of the last link followed, asks for a directory there. -/
inductive Spot where
  | taken (place : Place) (slashed : Bool)
  | free (dir : Place) (name : Bytes) (slashed : Bool)
  deriving DecidableEq, Repr

def maxName : Nat := 255

def maxPath : Nat := 4096

def maxLinks : Nat := 40

/-- What a path is walked for. -/
inductive Purpose where
  /-- The entry itself: a link that has the last name is not followed. -/
  | entry
  /-- What the last link leads to. -/
  | target
  /-- A file that is made if it is missing: a last name with a slash after it is refused before it
  is looked up, since what is written cannot be a directory. -/
  | write
  deriving DecidableEq, Repr

/-- Follows the names from a directory, and at most `links` links. -/
def walk (tree : FileTree) (purpose : Purpose) (links : Nat) (slashed : Bool) (here : Trail) :
    List Bytes → Except OsError Spot
  | [] => .ok (.taken here.place slashed)
  | name :: rest =>
    if name = Path.dot then walk tree purpose links slashed here rest
    else if name = Path.dots then walk tree purpose links slashed here.tail rest
    else if purpose = .write ∧ slashed ∧ rest = [] then .error .isDirectory
    else if maxName < name.length then .error .nameTooLong
    else
      match (tree.under here).child name with
      | (none, _) =>
        if rest.isEmpty then .ok (.free here.place name slashed) else .error .noEntry
      | (some .directory, under) => walk tree purpose links slashed ((name, under) :: here) rest
      | (some (.link target), _) =>
        if rest = [] ∧ purpose = .entry then .ok (.taken (here.place ++ [name]) slashed)
        else
          match links with
          | 0 => .error .linkLoop
          | n + 1 =>
            if target.bytes = [] then .error .noEntry
            else
              walk tree purpose n (slashed || (rest.isEmpty && target.endsInSlash))
                (if target.isAbsolute then [] else here) (target.names ++ rest)
      | (some _, _) =>
        if rest.isEmpty then .ok (.taken (here.place ++ [name]) slashed) else .error .notDirectory
termination_by names => (links, names.length)

theorem walk_cons (tree : FileTree) (purpose : Purpose) (links : Nat) (slashed : Bool)
    (here : Place) (name : Bytes) (rest : List Bytes) :
    tree.walk purpose links slashed (tree.trail here) (name :: rest) =
      if name = Path.dot then tree.walk purpose links slashed (tree.trail here) rest
      else if name = Path.dots then tree.walk purpose links slashed (tree.trail here.dropLast) rest
      else if purpose = .write ∧ slashed ∧ rest = [] then .error .isDirectory
      else if maxName < name.length then .error .nameTooLong
      else
        match tree.find? (here ++ [name]) with
        | none => if rest.isEmpty then .ok (.free here name slashed) else .error .noEntry
        | some .directory =>
          tree.walk purpose links slashed (tree.trail (here ++ [name])) rest
        | some (.link target) =>
          if rest = [] ∧ purpose = .entry then .ok (.taken (here ++ [name]) slashed)
          else
            match links with
            | 0 => .error .linkLoop
            | n + 1 =>
              if target.bytes = [] then .error .noEntry
              else
                tree.walk purpose n (slashed || (rest.isEmpty && target.endsInSlash))
                  (tree.trail (if target.isAbsolute then [] else here)) (target.names ++ rest)
        | some _ =>
          if rest.isEmpty then .ok (.taken (here ++ [name]) slashed) else .error .notDirectory := by
  rw [walk, place_trail, tail_trail, find?_concat, trail_concat]
  have hstart (target : Path) : tree.trail (if target.isAbsolute then [] else here) =
      if target.isAbsolute then [] else tree.trail here := by split <;> rfl
  simp only [hstart]
  rcases (tree.under (tree.trail here)).child name with ⟨_ | entry, under⟩
  · rfl
  · cases entry <;> cases links <;> rfl

/-- Walks a path from the working directory. -/
def spot (tree : FileTree) (cwd : Place) (purpose : Purpose) (path : Path) :
    Except OsError Spot :=
  if path.bytes = [] then .error .noEntry
  else if maxPath ≤ path.bytes.length then .error .nameTooLong
  else
    walk tree purpose maxLinks path.endsInSlash
      (if path.isAbsolute then [] else tree.trail cwd) path.names

/-- The place of the directory a path leads to. -/
def directory (tree : FileTree) (cwd : Place) (path : Path) : Except OsError Place := do
  match ← tree.spot cwd .target path with
  | .free _ _ _ => .error .noEntry
  | .taken place _ =>
    match tree.find? place with
    | some .directory => .ok place
    | some _ => .error .notDirectory
    | none => .error .noEntry

def isDirectory (tree : FileTree) (cwd : Place) (path : Path) : Bool :=
  !path.hasNul && (tree.directory cwd path).toBool

end FileTree
end SoloRun
