import SoloRun.FileTree.Basic

/-!
Changes to a file tree: making directories, writing a file whole, links, removal. A change that can
fail half-way gives the tree it leaves together with its answer.
-/

namespace SoloRun

inductive FileError where
  | nulByte
  | os (error : OsError)
  deriving DecidableEq, Repr

def FileError.message : FileError → String
  | .nulByte => "file name contained an unexpected NUL byte"
  | .os error => error.message

namespace FileTree

variable (cwd : Place)

def spot? (tree : FileTree) (purpose : Purpose) (path : Path) : Except FileError Spot :=
  if path.hasNul then .error .nulByte else (tree.spot cwd purpose path).mapError .os

def makeDirectory (tree : FileTree) (path : Path) : Except FileError FileTree := do
  match ← tree.spot? cwd .entry path with
  | .taken _ _ => .error (.os .exists)
  | .free dir name _ => .ok (tree.insert (dir ++ [name]) .directory)

/-- An error in making a directory that is one already is none. -/
def unlessDirectory (tree : FileTree) (path : Path) (error : FileError) :
    FileTree × Except FileError Unit :=
  (tree, if tree.isDirectory cwd path then .ok () else .error error)

def settleDirectory (tree : FileTree) (path : Path) : FileTree × Except FileError Unit :=
  match tree.makeDirectory cwd path with
  | .ok after => (after, .ok ())
  | .error error => tree.unlessDirectory cwd path error

/-- Makes the first path a directory, the ones after it being the paths above it: they are made
only if the first cannot be made for want of them. -/
def climbDirectories (tree : FileTree) : List Path → FileTree × Except FileError Unit
  | [] => (tree, .ok ())
  | path :: above =>
    if path.bytes = [] then (tree, .ok ())
    else
      match tree.makeDirectory cwd path with
      | .ok after => (after, .ok ())
      | .error (.os .noEntry) =>
        match climbDirectories tree above with
        | (after, .ok ()) => after.settleDirectory cwd path
        | (after, .error error) => (after, .error error)
      | .error error => tree.unlessDirectory cwd path error

def makeDirectories (tree : FileTree) (path : Path) : FileTree × Except FileError Unit :=
  tree.climbDirectories cwd path.ancestors

/-- The place a path is opened at for writing, and the entry there, if there is one. -/
def writable (tree : FileTree) (path : Path) : Except FileError (Place × Option Entry) := do
  match ← tree.spot? cwd .write path with
  | .free dir name _ => .ok (dir ++ [name], none)
  | .taken place _ =>
    if tree.find? place = some .directory then .error (.os .isDirectory)
    else .ok (place, tree.find? place)

/-- Opens a file, made if it is missing, and replaces what is in it. -/
def writeFile (tree : FileTree) (path : Path) (content : Bytes) :
    FileTree × Except FileError Unit :=
  match tree.writable cwd path with
  | .error error => (tree, .error error)
  | .ok (_, some (.device full)) =>
    (tree, if full ∧ content ≠ [] then .error (.os .noSpace) else .ok ())
  | .ok (place, _) => (tree.insert place (.file content), .ok ())

/-- Makes a link; what it leads to need not exist, but is written like a path. -/
def makeLink (tree : FileTree) (path target : Path) : Except FileError FileTree := do
  if target.hasNul then throw .nulByte
  if maxPath ≤ target.bytes.length then throw (.os .nameTooLong)
  match ← tree.spot? cwd .entry path with
  | .taken _ _ => .error (.os .exists)
  | .free dir name slashed =>
    if target.bytes = [] || slashed then .error (.os .noEntry)
    else .ok (tree.insert (dir ++ [name]) (.link target))

/-- Removes a file, a link or a directory with everything in it. A directory that the path names by
dots, or by a link with a slash after it, is only emptied. -/
def remove (tree : FileTree) (path : Path) : Except FileError FileTree := do
  match ← tree.spot? cwd .entry path with
  | .free _ _ _ => .error (.os .noEntry)
  | .taken place slashed =>
    match tree.find? place with
    | some .directory => .ok (if path.endsInDots then tree.clear place else tree.erase place)
    | some (.link _) =>
      if slashed then ((tree.directory cwd path).mapError .os).map tree.clear
      else .ok (tree.erase place)
    | _ => if slashed then .error (.os .notDirectory) else .ok (tree.erase place)

end FileTree
end SoloRun
