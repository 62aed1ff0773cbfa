import SoloRun.Failure
import SoloRun.FileTree.Change

/-!
A log: a header, one line break if the header does not end in one, and the body, in a file of the
log's name.
-/

namespace SoloRun

structure Log where
  name : String
  header : String
  body : String
  deriving DecidableEq, Repr

namespace Log

def path (dir : Path) (log : Log) : Path :=
  dir.join (Path.ofString (log.name ++ ".log"))

def text (log : Log) : String :=
  let gap := if log.header.toList.getLast? = some '\n' then "" else "\n"
  log.header ++ gap ++ log.body

/-- Makes the directory if it is missing and writes the log over whatever was there. -/
def write (cwd : Place) (dir : Path) (log : Log) (tree : FileTree) :
    FileTree × Except Failure Path :=
  let path := log.path dir
  let failed (error : FileError) : Except Failure Path := .error (.log path error.message)
  match tree.makeDirectories cwd dir with
  | (made, .error error) => (made, failed error)
  | (made, .ok ()) =>
    match made.writeFile cwd path (Utf8.encode log.text) with
    | (written, .error error) => (written, failed error)
    | (written, .ok ()) => (written, .ok path)

end Log
end SoloRun
