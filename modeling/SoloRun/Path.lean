import SoloRun.Text.Cut
import SoloRun.Text.Utf8

/-!
Paths as the system takes them: bytes with slashes between names.
-/

namespace SoloRun

structure Path where
  bytes : Bytes
  deriving DecidableEq, Repr

namespace Path

def slash : UInt8 := 0x2F

def ofString (text : String) : Path :=
  ⟨Utf8.encode text⟩

def display (path : Path) : String :=
  Utf8.decode path.bytes

def isAbsolute (path : Path) : Bool :=
  path.bytes.head? = some slash

def endsInSlash (path : Path) : Bool :=
  path.bytes.getLast? = some slash

/-- An absolute path on the right replaces what is on the left. -/
def join (base rel : Path) : Path :=
  if rel.isAbsolute then rel
  else if base.bytes = [] ∨ base.endsInSlash then ⟨base.bytes ++ rel.bytes⟩
  else ⟨base.bytes ++ slash :: rel.bytes⟩

def hasNul (path : Path) : Bool :=
  path.bytes.contains 0

/-- The names and dots between slashes. -/
def names (path : Path) : List Bytes :=
  (cut slash path.bytes).filter (· ≠ [])

def dot : Bytes := [0x2E]

def dots : Bytes := [0x2E, 0x2E]

def endsInDots (path : Path) : Bool :=
  path.names.getLast?.any fun name => name = dot || name = dots

/-- Empty parts and single dots stand for nothing, except a dot at the very start. -/
def isIdle (part : Bytes) : Bool :=
  part = [] || part = dot

/-- A path's start, and what follows it cut at slashes: a slash or a leading dot is a start. -/
def anchored (path : Path) : Bytes × List Bytes :=
  match path.bytes with
  | 0x2F :: rest => ([slash], cut slash rest)
  | [0x2E] => (dot, [])
  | 0x2E :: 0x2F :: rest => (dot, [] :: cut slash rest)
  | bytes => ([], cut slash bytes)

/-- The parts with the idle ones at the end dropped, last one first. -/
def fromEnd (parts : List Bytes) : List Bytes :=
  parts.reverse.dropWhile isIdle

/-- The path without its last name; none for the root and the empty path. -/
def parent? (path : Path) : Option Path :=
  let (start, parts) := path.anchored
  match fromEnd parts with
  | _ :: before => some ⟨start ++ joined slash (fromEnd before.reverse).reverse⟩
  | [] => if start = dot then some ⟨[]⟩ else none

/-- The last name, unless it is the parent directory's. -/
def fileName? (path : Path) : Option Bytes :=
  match fromEnd path.anchored.2 with
  | name :: _ => if name = dots then none else some name
  | [] => none

/-- The path and up to `n` paths above it, from the bottom up. -/
def climb : Nat → Path → List Path
  | 0, path => [path]
  | n + 1, path =>
    match path.parent? with
    | some above => path :: climb n above
    | none => [path]

/-- The path and every path above it, from the bottom up. -/
def ancestors (path : Path) : List Path :=
  climb path.bytes.length path

end Path
end SoloRun
