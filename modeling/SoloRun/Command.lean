import SoloRun.Path

/-!
Commands: a program with its arguments, run in a directory. The four commands of a run, how a
command reads on one line, and how the work on a whole suite is described.
-/

namespace SoloRun

structure Command where
  program : Bytes
  args : List Bytes
  dir? : Option Path
  deriving DecidableEq, Repr

def spaced (parts : List String) : String :=
  String.ofList (joined ' ' (parts.map String.toList))

namespace Command

/-- A part with a NUL in it cannot be passed on and is not shown. -/
def shown (part : Bytes) : String :=
  if part.contains 0 then "<string-with-nul>" else Utf8.decode part

def line (command : Command) : String :=
  spaced ((command.program :: command.args).map shown)

def hasNul (command : Command) : Bool :=
  (command.program :: command.args).any (·.contains 0) ||
    command.dir?.any Path.hasNul

def runner : String := "cargo"

def cargo (dir : Path) (args : List String) : Command :=
  ⟨Utf8.encode runner, args.map Utf8.encode, some dir⟩

def listing (dir : Path) (selector : List String) : Command :=
  cargo dir (["test", "-q"] ++ selector ++ ["--", "--list"])

/-- Runs the one test whose whole name is `name`. -/
def single (dir : Path) (selector : List String) (name : String) : Command :=
  cargo dir (["test", "-q"] ++ selector ++ [name, "--", "--exact", "--nocapture"])

def lint (dir : Path) (lints : List String) : Command :=
  cargo dir (["clippy", "--all-targets", "--"] ++ lints.flatMap fun lint => ["-W", lint])

def formatCheck (dir : Path) : Command :=
  cargo dir ["fmt", "--all", "--", "--check"]

def description (selector : List String) : String :=
  spaced (["cargo", "test", "-q"] ++ selector)

end Command
end SoloRun
