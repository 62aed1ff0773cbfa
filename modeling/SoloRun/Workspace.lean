import SoloRun.Json.Read
import SoloRun.Metadata
import SoloRun.Text.Lines
import SoloRun.World

/-!
Where the workspace is: a child prints its metadata as JSON, on the first line that opens an object.
That child is not registered, so an interrupt is not passed on to it.
-/

namespace SoloRun.Workspace

def command (manifestPath? : Option Path) : Command where
  program := Utf8.encode Command.runner
  args := ["metadata", "--format-version", "1", "--no-deps"].map Utf8.encode ++
    match manifestPath? with
    | some path => [Utf8.encode "--manifest-path", path.bytes]
    | none => []
  dir? := none

def metadataLine? (output : String) : Option (List Char) :=
  (Lines.lines output.toList).find? fun line => line.head? = some '\x7b'

def quotedCommand : String := "`cargo metadata`"

/-- The root that metadata output names, or why it names none. -/
def rootOf (output : String) : Except String Path :=
  match metadataLine? output with
  | none => .error ("could not find any json in the output of " ++ quotedCommand)
  | some line =>
    match (Json.parsed? line).bind Metadata.root? with
    | some root => .ok root
    | none => .error ("failed to interpret " ++ quotedCommand ++ "'s json")

/-- The root by what the child printed to its two streams and its status. -/
def rootFrom (code : Int) (out err : Bytes) : Except String Path :=
  if code = 0 then
    match Utf8.decode? out with
    | .ok output => rootOf output
    | .error fault =>
      .error ("cannot convert the stdout of " ++ quotedCommand ++ ": " ++ fault.message)
  else
    match Utf8.decode? err with
    | .ok text => .error (quotedCommand ++ " exited with an error: " ++ text)
    | .error fault =>
      .error ("cannot convert the stderr of " ++ quotedCommand ++ ": " ++ fault.message)

/-- Finds the workspace root. -/
def find (setting : Setting) (world : World) (manifestPath? : Option Path) :
    Except Stop Path × World :=
  let command := command manifestPath?
  let failed (reason : String) : Stop := .failed (.metadata reason)
  match setting.script.place world.tree setting.cwd command with
  | .error error =>
    (.error (failed ("failed to start " ++ quotedCommand ++ ": " ++ error.message)), world)
  | .ok dir =>
    let behaviour := setting.script.behaviour command.args
    match behaviour.fate world.children world.signals with
    | .ended code signals =>
      ((rootFrom code (behaviour.stream false dir) (behaviour.stream true dir)).mapError failed,
        { world with signals })
    | .parentEnds => (.error .interruptedTwice, world)
    | .endless => (.error .endless, world)

end SoloRun.Workspace
