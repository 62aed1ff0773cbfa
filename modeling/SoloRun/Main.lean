import SoloRun.Program

/-!
The command line as a program of its own. It starts no children, so it answers what can be answered
without one: help, the version, refusals, and that the workspace cannot be found.
-/

namespace SoloRun

def childless : Surroundings where
  script := .missing
  durations := fun _ => .zero
  cwd := []
  clock := ⟨0, 0⟩
  offset := 0
  colour := false

end SoloRun

def main (args : List String) : IO UInt32 := do
  let line := (SoloRun.Command.runner :: args).map SoloRun.Utf8.encode
  let ended := SoloRun.Program.run SoloRun.childless line SoloRun.FileTree.empty
  (← IO.getStdout).write ended.out.toByteArray
  (← IO.getStderr).putStr ended.err
  return (ended.status?.getD 1).toUInt32
