import SoloRun.Text.Blank
import SoloRun.Text.Lines

/-!
What a listing child prints, read line by line: a test stands on a line of its own, with a marker
after its name.
-/

namespace SoloRun.Listing

def marker : List Char := ": test".toList

def nameOf? (line : List Char) : Option String :=
  let kept := Blank.trim line
  if marker.isSuffixOf kept then some (String.ofList (kept.take (kept.length - marker.length)))
  else none

def names (output : String) : List String :=
  (Lines.lines output.toList).filterMap nameOf?

end SoloRun.Listing
