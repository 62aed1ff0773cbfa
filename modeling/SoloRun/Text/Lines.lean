import SoloRun.Text.Cut

/-!
Lines of a text, as a reader of lines gets them: no line ends, and nothing after the last line feed
if nothing is there.
-/

namespace SoloRun.Lines

/-- Drops one carriage return at the end. -/
def dropReturn (line : List Char) : List Char :=
  if line.getLast? = some '\r' then line.dropLast else line

/-- The lines among the parts between line feeds. -/
def ofParts : List (List Char) → List (List Char)
  | [] => []
  | [rest] => if rest.isEmpty then [] else [rest]
  | line :: more => dropReturn line :: ofParts more

def lines (text : List Char) : List (List Char) :=
  ofParts (cut '\n' text)

end SoloRun.Lines
