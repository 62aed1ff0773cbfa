/-!
Terminal colours: a style is opened and reset by escape sequences around a text, and opened again
after each reset inside it. `strip` takes such sequences out.
-/

namespace SoloRun

inductive Style where
  | bold
  | boldRed
  | boldGreen
  | boldYellow
  | boldCyan
  deriving DecidableEq, Repr

namespace Ansi

def reset : List Char := "\x1b[0m".toList

def code : Style → String
  | .bold => "1"
  | .boldRed => "1;31"
  | .boldGreen => "1;32"
  | .boldYellow => "1;33"
  | .boldCyan => "1;36"

def opening (style : Style) : List Char :=
  ("\x1b[" ++ code style ++ "m").toList

/-- Opens the style again after each reset. -/
def reopened (style : Style) : List Char → List Char
  | '\x1b' :: '[' :: '0' :: 'm' :: rest => reset ++ opening style ++ reopened style rest
  | c :: rest => c :: reopened style rest
  | [] => []

def paint (colour : Bool) (style : Style) (text : String) : String :=
  if colour then String.ofList (opening style ++ reopened style text.toList ++ reset) else text

/-- The rest after a sequence's digits and its final letter. -/
def afterSequence? : List Char → Option (List Char)
  | [] => none
  | c :: rest =>
    if c = 'm' then some rest
    else if c.isDigit || c = ';' then afterSequence? rest
    else none

theorem length_afterSequence? {text rest : List Char} (h : afterSequence? text = some rest) :
    rest.length < text.length := by
  fun_induction afterSequence? text <;> grind

def strip (text : List Char) : List Char :=
  match text with
  | '\x1b' :: '[' :: more =>
    match _h : afterSequence? more with
    | some rest => strip rest
    | none => '\x1b' :: strip ('[' :: more)
  | c :: rest => c :: strip rest
  | [] => []
termination_by text.length
decreasing_by
  all_goals simp
  have := length_afterSequence? _h
  omega

end Ansi
end SoloRun
