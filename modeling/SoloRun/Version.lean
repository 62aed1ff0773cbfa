import SoloRun.Number.Decimal
import SoloRun.Text.Cut

/-!
Versions as packages write them: three numbers, then the identifiers of a pre-release after a hyphen
and those of a build after a plus.
-/

namespace SoloRun.Version

/-- A number has no needless zeros and fits into 64 bits. -/
def isNumber (digits : List Char) : Bool :=
  digits ≠ [] && (digits.length = 1 || digits.head? ≠ some '0') &&
    Decimal.natUpTo UInt64.size digits < UInt64.size

/-- What follows a number. -/
def afterNumber? (text : List Char) : Option (List Char) :=
  if isNumber (text.takeWhile Char.isDigit) then some (text.dropWhile Char.isDigit) else none

def isIdentifier (part : List Char) : Bool :=
  part ≠ [] && part.all fun c => c.isAlphanum || c = '-'

/-- An identifier of a pre-release that is all digits has no needless zeros. -/
def isReleaseIdentifier (part : List Char) : Bool :=
  isIdentifier part && !(part.all Char.isDigit && part.length > 1 && part.head? = some '0')

def isRunChar (c : Char) : Bool :=
  c.isAlphanum || c = '-' || c = '.'

/-- What follows identifiers with dots between them, if `mark` announces them. -/
def afterIdentifiers? (mark : Char) (passes : List Char → Bool) (text : List Char) :
    Option (List Char) :=
  if text.head? = some mark then
    let run := (text.drop 1).takeWhile isRunChar
    if (cut '.' run).all passes then some ((text.drop 1).dropWhile isRunChar) else none
  else some text

/-- What follows a pre-release and a build, both of which may be missing. -/
def afterSuffixes? (text : List Char) : Option (List Char) :=
  (afterIdentifiers? '-' isReleaseIdentifier text).bind (afterIdentifiers? '+' isIdentifier)

def afterDot? : List Char → Option (List Char)
  | '.' :: rest => some rest
  | _ => none

def isVersion (text : List Char) : Bool :=
  ((afterNumber? text).bind afterDot?
    |>.bind afterNumber? |>.bind afterDot?
    |>.bind afterNumber? |>.bind afterSuffixes?) = some []

/-- The least version of a toolchain: two or three numbers and nothing else. -/
def isToolchain (text : List Char) : Bool :=
  !text.contains '-' && !text.contains '+' &&
    isVersion (if text.count '.' = 1 then text ++ ['.', '0'] else text)

end SoloRun.Version
