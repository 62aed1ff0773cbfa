import SoloRun.Version

/-!
Requirements on versions: comparators with commas between them, or one wildcard alone. A comparator
may leave out its last numbers or put a wildcard there.
-/

namespace SoloRun.Version

def operators : List (List Char) :=
  [">=", "<=", ">", "<", "=", "~", "^"].map String.toList

/-- What follows an operator, which may be missing. -/
def afterOperator (text : List Char) : List Char :=
  match operators.find? (·.isPrefixOf text) with
  | some operator => text.drop operator.length
  | none => text

def skipSpaces (text : List Char) : List Char :=
  text.dropWhile (· = ' ')

def isWildcard (c : Char) : Bool :=
  c = '*' || c = 'x' || c = 'X'

/-- What may stand after a dot. -/
inductive Component where
  | missing
  | wildcard
  | number
  deriving DecidableEq, Repr

def component? : List Char → Option (Component × List Char)
  | '.' :: c :: rest =>
    if isWildcard c then some (.wildcard, rest)
    else (afterNumber? (c :: rest)).map fun rest => (.number, rest)
  | ['.'] => none
  | text => some (.missing, text)

/-- After a wildcard stands no number, and only three numbers are followed by a suffix. -/
def afterComparator? (text : List Char) : Option (List Char) := do
  let rest ← afterNumber? (skipSpaces (afterOperator text))
  let (minor, rest) ← component? rest
  let (patch, rest) ← component? rest
  if minor = .wildcard ∧ patch = .number then none
  else if patch = .number then afterSuffixes? rest
  else some rest

def isComparator (text : List Char) : Bool :=
  ((afterComparator? (skipSpaces text)).map skipSpaces) = some []

def maxComparators : Nat := 32

def isRequirement (text : List Char) : Bool :=
  match skipSpaces text with
  | c :: rest =>
    if isWildcard c then (skipSpaces rest).isEmpty
    else (cut ',' text).length ≤ maxComparators && (cut ',' text).all isComparator
  | [] => false

end SoloRun.Version
