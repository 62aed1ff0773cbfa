import SoloRun.Text.Alphanumeric

/-!
The platforms a dependency is for: the name of one, or a condition in `cfg(…)`.
-/

namespace SoloRun.Platform

inductive Token where
  | opening
  | closing
  | comma
  | equals
  | text (inner : List Char)
  | name (name : List Char)
  deriving DecidableEq, Repr

def startsName (c : Char) : Bool :=
  c.isAlpha || c = '_'

def inName (c : Char) : Bool :=
  startsName c || c.isDigit

/-- The tokens of a condition, or none if a character belongs to none. -/
def tokens? (text : List Char) : Option (List Token) :=
  match text with
  | [] => some []
  | ' ' :: rest => tokens? rest
  | '(' :: rest => (tokens? rest).map (.opening :: ·)
  | ')' :: rest => (tokens? rest).map (.closing :: ·)
  | ',' :: rest => (tokens? rest).map (.comma :: ·)
  | '=' :: rest => (tokens? rest).map (.equals :: ·)
  | c :: rest =>
    if c = '"' then
      match _h : rest.dropWhile (· ≠ '"') with
      | [] => none
      | _ :: more => (tokens? more).map (.text (rest.takeWhile (· ≠ '"')) :: ·)
    else if startsName c then
      (tokens? (rest.dropWhile inName)).map (.name (c :: rest.takeWhile inName) :: ·)
    else none
termination_by text.length
decreasing_by
  all_goals simp only [List.length_cons]
  all_goals try omega
  · have := (List.dropWhile_sublist (l := rest) (· ≠ '"')).length_le
    rw [_h] at this
    simp at this
    omega
  · have := (List.dropWhile_sublist (l := rest) inName).length_le
    omega

def groups : List (List Char) :=
  ["all", "any"].map String.toList

def negation : List Char := "not".toList

mutual

/-- What follows a condition that nests less than `fuel` deep. -/
def afterCondition? : Nat → List Token → Option (List Token)
  | fuel + 1, .name name :: rest =>
    if name ∈ groups then
      match rest with
      | .opening :: rest => afterItems? fuel rest
      | _ => none
    else if name = negation then
      match rest with
      | .opening :: rest =>
        match afterCondition? fuel rest with
        | some (.closing :: rest) => some rest
        | _ => none
      | _ => none
    else
      match rest with
      | .equals :: .text _ :: rest => some rest
      | .equals :: _ => none
      | rest => some rest
  | _, _ => none

/-- What follows conditions up to the closing bracket; a comma may stand after the last. -/
def afterItems? : Nat → List Token → Option (List Token)
  | _, .closing :: rest => some rest
  | fuel + 1, tokens =>
    match afterCondition? fuel tokens with
    | some (.comma :: rest) => afterItems? fuel rest
    | some (.closing :: rest) => some rest
    | _ => none
  | 0, _ => none

end

def isCondition (text : List Char) : Bool :=
  match tokens? text with
  | some tokens => afterCondition? (2 * tokens.length + 2) tokens = some []
  | none => false

def isName (text : List Char) : Bool :=
  text.all fun c => Alphanumeric.isAlphanumeric c || c = '_' || c = '-' || c = '.'

def condition? (text : List Char) : Option (List Char) :=
  let opening := "cfg(".toList
  if opening.isPrefixOf text ∧ text.getLast? = some ')' then
    some (text.drop opening.length).dropLast
  else none

def isPlatform (text : List Char) : Bool :=
  match condition? text with
  | some condition => isCondition condition
  | none => isName text

end SoloRun.Platform
