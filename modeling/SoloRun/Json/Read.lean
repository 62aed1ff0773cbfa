import SoloRun.Json.Tree

/-!
Reading JSON: a text holds one value, with blanks around its tokens and nothing after it.
-/

namespace SoloRun.Json

def isBlank (c : Char) : Bool :=
  c = ' ' || c = '\n' || c = '\t' || c = '\r'

def skip (text : List Char) : List Char :=
  text.dropWhile isBlank

def digits (text : List Char) : List Char × List Char :=
  (text.takeWhile Char.isDigit, text.dropWhile Char.isDigit)

/-- The digits of a whole number: one zero, or a digit that is not zero and any more. -/
def whole? (text : List Char) : Option (List Char × List Char) :=
  match digits text with
  | ([], _) => none
  | (['0'], rest) => some (['0'], rest)
  | ('0' :: _, _) => none
  | (ds, rest) => some (ds, rest)

def fraction? : List Char → Option (List Char × List Char)
  | '.' :: text =>
    match digits text with
    | ([], _) => none
    | (ds, rest) => some ('.' :: ds, rest)
  | text => some ([], text)

def sign : List Char → List Char × List Char
  | '+' :: rest => (['+'], rest)
  | '-' :: rest => (['-'], rest)
  | text => ([], text)

def exponent? : List Char → Option (List Char × List Char)
  | [] => some ([], [])
  | e :: text =>
    if e = 'e' ∨ e = 'E' then
      match digits (sign text).2 with
      | ([], _) => none
      | (ds, rest) => some (e :: (sign text).1 ++ ds, rest)
    else some ([], e :: text)

def minus : List Char → List Char × List Char
  | '-' :: rest => (['-'], rest)
  | text => ([], text)

def numeral? (text : List Char) : Option (Numeral × List Char) := do
  let (minus, text) := minus text
  let (whole, text) ← whole? text
  let (fraction, text) ← fraction? text
  let (exponent, text) ← exponent? text
  some (⟨minus, whole, fraction, exponent⟩, text)

def name? : List Char → Option (List Char × List Char)
  | '"' :: rest => inside? rest
  | _ => none

def word? (word : String) (tree : Tree) (text : List Char) : Option (Tree × List Char) :=
  if word.toList.isPrefixOf text then some (tree, text.drop word.length) else none

mutual

/-- Reads a value that nests less than `fuel` deep. -/
def tree? : Nat → List Char → Option (Tree × List Char)
  | 0, _ => none
  | fuel + 1, text =>
    match skip text with
    | [] => none
    | '\x7b' :: rest =>
      match skip rest with
      | '\x7d' :: rest => some (.object [], rest)
      | rest => (members? fuel rest).map fun (members, rest) => (.object members, rest)
    | '[' :: rest =>
      match skip rest with
      | ']' :: rest => some (.array [], rest)
      | rest => (items? fuel rest).map fun (items, rest) => (.array items, rest)
    | '"' :: rest => (inside? rest).map fun (inner, rest) => (.string inner, rest)
    | 'n' :: rest => word? "null" .null ('n' :: rest)
    | 't' :: rest => word? "true" (.bool true) ('t' :: rest)
    | 'f' :: rest => word? "false" (.bool false) ('f' :: rest)
    | text => (numeral? text).map fun (numeral, rest) => (.number numeral, rest)

/-- Reads items up to the closing bracket. -/
def items? : Nat → List Char → Option (List Tree × List Char)
  | 0, _ => none
  | fuel + 1, text =>
    match tree? fuel text with
    | none => none
    | some (item, rest) =>
      match skip rest with
      | ',' :: rest => (items? fuel rest).map fun (items, rest) => (item :: items, rest)
      | ']' :: rest => some ([item], rest)
      | _ => none

/-- Reads members up to the closing brace. -/
def members? : Nat → List Char → Option (List (List Char × Tree) × List Char)
  | 0, _ => none
  | fuel + 1, text =>
    match name? (skip text) with
    | none => none
    | some (name, rest) =>
      match skip rest with
      | ':' :: rest =>
        match tree? fuel rest with
        | none => none
        | some (value, rest) =>
          match skip rest with
          | ',' :: rest =>
            (members? fuel rest).map fun (members, rest) => ((name, value) :: members, rest)
          | '\x7d' :: rest => some ([(name, value)], rest)
          | _ => none
      | _ => none

end

/-- The one value of a whole text, taken apart. -/
def parsed? (text : List Char) : Option Tree :=
  match tree? (2 * text.length + 2) text with
  | some (tree, rest) => if (skip rest).isEmpty then some tree else none
  | none => none

/-- The value a whole text holds. -/
def read? (text : List Char) : Option Json :=
  (parsed? text).bind Tree.value?

end SoloRun.Json
