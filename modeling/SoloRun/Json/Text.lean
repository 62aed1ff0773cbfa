import SoloRun.Json.Basic

/-!
The inside of a JSON string, as it stands between its quotes, and its text. Half a surrogate pair
may stand inside, but then there is no text.
-/

namespace SoloRun.Json

def hexValue? (c : Char) : Option Nat :=
  if c.isDigit then some (c.toNat - '0'.toNat)
  else if 'a' ≤ c ∧ c ≤ 'f' then some (c.toNat - 'a'.toNat + 10)
  else if 'A' ≤ c ∧ c ≤ 'F' then some (c.toNat - 'A'.toNat + 10)
  else none

def unit? (a b c d : Char) : Option Nat :=
  [a, b, c, d].foldlM (fun n digit => (hexValue? digit).map (16 * n + ·)) 0

def isHighUnit (unit : Nat) : Bool :=
  0xD800 ≤ unit && unit < 0xDC00

def isLowUnit (unit : Nat) : Bool :=
  0xDC00 ≤ unit && unit < 0xE000

def paired (high low : Nat) : Char :=
  Char.ofNat (0x10000 + (high - 0xD800) * 0x400 + (low - 0xDC00))

def unescaped? : Char → Option Char
  | '"' => some '"'
  | '\\' => some '\\'
  | '/' => some '/'
  | 'b' => some (Char.ofNat 8)
  | 'f' => some (Char.ofNat 12)
  | 'n' => some '\n'
  | 'r' => some '\r'
  | 't' => some '\t'
  | _ => none

/-- Puts characters in front of what was split off. -/
def before (start : List Char) (split : Option (List Char × List Char)) :
    Option (List Char × List Char) :=
  split.map fun (inner, rest) => (start ++ inner, rest)

/-- Splits off the inside of a string whose opening quote is already behind. -/
def inside? : List Char → Option (List Char × List Char)
  | '\\' :: 'u' :: a :: b :: c :: d :: rest =>
    if (unit? a b c d).isSome then before ['\\', 'u', a, b, c, d] (inside? rest) else none
  | '\\' :: c :: rest =>
    if (unescaped? c).isSome then before ['\\', c] (inside? rest) else none
  | c :: rest =>
    if c = '"' then some ([], rest)
    else if c = '\\' ∨ c.toNat < 32 then none
    else before [c] (inside? rest)
  | [] => none

/-- The text that the inside of a string stands for. -/
def text? : List Char → Option (List Char)
  | '\\' :: 'u' :: a :: b :: c :: d :: rest =>
    match unit? a b c d with
    | none => none
    | some unit =>
      if isHighUnit unit then
        match rest with
        | '\\' :: 'u' :: a' :: b' :: c' :: d' :: more =>
          match unit? a' b' c' d' with
          | some low => if isLowUnit low then (text? more).map (paired unit low :: ·) else none
          | none => none
        | _ => none
      else if isLowUnit unit then none
      else (text? rest).map (Char.ofNat unit :: ·)
  | '\\' :: c :: rest =>
    match unescaped? c with
    | some plain => (text? rest).map (plain :: ·)
    | none => none
  | c :: rest => (text? rest).map (c :: ·)
  | [] => some []

end SoloRun.Json
