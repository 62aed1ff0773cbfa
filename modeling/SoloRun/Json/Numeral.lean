import SoloRun.Number.Decimal
import SoloRun.Number.Double

/-!
Numbers as JSON writes them, and whether a double holds them.
-/

namespace SoloRun.Json

/-- The parts of a number as they are written: the point belongs to the fraction, and the letter and
the sign of the exponent to the exponent. -/
structure Numeral where
  minus : List Char
  whole : List Char
  fraction : List Char
  exponent : List Char
  deriving DecidableEq, Repr

namespace Numeral

open Decimal

def text (numeral : Numeral) : List Char :=
  numeral.minus ++ numeral.whole ++ numeral.fraction ++ numeral.exponent

/-- It has no sign, no fraction and no exponent, and its value fits into 64 bits. -/
def isWord (numeral : Numeral) : Bool :=
  numeral.minus = [] && numeral.fraction = [] && numeral.exponent = [] &&
    natUpTo UInt64.size numeral.whole < UInt64.size

/-- Appends digits to a number while it fits into 64 bits; the digits left over are counted. -/
def gather : Nat → List Char → Nat × Nat
  | n, [] => (n, 0)
  | n, digit :: rest =>
    if 10 * n + digitValue digit < UInt64.size then gather (10 * n + digitValue digit) rest
    else (n, rest.length + 1)

/-- No exponent counts for more than this. -/
def maxExponent : Nat := Nat.pow 2 31

def power : List Char → Int
  | _ :: '-' :: digits => -natUpTo maxExponent digits
  | _ :: '+' :: digits => natUpTo maxExponent digits
  | _ :: digits => natUpTo maxExponent digits
  | [] => 0

/-- The leading digits as one number, and the power of ten it is taken times. -/
def scaled (numeral : Numeral) : Nat × Int :=
  let places := numeral.fraction.drop 1
  let (whole, skipped) := gather 0 numeral.whole
  let (leading, left) := gather whole places
  (leading, power numeral.exponent + skipped - (places.length - left : Nat))

def greatestPower : Int := 308

/-- A double holds it: the leading digits, the power of ten and their product, each rounded to a
double, stay below 2^1024. -/
def inRange (numeral : Numeral) : Bool :=
  let (leading, power) := numeral.scaled
  leading = 0 || power < 0 || (power ≤ greatestPower &&
    Double.nearest (Double.nearest leading 1 * Double.nearest (Nat.pow 10 power.toNat) 1) 1 <
      Nat.pow 2 1024)

end Numeral
end SoloRun.Json
