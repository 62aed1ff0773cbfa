import SoloRun.Number.Double

/-!
The fewest decimal digits that read back as the same binary64 number, and their layout.
-/

namespace SoloRun.Double

/-- The reals that round to `units`, in quarters of a unit: two ends, and whether they belong. -/
def basin (units : Nat) : Nat × Nat × Bool :=
  let step := spacing units
  let below := if units = Nat.pow 2 52 * step ∧ 1 < step then step else 2 * step
  (4 * units - below, 4 * units + 2 * step, units / step % 2 = 0)

def inBasin (units num den : Nat) : Bool :=
  let (low, high, ends) := basin units
  if ends then low * den ≤ 4 * num && 4 * num ≤ high * den
  else low * den < 4 * num && 4 * num < high * den

/-- The power of ten above `units`: the number is `0.d₁d₂…` times ten to it. -/
def magnitude (units : Nat) : Int :=
  (toString (units * Nat.pow 10 400 / one)).length - 400

/-- A decimal: digits `d₁d₂…` as one number, and the exponent of `0.d₁d₂…`. -/
structure Digits where
  digits : Nat
  exponent : Int
  deriving DecidableEq, Repr

/-- The decimal with `count` digits next to `units` that reads back, if one does. -/
def withDigits (units count : Nat) : Option Digits :=
  let exponent := magnitude units
  let lift := Nat.pow 10 (count - exponent).toNat
  let drop := Nat.pow 10 (exponent - count).toNat
  let num := units * lift
  let den := one * drop
  let low := num / den
  let hits (n : Nat) : Bool := inBasin units (n * den) lift
  let pick :=
    if hits low && hits (low + 1) then some (roundDiv num den)
    else if hits low then some low
    else if hits (low + 1) then some (low + 1)
    else none
  pick.map fun n =>
    if n = Nat.pow 10 count then ⟨Nat.pow 10 (count - 1), exponent + 1⟩ else ⟨n, exponent⟩

def shortestDigits (units : Nat) : Digits :=
  ((List.range 17).findSome? fun i => withDigits units (i + 1)).getD ⟨0, 0⟩

/-- Which exponents of `0.d₁d₂…` are written without an exponent. -/
structure Layout where
  least : Int
  greatest : Int
  deriving DecidableEq, Repr

def zeros (n : Nat) : List Char := List.replicate n '0'

def Layout.write (layout : Layout) (d : Digits) : String :=
  let digits := (toString d.digits).toList
  let after := d.exponent - digits.length
  if d.exponent < layout.least ∨ layout.greatest < d.exponent then
    let tail := if digits.length = 1 then [] else '.' :: digits.drop 1
    let sign := if d.exponent < 1 then "" else "+"
    String.ofList (digits.take 1 ++ tail ++ ['e']) ++ sign ++ toString (d.exponent - 1)
  else if 0 ≤ after then
    String.ofList (digits ++ zeros after.toNat ++ ['.', '0'])
  else if 0 < d.exponent then
    String.ofList (digits.take d.exponent.toNat ++ '.' :: digits.drop d.exponent.toNat)
  else
    String.ofList ('0' :: '.' :: zeros (-d.exponent).toNat ++ digits)

/-- The shortest text of a finite number. -/
def shortest? (layout : Layout) : Double → Option String
  | .finite negative 0 => some (if negative then "-0.0" else "0.0")
  | .finite negative units =>
    some ((if negative then "-" else "") ++ layout.write (shortestDigits units))
  | _ => none

end SoloRun.Double
