import SoloRun.Number.Rounding

/-!
Binary64 numbers in exact arithmetic: a finite one is a whole number of the least positive one,
2^-1074. `nearest` is rounding to 53 significant bits, `fixed` prints with a fixed number of places.
-/

namespace SoloRun

inductive Double where
  | finite (negative : Bool) (units : Nat)
  | infinite (negative : Bool)
  | nan
  deriving DecidableEq, Repr

namespace Double

/-- The units in one. -/
def one : Nat := Nat.pow 2 1074

def ofBits (bits : UInt64) : Double :=
  let negative := bits.toNat / Nat.pow 2 63 = 1
  let exponent := bits.toNat / Nat.pow 2 52 % Nat.pow 2 11
  let fraction := bits.toNat % Nat.pow 2 52
  if exponent = 0 then .finite negative fraction
  else if exponent < 2047 then
    .finite negative ((Nat.pow 2 52 + fraction) * Nat.pow 2 (exponent - 1))
  else if fraction = 0 then .infinite negative
  else .nan

/-- The distance between the numbers around `units`. -/
def spacing (units : Nat) : Nat :=
  Nat.pow 2 (units.log2 - 52)

/-- The units of the number nearest to `num / den` units, of two the one whose last bit is zero. -/
def nearest (num den : Nat) : Nat :=
  let step := spacing (num / den)
  roundDiv num (den * step) * step

/-- Digits of `n / 10 ^ places`, with all the places written. -/
def places (count n : Nat) : String :=
  let low := toString (n % Nat.pow 10 count)
  let padding := String.ofList (List.replicate (count - low.length) '0')
  toString (n / Nat.pow 10 count) ++ "." ++ padding ++ low

def fixedUnits (count units : Nat) : String :=
  places count (roundDiv (units * Nat.pow 10 count) one)

def fixed (count : Nat) : Double → String
  | .finite negative units => (if negative then "-" else "") ++ fixedUnits count units
  | .infinite negative => if negative then "-inf" else "inf"
  | .nan => "NaN"

end Double
end SoloRun
