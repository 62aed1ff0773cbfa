import SoloRun.Number.Double

/-!
Lengths of time in seconds and nanoseconds, the seconds in 64 bits. Adding up fails once the
seconds no longer fit.
-/

namespace SoloRun

def nanosPerSecond : Nat := 1000000000

structure Duration where
  secs : Nat
  nanos : Nat
  secs_lt : secs < UInt64.size
  nanos_lt : nanos < nanosPerSecond
  deriving DecidableEq, Repr

namespace Duration

def zero : Duration := ⟨0, 0, by decide, by decide⟩

def toNanos (d : Duration) : Nat :=
  d.secs * nanosPerSecond + d.nanos

def ofNanos? (n : Nat) : Option Duration :=
  if h : n / nanosPerSecond < UInt64.size then
    some ⟨n / nanosPerSecond, n % nanosPerSecond, h, Nat.mod_lt _ (by decide)⟩
  else none

def add? (a b : Duration) : Option Duration :=
  let secs := a.secs + b.secs
  let nanos := a.nanos + b.nanos
  if _h : nanos < nanosPerSecond then
    if h : secs < UInt64.size then some ⟨secs, nanos, h, _h⟩ else none
  else
    if h : secs + 1 < UInt64.size then
      some ⟨secs + 1, nanos - nanosPerSecond, h, by
        have := a.nanos_lt; have := b.nanos_lt; omega⟩
    else none

/-- The sum of the durations, added up one by one. -/
def total? (ds : List Duration) : Option Duration :=
  ds.foldlM add? zero

/-- Whole milliseconds, in 64 bits. -/
def millis (d : Duration) : Nat :=
  (d.secs * 1000 + d.nanos / 1000000) % UInt64.size

/-- Units of the seconds as a binary64 number: whole seconds and the fraction are rounded each,
then their sum. -/
def secondUnits (d : Duration) : Nat :=
  let whole := Double.nearest (d.secs * Double.one) 1
  let fraction := Double.nearest (d.nanos * Double.one) nanosPerSecond
  Double.nearest (whole + fraction) 1

def seconds (d : Duration) : Double :=
  .finite false d.secondUnits

end Duration
end SoloRun
