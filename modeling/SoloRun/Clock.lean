/-!
Wall clocks, and the stamp that names the directory of a run: local date and time in the
proleptic Gregorian calendar.
-/

namespace SoloRun

/-- Time since the start of 1970 in UTC: whole seconds, rounded down, and nanoseconds. -/
structure Clock where
  secs : Int
  nanos : Nat
  deriving DecidableEq, Repr

/-- Whole milliseconds since 1970, none before it. -/
def Clock.millis? (clock : Clock) : Option Nat :=
  if clock.secs < 0 then none
  else some (clock.secs.toNat * 1000 + clock.nanos / 1000000)

structure Date where
  year : Int
  month : Nat
  day : Nat
  deriving DecidableEq, Repr

namespace Date

def isLeap (year : Int) : Bool :=
  year % 4 = 0 && (year % 100 ≠ 0 || year % 400 = 0)

def monthLengths (year : Int) : List Nat :=
  [31, if isLeap year then 29 else 28, 31, 30, 31, 30, 31, 31, 30, 31, 30, 31]

/-- Days from the first day of year zero to the first day of `year`. -/
def daysBefore (year : Int) : Int :=
  365 * year + (year + 3) / 4 - (year + 99) / 100 + (year + 399) / 400

/-- The days from the first day of year zero to the first day of 1970. -/
def epoch : Int := 719528

/-- Days from the first day of the year to the first day of the month. -/
def daysBeforeMonth (date : Date) : Nat :=
  ((monthLengths date.year).take (date.month - 1)).foldl (· + ·) 0

def toDays (date : Date) : Int :=
  daysBefore date.year + daysBeforeMonth date + (date.day - 1) - epoch

/-- Month and day of the day that many days into a year with these month lengths. -/
def inMonths : Nat → List Nat → Nat → Nat × Nat
  | month, [], day => (month, day + 1)
  | month, length :: rest, day =>
    if day < length then (month, day + 1) else inMonths (month + 1) rest (day - length)

/-- The year that holds the day, `guess` being at most one too early. -/
def yearOf (day : Int) : Int :=
  let guess := (400 * day) / 146097
  if daysBefore (guess + 1) ≤ day then guess + 1
  else if day < daysBefore guess then guess - 1
  else guess

def ofDays (days : Int) : Date :=
  let day := days + epoch
  let year := yearOf day
  let (month, dayOfMonth) := inMonths 1 (monthLengths year) (day - daysBefore year).toNat
  ⟨year, month, dayOfMonth⟩

end Date

namespace Stamp

def padded (width n : Nat) : String :=
  let digits := toString n
  String.ofList (List.replicate (width - digits.length) '0') ++ digits

def year (y : Int) : String :=
  if 0 ≤ y ∧ y ≤ 9999 then padded 4 y.toNat
  else (if y < 0 then "-" else "+") ++ padded 4 y.natAbs

/-- The stamp of a whole local second since 1970. -/
def ofLocal (secs : Int) : String :=
  let date := Date.ofDays (secs / 86400)
  let second := (secs % 86400).toNat
  year date.year ++ "-" ++ padded 2 date.month ++ "-" ++ padded 2 date.day ++ "_" ++
    padded 2 (second / 3600) ++ "-" ++ padded 2 (second / 60 % 60) ++ "-" ++ padded 2 (second % 60)

/-- The last second of the calendar's range, the end of the year 262142. -/
def lastSecond : Int := 8210266876799

/-- An offset from UTC in seconds, which is less than a day; any other counts as none. -/
def zoneOffset (offset : Int) : Int :=
  if offset.natAbs < 86400 then offset else 0

/-- The stamp of a clock in a zone `offset` seconds east of UTC; none before 1970 or past the
calendar. -/
def ofClock? (clock : Clock) (offset : Int) : Option String :=
  if clock.secs < 0 ∨ lastSecond < clock.secs then none
  else some (ofLocal (clock.secs + zoneOffset offset))

end Stamp
end SoloRun
