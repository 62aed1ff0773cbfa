import SoloRun.Proofs.Nearest
import SoloRun.Proofs.Readback
import SoloRun.Proofs.Stamps

/-!
Durations in print. Seconds are rounded three times on their way into a number and once more on
their way to the page, and still a longer duration never prints as less. Whole milliseconds print
as they are up to 2^43 seconds.
-/

namespace SoloRun

namespace Decimal

/-- The number that digits with a point and `count` decimals write. -/
def value? (count : Nat) (text : List Char) : Option ℚ :=
  match cut '.' text with
  | [whole, fraction] =>
    if whole ≠ [] ∧ fraction.length = count ∧ (whole ++ fraction).all Char.isDigit then
      some (natOf whole + natOf fraction / 10 ^ count)
    else none
  | _ => none

/-- The last digits of a text, with the points among them. -/
def lastNumber (text : List Char) : List Char :=
  ((text.reverse.dropWhile fun c => !c.isDigit).takeWhile fun c => c.isDigit || c = '.').reverse

def lastValue? (count : Nat) (text : String) : Option ℚ :=
  value? count (lastNumber text.toList)

section LastNumber

variable {before number after : List Char} {stop : Char}

theorem lastNumber_append (hstop : stop.isDigit = false ∧ stop ≠ '.')
    (hnumber : ∀ c ∈ number, c.isDigit = true ∨ c = '.') {last : Char}
    (hlast : number.getLast? = some last) (hdigit : last.isDigit = true)
    (hafter : after.any Char.isDigit = false) :
    lastNumber (before ++ stop :: (number ++ after)) = number := by
  have hreverse : (before ++ stop :: (number ++ after)).reverse =
      after.reverse ++ (number.reverse ++ stop :: before.reverse) := by simp
  have hdrop : (after.reverse ++ (number.reverse ++ stop :: before.reverse)).dropWhile
      (fun c => !c.isDigit) = number.reverse ++ stop :: before.reverse := by
    obtain ⟨rest, hrest⟩ := List.head?_eq_some_iff.mp (List.head?_reverse.trans hlast)
    rw [List.dropWhile_append_of_pos (by simpa using hafter), hrest, List.cons_append,
      List.dropWhile_cons_of_neg (by simp [hdigit])]
  have htake : (number.reverse ++ stop :: before.reverse).takeWhile
      (fun c => c.isDigit || c = '.') = number.reverse := by
    rw [List.takeWhile_append_of_pos (by simpa using hnumber),
      List.takeWhile_cons_of_neg (by simp [hstop]), List.append_nil]
  rw [lastNumber, hreverse, hdrop, htake, List.reverse_reverse]

theorem lastNumber_text {before mark number after : String} {stop last : Char}
    (hmark : mark.toList.getLast? = some stop) (hstop : stop.isDigit = false ∧ stop ≠ '.')
    (hnumber : ∀ c ∈ number.toList, c.isDigit = true ∨ c = '.')
    (hlast : number.toList.getLast? = some last) (hdigit : last.isDigit = true)
    (hafter : after.toList.any Char.isDigit = false) :
    lastNumber (before ++ mark ++ number ++ after).toList = number.toList := by
  obtain ⟨front, hfront⟩ := List.getLast?_eq_some_iff.mp hmark
  have htext : (before ++ mark ++ number ++ after).toList =
      (before.toList ++ front) ++ stop :: (number.toList ++ after.toList) := by
    simp only [String.toList_append, hfront, List.append_assoc, List.cons_append, List.nil_append]
  rw [htext, lastNumber_append hstop hnumber hlast hdigit hafter]

end LastNumber

end Decimal

namespace Double

variable {count : Nat}

theorem places_eq (count n : Nat) : places count n =
    toString (n / 10 ^ count) ++ "." ++ Stamp.padded count (n % 10 ^ count) := by
  simp only [places, Stamp.padded, String.append_assoc, Nat.pow_eq]

theorem toList_places (count n : Nat) : (places count n).toList =
    (toString (n / 10 ^ count)).toList ++ '.' :: (Stamp.padded count (n % 10 ^ count)).toList := by
  have hpoint : ".".toList = ['.'] := by decide
  rw [places_eq, String.toList_append, String.toList_append, hpoint, List.append_assoc,
    List.singleton_append]

theorem writes_fraction (hcount : 0 < count) (n : Nat) :
    Stamp.Writes count (n % 10 ^ count) (Stamp.padded count (n % 10 ^ count)).toList :=
  Stamp.writes_padded hcount (Nat.mod_lt _ (Nat.pow_pos (by decide)))

theorem value?_places (hcount : 0 < count) (n : Nat) :
    Decimal.value? count (places count n).toList = some (n / 10 ^ count : ℚ) := by
  have hwhole : Json.Digits (toString (n / 10 ^ count)).toList := Json.digits_toString _
  have hfraction := writes_fraction hcount n
  have hpoint {digits : List Char} (h : Json.Digits digits) : '.' ∉ digits := fun hmem =>
    absurd (h '.' hmem) (by decide)
  have hcut : cut '.' (places count n).toList = [(toString (n / 10 ^ count)).toList,
      (Stamp.padded count (n % 10 ^ count)).toList] := by
    rw [toList_places, cut_append, cut_of_not_mem (hpoint hwhole),
      cut_of_not_mem (hpoint hfraction.numeric)]
    rfl
  have hdigits : ((toString (n / 10 ^ count)).toList ++
      (Stamp.padded count (n % 10 ^ count)).toList).all Char.isDigit = true :=
    List.all_eq_true.mpr (hwhole.append hfraction.numeric)
  have hvalue : ((n / 10 ^ count : Nat) : ℚ) + (n % 10 ^ count : Nat) / 10 ^ count =
      n / 10 ^ count := by
    have hsum : ((n / 10 ^ count * 10 ^ count + n % 10 ^ count : Nat) : ℚ) = n :=
      congrArg _ (Nat.div_add_mod' n _)
    push_cast at hsum
    rw [← hsum]
    field_simp
  rw [Decimal.value?, hcut]
  simp only
  rw [if_pos ⟨Decimal.toString_ne_nil _, hfraction.length, hdigits⟩, Decimal.natOf_toString,
    hfraction.value, hvalue]

theorem getLast?_places (hcount : 0 < count) (n : Nat) :
    ∃ last, (places count n).toList.getLast? = some last ∧ last.isDigit = true := by
  have hfraction := writes_fraction hcount n
  have hne : (Stamp.padded count (n % 10 ^ count)).toList ≠ [] :=
    List.ne_nil_of_length_pos (hfraction.length.symm ▸ hcount)
  obtain ⟨last, hlast⟩ := Option.isSome_iff_exists.mp (List.getLast?_isSome.mpr hne)
  refine ⟨last, ?_, hfraction.numeric last (List.mem_of_getLast? hlast)⟩
  rw [toList_places, List.getLast?_append, List.getLast?_cons_of_ne_nil hne, hlast]
  rfl

end Double

namespace Duration

open Double

variable {first second d : Duration}

def whole (d : Duration) : Nat :=
  nearest (d.secs * one) 1

def fraction (d : Duration) : Nat :=
  nearest (d.nanos * one) nanosPerSecond

theorem secondUnits_eq (d : Duration) : d.secondUnits = nearest (d.whole + d.fraction) 1 := rfl

/-- A nanosecond is more than 2^-30 seconds, so the fraction never rounds up to a second. -/
theorem fraction_lt (d : Duration) : d.fraction < one := by
  obtain ⟨exponent, hone⟩ := exists_one_eq (by decide : 30 ≤ 1074)
  have hlast : Representable ((2 ^ 30 - 1) * 2 ^ exponent) :=
    representable_mul_pow (by norm_num) exponent
  have hunit := Nat.two_pow_pos exponent
  have hper : nanosPerSecond = 1000000000 := rfl
  have hnanos : d.nanos ≤ 999999999 := Nat.le_of_lt_succ d.nanos_lt
  rw [fraction, hper, hone, pow_add]
  generalize 2 ^ exponent = unit at hlast hunit ⊢
  have hle : nearest (d.nanos * (unit * 2 ^ 30)) 1000000000 ≤ (2 ^ 30 - 1) * unit := by
    apply nearest_le (by decide) hlast
    have hmul := Nat.mul_le_mul_right (unit * 2 ^ 30) hnanos
    omega
  omega

theorem whole_of_le (h : d.secs ≤ 2 ^ 53) : d.whole = d.secs * one := by
  have hwhole := nearest_of_representable Nat.one_pos (representable_mul_one h)
  rwa [Nat.mul_one] at hwhole

theorem representable_whole (d : Duration) : Representable d.whole :=
  representable_nearest Nat.one_pos _

theorem whole_mono (h : first.secs ≤ second.secs) : first.whole ≤ second.whole :=
  nearest_mono Nat.one_pos (Nat.mul_le_mul_right one h)

theorem fraction_mono (h : first.nanos ≤ second.nanos) : first.fraction ≤ second.fraction :=
  nearest_mono (by decide) (Nat.mul_le_mul_right one h)

/-- From 2^53 seconds on the fraction is lost. -/
theorem secondUnits_of_large (h : 2 ^ 53 ≤ d.secs) : d.secondUnits = d.whole := by
  have hmul : 2 ^ 53 * one ≤ d.secs * one * 1 := by
    rw [Nat.mul_one]
    exact Nat.mul_le_mul_right one h
  have hwhole : 2 ^ 53 * one ≤ d.whole :=
    le_nearest Nat.one_pos (representable_mul_one (Nat.le_refl _)) (by omega)
  have hspacing : 2 * one ≤ spacing d.whole :=
    calc 2 * one = spacing (2 ^ 53 * one) := by
          obtain ⟨exponent, hone⟩ := exists_one_eq (Nat.zero_le 1074)
          rw [hone, Nat.add_zero, ← pow_add, Nat.add_comm, spacing_two_pow]
      _ ≤ spacing d.whole := spacing_le hwhole
  rw [secondUnits_eq]
  apply d.representable_whole.nearest_add
  have hfraction := d.fraction_lt
  omega

theorem secondUnits_of_secs_lt (h : first.secs < second.secs) :
    first.secondUnits ≤ second.secondUnits := by
  have hsecond : second.whole ≤ second.secondUnits := by
    rw [secondUnits_eq]
    exact le_nearest Nat.one_pos second.representable_whole (by omega)
  by_cases hsmall : first.secs < 2 ^ 53
  · -- both sides of the next whole second
    have hnext : (first.secs + 1) * one ≤ second.whole := by
      apply le_nearest Nat.one_pos (representable_mul_one hsmall)
      rw [Nat.mul_one]
      exact Nat.mul_le_mul_right one h
    have hfirst : first.whole + first.fraction ≤ (first.secs + 1) * one := by
      rw [whole_of_le hsmall.le, Nat.succ_mul]
      exact Nat.add_le_add_left first.fraction_lt.le _
    rw [secondUnits_eq, secondUnits_eq]
    exact nearest_mono Nat.one_pos (by omega)
  · rw [secondUnits_of_large (Nat.not_lt.mp hsmall)]
    exact (whole_mono h.le).trans hsecond

theorem secondUnits_mono (h : first.toNanos ≤ second.toNanos) :
    first.secondUnits ≤ second.secondUnits := by
  have hfirst := first.nanos_lt
  have hsecond := second.nanos_lt
  have hper : nanosPerSecond = 1000000000 := rfl
  have horder : first.secs < second.secs ∨
      first.secs = second.secs ∧ first.nanos ≤ second.nanos := by
    rw [hper] at hfirst hsecond
    simp only [toNanos, hper] at h
    omega
  rcases horder with hlt | ⟨hsecs, hnanos⟩
  · exact secondUnits_of_secs_lt hlt
  · rw [secondUnits_eq, secondUnits_eq]
    exact nearest_mono Nat.one_pos (Nat.add_le_add (whole_mono hsecs.le) (fraction_mono hnanos))

/-- The seconds in units of the last of so many decimals. -/
def printed (count : Nat) (d : Duration) : Nat :=
  roundDiv (d.secondUnits * 10 ^ count) one

theorem printed_mono (count : Nat) (h : first.toNanos ≤ second.toNanos) :
    first.printed count ≤ second.printed count :=
  roundDiv_mono one (Nat.mul_le_mul_right _ (secondUnits_mono h))

theorem fixed_seconds (count : Nat) (d : Duration) :
    d.seconds.fixed count = places count (d.printed count) := by
  rw [seconds, fixed, if_neg Bool.false_ne_true, String.empty_append, fixedUnits]
  rfl

theorem fraction_near {exponent : Nat} (hone : one = 2 ^ (exponent + 53)) (d : Duration) :
    2 * (d.fraction * nanosPerSecond) ≤ 2 * (d.nanos * one) + nanosPerSecond * 2 ^ exponent ∧
      2 * (d.nanos * one) ≤ 2 * (d.fraction * nanosPerSecond) + nanosPerSecond * 2 ^ exponent := by
  apply nearest_near (by decide)
  rw [← hone, Nat.div_lt_iff_lt_mul (by decide), Nat.mul_comm one]
  exact Nat.mul_lt_mul_of_pos_right d.nanos_lt Double.one_pos

theorem secondUnits_near {exponent : Nat} (hone : one = 2 ^ (exponent + 53))
    (hsecs : d.secs < 2 ^ 43) :
    2 * d.secondUnits ≤ 2 * (d.secs * one + d.fraction) + 2 ^ 43 * 2 ^ exponent ∧
      2 * (d.secs * one + d.fraction) ≤ 2 * d.secondUnits + 2 ^ 43 * 2 ^ exponent := by
  have hwhole : d.whole = d.secs * one := whole_of_le (by omega)
  have hfraction := d.fraction_lt
  have hbelow : (d.whole + d.fraction) / 1 < 2 ^ (43 + exponent + 53) := by
    have hmul := Nat.mul_le_mul_right one (Nat.succ_le_of_lt hsecs)
    rw [Nat.succ_mul] at hmul
    rw [Nat.div_one, Nat.add_assoc, pow_add, ← hone]
    omega
  have hnear := nearest_near Nat.one_pos hbelow
  rwa [Nat.one_mul, ← secondUnits_eq, Nat.mul_one, pow_add, hwhole] at hnear

/-- Below 2^43 seconds the roundings together move a number by less than half a millisecond. -/
theorem printed_of_millis {millis : Nat} (hsecs : d.secs < 2 ^ 43)
    (hnanos : d.nanos = millis * 1000000) : d.printed 3 = d.secs * 1000 + millis := by
  obtain ⟨exponent, hone⟩ := exists_one_eq (by decide : 53 ≤ 1074)
  have hfraction := fraction_near hone d
  have hsum := secondUnits_near hone hsecs
  have hper : nanosPerSecond = 1000000000 := rfl
  have hexact : (d.secs * 1000 + millis) * one = 1000 * (d.secs * one) + millis * one := by ring
  have hscaled : d.nanos * one = 1000000 * (millis * one) := by
    rw [hnanos]
    ring
  have hunit := Nat.two_pow_pos exponent
  rw [pow_add] at hone
  rw [hscaled, hper] at hfraction
  -- thousandths are off by 500 * (2^43 + 1) units at most, and half of one is 2^52 units
  apply roundDiv_eq_of_near Double.one_pos <;> omega

theorem lastValue?_seconds {count : Nat} (hcount : 0 < count) (d : Duration)
    {before mark after : String} {stop : Char} (hmark : mark.toList.getLast? = some stop)
    (hstop : stop.isDigit = false ∧ stop ≠ '.') (hafter : after.toList.any Char.isDigit = false) :
    Decimal.lastValue? count (before ++ mark ++ d.seconds.fixed count ++ after) =
      some (d.printed count / 10 ^ count : ℚ) := by
  obtain ⟨last, hlast, hdigit⟩ := getLast?_places hcount (d.printed count)
  rw [fixed_seconds, Decimal.lastValue?,
    Decimal.lastNumber_text hmark hstop (fun _ => mem_places) hlast hdigit hafter]
  exact value?_places hcount _

end Duration

/-- The places where a duration is printed, and with how many decimals. -/
inductive PrintsSeconds : Nat → Duration → String → Prop where
  | result (result : TestResult) : PrintsSeconds 3 result.duration result.line
  | summary (results : List TestResult) (total : Duration) :
    PrintsSeconds 2 total (Report.summary results total)
  | check (command : Command) (capture : Capture) :
    PrintsSeconds 2 capture.duration (Run.checkHeader command capture)

theorem PrintsSeconds.lastValue? {count : Nat} {d : Duration} {text : String}
    (h : PrintsSeconds count d text) :
    Decimal.lastValue? count text = some (d.printed count / 10 ^ count : ℚ) := by
  cases h with
  | result result =>
    have hmark : " (".toList.getLast? = some '(' := by decide
    have hafter : "s)".toList.any Char.isDigit = false := by decide
    rw [TestResult.line_eq]
    exact result.duration.lastValue?_seconds (by decide) hmark (by decide) hafter
  | summary results =>
    have hmark : " duration=".toList.getLast? = some '=' := by decide
    have hafter : "s".toList.any Char.isDigit = false := by decide
    rw [Report.summary_eq]
    exact d.lastValue?_seconds (by decide) hmark (by decide) hafter
  | check command capture =>
    have hmark : "\nDuration: ".toList.getLast? = some ' ' := by decide
    have hafter : ("s\nResult: " ++ if capture.success then "ok" else "FAIL").toList.any
        Char.isDigit = false := by
      cases capture.success <;> decide
    rw [Run.checkHeader, String.append_assoc]
    exact capture.duration.lastValue?_seconds (by decide) hmark (by decide) hafter

/-- Durations keep their order in print, however the roundings fall. A test's line shows whole
milliseconds exactly while the seconds are fewer than 2^43. -/
theorem durations_print_in_order :
    (∀ (count : Nat) (first second : Duration) (text other : String),
      first.toNanos ≤ second.toNanos → PrintsSeconds count first text →
        PrintsSeconds count second other → ∃ low high : ℚ,
          Decimal.lastValue? count text = some low ∧
            Decimal.lastValue? count other = some high ∧ low ≤ high) ∧
    (∀ (result : TestResult) (millis : Nat), result.duration.secs < 2 ^ 43 →
      result.duration.nanos = millis * 1000000 → ∃ digits, Stamp.Writes 3 millis digits ∧
        result.line = "- " ++ result.name ++ ": " ++ result.verdict ++ " (" ++
          toString result.duration.secs ++ "." ++ String.ofList digits ++ "s)") := by
  refine ⟨?_, ?_⟩
  · intro count first second text other horder hfirst hsecond
    refine ⟨_, _, hfirst.lastValue?, hsecond.lastValue?, ?_⟩
    have hprinted := Duration.printed_mono count horder
    gcongr
  · intro result millis hsecs hnanos
    have hlt : millis < 1000 := by
      have hnanos_lt := result.duration.nanos_lt
      have hper : nanosPerSecond = 1000000000 := rfl
      omega
    have hwhole : (result.duration.secs * 1000 + millis) / 10 ^ 3 = result.duration.secs := by omega
    have hrest : (result.duration.secs * 1000 + millis) % 10 ^ 3 = millis := by omega
    refine ⟨(Stamp.padded 3 millis).toList, Stamp.writes_padded (by decide) hlt, ?_⟩
    rw [TestResult.line_eq, Duration.fixed_seconds, Duration.printed_of_millis hsecs hnanos,
      Double.places_eq, hwhole, hrest, String.ofList_toList]
    simp only [String.append_assoc]

theorem carried_second_prints_in_order :
    let before : TestResult := ⟨⟨0, "", ⟨2 ^ 53 - 1, 999999999, by decide, by decide⟩⟩, "before"⟩
    let after : TestResult := ⟨⟨0, "", ⟨2 ^ 53, 0, by decide, by decide⟩⟩, "after"⟩
    let precise : TestResult := ⟨⟨1, "", ⟨2 ^ 43 - 1, 999000000, by decide, by decide⟩⟩, "precise"⟩
    before.duration.toNanos ≤ after.duration.toNanos ∧
      (∃ low high : ℚ, Decimal.lastValue? 3 before.line = some low ∧
        Decimal.lastValue? 3 after.line = some high ∧ low ≤ high) ∧
      before.line = "- before: ok (9007199254740992.000s)" ∧
      after.line = "- after: ok (9007199254740992.000s)" ∧
      precise.duration.secs < 2 ^ 43 ∧ precise.duration.nanos = 999 * 1000000 ∧
      (∃ digits, Stamp.Writes 3 999 digits ∧ precise.line =
        "- " ++ "precise" ++ ": " ++ "FAIL" ++ " (" ++ toString (2 ^ 43 - 1) ++ "." ++
          String.ofList digits ++ "s)") ∧
      precise.line = "- precise: FAIL (8796093022207.999s)" := by
  intro before after precise
  obtain ⟨horder, hexact⟩ := durations_print_in_order
  have hnanos : before.duration.toNanos ≤ after.duration.toNanos := by decide
  refine ⟨hnanos, ?_, by decide +kernel, by decide +kernel, by decide, by decide, ?_,
    by decide +kernel⟩
  · exact horder 3 _ _ _ _ hnanos (.result before) (.result after)
  · exact hexact precise 999 (by decide) (by decide)

end SoloRun
