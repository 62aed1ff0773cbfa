import Mathlib
import SoloRun.Clock

/-!
The calendar of the stamps: the days since 1970 and the valid dates are two ways to count the same
days, and dates stand in the order of their days.
-/

namespace SoloRun.Date

def yearLength (year : Int) : Nat :=
  if isLeap year then 366 else 365

/-- The length of the date's month. -/
def monthLength (date : Date) : Nat :=
  (monthLengths date.year).getD (date.month - 1) 0

structure Valid (date : Date) : Prop where
  month_pos : 1 ≤ date.month
  month_le : date.month ≤ 12
  day_pos : 1 ≤ date.day
  day_le : date.day ≤ date.monthLength

/-- The date of the day after. -/
def next (date : Date) : Date :=
  if date.day < date.monthLength then ⟨date.year, date.month, date.day + 1⟩
  else if date.month < 12 then ⟨date.year, date.month + 1, 1⟩
  else ⟨date.year + 1, 1, 1⟩

theorem isLeap_iff (year : Int) :
    isLeap year = true ↔ year % 4 = 0 ∧ (year % 100 ≠ 0 ∨ year % 400 = 0) := by
  simp [isLeap]

theorem daysBefore_add_one (year : Int) :
    daysBefore (year + 1) = daysBefore year + yearLength year := by
  rw [yearLength, daysBefore, daysBefore]
  split
  · next h =>
    rw [isLeap_iff] at h
    omega
  · next h =>
    rw [isLeap_iff] at h
    omega

theorem daysBefore_le {first second : Int} (h : first ≤ second) :
    daysBefore first ≤ daysBefore second := by
  rw [daysBefore, daysBefore]
  omega

theorem daysBefore_bounds (year : Int) :
    146097 * year - 396 ≤ 400 * daysBefore year ∧ 400 * daysBefore year ≤ 146097 * year + 699 := by
  rw [daysBefore]
  omega

theorem yearOf_bounds (day : Int) :
    daysBefore (yearOf day) ≤ day ∧ day < daysBefore (yearOf day + 1) := by
  let guess := 400 * day / 146097
  have hguess : 146097 * guess ≤ 400 * day ∧ 400 * day < 146097 * (guess + 1) := by omega
  have hbefore := daysBefore_bounds (guess - 1)
  have hafter := daysBefore_bounds (guess + 1 + 1)
  change daysBefore (if daysBefore (guess + 1) ≤ day then guess + 1
    else if day < daysBefore guess then guess - 1 else guess) ≤ day ∧ day < daysBefore
      ((if daysBefore (guess + 1) ≤ day then guess + 1
        else if day < daysBefore guess then guess - 1 else guess) + 1)
  split
  · exact ⟨‹_›, by omega⟩
  · next hnext =>
    split
    · next hlate => exact ⟨by omega, by rwa [Int.sub_add_cancel]⟩
    · next hlate => exact ⟨Int.not_lt.mp hlate, Int.not_le.mp hnext⟩

section Months

variable (year : Int)

theorem sum_monthLengths : (monthLengths year).sum = yearLength year := by
  rw [yearLength]
  cases h : isLeap year <;> simp [monthLengths, h]

/-- The days in the first months of a year. -/
def daysOf (months : Nat) : Nat :=
  ((monthLengths year).take months).sum

theorem daysOf_twelve : daysOf year 12 = yearLength year :=
  sum_monthLengths year

theorem daysOf_add_one (months : Nat) :
    daysOf year (months + 1) = daysOf year months + (monthLengths year).getD months 0 := by
  rw [daysOf, daysOf, List.take_add_one, List.sum_append_nat, List.getD_eq_getElem?_getD]
  cases (monthLengths year)[months]? <;> simp

theorem daysOf_le {first second : Nat} (h : first ≤ second) :
    daysOf year first ≤ daysOf year second := by
  obtain ⟨more, hmore⟩ := List.take_prefix_take_left (l := monthLengths year) h
  rw [daysOf, daysOf, ← hmore, List.sum_append_nat]
  exact Nat.le_add_right _ _

theorem monthLengths_bounds {months : Nat} (h : months < 12) :
    1 ≤ (monthLengths year).getD months 0 ∧ (monthLengths year).getD months 0 ≤ 31 := by
  cases hleap : isLeap year <;> simp only [monthLengths, hleap] <;>
    revert months <;> decide

end Months

/-- The month and the day that `inMonths` finds are where the days lead. -/
theorem inMonths_eq (month : Nat) {lengths : List Nat} {day : Nat} (h : day < lengths.sum) :
    ∃ i < lengths.length, ∃ rest < lengths.getD i 0,
      inMonths month lengths day = (month + i, rest + 1) ∧ day = (lengths.take i).sum + rest := by
  induction lengths generalizing month day with
  | nil => cases h
  | cons length more ih =>
    rw [inMonths]
    split
    · next hday => exact ⟨0, Nat.succ_pos _, day, hday, rfl, (Nat.zero_add _).symm⟩
    · next hday =>
      rw [List.sum_cons] at h
      have hmore : day - length < more.sum := by omega
      obtain ⟨i, hi, rest, hrest, heq, hsplit⟩ := ih (month + 1) hmore
      refine ⟨i + 1, Nat.succ_lt_succ hi, rest, hrest, ?_, ?_⟩
      · rw [heq, Nat.add_assoc, Nat.add_comm 1]
      · rw [List.take_succ_cons, List.sum_cons]
        omega

section Days

theorem toDays_eq (date : Date) :
    date.toDays = daysBefore date.year + daysOf date.year (date.month - 1) + (date.day - 1) -
      epoch := by
  rw [toDays, daysBeforeMonth, ← List.sum_eq_foldl]
  rfl

/-- A date of days is valid and counts the same days. -/
theorem ofDays_spec (days : Int) : (ofDays days).Valid ∧ (ofDays days).toDays = days := by
  obtain ⟨hfirst, hlast⟩ := yearOf_bounds (days + epoch)
  generalize hyear : yearOf (days + epoch) = year at hfirst hlast
  obtain ⟨day, hday⟩ : ∃ day : Nat, days + epoch - daysBefore year = day :=
    ⟨_, (Int.toNat_of_nonneg (by omega)).symm⟩
  have hsum : day < (monthLengths year).sum := by
    rw [sum_monthLengths]
    rw [daysBefore_add_one] at hlast
    omega
  obtain ⟨i, hi, rest, hrest, hmonth, hsplit⟩ := inMonths_eq 1 hsum
  have hdate : ofDays days = ⟨year, i + 1, rest + 1⟩ := by
    simp only [ofDays, hyear, hday, Int.toNat_natCast, hmonth, Nat.add_comm 1 i]
  rw [hdate, toDays_eq]
  have hdays : daysOf year i + rest = day := hsplit.symm
  refine ⟨⟨Nat.succ_pos i, hi, Nat.succ_pos rest, hrest⟩, ?_⟩
  simp only [Nat.add_sub_cancel]
  omega

variable {date first second : Date}

theorem Valid.daysOf_month (h : date.Valid) :
    daysOf date.year date.month = daysOf date.year (date.month - 1) + date.monthLength := by
  have hmonth : date.month - 1 + 1 = date.month := Nat.sub_add_cancel h.month_pos
  rw [← hmonth, daysOf_add_one, hmonth]
  rfl

theorem Valid.day_le_thirty_one (h : date.Valid) : date.day ≤ 31 :=
  Nat.le_trans h.day_le
    (monthLengths_bounds _ (Nat.sub_one_lt_of_le h.month_pos h.month_le)).2

theorem Valid.year_bounds (h : date.Valid) :
    daysBefore date.year ≤ date.toDays + epoch ∧
      date.toDays + epoch < daysBefore (date.year + 1) := by
  have hmonth := h.daysOf_month
  have hyear := daysOf_le date.year h.month_le
  rw [daysOf_twelve] at hyear
  have hday := h.day_le
  have hpos := h.day_pos
  rw [toDays_eq, daysBefore_add_one]
  omega

/-- The order of years, months and days. -/
def Before (first second : Date) : Prop :=
  first.year < second.year ∨ first.year = second.year ∧
    (first.month < second.month ∨ first.month = second.month ∧ first.day < second.day)

theorem before_trichotomy (first second : Date) :
    first.Before second ∨ first = second ∨ second.Before first := by
  rw [Before, Before, Date.mk.injEq first.year]
  omega

theorem toDays_lt_of_before (h₁ : first.Valid) (h₂ : second.Valid) (h : first.Before second) :
    first.toDays < second.toDays := by
  rcases h with hyear | ⟨hyear, hmonth | ⟨hmonth, hday⟩⟩
  · have hyears := daysBefore_le (Int.add_one_le_iff.mpr hyear)
    have hfirst := h₁.year_bounds.2
    have hsecond := h₂.year_bounds.1
    omega
  · have hmonths := daysOf_le first.year (Nat.le_sub_one_of_lt hmonth)
    have hfirst := h₁.daysOf_month
    have hday := h₁.day_le
    have hpos := h₂.day_pos
    rw [toDays_eq, toDays_eq, ← hyear]
    omega
  · rw [toDays_eq, toDays_eq, hyear, hmonth]
    omega

theorem toDays_lt_iff (h₁ : first.Valid) (h₂ : second.Valid) :
    first.toDays < second.toDays ↔ first.Before second := by
  refine ⟨fun hlt => ?_, toDays_lt_of_before h₁ h₂⟩
  rcases before_trichotomy first second with h | rfl | h
  · exact h
  · exact absurd hlt (Int.lt_irrefl _)
  · exact absurd (toDays_lt_of_before h₂ h₁ h) (Int.lt_asymm hlt)

theorem toDays_inj (h₁ : first.Valid) (h₂ : second.Valid) (h : first.toDays = second.toDays) :
    first = second := by
  rcases before_trichotomy first second with hbefore | heq | hbefore
  · have := toDays_lt_of_before h₁ h₂ hbefore
    omega
  · exact heq
  · have := toDays_lt_of_before h₂ h₁ hbefore
    omega

/-- The day after a valid date is one day later, and valid. -/
theorem next_spec (h : date.Valid) : date.next.Valid ∧ date.next.toDays = date.toDays + 1 := by
  have hmonth := h.daysOf_month
  have hpos := h.month_pos
  rw [next]
  split
  · next hday =>
    refine ⟨⟨h.month_pos, h.month_le, Nat.succ_pos _, hday⟩, ?_⟩
    have hstart := h.day_pos
    rw [toDays_eq, toDays_eq]
    dsimp only
    omega
  · next hlast =>
    have hday : date.day = date.monthLength := Nat.le_antisymm h.day_le (Nat.not_lt.mp hlast)
    split
    · next hmore =>
      refine ⟨⟨Nat.succ_pos _, hmore, Nat.le_refl _, (monthLengths_bounds _ hmore).1⟩, ?_⟩
      rw [toDays_eq, toDays_eq, Nat.add_sub_cancel, hmonth]
      dsimp only
      omega
    · next hend =>
      have htwelve : date.month = 12 := Nat.le_antisymm h.month_le (Nat.not_lt.mp hend)
      refine ⟨⟨Nat.le_refl 1, Nat.le_add_left 1 11, Nat.le_refl 1,
        (monthLengths_bounds _ (Nat.succ_pos 11)).1⟩, ?_⟩
      rw [htwelve, daysOf_twelve] at hmonth
      have hnone : daysOf (date.year + 1) (1 - 1) = 0 := rfl
      rw [toDays_eq, toDays_eq, daysBefore_add_one, htwelve, hnone]
      dsimp only
      omega

theorem ofDays_zero : ofDays 0 = ⟨1970, 1, 1⟩ := by
  decide

/-- The date that many days after the first of January 1970 is the date after the one before. -/
theorem ofDays_add_one (days : Int) : ofDays (days + 1) = (ofDays days).next := by
  obtain ⟨hvalid, hdays⟩ := ofDays_spec days
  obtain ⟨hnext, hnextDays⟩ := next_spec hvalid
  obtain ⟨hafter, hafterDays⟩ := ofDays_spec (days + 1)
  exact toDays_inj hafter hnext (by rw [hafterDays, hnextDays, hdays])

end Days

end SoloRun.Date
