import Mathlib
import SoloRun.Plan
import SoloRun.Proofs.Calendar
import SoloRun.Proofs.Numerals

/-!
Stamps are the date and the time of day in digits, each in a place of its own. So the order of the
stamps is the order of the dates and times, and that is the order of the seconds.
-/

namespace SoloRun

section Order

variable {first second rest more : List Char}

theorem append_lt_append_iff (h : first.length = second.length) :
    first ++ rest < second ++ more ↔ first < second ∨ first = second ∧ rest < more := by
  induction first generalizing second with
  | nil =>
    obtain rfl := List.length_eq_zero_iff.mp h.symm
    simp
  | cons c tail ih =>
    obtain ⟨d, others, rfl⟩ := List.exists_cons_of_length_eq_add_one h.symm
    rw [List.cons_append, List.cons_append, List.cons_lt_cons_iff, List.cons_lt_cons_iff,
      ih (Nat.succ.inj h), List.cons.injEq]
    simp only [or_assoc, and_assoc, and_or_left]

theorem mul_add_lt_mul_add_iff {d e n m base : Nat} (hn : n < base) (hm : m < base) :
    d * base + n < e * base + m ↔ d < e ∨ d = e ∧ n < m := by
  rcases Nat.lt_trichotomy d e with hlt | rfl | hgt
  · have hstep : (d + 1) * base ≤ e * base := Nat.mul_le_mul_right base hlt
    rw [Nat.succ_mul] at hstep
    exact iff_of_true (by omega) (.inl hlt)
  · simp
  · have hstep : (e + 1) * base ≤ d * base := Nat.mul_le_mul_right base hgt
    rw [Nat.succ_mul] at hstep
    exact iff_of_false (by omega) (by omega)

namespace Decimal

theorem isDigit_iff {c : Char} : c.isDigit = true ↔ 48 ≤ c.toNat ∧ c.toNat ≤ 57 := by
  simp only [Char.isDigit, Bool.and_eq_true, decide_eq_true_eq, ge_iff_le, UInt32.le_iff_toNat_le]
  rfl

theorem digitValue_eq (c : Char) : digitValue c = c.toNat - 48 :=
  rfl

theorem lt_iff_digitValue_lt {c d : Char} (hc : c.isDigit = true) (hd : d.isDigit = true) :
    c < d ↔ digitValue c < digitValue d := by
  rw [isDigit_iff] at hc hd
  rw [Char.lt_def, UInt32.lt_iff_toNat_lt, digitValue_eq, digitValue_eq]
  change c.toNat < d.toNat ↔ _
  omega

theorem eq_iff_digitValue_eq {c d : Char} (hc : c.isDigit = true) (hd : d.isDigit = true) :
    c = d ↔ digitValue c = digitValue d := by
  rw [isDigit_iff] at hc hd
  rw [← Char.toNat_inj, digitValue_eq, digitValue_eq]
  omega

theorem natOf_cons (c : Char) (digits : List Char) :
    natOf (c :: digits) = digitValue c * 10 ^ digits.length + natOf digits := by
  induction digits using List.reverseRecOn with
  | nil => simp [natOf]
  | append_singleton digits d ih =>
    rw [← List.cons_append, natOf_concat, natOf_concat, ih, List.length_append,
      List.length_singleton, Nat.pow_succ]
    ring

theorem natOf_lt {digits : List Char} (h : Json.Digits digits) :
    natOf digits < 10 ^ digits.length := by
  induction digits with
  | nil => exact Nat.one_pos
  | cons c more ih =>
    obtain ⟨hc, hmore⟩ := List.forall_mem_cons.mp h
    rw [isDigit_iff] at hc
    have hvalue : digitValue c < 10 := by rw [digitValue_eq]; omega
    have hstep : (digitValue c + 1) * 10 ^ more.length ≤ 10 * 10 ^ more.length :=
      Nat.mul_le_mul_right _ hvalue
    rw [Nat.succ_mul] at hstep
    have hrest := ih hmore
    rw [natOf_cons, List.length_cons, Nat.pow_succ]
    omega

theorem natOf_replicate_append (count : Nat) (digits : List Char) :
    natOf (List.replicate count '0' ++ digits) = natOf digits := by
  induction count with
  | zero => rfl
  | succ count ih =>
    rw [List.replicate_succ, List.cons_append, natOf_cons, ih]
    exact (Nat.zero_mul _).symm ▸ Nat.zero_add _

/-- As many digits are in the order of the numbers that they write. -/
theorem lt_iff_natOf_lt (hlength : first.length = second.length) (hfirst : Json.Digits first)
    (hsecond : Json.Digits second) : first < second ↔ natOf first < natOf second := by
  induction first generalizing second with
  | nil =>
    obtain rfl := List.length_eq_zero_iff.mp hlength.symm
    simp
  | cons c tail ih =>
    obtain ⟨d, others, rfl⟩ := List.exists_cons_of_length_eq_add_one hlength.symm
    obtain ⟨hc, htail⟩ := List.forall_mem_cons.mp hfirst
    obtain ⟨hd, hothers⟩ := List.forall_mem_cons.mp hsecond
    have hlengths : tail.length = others.length := Nat.succ.inj hlength
    have hlow : natOf tail < 10 ^ others.length := hlengths ▸ natOf_lt htail
    rw [List.cons_lt_cons_iff, natOf_cons, natOf_cons, hlengths,
      mul_add_lt_mul_add_iff hlow (natOf_lt hothers), lt_iff_digitValue_lt hc hd,
      eq_iff_digitValue_eq hc hd, ih hlengths htail hothers]

end Decimal

end Order

namespace Stamp

/-- So many digits that write the number. -/
structure Writes (width n : Nat) (digits : List Char) : Prop where
  length : digits.length = width
  numeric : Json.Digits digits
  value : Decimal.natOf digits = n

section Writes

variable {width n m : Nat} {first second rest more : List Char}

theorem writes_padded (hwidth : 0 < width) (h : n < 10 ^ width) :
    Writes width n (padded width n).toList := by
  have hlength : (toString n).length ≤ width := by
    rw [Nat.toString_eq_ofList_toDigits, String.length_ofList]
    exact (Nat.length_toDigits_le_iff (by decide) hwidth).mpr h
  have hlist : (padded width n).toList =
      List.replicate (width - (toString n).length) '0' ++ (toString n).toList := by
    rw [padded, String.toList_append, String.toList_ofList]
  rw [hlist]
  refine ⟨?_, fun c hc => ?_, ?_⟩
  · rw [List.length_append, List.length_replicate, String.length_toList]
    exact Nat.sub_add_cancel hlength
  · rcases List.mem_append.mp hc with hzero | hdigit
    · rw [(List.mem_replicate.mp hzero).2]
      rfl
    · exact isDigit_of_mem_toString hdigit
  · rw [Decimal.natOf_replicate_append, Decimal.natOf_toString]

theorem Writes.lt_iff (h : Writes width n first) (h' : Writes width m second) :
    first < second ↔ n < m := by
  rw [Decimal.lt_iff_natOf_lt (h.length.trans h'.length.symm) h.numeric h'.numeric, h.value,
    h'.value]

theorem Writes.eq_iff (h : Writes width n first) (h' : Writes width m second) :
    first = second ↔ n = m := by
  constructor
  · rintro rfl
    exact h.value.symm.trans h'.value
  · rintro rfl
    rcases lt_trichotomy first second with hlt | heq | hgt
    · exact absurd ((h.lt_iff h').mp hlt) (Nat.lt_irrefl n)
    · exact heq
    · exact absurd ((h'.lt_iff h).mp hgt) (Nat.lt_irrefl n)

/-- Two numbers in the same place, before the same mark. -/
theorem Writes.append_lt_iff (h : Writes width n first) (h' : Writes width m second) (mark : Char) :
    first ++ mark :: rest < second ++ mark :: more ↔ n < m ∨ n = m ∧ rest < more := by
  rw [append_lt_append_iff (h.length.trans h'.length.symm), h.lt_iff h', h.eq_iff h',
    List.cons_lt_cons_iff]
  simp

end Writes

end Stamp

/-- A date and a time of day. -/
structure Moment where
  date : Date
  hour : Nat
  minute : Nat
  second : Nat
  deriving DecidableEq, Repr

namespace Moment

structure Valid (moment : Moment) : Prop where
  date : moment.date.Valid
  hour : moment.hour < 24
  minute : moment.minute < 60
  second : moment.second < 60

/-- Seconds since the start of 1970. -/
def secs (moment : Moment) : Int :=
  moment.date.toDays * 86400 + moment.hour * 3600 + moment.minute * 60 + moment.second

def ofSecs (secs : Int) : Moment :=
  let second := (secs % 86400).toNat
  ⟨Date.ofDays (secs / 86400), second / 3600, second / 60 % 60, second % 60⟩

def Before (first second : Moment) : Prop :=
  first.date.Before second.date ∨ first.date = second.date ∧
    (first.hour < second.hour ∨ first.hour = second.hour ∧
      (first.minute < second.minute ∨ first.minute = second.minute ∧
        first.second < second.second))

theorem ofSecs_spec (secs : Int) : (ofSecs secs).Valid ∧ (ofSecs secs).secs = secs := by
  obtain ⟨hvalid, hdays⟩ := Date.ofDays_spec (secs / 86400)
  obtain ⟨second, hsecond⟩ : ∃ second : Nat, secs % 86400 = second :=
    ⟨_, (Int.toNat_of_nonneg (Int.emod_nonneg _ (by decide))).symm⟩
  have hsplit := Int.emod_add_mul_ediv secs 86400
  have hlt := Int.emod_lt_of_pos secs (by decide : (0 : Int) < 86400)
  rw [Moment.secs]
  simp only [ofSecs, hsecond, Int.toNat_natCast, hdays]
  constructor
  · exact ⟨hvalid, by dsimp only; omega, by dsimp only; omega, by dsimp only; omega⟩
  · omega

theorem secs_lt_iff {first second : Moment} (h₁ : first.Valid) (h₂ : second.Valid) :
    first.secs < second.secs ↔ first.Before second := by
  have hlt := Date.toDays_lt_iff h₁.date h₂.date
  have heq : first.date.toDays = second.date.toDays ↔ first.date = second.date :=
    ⟨Date.toDays_inj h₁.date h₂.date, fun h => h ▸ rfl⟩
  have hbounds₁ := And.intro h₁.hour (And.intro h₁.minute h₁.second)
  have hbounds₂ := And.intro h₂.hour (And.intro h₂.minute h₂.second)
  have hsecs : first.secs < second.secs ↔ first.date.toDays < second.date.toDays ∨
      first.date.toDays = second.date.toDays ∧
        (first.hour < second.hour ∨ first.hour = second.hour ∧
          (first.minute < second.minute ∨ first.minute = second.minute ∧
            first.second < second.second)) := by
    rw [Moment.secs, Moment.secs]
    omega
  rw [hsecs, hlt, heq]
  rfl

theorem before_trichotomy (first second : Moment) :
    first.Before second ∨ first = second ∨ second.Before first := by
  obtain ⟨date, hour, minute, _⟩ := first
  obtain ⟨other, _, _, _⟩ := second
  rw [Before, Before, Moment.mk.injEq]
  rcases date.before_trichotomy other with hdate | rfl | hdate
  · exact .inl (.inl hdate)
  · simp only [true_and]
    omega
  · exact .inr (.inr (.inl hdate))

end Moment

namespace Stamp

/-- The text shows the moment in the shape `YYYY-MM-DD_HH-MM-SS`. -/
inductive Shows : String → Moment → Prop where
  | fields {y mo d h mi s : Nat} {year month day hour minute second : List Char} :
    Writes 4 y year → Writes 2 mo month → Writes 2 d day → Writes 2 h hour → Writes 2 mi minute →
      Writes 2 s second →
      Shows (.ofList (year ++ '-' :: (month ++ '-' :: (day ++ '_' :: (hour ++ '-' ::
        (minute ++ '-' :: second)))))) ⟨⟨y, mo, d⟩, h, mi, s⟩

variable {text other : String} {moment there : Moment}

theorem Shows.length (h : Shows text moment) : text.length = 19 := by
  obtain ⟨hy, hmo, hd, hh, hmi, hs⟩ := h
  simp only [String.length_ofList, List.length_append, List.length_cons, hy.length, hmo.length,
    hd.length, hh.length, hmi.length, hs.length]

theorem Shows.lt_iff (h : Shows text moment) (h' : Shows other there) :
    text < other ↔ moment.Before there := by
  obtain ⟨hy, hmo, hd, hh, hmi, hs⟩ := h
  obtain ⟨hy', hmo', hd', hh', hmi', hs'⟩ := h'
  rw [String.lt_iff, String.toList_ofList, String.toList_ofList, hy.append_lt_iff hy',
    hmo.append_lt_iff hmo', hd.append_lt_iff hd', hh.append_lt_iff hh', hmi.append_lt_iff hmi',
    hs.lt_iff hs']
  simp only [Moment.Before, Date.Before, Date.mk.injEq, Nat.cast_inj, Nat.cast_lt, or_assoc,
    and_assoc, and_or_left]

theorem shows_padded {y mo d h mi s : Nat} (hy : y < 10000) (hmo : mo < 100) (hd : d < 100)
    (hh : h < 100) (hmi : mi < 100) (hs : s < 100) :
    Shows (padded 4 y ++ "-" ++ padded 2 mo ++ "-" ++ padded 2 d ++ "_" ++ padded 2 h ++ "-" ++
      padded 2 mi ++ "-" ++ padded 2 s) ⟨⟨y, mo, d⟩, h, mi, s⟩ := by
  have htwo {n : Nat} (h : n < 100) : Writes 2 n (padded 2 n).toList :=
    writes_padded Nat.two_pos h
  have hshows := Shows.fields (writes_padded (Nat.succ_pos 3) hy) (htwo hmo) (htwo hd) (htwo hh)
    (htwo hmi) (htwo hs)
  convert hshows using 1
  apply String.toList_injective
  simp

theorem shows_ofLocal {secs : Int} (hyear : 0 ≤ (Moment.ofSecs secs).date.year)
    (hlast : (Moment.ofSecs secs).date.year ≤ 9999) :
    Shows (ofLocal secs) (Moment.ofSecs secs) := by
  have hvalid := (Moment.ofSecs_spec secs).1
  have htext : ofLocal secs = year (Moment.ofSecs secs).date.year ++ "-" ++
      padded 2 (Moment.ofSecs secs).date.month ++ "-" ++ padded 2 (Moment.ofSecs secs).date.day ++
      "_" ++ padded 2 (Moment.ofSecs secs).hour ++ "-" ++ padded 2 (Moment.ofSecs secs).minute ++
      "-" ++ padded 2 (Moment.ofSecs secs).second := rfl
  rw [htext]
  generalize Moment.ofSecs secs = moment at hyear hlast hvalid
  obtain ⟨⟨y, mo, d⟩, h, mi, s⟩ := moment
  have hmonth := hvalid.date.month_le
  have hday := hvalid.date.day_le_thirty_one
  have hhour := hvalid.hour
  have hminute := hvalid.minute
  have hsecond := hvalid.second
  dsimp only at hyear hlast hmonth hday hhour hminute hsecond ⊢
  obtain ⟨y, rfl⟩ := Int.eq_ofNat_of_zero_le hyear
  rw [Stamp.year, if_pos ⟨hyear, hlast⟩, Int.toNat_natCast]
  exact shows_padded (by omega) (by omega) (by omega) (by omega) (by omega) (by omega)

theorem Writes.slash_not_mem {width n : Nat} {digits : List Char} (h : Writes width n digits) :
    '/' ∉ digits := fun hmem =>
  absurd (h.numeric '/' hmem) (by decide)

theorem Shows.isName (h : Shows text moment) : Path.IsName (Utf8.encode text) := by
  constructor
  · intro hempty
    have htext : text = "" := Utf8.encode_injective hempty
    have hlength := h.length
    rw [htext] at hlength
    cases hlength
  · intro hslash
    have hmem := Utf8.mem_of_mem_encode hslash (by decide)
    change '/' ∈ text.toList at hmem
    obtain ⟨hy, hmo, hd, hh, hmi, hs⟩ := h
    simp [hy.slash_not_mem, hmo.slash_not_mem, hd.slash_not_mem, hh.slash_not_mem,
      hmi.slash_not_mem, hs.slash_not_mem] at hmem

/-- The text shows no other moment. -/
theorem Shows.unique (h : Shows text moment) (h' : Shows text there) : moment = there := by
  rcases moment.before_trichotomy there with hbefore | heq | hafter
  · exact absurd ((h.lt_iff h').mpr hbefore) (lt_irrefl text)
  · exact heq
  · exact absurd ((h'.lt_iff h).mpr hafter) (lt_irrefl text)

/-- A clock not before 1970, in a zone less than a day from UTC, in a local year of four digits. -/
structure Regular (clock : Clock) (offset : Int) : Prop where
  secs_nonneg : 0 ≤ clock.secs
  offset_lt : offset.natAbs < 86400
  year_le : (Date.ofDays ((clock.secs + offset) / 86400)).year ≤ 9999

section Regular

variable {clock : Clock} {offset : Int}

theorem Regular.year_bounds (h : Regular clock offset) :
    0 ≤ (Date.ofDays ((clock.secs + offset) / 86400)).year ∧ clock.secs ≤ lastSecond := by
  have hoffset := h.offset_lt
  have hsecs := h.secs_nonneg
  obtain ⟨hvalid, hdays⟩ := Date.ofDays_spec ((clock.secs + offset) / 86400)
  obtain ⟨-, hyear⟩ := hvalid.year_bounds
  have hepoch : Date.epoch = 719528 := rfl
  have hend : Date.daysBefore 10000 = 3652425 := rfl
  have hlast := Date.daysBefore_le (Int.add_le_add_right h.year_le 1)
  constructor
  · by_contra hneg
    have hzero : Date.daysBefore 0 = 0 := rfl
    have hstart := Date.daysBefore_le (Int.add_one_le_iff.mpr (Int.not_le.mp hneg))
    omega
  · have hnever : lastSecond = 8210266876799 := rfl
    change _ ≤ Date.daysBefore 10000 at hlast
    omega

theorem Regular.ofClock?_eq (h : Regular clock offset) :
    ofClock? clock offset = some (ofLocal (clock.secs + offset)) := by
  rw [ofClock?, zoneOffset, if_pos h.offset_lt, if_neg]
  exact not_or.mpr ⟨Int.not_lt.mpr h.secs_nonneg, Int.not_lt.mpr h.year_bounds.2⟩

theorem Regular.shows (h : Regular clock offset) :
    Shows (ofLocal (clock.secs + offset)) (Moment.ofSecs (clock.secs + offset)) :=
  shows_ofLocal h.year_bounds.1 h.year_le

end Regular

end Stamp

theorem Plan.outDir_inj {plan : Plan} {stamp other : String}
    (h : Path.IsName (Utf8.encode stamp)) (h' : Path.IsName (Utf8.encode other)) :
    plan.outDir stamp = plan.outDir other ↔ stamp = other := by
  refine ⟨fun heq => ?_, fun heq => heq ▸ rfl⟩
  have hnames := congrArg Path.names heq
  rw [Plan.outDir, Plan.outDir, Path.ofString, Path.ofString, Path.names_join _ h,
    Path.names_join _ h'] at hnames
  exact Utf8.encode_injective (List.cons.inj (List.append_cancel_left hnames)).1

/-- The stamp of a clock shows a valid date and time in its usual shape, which read back give the
clock's local seconds, the days being counted from the first of January 1970 and each date one day
before the next. Stamps are in the order of the local seconds, and two runs of a plan go to the same
directory only if they start in the same local second. -/
theorem stamps_sort_by_local_time :
    Date.toDays ⟨1970, 1, 1⟩ = 0 ∧
    (∀ date : Date, date.Valid → date.next.Valid ∧ date.next.toDays = date.toDays + 1) ∧
    (∀ (clock : Clock) (offset : Int), Stamp.Regular clock offset →
      ∃ stamp moment, Stamp.ofClock? clock offset = some stamp ∧ stamp.length = 19 ∧
        Stamp.Shows stamp moment ∧ (∀ other, Stamp.Shows stamp other → other = moment) ∧
        moment.Valid ∧ moment.secs = clock.secs + offset) ∧
    ∀ (clock later : Clock) (offset zone : Int) (stamp other : String),
      Stamp.Regular clock offset → Stamp.Regular later zone →
      Stamp.ofClock? clock offset = some stamp → Stamp.ofClock? later zone = some other →
        (stamp < other ↔ clock.secs + offset < later.secs + zone) ∧
        (stamp = other ↔ clock.secs + offset = later.secs + zone) ∧
        ∀ plan : Plan, plan.outDir stamp = plan.outDir other ↔
          clock.secs + offset = later.secs + zone := by
  refine ⟨by decide, fun date => Date.next_spec, ?_, ?_⟩
  · intro clock offset h
    obtain ⟨hvalid, hsecs⟩ := Moment.ofSecs_spec (clock.secs + offset)
    exact ⟨_, _, h.ofClock?_eq, h.shows.length, h.shows, fun other hother => hother.unique h.shows,
      hvalid, hsecs⟩
  · intro clock later offset zone stamp other h h' hstamp hother
    obtain rfl := Option.some.inj (h.ofClock?_eq.symm.trans hstamp)
    obtain rfl := Option.some.inj (h'.ofClock?_eq.symm.trans hother)
    obtain ⟨hvalid, hsecs⟩ := Moment.ofSecs_spec (clock.secs + offset)
    obtain ⟨hvalid', hsecs'⟩ := Moment.ofSecs_spec (later.secs + zone)
    have hlt := (h.shows.lt_iff h'.shows).trans (Moment.secs_lt_iff hvalid hvalid').symm
    have heq : Stamp.ofLocal (clock.secs + offset) = Stamp.ofLocal (later.secs + zone) ↔
        clock.secs + offset = later.secs + zone := by
      refine ⟨fun htext => ?_, congrArg Stamp.ofLocal⟩
      have hshows := h'.shows
      rw [← htext] at hshows
      exact hsecs.symm.trans ((congrArg Moment.secs (h.shows.unique hshows)).trans hsecs')
    rw [hsecs, hsecs'] at hlt
    exact ⟨hlt, heq, fun plan => (Plan.outDir_inj h.shows.isName h'.shows.isName).trans heq⟩

/-- The last second before the local year 1970, and the last one of a leap day. -/
theorem stamps_of_last_seconds :
    let first := "1969-12-31_23-59-59"
    let leap := "2000-02-29_23-59-59"
    Stamp.ofClock? ⟨0, 7⟩ (-1) = some first ∧ Stamp.ofClock? ⟨951865199, 0⟩ 3600 = some leap ∧
      (∃ moment, Stamp.Shows first moment ∧ moment.Valid ∧ moment.secs = -1) ∧ first < leap ∧
      ∀ plan : Plan, plan.outDir first ≠ plan.outDir leap := by
  intro first leap
  obtain ⟨-, -, hshows, horder⟩ := stamps_sort_by_local_time
  have hfirst : Stamp.ofClock? ⟨0, 7⟩ (-1) = some first := by cbv
  have hleap : Stamp.ofClock? ⟨951865199, 0⟩ 3600 = some leap := by cbv
  have hregular : Stamp.Regular ⟨0, 7⟩ (-1) := ⟨by decide, by decide, by decide⟩
  have hlater : Stamp.Regular ⟨951865199, 0⟩ 3600 := ⟨by decide, by decide, by decide⟩
  obtain ⟨stamp, moment, hstamp, -, hmoment, -, hvalid, hsecs⟩ := hshows _ _ hregular
  obtain rfl := Option.some.inj (hstamp.symm.trans hfirst)
  obtain ⟨hlt, -, hdirs⟩ := horder _ _ _ _ _ _ hregular hlater hfirst hleap
  exact ⟨hfirst, hleap, ⟨moment, hmoment, hvalid, hsecs⟩, hlt.mpr (by decide),
    fun plan hdir => absurd ((hdirs plan).mp hdir) (by decide)⟩

end SoloRun
