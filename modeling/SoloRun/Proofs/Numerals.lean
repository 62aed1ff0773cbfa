import Mathlib
import SoloRun.Event.Line
import SoloRun.Json.Read
import SoloRun.Proofs.OneLine

/-!
Numbers as they are written: natural numbers, integers and the shortest decimals of doubles are
numerals, and a numeral is read up to its end.
-/

namespace SoloRun

theorem head?_append_of_ne_nil {α : Type} {xs ys : List α} (h : xs ≠ []) :
    (xs ++ ys).head? = xs.head? := by
  cases xs with
  | nil => exact absurd rfl h
  | cons x more => rfl

namespace Decimal

theorem natOf_toString (n : Nat) : natOf (toString n).toList = n := by
  rw [Nat.toString_eq_ofList_toDigits, String.toList_ofList]
  have hdigit : ∀ d < 10, digitValue d.digitChar = d := by decide
  induction n using Nat.strongRecOn with
  | ind n ih =>
    by_cases hsmall : n < 10
    · rw [Nat.toDigits_of_lt_base hsmall]
      simp [natOf, hdigit n hsmall]
    · rw [Nat.toDigits_of_base_le (by decide) (Nat.not_lt.mp hsmall), natOf_concat,
        ih _ (by omega), hdigit _ (Nat.mod_lt _ (by decide))]
      omega

theorem toString_int (n : Int) :
    toString n = if 0 ≤ n then toString n.toNat else "-" ++ toString (-n).toNat := by
  rw [Int.toString_eq_repr, Int.repr_eq_if]
  rfl

theorem toString_ne_nil (n : Nat) : (toString n).toList ≠ [] := by
  rw [Nat.toString_eq_ofList_toDigits, String.toList_ofList]
  exact Nat.toDigits_ne_nil

theorem head?_toString_ne {n : Nat} (h : 0 < n) : (toString n).toList.head? ≠ some '0' := by
  rw [Nat.toString_eq_ofList_toDigits, String.toList_ofList]
  have hdigit : ∀ d < 10, 0 < d → d.digitChar ≠ '0' := by decide
  induction n using Nat.strongRecOn with
  | ind n ih =>
    by_cases hsmall : n < 10
    · rw [Nat.toDigits_of_lt_base hsmall]
      simpa using hdigit n hsmall h
    · rw [Nat.toDigits_of_base_le (by decide) (Nat.not_lt.mp hsmall),
        head?_append_of_ne_nil Nat.toDigits_ne_nil]
      exact ih _ (by omega) (by omega)

theorem pow_le_of_length {n k : Nat} (hk : 0 < k) (h : (toString n).length = k + 1) :
    10 ^ k ≤ n := by
  rw [Nat.toString_eq_ofList_toDigits, String.length_ofList] at h
  have hiff := Nat.length_toDigits_le_iff (n := n) (by decide : 1 < 10) hk
  have hlong : ¬ (Nat.toDigits 10 n).length ≤ k := by omega
  exact Nat.not_lt.mp (hlong ∘ hiff.mpr)

end Decimal

namespace Json

def Digits (text : List Char) : Prop :=
  ∀ c ∈ text, c.isDigit = true

/-- Digits without a zero before others. -/
structure Whole (text : List Char) : Prop where
  digits : Digits text
  ne_nil : text ≠ []
  head : text.head? = some '0' → text = ['0']

inductive Fraction : List Char → Prop where
  | none : Fraction []
  | places {text} (digits : Digits text) (ne_nil : text ≠ []) : Fraction ('.' :: text)

inductive Exponent : List Char → Prop where
  | none : Exponent []
  | power {letter mark text} (ten : letter = 'e' ∨ letter = 'E')
    (signed : mark = [] ∨ mark = ['+'] ∨ mark = ['-']) (digits : Digits text)
    (ne_nil : text ≠ []) : Exponent (letter :: mark ++ text)

structure Numeral.Proper (numeral : Numeral) : Prop where
  minus : numeral.minus = [] ∨ numeral.minus = ['-']
  whole : Whole numeral.whole
  fraction : Fraction numeral.fraction
  exponent : Exponent numeral.exponent

def IsNumeral (text : String) : Prop :=
  ∃ numeral : Numeral, numeral.Proper ∧ numeral.text = text.toList

/-- Nothing that could belong to a number comes next. -/
def Closes (rest : List Char) : Prop :=
  ∀ c ∈ rest.head?, c.isDigit = false ∧ c ≠ '.' ∧ c ≠ 'e' ∧ c ≠ 'E'

section Reading

variable {text rest : List Char}

theorem digits_append (htext : Digits text) (hrest : ∀ c ∈ rest.head?, c.isDigit = false) :
    digits (text ++ rest) = (text, rest) := by
  rw [digits, List.takeWhile_append_of_pos htext, List.dropWhile_append_of_pos htext]
  cases rest with
  | nil => simp
  | cons c more =>
    have hc : ¬ c.isDigit = true := by simp [hrest c rfl]
    rw [List.takeWhile_cons_of_neg hc, List.dropWhile_cons_of_neg hc, List.append_nil]

theorem Whole.whole?_append (h : Whole text) (hrest : ∀ c ∈ rest.head?, c.isDigit = false) :
    whole? (text ++ rest) = some (text, rest) := by
  rw [whole?, digits_append h.digits hrest]
  split
  · next heq => exact absurd (Prod.mk.inj heq).1 h.ne_nil
  · next heq =>
    obtain ⟨rfl, rfl⟩ := Prod.mk.inj heq
    rfl
  · next hmore heq =>
    obtain ⟨rfl, rfl⟩ := Prod.mk.inj heq
    obtain rfl := (List.cons.inj (h.head rfl)).2
    exact (hmore rfl).elim
  · next heq =>
    obtain ⟨rfl, rfl⟩ := Prod.mk.inj heq
    rfl

theorem Fraction.fraction?_append (h : Fraction text)
    (hrest : ∀ c ∈ rest.head?, c.isDigit = false ∧ c ≠ '.') :
    fraction? (text ++ rest) = some (text, rest) := by
  cases h with
  | none =>
    cases rest with
    | nil => rfl
    | cons c more => exact fraction?.eq_2 _ fun _ heq => (hrest c rfl).2 (List.cons.inj heq).1
  | @places text digits ne_nil =>
    rw [List.cons_append, fraction?, digits_append digits fun c hc => (hrest c hc).1]
    cases text with
    | nil => exact absurd rfl ne_nil
    | cons digit more => rfl

theorem sign_append {mark : List Char} (hmark : mark = [] ∨ mark = ['+'] ∨ mark = ['-'])
    (htext : ∀ c ∈ text.head?, c.isDigit = true) : sign (mark ++ text) = (mark, text) := by
  rcases hmark with rfl | rfl | rfl
  · cases text with
    | nil => rfl
    | cons c more =>
      have hc := htext c rfl
      refine sign.eq_3 _ (fun _ heq => ?_) (fun _ heq => ?_)
      · rw [(List.cons.inj heq).1] at hc
        cases hc
      · rw [(List.cons.inj heq).1] at hc
        cases hc
  · rfl
  · rfl

theorem Digits.head (h : Digits text) : ∀ c ∈ text.head?, c.isDigit = true := fun c hc =>
  h c (List.mem_of_mem_head? hc)

theorem Digits.head_append (h : Digits text) (hne : text ≠ []) :
    ∀ c ∈ (text ++ rest).head?, c.isDigit = true := by
  rw [head?_append_of_ne_nil hne]
  exact h.head

theorem Exponent.exponent?_append (h : Exponent text)
    (hrest : ∀ c ∈ rest.head?, c.isDigit = false ∧ c ≠ 'e' ∧ c ≠ 'E') :
    exponent? (text ++ rest) = some (text, rest) := by
  cases h with
  | none =>
    cases rest with
    | nil => rfl
    | cons c more =>
      have hc := (hrest c rfl).2
      exact if_neg (not_or.mpr hc)
  | @power letter mark text ten signed digits ne_nil =>
    rw [List.cons_append, List.cons_append, exponent?, if_pos ten, List.append_assoc,
      sign_append signed (digits.head_append ne_nil),
      digits_append digits fun c hc => (hrest c hc).1]
    cases text with
    | nil => exact absurd rfl ne_nil
    | cons digit more => rfl

theorem minus_append {mark : List Char} (hmark : mark = [] ∨ mark = ['-'])
    (htext : ∀ c ∈ text.head?, c.isDigit = true) : minus (mark ++ text) = (mark, text) := by
  rcases hmark with rfl | rfl
  · cases text with
    | nil => rfl
    | cons c more =>
      have hc := htext c rfl
      refine minus.eq_2 _ fun _ heq => ?_
      rw [(List.cons.inj heq).1] at hc
      cases hc
  · rfl

theorem Exponent.head_append (h : Exponent text) (hrest : Closes rest) :
    ∀ c ∈ (text ++ rest).head?, c.isDigit = false ∧ c ≠ '.' := by
  intro c hc
  cases h with
  | none => exact ⟨(hrest c hc).1, (hrest c hc).2.1⟩
  | power ten =>
    obtain rfl := Option.some.inj hc
    rcases ten with rfl | rfl <;> decide

theorem Fraction.head_append (h : Fraction text)
    (hrest : ∀ c ∈ rest.head?, c.isDigit = false ∧ c ≠ '.') :
    ∀ c ∈ (text ++ rest).head?, c.isDigit = false := by
  intro c hc
  cases h with
  | none => exact (hrest c hc).1
  | places =>
    obtain rfl := Option.some.inj hc
    rfl

namespace Numeral.Proper

variable {numeral : Numeral}

theorem numeral?_append (h : numeral.Proper) (hrest : Closes rest) :
    numeral? (numeral.text ++ rest) = some (numeral, rest) := by
  have hexponent := h.exponent.head_append hrest
  have hfraction := h.fraction.head_append hexponent
  have htext : numeral.text ++ rest =
      numeral.minus ++ (numeral.whole ++ (numeral.fraction ++ (numeral.exponent ++ rest))) := by
    simp only [text, List.append_assoc]
  rw [htext, numeral?, minus_append h.minus (h.whole.digits.head_append h.whole.ne_nil)]
  simp [h.whole.whole?_append hfraction, h.fraction.fraction?_append hexponent,
    h.exponent.exponent?_append fun c hc => ⟨(hrest c hc).1, (hrest c hc).2.2⟩]

end Numeral.Proper

theorem Digits.lineFeed_not_mem (h : Digits text) : '\n' ∉ text := fun hmem =>
  absurd (h _ hmem) (by decide)

theorem Fraction.lineFeed_not_mem (h : Fraction text) : '\n' ∉ text := by
  cases h with
  | none => exact List.not_mem_nil
  | places digits => exact List.not_mem_cons_of_ne_of_not_mem (by decide) digits.lineFeed_not_mem

theorem Exponent.lineFeed_not_mem (h : Exponent text) : '\n' ∉ text := by
  cases h with
  | none => exact List.not_mem_nil
  | power ten signed digits =>
    rcases ten with rfl | rfl <;> rcases signed with rfl | rfl | rfl <;>
      simp [digits.lineFeed_not_mem]

theorem IsNumeral.oneLine {text : String} (h : IsNumeral text) : OneLine text := by
  obtain ⟨⟨minus, whole, fraction, exponent⟩, ⟨hminus, hwhole, hfraction, hexponent⟩, htext⟩ := h
  have hminus : '\n' ∉ minus := by rcases hminus with rfl | rfl <;> decide
  rw [OneLine, ← htext, Numeral.text]
  simp [hminus, hwhole.digits.lineFeed_not_mem, hfraction.lineFeed_not_mem,
    hexponent.lineFeed_not_mem]

end Reading

def Unsigned (text : List Char) : Prop :=
  ∃ whole fraction exponent, Whole whole ∧ Fraction fraction ∧ Exponent exponent ∧
    whole ++ fraction ++ exponent = text

theorem Unsigned.isNumeral {text : String} (h : Unsigned text.toList) : IsNumeral text := by
  obtain ⟨whole, fraction, exponent, hwhole, hfraction, hexponent, htext⟩ := h
  exact ⟨⟨[], whole, fraction, exponent⟩, ⟨.inl rfl, hwhole, hfraction, hexponent⟩, htext⟩

theorem Unsigned.negative {text : String} (h : Unsigned text.toList) : IsNumeral ("-" ++ text) := by
  obtain ⟨whole, fraction, exponent, hwhole, hfraction, hexponent, htext⟩ := h
  refine ⟨⟨['-'], whole, fraction, exponent⟩, ⟨.inr rfl, hwhole, hfraction, hexponent⟩, ?_⟩
  rw [String.toList_append, ← htext]
  rfl

theorem Whole.unsigned {text : List Char} (h : Whole text) : Unsigned text :=
  ⟨text, [], [], h, .none, .none, by simp⟩

theorem Whole.of_head {text : List Char} (hdigits : Digits text) (hne : text ≠ [])
    (h : text.head? ≠ some '0') : Whole text :=
  ⟨hdigits, hne, fun hhead => absurd hhead h⟩

theorem Digits.take {text : List Char} (h : Digits text) (n : Nat) : Digits (text.take n) :=
  fun c hc => h c (List.mem_of_mem_take hc)

theorem Digits.drop {text : List Char} (h : Digits text) (n : Nat) : Digits (text.drop n) :=
  fun c hc => h c (List.mem_of_mem_drop hc)

theorem Whole.take_one {text : List Char} (hdigits : Digits text) (hne : text ≠ []) :
    Whole (text.take 1) := by
  cases text with
  | nil => exact absurd rfl hne
  | cons digit more =>
    exact ⟨hdigits.take 1, List.cons_ne_nil _ _,
      fun hhead => congrArg ([·]) (Option.some.inj hhead)⟩

theorem digits_zeros (n : Nat) : Digits (Double.zeros n) := by
  intro c hc
  rw [List.eq_of_mem_replicate hc]
  rfl

theorem Digits.append {first second : List Char} (hfirst : Digits first) (hsecond : Digits second) :
    Digits (first ++ second) := fun c hc =>
  (List.mem_append.mp hc).elim (hfirst c) (hsecond c)

theorem digits_toString (n : Nat) : Digits (toString n).toList := fun _ => isDigit_of_mem_toString

theorem whole_toString (n : Nat) : Whole (toString n).toList := by
  refine ⟨digits_toString n, Decimal.toString_ne_nil n, fun hhead => ?_⟩
  rcases Nat.eq_zero_or_pos n with rfl | hpos
  · decide
  · exact absurd hhead (Decimal.head?_toString_ne hpos)

theorem IsNumeral.natural (n : Nat) : IsNumeral (toString n) :=
  (whole_toString n).unsigned.isNumeral

theorem IsNumeral.integer (n : Int) : IsNumeral (toString n) := by
  rw [Decimal.toString_int]
  split
  · exact .natural _
  · exact (whole_toString _).unsigned.negative

end Json

namespace Double

variable {units count : Nat} {layout : Layout} {d : Digits}

theorem one_pos : 0 < one := by
  delta one
  generalize 1074 = n
  exact Nat.pow_pos (by decide)

theorem mul_pow_le_of_le_div {a b m n : Nat} (hb : 0 < b)
    (h : 10 ^ (m + n) ≤ a * Nat.pow 10 n / b) : b * 10 ^ m ≤ a := by
  rw [Nat.le_div_iff_mul_le hb, Nat.mul_comm, Nat.pow_add, ← Nat.mul_assoc] at h
  exact Nat.le_of_mul_le_mul_right h (Nat.pow_pos (by decide))

theorem one_mul_pow_le (h : 0 < magnitude units) :
    one * 10 ^ ((magnitude units).toNat - 1) ≤ units := by
  have hlength : (toString (units * Nat.pow 10 400 / one)).length =
      (magnitude units).toNat - 1 + 400 + 1 := by
    rw [magnitude] at h ⊢
    omega
  exact mul_pow_le_of_le_div one_pos (Decimal.pow_le_of_length (by omega) hlength)

/-- The digits before the point, cut off at `count`, are not all zero. -/
theorem one_mul_drop_le (count : Nat) (h : 0 < magnitude units) :
    one * Nat.pow 10 (magnitude units - (count + 1 : Nat)).toNat ≤
      units * Nat.pow 10 ((count + 1 : Nat) - magnitude units).toNat := by
  have hdrop : (magnitude units - (count + 1 : Nat)).toNat ≤ (magnitude units).toNat - 1 := by omega
  calc one * 10 ^ (magnitude units - (count + 1 : Nat)).toNat
      ≤ one * 10 ^ ((magnitude units).toNat - 1) :=
        Nat.mul_le_mul_left one (Nat.pow_le_pow_right (by decide) hdrop)
    _ ≤ units := one_mul_pow_le h
    _ ≤ units * 10 ^ ((count + 1 : Nat) - magnitude units).toNat :=
        Nat.le_mul_of_pos_right units (Nat.pow_pos (by decide))

/-- Whichever of its two neighbours stands for a number, it is not below the lower one. -/
theorem le_of_pick {lower upper : Bool} {low near n : Nat} (hnear : low ≤ near)
    (h : (if lower && upper then some near else if lower then some low
      else if upper then some (low + 1) else none) = some n) : low ≤ n := by
  split at h
  · exact Option.some.inj h ▸ hnear
  split at h
  · exact Option.some.inj h ▸ Nat.le_refl low
  split at h
  · exact Option.some.inj h ▸ Nat.le_succ low
  · cases h

theorem withDigits_pos (h : withDigits units (count + 1) = some d) (hd : 0 < d.exponent) :
    0 < d.digits := by
  rw [withDigits] at h
  obtain ⟨n, hpick, rfl⟩ := Option.map_eq_some_iff.mp h
  by_cases hfull : n = Nat.pow 10 (count + 1)
  · rw [if_pos hfull]
    exact Nat.pow_pos (by decide)
  · rw [if_neg hfull] at hd ⊢
    have hlow := Nat.div_pos (one_mul_drop_le count hd)
      (Nat.mul_pos one_pos (Nat.pow_pos (by decide)))
    exact Nat.lt_of_lt_of_le hlow (le_of_pick (div_le_roundDiv _ _) hpick)

theorem shortestDigits_pos (h : 0 < (shortestDigits units).exponent) :
    0 < (shortestDigits units).digits := by
  rw [shortestDigits] at h ⊢
  cases hfind : (List.range 17).findSome? fun i => withDigits units (i + 1) with
  | none => rw [hfind] at h; cases h
  | some d =>
    obtain ⟨count, -, hcount⟩ := List.exists_of_findSome?_eq_some hfind
    rw [hfind] at h
    exact withDigits_pos hcount h

end Double

namespace Json

theorem exponent_signed {n : Int} {mark : String}
    (h : n < 0 ∧ mark = "" ∨ 0 ≤ n ∧ mark = "+") :
    Exponent ('e' :: (mark ++ toString n).toList) := by
  rw [Decimal.toString_int, String.toList_append]
  rcases h with ⟨hneg, rfl⟩ | ⟨hpos, rfl⟩
  · rw [if_neg (Int.not_le.mpr hneg), String.toList_append]
    show Exponent ('e' :: ['-'] ++ _)
    exact .power (.inl rfl) (.inr (.inr rfl)) (digits_toString _) (Decimal.toString_ne_nil _)
  · rw [if_pos hpos]
    exact .power (.inl rfl) (.inr (.inl rfl)) (digits_toString _) (Decimal.toString_ne_nil _)

theorem unsigned_write (layout : Double.Layout) {d : Double.Digits}
    (h : 0 < d.exponent → 0 < d.digits) : Unsigned (layout.write d).toList := by
  have hdigits := digits_toString d.digits
  have hne := Decimal.toString_ne_nil d.digits
  have hhead (hpos : 0 < d.exponent) := Decimal.head?_toString_ne (h hpos)
  have hlength := List.length_pos_iff.mpr hne
  rw [Double.Layout.write]
  generalize (toString d.digits).toList = digits at hdigits hne hhead hlength
  dsimp only
  split
  · next =>
    refine ⟨digits.take 1, if digits.length = 1 then [] else '.' :: digits.drop 1,
      'e' :: ((if d.exponent < 1 then "" else "+") ++ toString (d.exponent - 1)).toList,
      .take_one hdigits hne, ?_, exponent_signed ?_, by simp [String.toList_append]⟩
    · split
      · exact .none
      · next hlong =>
        refine .places (hdigits.drop _) ?_
        exact List.ne_nil_of_length_pos (by rw [List.length_drop]; omega)
    · split
      · exact .inl ⟨by omega, rfl⟩
      · exact .inr ⟨by omega, rfl⟩
  split
  · next hafter =>
    refine ⟨digits ++ Double.zeros (d.exponent - digits.length).toNat, ['.', '0'], [],
      .of_head (hdigits.append (digits_zeros _)) (by simp [hne]) ?_,
      .places (by simp [Digits]) (by simp), .none, by simp⟩
    rw [head?_append_of_ne_nil hne]
    exact hhead (by omega)
  split
  · next hafter hpos =>
    have htake : 0 < (digits.take d.exponent.toNat).length := by rw [List.length_take]; omega
    refine ⟨digits.take d.exponent.toNat, '.' :: digits.drop d.exponent.toNat, [],
      .of_head (hdigits.take _)
        (List.ne_nil_of_length_pos htake) ?_,
      .places (hdigits.drop _) ?_, .none, by simp⟩
    · rw [List.head?_take, if_neg (by omega)]
      exact hhead hpos
    · exact List.ne_nil_of_length_pos (by rw [List.length_drop]; omega)
  · exact ⟨['0'], '.' :: (Double.zeros (-d.exponent).toNat ++ digits), [], whole_toString 0,
      .places ((digits_zeros _).append hdigits) (by simp [hne]), .none, by simp⟩

theorem IsNumeral.shortest {layout : Double.Layout} {d : Double} {text : String}
    (h : d.shortest? layout = some text) : IsNumeral text := by
  have hzero : Unsigned "0.0".toList :=
    ⟨['0'], ['.', '0'], [], whole_toString 0, .places (digits_toString 0) (by simp), .none, rfl⟩
  have hwrite (units : Nat) : Unsigned (layout.write (Double.shortestDigits units)).toList :=
    unsigned_write layout Double.shortestDigits_pos
  rw [Double.shortest?.eq_def] at h
  split at h
  · next negative =>
    obtain rfl := Option.some.inj h
    cases negative with
    | false => exact hzero.isNumeral
    | true => exact hzero.negative
  · next negative units hunits =>
    obtain rfl := Option.some.inj h
    cases negative with
    | false => simpa using (hwrite units).isNumeral
    | true => exact (hwrite units).negative
  · cases h

end Json
end SoloRun
