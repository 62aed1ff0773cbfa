import Mathlib
import SoloRun.Number.Double

/-!
Rounding to the nearest number keeps the order and leaves what needs no rounding as it is. Both
hold for whole numbers and for numbers of 53 significant bits, whose spacing grows with them.
-/

namespace SoloRun

section Rounded

variable {num other den k : Nat}

theorem roundDiv_le_of_le_mul (hden : 0 < den) (h : num ≤ k * den) : roundDiv num den ≤ k := by
  rcases h.eq_or_lt with rfl | hlt
  · exact (roundDiv_mul k hden).le
  · exact (roundDiv_le num den).trans ((Nat.div_lt_iff_lt_mul hden).mpr hlt)

theorem le_roundDiv_of_mul_le (hden : 0 < den) (h : k * den ≤ num) : k ≤ roundDiv num den :=
  ((Nat.le_div_iff_mul_le hden).mpr h).trans (div_le_roundDiv num den)

theorem roundDiv_mono (den : Nat) (h : num ≤ other) : roundDiv num den ≤ roundDiv other den := by
  rcases (Nat.div_le_div_right h : num / den ≤ other / den).eq_or_lt with heq | hlt
  · have hnum := Nat.div_add_mod num den
    have hother := Nat.div_add_mod other den
    have hmod : num % den ≤ other % den := by
      rw [heq] at hnum
      omega
    simp only [roundDiv, heq]
    split <;> split <;> omega
  · exact (roundDiv_le num den).trans (hlt.trans_le (div_le_roundDiv other den))

theorem roundDiv_near (num : Nat) (hden : 0 < den) :
    2 * (roundDiv num den * den) ≤ 2 * num + den ∧
      2 * num ≤ 2 * (roundDiv num den * den) + den := by
  have hnum := Nat.div_add_mod' num den
  have hmod := Nat.mod_lt num hden
  simp only [roundDiv]
  split
  · omega
  · rw [Nat.succ_mul (num / den)]
    omega

theorem roundDiv_eq_of_near (hden : 0 < den) (hlow : 2 * (k * den) < 2 * num + den)
    (hhigh : 2 * num < 2 * (k * den) + den) : roundDiv num den = k := by
  obtain ⟨habove, hbelow⟩ := roundDiv_near num hden
  rcases Nat.lt_trichotomy (roundDiv num den) k with hlt | heq | hgt
  · have hstep := Nat.mul_le_mul_right den hlt
    rw [Nat.succ_mul] at hstep
    omega
  · exact heq
  · have hstep := Nat.mul_le_mul_right den hgt
    rw [Nat.succ_mul] at hstep
    omega

end Rounded

namespace Double

/-- A number of 53 significant bits: one of those that are `spacing` apart. -/
def Representable (units : Nat) : Prop :=
  spacing units ∣ units

section Representable

variable {low high n k exponent : Nat}

theorem spacing_eq (units : Nat) : spacing units = 2 ^ (units.log2 - 52) := rfl

theorem spacing_pos (units : Nat) : 0 < spacing units :=
  Nat.two_pow_pos _

theorem spacing_dvd_of_log2_le (h : low.log2 ≤ high.log2) : spacing low ∣ spacing high :=
  Nat.pow_dvd_pow 2 (Nat.sub_le_sub_right h 52)

theorem log2_le_log2 (h : low ≤ high) : low.log2 ≤ high.log2 := by
  rw [Nat.log2_eq_log_two, Nat.log2_eq_log_two]
  exact Nat.log_mono_right h

theorem spacing_dvd (h : low ≤ high) : spacing low ∣ spacing high :=
  spacing_dvd_of_log2_le (log2_le_log2 h)

theorem spacing_le (h : low ≤ high) : spacing low ≤ spacing high :=
  Nat.le_of_dvd (spacing_pos high) (spacing_dvd h)

theorem log2_le_of_lt (h : n < 2 ^ (exponent + 1)) : n.log2 ≤ exponent := by
  rw [Nat.log2_eq_log_two]
  exact Nat.lt_succ_iff.mp (Nat.log_lt_of_lt_pow' (Nat.succ_ne_zero exponent) h)

theorem spacing_two_pow (exponent : Nat) : spacing (2 ^ (exponent + 53)) = 2 * 2 ^ exponent := by
  rw [spacing_eq, Nat.log2_two_pow, ← pow_succ']
  congr 1

theorem spacing_le_two_pow (h : n < 2 ^ (exponent + 53)) : spacing n ≤ 2 ^ exponent :=
  Nat.pow_le_pow_right Nat.two_pos (Nat.sub_le_of_le_add (log2_le_of_lt h))

theorem representable_mul_pow (h : k ≤ 2 ^ 53) (exponent : Nat) :
    Representable (k * 2 ^ exponent) := by
  rcases h.eq_or_lt with rfl | hlt
  · rw [Representable, ← pow_add, spacing_eq, Nat.log2_two_pow]
    exact Nat.pow_dvd_pow 2 (Nat.sub_le _ _)
  · have hbound : k * 2 ^ exponent < 2 ^ (52 + exponent + 1) := by
      have hmul := Nat.mul_lt_mul_of_pos_right hlt (Nat.two_pow_pos exponent)
      rwa [← pow_add, Nat.succ_add 52] at hmul
    have hlog := log2_le_of_lt hbound
    exact (Nat.pow_dvd_pow 2 (Nat.sub_le_of_le_add (by omega))).trans (Nat.dvd_mul_left _ _)

theorem representable_two_pow (exponent : Nat) : Representable (2 ^ exponent) := by
  have h := representable_mul_pow (k := 1) Nat.one_le_two_pow exponent
  rwa [Nat.one_mul] at h

theorem one_eq_two_pow (h : exponent = 1074) : one = 2 ^ exponent := by
  unfold one
  rw [← h]
  exact Nat.pow_eq

theorem exists_one_eq (h : k ≤ 1074) : ∃ exponent, one = 2 ^ (exponent + k) :=
  ⟨1074 - k, one_eq_two_pow (Nat.sub_add_cancel h)⟩

theorem representable_mul_one (h : k ≤ 2 ^ 53) : Representable (k * one) := by
  obtain ⟨exponent, hone⟩ := exists_one_eq (Nat.zero_le 1074)
  rw [hone]
  exact representable_mul_pow h _

/-- Where the spacing has grown past that of `n`, a power of two lies between. -/
theorem Representable.exists_dvd (hn : Representable n) (h : n ≤ high) :
    ∃ between, n ≤ between ∧ between ≤ high ∧ spacing high ∣ between := by
  by_cases hlog : high.log2 ≤ n.log2
  · exact ⟨n, Nat.le_refl n, h, (spacing_dvd_of_log2_le hlog).trans hn⟩
  · have hlt := Nat.not_le.mp hlog
    have hhigh : high ≠ 0 := by
      rintro rfl
      exact absurd hlt (Nat.not_lt_zero _)
    refine ⟨2 ^ high.log2, ?_, Nat.log2_self_le hhigh, Nat.pow_dvd_pow 2 (Nat.sub_le _ _)⟩
    exact (Nat.lt_log2_self.trans_le (Nat.pow_le_pow_right Nat.two_pos hlt)).le

/-- Short of the next number the spacing is the same. -/
theorem Representable.spacing_add (hn : Representable n) (h : k < spacing n) :
    spacing (n + k) = spacing n := by
  by_cases hlog : (n + k).log2 ≤ n.log2
  · rw [spacing_eq, spacing_eq, hlog.antisymm (log2_le_log2 (Nat.le_add_right n k))]
  · -- otherwise the power of two above `n` would be less than the spacing away
    exfalso
    have hne : n + k ≠ 0 := by
      intro hzero
      rw [hzero] at hlog
      exact hlog (Nat.zero_le _)
    have hpower : 2 ^ (n.log2 + 1) ≤ n + k :=
      (Nat.pow_le_pow_right Nat.two_pos (Nat.not_le.mp hlog)).trans (Nat.log2_self_le hne)
    have hdvd : spacing n ∣ 2 ^ (n.log2 + 1) - n :=
      Nat.dvd_sub (Nat.pow_dvd_pow 2 (by omega)) hn
    have hgap := Nat.le_of_dvd (Nat.sub_pos_of_lt Nat.lt_log2_self) hdvd
    omega

end Representable

section Nearest

variable {num other den n d : Nat} (hden : 0 < den)

theorem nearest_eq (num den : Nat) :
    nearest num den = roundDiv num (den * spacing (num / den)) * spacing (num / den) := rfl

include hden

theorem nearest_le (hn : Representable n) (h : num ≤ n * den) : nearest num den ≤ n := by
  have hquotient : num / den ≤ n := Nat.div_le_of_le_mul (Nat.mul_comm n den ▸ h)
  have hstep := spacing_pos (num / den)
  obtain ⟨k, hk⟩ := (spacing_dvd hquotient).trans hn
  rw [nearest_eq]
  generalize spacing (num / den) = step at hstep hk ⊢
  have hrounded : roundDiv num (den * step) ≤ k := by
    apply roundDiv_le_of_le_mul (Nat.mul_pos hden hstep)
    calc num ≤ n * den := h
      _ = k * (den * step) := by rw [hk]; ring
  calc roundDiv num (den * step) * step ≤ k * step := Nat.mul_le_mul_right step hrounded
    _ = n := by rw [hk, Nat.mul_comm]

theorem le_nearest (hn : Representable n) (h : n * den ≤ num) : n ≤ nearest num den := by
  obtain ⟨between, hlow, hhigh, k, hk⟩ :=
    hn.exists_dvd ((Nat.le_div_iff_mul_le hden).mpr h)
  have hstep := spacing_pos (num / den)
  have hmul : between * den ≤ num := (Nat.le_div_iff_mul_le hden).mp hhigh
  rw [nearest_eq]
  generalize spacing (num / den) = step at hstep hk ⊢
  have hrounded : k ≤ roundDiv num (den * step) := by
    apply le_roundDiv_of_mul_le (Nat.mul_pos hden hstep)
    calc k * (den * step) = between * den := by rw [hk]; ring
      _ ≤ num := hmul
  calc n ≤ between := hlow
    _ = k * step := by rw [hk, Nat.mul_comm]
    _ ≤ roundDiv num (den * step) * step := Nat.mul_le_mul_right step hrounded

theorem nearest_of_representable (hn : Representable n) : nearest (n * den) den = n :=
  (nearest_le hden hn (Nat.le_refl _)).antisymm (le_nearest hden hn (Nat.le_refl _))

theorem nearest_mono (h : num ≤ other) : nearest num den ≤ nearest other den := by
  have hquotients : num / den ≤ other / den := Nat.div_le_div_right h
  rcases (log2_le_log2 hquotients).eq_or_lt with heq | hlt
  · have hspacing : spacing (num / den) = spacing (other / den) := by
      rw [spacing_eq, spacing_eq, heq]
    rw [nearest_eq, nearest_eq, hspacing]
    exact Nat.mul_le_mul_right _ (roundDiv_mono _ h)
  · -- the power of two where the spacing of the greater one begins stays between them
    have hne : other / den ≠ 0 := by
      intro hzero
      rw [hzero] at hlt
      exact absurd hlt (Nat.not_lt_zero _)
    have hbelow : num / den < 2 ^ (other / den).log2 :=
      Nat.lt_log2_self.trans_le (Nat.pow_le_pow_right Nat.two_pos hlt)
    have habove : 2 ^ (other / den).log2 ≤ other / den := Nat.log2_self_le hne
    exact (nearest_le hden (representable_two_pow _) ((Nat.div_lt_iff_lt_mul hden).mp hbelow).le).trans
      (le_nearest hden (representable_two_pow _) ((Nat.le_div_iff_mul_le hden).mp habove))

theorem representable_nearest (num : Nat) : Representable (nearest num den) := by
  have hquotient : num / den < 2 ^ 53 * spacing (num / den) :=
    calc num / den < 2 ^ ((num / den).log2 + 1) := Nat.lt_log2_self
      _ ≤ 2 ^ (53 + ((num / den).log2 - 52)) := Nat.pow_le_pow_right Nat.two_pos (by omega)
      _ = 2 ^ 53 * spacing (num / den) := pow_add 2 53 _
  have hrounded : roundDiv num (den * spacing (num / den)) ≤ 2 ^ 53 := by
    apply roundDiv_le_of_le_mul (Nat.mul_pos hden (spacing_pos _))
    calc num ≤ 2 ^ 53 * spacing (num / den) * den :=
          ((Nat.div_lt_iff_lt_mul hden).mp hquotient).le
      _ = 2 ^ 53 * (den * spacing (num / den)) := by ring
  exact representable_mul_pow hrounded _

/-- The error is at most half the spacing, and so at most half that of a greater number. -/
theorem nearest_near {exponent : Nat} (h : num / den < 2 ^ (exponent + 53)) :
    2 * (nearest num den * den) ≤ 2 * num + den * 2 ^ exponent ∧
      2 * num ≤ 2 * (nearest num den * den) + den * 2 ^ exponent := by
  have hspacing := Nat.mul_le_mul_left den (spacing_le_two_pow h)
  have hnear := roundDiv_near num (Nat.mul_pos hden (spacing_pos (num / den)))
  have hmul : nearest num den * den =
      roundDiv num (den * spacing (num / den)) * (den * spacing (num / den)) := by
    rw [nearest_eq]
    ring
  rw [hmul]
  omega

end Nearest

theorem Representable.nearest_add {n d : Nat} (hn : Representable n) (h : 2 * d < spacing n) :
    nearest (n + d) 1 = n := by
  have hspacing : spacing (n + d) = spacing n := hn.spacing_add (by omega)
  have hstep := spacing_pos n
  obtain ⟨k, hk⟩ := hn
  rw [nearest_eq, Nat.div_one, Nat.one_mul, hspacing]
  generalize spacing n = step at hstep hk h ⊢
  have hn : n = k * step := by rw [hk, Nat.mul_comm]
  have hrounded : roundDiv (n + d) step = k := by
    apply roundDiv_eq_of_near hstep
    · omega
    · omega
  rw [hrounded, hn]

end Double
end SoloRun
