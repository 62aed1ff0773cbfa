import Mathlib.Data.List.Basic
import SoloRun.Text.Utf8

/-!
Where bytes are broken as text. They are cut in just one way into the encodings of characters and
broken parts: a part is broken where no character starts, and it takes all the bytes that some
character's encoding has at its start, at least one.
-/

namespace SoloRun.Utf8

theorem toNat_ofNat {n : Nat} (h : n < 256) : (UInt8.ofNat n).toNat = n :=
  UInt8.toNat_ofNat_of_lt' h

theorem ofNat_eq {n : Nat} {b : UInt8} (h : n = b.toNat) : UInt8.ofNat n = b := by
  rw [h, UInt8.ofNat_toNat]

theorem exists_char {n : Nat} (h : n.isValidChar) : ∃ c : Char, c.val.toNat = n :=
  ⟨Char.ofNatAux n h, rfl⟩

section Followers

variable {lead : UInt8}

theorem followers_eq (lead : UInt8) :
    followers lead =
      if lead.toNat < 0xC2 then (0, 0, 0)
      else if lead.toNat < 0xE0 then (1, 0x80, 0xBF)
      else if lead.toNat = 0xE0 then (2, 0xA0, 0xBF)
      else if lead.toNat = 0xED then (2, 0x80, 0x9F)
      else if lead.toNat < 0xF0 then (2, 0x80, 0xBF)
      else if lead.toNat = 0xF0 then (3, 0x90, 0xBF)
      else if lead.toNat < 0xF4 then (3, 0x80, 0xBF)
      else if lead.toNat = 0xF4 then (3, 0x80, 0x8F)
      else (0, 0, 0) := by
  simp only [followers, UInt8.lt_iff_toNat_lt, ← UInt8.toNat_inj]
  rfl

theorem followers_none (h : lead.toNat < 0xC2 ∨ 0xF4 < lead.toNat) :
    followers lead = (0, 0, 0) := by
  rw [followers_eq]
  grind

theorem followers_one (h : 0xC2 ≤ lead.toNat ∧ lead.toNat < 0xE0) :
    followers lead = (1, 0x80, 0xBF) := by
  rw [followers_eq]
  grind

-- After 0xE0 lower bytes would be overlong, after 0xED higher ones a surrogate.
theorem followers_two (h : 0xE0 ≤ lead.toNat ∧ lead.toNat < 0xF0) :
    ∃ low high, followers lead = (2, low, high) ∧ ∀ b : UInt8,
      low.toNat ≤ b.toNat ∧ b.toNat ≤ high.toNat ↔ (0x80 ≤ b.toNat ∧ b.toNat ≤ 0xBF) ∧
        (lead.toNat = 0xE0 → 0xA0 ≤ b.toNat) ∧ (lead.toNat = 0xED → b.toNat ≤ 0x9F) := by
  rw [followers_eq, if_neg (by omega), if_neg (by omega)]
  split
  · exact ⟨_, _, rfl, by simp; omega⟩
  split
  · exact ⟨_, _, rfl, by simp; omega⟩
  · rw [if_pos h.2]
    exact ⟨_, _, rfl, by simp; omega⟩

-- After 0xF0 lower bytes would be overlong, after 0xF4 higher ones out of range.
theorem followers_three (h : 0xF0 ≤ lead.toNat ∧ lead.toNat ≤ 0xF4) :
    ∃ low high, followers lead = (3, low, high) ∧ ∀ b : UInt8,
      low.toNat ≤ b.toNat ∧ b.toNat ≤ high.toNat ↔ (0x80 ≤ b.toNat ∧ b.toNat ≤ 0xBF) ∧
        (lead.toNat = 0xF0 → 0x90 ≤ b.toNat) ∧ (lead.toNat = 0xF4 → b.toNat ≤ 0x8F) := by
  rw [followers_eq, if_neg (by omega), if_neg (by omega), if_neg (by omega), if_neg (by omega),
    if_neg (by omega)]
  split
  · exact ⟨_, _, rfl, by simp; omega⟩
  split
  · exact ⟨_, _, rfl, by simp; omega⟩
  · rw [if_pos (by omega)]
    exact ⟨_, _, rfl, by simp; omega⟩

theorem low_le_high (lead : UInt8) : (followers lead).2.1 ≤ (followers lead).2.2 := by
  rw [followers]
  repeat' split
  all_goals decide

theorem brokenFollowers_eq (lead : UInt8) (rest : Bytes) :
    brokenFollowers lead rest =
      fitting (followers lead).1 (followers lead).2.1 (followers lead).2.2 rest := rfl

end Followers

section Fitting

variable {m n : Nat} {low high b : UInt8} {bytes rest : Bytes}

theorem fitting_cons (rest : Bytes) (h : low.toNat ≤ b.toNat ∧ b.toNat ≤ high.toNat) :
    fitting (n + 1) low high (b :: rest) = fitting n 0x80 0xBF rest + 1 := by
  rw [fitting, if_pos]
  exact h

theorem fits_of_fitting (h : m + 1 ≤ fitting (n + 1) low high (b :: rest)) :
    (low.toNat ≤ b.toNat ∧ b.toNat ≤ high.toNat) ∧ m ≤ fitting n 0x80 0xBF rest := by
  rw [fitting] at h
  split at h
  · next hb => exact ⟨hb, Nat.le_of_succ_le_succ h⟩
  · cases h

theorem fitting_le_length (n : Nat) (low high : UInt8) (bytes : Bytes) :
    fitting n low high bytes ≤ bytes.length := by
  fun_induction fitting n low high bytes <;> grind

theorem le_fitting_iff :
    m ≤ fitting n low high bytes ↔ fitting n low high (bytes.take m) = m := by
  induction n generalizing m low high bytes with
  | zero => simp [fitting, eq_comm]
  | succ n ih =>
    cases m with
    | zero => simp [fitting]
    | succ m =>
      cases bytes with
      | nil => simp [fitting]
      | cons b rest =>
        rw [List.take_succ_cons, fitting, fitting]
        split
        · rw [Nat.succ_le_succ_iff, Nat.succ_inj, ih]
        · simp

/-- Bytes that fit can be followed by others up to the whole number. -/
theorem exists_completion (hlow : low ≤ high) (h : m ≤ fitting n low high bytes) :
    ∃ more, (bytes.take m ++ more).length = n ∧ n ≤ fitting n low high (bytes.take m ++ more) := by
  induction n generalizing m low high bytes with
  | zero =>
    obtain rfl := Nat.le_zero.mp h
    exact ⟨[], rfl, Nat.zero_le _⟩
  | succ n ih =>
    cases m with
    | zero =>
      obtain ⟨more, hlength, hfits⟩ :=
        @ih 0 0x80 0xBF [] (by decide) (Nat.zero_le _)
      refine ⟨low :: more, by simpa using hlength, ?_⟩
      simpa [fitting, hlow] using hfits
    | succ m =>
      cases bytes with
      | nil => cases h
      | cons b rest =>
        obtain ⟨hb, hrest⟩ := fits_of_fitting h
        obtain ⟨more, hlength, hfits⟩ := ih (by decide) hrest
        refine ⟨more, by simpa using hlength, ?_⟩
        rw [List.take_succ_cons, List.cons_append, fitting_cons _ hb]
        exact Nat.succ_le_succ hfits

end Fitting

section Encodings

variable {lead : UInt8} {tail : Bytes}

theorem fits_of_encode {c : Char} (h : String.utf8EncodeChar c = lead :: tail) :
    tail.length = (followers lead).1 ∧ brokenFollowers lead tail = tail.length := by
  have hvalid := c.valid
  simp only [UInt32.isValidChar, Nat.isValidChar] at hvalid
  have hnext (n : Nat) : (0x80 : UInt8).toNat ≤ (UInt8.ofNat (n % 64 + 128)).toNat ∧
      (UInt8.ofNat (n % 64 + 128)).toNat ≤ (0xBF : UInt8).toNat := by
    rw [toNat_ofNat (by omega)]
    simp only [UInt8.reduceToNat]
    omega
  simp only [String.utf8EncodeChar] at h
  -- one case for each length of an encoding
  split at h
  · obtain ⟨rfl, rfl⟩ := List.cons.inj h
    rw [brokenFollowers, followers_none (by rw [toNat_ofNat (by omega)]; omega)]
    exact ⟨rfl, rfl⟩
  split at h
  · obtain ⟨rfl, rfl⟩ := List.cons.inj h
    rw [brokenFollowers, followers_one (by rw [toNat_ofNat (by omega)]; omega)]
    exact ⟨rfl, fitting_cons _ (hnext _)⟩
  split at h
  · obtain ⟨rfl, rfl⟩ := List.cons.inj h
    obtain ⟨low, high, hfollowers, hsecond⟩ :=
      @followers_two (UInt8.ofNat (c.val.toNat / 4096 % 16 + 224))
        (by rw [toNat_ofNat (by omega)]; omega)
    rw [brokenFollowers_eq, hfollowers]
    refine ⟨rfl, ?_⟩
    rw [fitting_cons, fitting_cons _ (hnext _)]
    · rfl
    · rw [hsecond, toNat_ofNat (by omega), toNat_ofNat (by omega)]
      omega
  · obtain ⟨rfl, rfl⟩ := List.cons.inj h
    obtain ⟨low, high, hfollowers, hsecond⟩ :=
      @followers_three (UInt8.ofNat (c.val.toNat / 262144 % 8 + 240))
        (by rw [toNat_ofNat (by omega)]; omega)
    rw [brokenFollowers_eq, hfollowers]
    refine ⟨rfl, ?_⟩
    rw [fitting_cons, fitting_cons _ (hnext _), fitting_cons _ (hnext _)]
    · rfl
    · rw [hsecond, toNat_ofNat (by omega), toNat_ofNat (by omega)]
      omega

theorem encode_two {b : UInt8} (hlead : 0xC2 ≤ lead.toNat ∧ lead.toNat < 0xE0)
    (hb : 0x80 ≤ b.toNat ∧ b.toNat ≤ 0xBF) : ∃ c, String.utf8EncodeChar c = [lead, b] := by
  have hvalid : ((lead.toNat - 0xC0) * 64 + (b.toNat - 0x80)).isValidChar := by
    simp only [Nat.isValidChar]
    omega
  obtain ⟨c, hc⟩ := exists_char hvalid
  refine ⟨c, ?_⟩
  simp only [String.utf8EncodeChar, hc]
  rw [if_neg (by omega), if_pos (by omega)]
  exact congrArg₂ _ (ofNat_eq (by omega)) (congrArg₂ _ (ofNat_eq (by omega)) rfl)

theorem encode_three {b b' : UInt8} (hlead : 0xE0 ≤ lead.toNat ∧ lead.toNat < 0xF0)
    (hb : (0x80 ≤ b.toNat ∧ b.toNat ≤ 0xBF) ∧
      (lead.toNat = 0xE0 → 0xA0 ≤ b.toNat) ∧ (lead.toNat = 0xED → b.toNat ≤ 0x9F))
    (hb' : 0x80 ≤ b'.toNat ∧ b'.toNat ≤ 0xBF) :
    ∃ c, String.utf8EncodeChar c = [lead, b, b'] := by
  have hvalid : ((lead.toNat - 0xE0) * 4096 + (b.toNat - 0x80) * 64 +
      (b'.toNat - 0x80)).isValidChar := by
    simp only [Nat.isValidChar]
    omega
  obtain ⟨c, hc⟩ := exists_char hvalid
  refine ⟨c, ?_⟩
  simp only [String.utf8EncodeChar, hc]
  rw [if_neg (by omega), if_neg (by omega), if_pos (by omega)]
  exact congrArg₂ _ (ofNat_eq (by omega)) (congrArg₂ _ (ofNat_eq (by omega))
    (congrArg₂ _ (ofNat_eq (by omega)) rfl))

theorem encode_four {b b' b'' : UInt8} (hlead : 0xF0 ≤ lead.toNat ∧ lead.toNat ≤ 0xF4)
    (hb : (0x80 ≤ b.toNat ∧ b.toNat ≤ 0xBF) ∧
      (lead.toNat = 0xF0 → 0x90 ≤ b.toNat) ∧ (lead.toNat = 0xF4 → b.toNat ≤ 0x8F))
    (hb' : 0x80 ≤ b'.toNat ∧ b'.toNat ≤ 0xBF) (hb'' : 0x80 ≤ b''.toNat ∧ b''.toNat ≤ 0xBF) :
    ∃ c, String.utf8EncodeChar c = [lead, b, b', b''] := by
  have hvalid : ((lead.toNat - 0xF0) * 262144 + (b.toNat - 0x80) * 4096 +
      (b'.toNat - 0x80) * 64 + (b''.toNat - 0x80)).isValidChar := by
    simp only [Nat.isValidChar]
    omega
  obtain ⟨c, hc⟩ := exists_char hvalid
  refine ⟨c, ?_⟩
  simp only [String.utf8EncodeChar, hc]
  rw [if_neg (by omega), if_neg (by omega), if_neg (by omega)]
  exact congrArg₂ _ (ofNat_eq (by omega)) (congrArg₂ _ (ofNat_eq (by omega))
    (congrArg₂ _ (ofNat_eq (by omega)) (congrArg₂ _ (ofNat_eq (by omega)) rfl)))

theorem encode_of_fits (hpos : 0 < (followers lead).1) (hlength : tail.length = (followers lead).1)
    (hfits : (followers lead).1 ≤ brokenFollowers lead tail) :
    ∃ c, String.utf8EncodeChar c = lead :: tail := by
  have hlead : 0xC2 ≤ lead.toNat ∧ lead.toNat ≤ 0xF4 := by
    rw [← Nat.not_lt, ← Nat.not_lt, ← not_or]
    intro hout
    rw [followers_none hout] at hpos
    cases hpos
  rw [brokenFollowers_eq] at hfits
  by_cases hone : lead.toNat < 0xE0
  · rw [followers_one ⟨hlead.1, hone⟩] at hfits hlength
    obtain ⟨b, rfl⟩ := List.length_eq_one_iff.mp hlength
    obtain ⟨hb, -⟩ := fits_of_fitting hfits
    exact encode_two ⟨hlead.1, hone⟩ hb
  by_cases htwo : lead.toNat < 0xF0
  · obtain ⟨low, high, hfollowers, hsecond⟩ := @followers_two lead ⟨by omega, htwo⟩
    rw [hfollowers] at hfits hlength
    obtain ⟨b, b', rfl⟩ := List.length_eq_two.mp hlength
    obtain ⟨hb, hfits⟩ := fits_of_fitting hfits
    obtain ⟨hb', -⟩ := fits_of_fitting hfits
    exact encode_three ⟨by omega, htwo⟩ ((hsecond b).mp hb) hb'
  · obtain ⟨low, high, hfollowers, hsecond⟩ := @followers_three lead ⟨by omega, hlead.2⟩
    rw [hfollowers] at hfits hlength
    obtain ⟨b, b', b'', rfl⟩ := List.length_eq_three.mp hlength
    obtain ⟨hb, hfits⟩ := fits_of_fitting hfits
    obtain ⟨hb', hfits⟩ := fits_of_fitting hfits
    obtain ⟨hb'', -⟩ := fits_of_fitting hfits
    exact encode_four ⟨by omega, hlead.2⟩ ((hsecond b).mp hb) hb' hb''

theorem firstChar?_eq_some_iff {bytes : Bytes} {c : Char} :
    firstChar? bytes = some c ↔ String.utf8EncodeChar c <+: bytes := by
  constructor
  · intro h
    cases bytes with
    | nil => cases h
    | cons b rest =>
      rw [firstChar?] at h
      split at h
      · next hb =>
        have hlow : b.toNat < 0x80 := UInt8.lt_iff_toNat_lt.mp hb
        obtain ⟨d, hd⟩ := exists_char (n := b.toNat) (by simp only [Nat.isValidChar]; omega)
        have hchar : Char.ofNat b.toNat = d := hd ▸ Char.ofNat_toNat d
        have hencode : String.utf8EncodeChar d = [b] := by
          simp only [String.utf8EncodeChar, hd]
          rw [if_pos (by omega), ofNat_eq rfl]
        rw [← Option.some.inj h, hchar, hencode]
        exact ⟨rest, rfl⟩
      · obtain ⟨more, hmore⟩ := ByteArray.exists_of_utf8DecodeChar?_eq_some h
        have hlist := congrArg (·.data.toList) hmore
        simp only [List.toList_data_toByteArray, ByteArray.data_append, Array.toList_append]
          at hlist
        exact List.IsPrefix.trans ⟨_, hlist.symm⟩ (List.take_prefix 4 _)
  · rintro ⟨rest, rfl⟩
    exact firstChar?_append c rest

end Encodings

/-- A part of bytes, and what follows it, of which no character is the first: the part is as much as
an encoding could start with, and one byte if none could. -/
structure Broken (part rest : Bytes) : Prop where
  ne_nil : part ≠ []
  charless : ∀ c, ¬ String.utf8EncodeChar c <+: part ++ rest
  opens : part.length = 1 ∨ ∃ c, part <+: String.utf8EncodeChar c
  longest : ∀ longer c, longer <+: part ++ rest → longer <+: String.utf8EncodeChar c →
    longer.length ≤ part.length

theorem broken_of_charless {lead : UInt8} {rest : Bytes}
    (h : ∀ c, ¬ String.utf8EncodeChar c <+: lead :: rest) :
    Broken (lead :: rest.take (brokenFollowers lead rest))
      (rest.drop (brokenFollowers lead rest)) := by
  have hwhole : (lead :: rest.take (brokenFollowers lead rest)) ++
      rest.drop (brokenFollowers lead rest) = lead :: rest := by
    rw [List.cons_append, List.take_append_drop]
  have hlength : (rest.take (brokenFollowers lead rest)).length = brokenFollowers lead rest :=
    List.length_take_of_le (fitting_le_length _ _ _ rest)
  refine ⟨List.cons_ne_nil _ _, hwhole ▸ h, ?_, ?_⟩
  · by_cases hzero : brokenFollowers lead rest = 0
    · exact .inl (by rw [hzero]; rfl)
    · obtain ⟨more, hmore, hfits⟩ :=
        exists_completion (low_le_high lead) (Nat.le_of_eq (brokenFollowers_eq lead rest))
      have hpos : 0 < (followers lead).1 := by
        rw [Nat.pos_iff_ne_zero]
        intro hnone
        apply hzero
        rw [brokenFollowers_eq, hnone, fitting]
      obtain ⟨c, hc⟩ := encode_of_fits hpos hmore hfits
      exact .inr ⟨c, more, hc.symm⟩
  · rw [hwhole]
    intro longer c hlonger hc
    cases longer with
    | nil => exact Nat.zero_le _
    | cons first more =>
      obtain ⟨rfl, hmore⟩ := List.cons_prefix_cons.mp hlonger
      obtain ⟨tail, htail⟩ := hc
      have hle : more.length ≤ brokenFollowers first (more ++ tail) := by
        rw [(@fits_of_encode _ (more ++ tail) _ htail.symm).2, List.length_append]
        exact Nat.le_add_right _ _
      rw [brokenFollowers_eq, le_fitting_iff, List.take_left] at hle
      rw [List.length_cons, List.length_cons, hlength, Nat.succ_le_succ_iff, brokenFollowers_eq,
        le_fitting_iff, ← List.prefix_iff_eq_take.mp hmore]
      exact hle

theorem Broken.unique {part rest other more : Bytes} (h : Broken part rest)
    (hother : Broken other more) (heq : part ++ rest = other ++ more) :
    part = other ∧ rest = more := by
  have hle {part rest other more : Bytes} (h : Broken part rest) (hother : Broken other more)
      (heq : part ++ rest = other ++ more) : part.length ≤ other.length := by
    rcases h.opens with hone | ⟨c, hc⟩
    · rw [hone]
      exact List.length_pos_iff.mpr hother.ne_nil
    · exact hother.longest part c ⟨rest, heq⟩ hc
  exact List.append_inj heq (Nat.le_antisymm (hle h hother heq) (hle hother h heq.symm))

inductive Cuts : Bytes → List Piece → Prop where
  | nil : Cuts [] []
  | char (c : Char) {rest more} (cuts : Cuts rest more) :
    Cuts (String.utf8EncodeChar c ++ rest) (.char c :: more)
  | broken {part rest more} (broken : Broken part rest) (cuts : Cuts rest more) :
    Cuts (part ++ rest) (.broken part :: more)

theorem cuts_pieces (bytes : Bytes) : Cuts bytes (pieces bytes) := by
  induction h : bytes.length using Nat.strongRecOn generalizing bytes with
  | ind n ih =>
    cases bytes with
    | nil =>
      rw [pieces_nil]
      exact .nil
    | cons lead rest =>
      cases hfirst : firstChar? (lead :: rest) with
      | some c =>
        obtain ⟨more, hmore⟩ := firstChar?_eq_some_iff.mp hfirst
        have hsize := c.utf8Size_pos
        rw [← String.length_utf8EncodeChar c] at hsize
        rw [← hmore, pieces_char]
        refine .char c (ih more.length ?_ more rfl)
        rw [← h, ← hmore, List.length_append]
        exact Nat.lt_add_of_pos_left hsize
      | none =>
        have hcharless (c : Char) : ¬ String.utf8EncodeChar c <+: lead :: rest := by
          rw [← firstChar?_eq_some_iff, hfirst]
          exact nofun
        have hcuts := ih _ (by rw [← h, List.length_drop, List.length_cons]; omega)
          (rest.drop (brokenFollowers lead rest)) rfl
        have hcut := Cuts.broken (broken_of_charless hcharless) hcuts
        rw [List.cons_append, List.take_append_drop] at hcut
        rw [pieces_cons, hfirst]
        exact hcut

theorem Cuts.unique {bytes : Bytes} {parts others : List Piece} (h : Cuts bytes parts)
    (hother : Cuts bytes others) : parts = others := by
  induction h generalizing others with
  | nil =>
    generalize hbytes : [] = bytes at hother
    cases hother with
    | nil => rfl
    | char c =>
      exact absurd (List.append_eq_nil_iff.mp hbytes.symm).1 String.utf8EncodeChar_ne_nil
    | broken hbroken => exact absurd (List.append_eq_nil_iff.mp hbytes.symm).1 hbroken.ne_nil
  | @char c rest more _ ih =>
    generalize hbytes : String.utf8EncodeChar c ++ rest = bytes at hother
    cases hother with
    | nil => exact absurd (List.append_eq_nil_iff.mp hbytes).1 String.utf8EncodeChar_ne_nil
    | char other hcuts =>
      have hc := firstChar?_append c rest
      rw [hbytes, firstChar?_append, Option.some.injEq] at hc
      subst hc
      rw [ih (List.append_cancel_left hbytes ▸ hcuts)]
    | broken hbroken => exact absurd ⟨rest, hbytes⟩ (hbroken.charless c)
  | @broken part rest more hbroken _ ih =>
    generalize hbytes : part ++ rest = bytes at hother
    cases hother with
    | nil => exact absurd (List.append_eq_nil_iff.mp hbytes).1 hbroken.ne_nil
    | char c => exact absurd ⟨_, hbytes.symm⟩ (hbroken.charless c)
    | broken hother hcuts =>
      obtain ⟨rfl, rfl⟩ := hbroken.unique hother hbytes
      rw [ih hcuts]

theorem Cuts.flatMap_bytes {bytes : Bytes} {parts : List Piece} (h : Cuts bytes parts) :
    parts.flatMap Piece.bytes = bytes := by
  induction h with
  | nil => rfl
  | char c _ ih =>
    rw [List.flatMap_cons, ih]
    rfl
  | broken _ _ ih =>
    rw [List.flatMap_cons, ih]
    rfl

theorem decode_encode_append (s : String) (rest : Bytes) :
    decode (encode s ++ rest) = s ++ decode rest := by
  have hpieces : pieces (encode s ++ rest) = s.toList.map .char ++ pieces rest := by
    rw [encode]
    induction s.toList with
    | nil => rfl
    | cons c more ih =>
      rw [List.flatMap_cons, List.append_assoc, pieces_char, ih]
      rfl
  apply String.toList_inj.mp
  simp [decode, hpieces, Piece.shown, Function.comp_def]

theorem eq_chars_of_collect {done cs : List Char} {n : Nat} {parts : List Piece}
    (h : collect done n parts = .ok cs) :
    ∃ more, cs = done.reverse ++ more ∧ parts = more.map .char := by
  induction parts generalizing done n with
  | nil =>
    obtain rfl := Except.ok.inj h
    exact ⟨[], by simp⟩
  | cons part rest ih =>
    cases part with
    | char c =>
      obtain ⟨more, rfl, rfl⟩ := ih h
      exact ⟨c :: more, by simp⟩
    | broken part => cases h

theorem decode?_eq_ok_iff {bytes : Bytes} {s : String} :
    decode? bytes = .ok s ↔ bytes = encode s := by
  constructor
  · intro h
    rw [decode?] at h
    cases hcollect : collect [] 0 (pieces bytes) with
    | error fault =>
      rw [hcollect] at h
      cases h
    | ok cs =>
      rw [hcollect] at h
      obtain rfl := Except.ok.inj h
      obtain ⟨more, rfl, hparts⟩ := eq_chars_of_collect hcollect
      rw [← (cuts_pieces bytes).flatMap_bytes, hparts, List.flatMap_map, encode]
      simp [Piece.bytes]
  · rintro rfl
    exact decode?_encode s

end SoloRun.Utf8
