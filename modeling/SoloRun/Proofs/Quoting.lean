import SoloRun.Json.Read

/-!
Texts in JSON strings: what stands between the quotes has no line feed in it, ends at the first
quote that is not escaped, and reads back as the text.
-/

namespace SoloRun.Json

/-- How a character can stand in a string: as it is, as a letter after a backslash, or by its
number. -/
inductive Spells (c : Char) : List Char → Prop where
  | bare (unquoted : c ≠ '"') (unslashed : c ≠ '\\') (printed : 32 ≤ c.toNat) : Spells c [c]
  | letter {d} (plain : d ≠ 'u') (stands : unescaped? d = some c) : Spells c ['\\', d]
  | control (small : c.toNat < 32) :
    Spells c ['\\', 'u', '0', '0', hexDigit (c.toNat / 16), hexDigit (c.toNat % 16)]

theorem spells_escaped (c : Char) : Spells c (escaped c) := by
  have hnumber {n : Nat} (h : c.toNat = n) : Char.ofNat n = c := by rw [← h, Char.ofNat_toNat]
  rw [escaped]
  split
  · next h => rw [h]; exact .letter (by decide) rfl
  split
  · next h => rw [h]; exact .letter (by decide) rfl
  split
  · next h => rw [h]; exact .letter (by decide) rfl
  split
  · next h => rw [h]; exact .letter (by decide) rfl
  split
  · next h => rw [h]; exact .letter (by decide) rfl
  split
  · next h => rw [← hnumber h]; exact .letter (by decide) rfl
  split
  · next h => rw [← hnumber h]; exact .letter (by decide) rfl
  split
  · next h => exact .control h
  · next hquote hslash _ _ _ _ _ h => exact .bare hquote hslash (Nat.not_lt.mp h)

theorem unit?_control :
    ∀ n < 32, unit? '0' '0' (hexDigit (n / 16)) (hexDigit (n % 16)) = some n := by
  decide

theorem lineFeed_not_mem_control :
    ∀ n < 32, '\n' ∉ ['\\', 'u', '0', '0', hexDigit (n / 16), hexDigit (n % 16)] := by
  decide

namespace Spells

variable {c : Char} {spelling : List Char}

theorem inside?_append (h : Spells c spelling) (rest : List Char) :
    inside? (spelling ++ rest) = before spelling (inside? rest) := by
  cases h with
  | bare unquoted unslashed printed =>
    rw [List.singleton_append, inside?.eq_3 _ _ (fun _ _ _ _ _ heq => absurd heq unslashed)
      (fun _ _ heq => absurd heq unslashed), if_neg unquoted,
      if_neg (not_or.mpr ⟨unslashed, Nat.not_lt.mpr printed⟩)]
  | letter plain stands =>
    rw [List.cons_append, List.singleton_append,
      inside?.eq_2 _ _ (fun _ _ _ _ _ heq => absurd heq plain), stands]
    rfl
  | control small =>
    have hunit := unit?_control _ small
    simp only [List.cons_append, List.nil_append]
    rw [inside?.eq_1, hunit]
    rfl

theorem text?_append (h : Spells c spelling) (rest : List Char) :
    text? (spelling ++ rest) = (text? rest).map (c :: ·) := by
  cases h with
  | bare unquoted unslashed printed =>
    exact text?.eq_3 _ _ (fun _ _ _ _ _ heq => absurd heq unslashed)
      (fun _ _ heq => absurd heq unslashed)
  | letter plain stands =>
    rw [List.cons_append, List.singleton_append,
      text?.eq_2 _ _ (fun _ _ _ _ _ heq => absurd heq plain), stands]
  | control small =>
    have hunit := unit?_control _ small
    have hhigh : isHighUnit c.toNat = false := by simp [isHighUnit]; omega
    have hlow : isLowUnit c.toNat = false := by simp [isLowUnit]; omega
    simp only [List.cons_append, List.nil_append]
    rw [text?.eq_1, hunit]
    simp [hhigh, hlow]

theorem lineFeed_not_mem (h : Spells c spelling) : '\n' ∉ spelling := by
  cases h with
  | bare unquoted unslashed printed =>
    rw [List.mem_singleton]
    rintro rfl
    exact absurd printed (by decide)
  | @letter d plain stands =>
    intro hmem
    obtain rfl : '\n' = d := by simpa using hmem
    cases stands
  | control small => exact lineFeed_not_mem_control _ small

end Spells

theorem inside?_quoted (text rest : List Char) :
    inside? (text.flatMap escaped ++ '"' :: rest) = some (text.flatMap escaped, rest) := by
  induction text with
  | nil => rfl
  | cons c more ih =>
    rw [List.flatMap_cons, List.append_assoc, (spells_escaped c).inside?_append, ih]
    rfl

theorem text?_quoted (text : List Char) : text? (text.flatMap escaped) = some text := by
  induction text with
  | nil => rfl
  | cons c more ih =>
    rw [List.flatMap_cons, (spells_escaped c).text?_append, ih]
    rfl

theorem lineFeed_not_mem_quoted (text : String) : '\n' ∉ quoted text := by
  have hinner : '\n' ∉ text.toList.flatMap escaped := by
    intro hmem
    obtain ⟨c, -, hmem⟩ := List.mem_flatMap.mp hmem
    exact (spells_escaped c).lineFeed_not_mem hmem
  simpa [quoted] using hinner

end SoloRun.Json
