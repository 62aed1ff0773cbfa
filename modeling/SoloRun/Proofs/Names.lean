import SoloRun.Log

/-!
The names of a path to a log: those of the directory, and then that of the log's own file.
-/

namespace SoloRun

section Cut

variable {α : Type} [DecidableEq α] {mark : α}

theorem cut_nil : cut mark [] = [[]] := by
  rw [cut]
  rfl

theorem cut_mark_cons (xs : List α) : cut mark (mark :: xs) = [] :: cut mark xs := by
  have hdrop : (mark :: xs).dropWhile (· ≠ mark) = mark :: xs := by simp
  have htake : (mark :: xs).takeWhile (· ≠ mark) = [] := by simp
  rw [cut]
  split
  · next hnil => exact absurd (hdrop.symm.trans hnil) (List.cons_ne_nil mark xs)
  · next hrest =>
    obtain ⟨-, rfl⟩ := List.cons.inj (hdrop.symm.trans hrest)
    rw [htake]

theorem cut_cons_of_ne {x : α} (h : x ≠ mark) (xs : List α) :
    cut mark (x :: xs) = (cut mark xs).modifyHead (x :: ·) := by
  have hdrop : (x :: xs).dropWhile (· ≠ mark) = xs.dropWhile (· ≠ mark) := by simp [h]
  have htake : (x :: xs).takeWhile (· ≠ mark) = x :: xs.takeWhile (· ≠ mark) := by simp [h]
  rw [cut, cut.eq_def mark xs]
  split
  · next hnil =>
    split
    · rfl
    · next hrest => exact absurd (hrest.symm.trans (hdrop.symm.trans hnil)) (List.cons_ne_nil _ _)
  · next hrest =>
    have hrest := hdrop.symm.trans hrest
    split
    · next hnil => exact absurd (hrest.symm.trans hnil) (List.cons_ne_nil _ _)
    · next hother =>
      obtain ⟨-, rfl⟩ := List.cons.inj (hrest.symm.trans hother)
      rw [htake]
      rfl

theorem cut_append (xs ys : List α) : cut mark (xs ++ mark :: ys) = cut mark xs ++ cut mark ys := by
  induction xs with
  | nil => simp [cut_nil, cut_mark_cons]
  | cons x rest ih =>
    by_cases h : x = mark
    · simp [h, cut_mark_cons, ih]
    · rw [List.cons_append, cut_cons_of_ne h, cut_cons_of_ne h, ih]
      cases hcut : cut mark rest with
      | nil => exact absurd hcut (cut_ne_nil mark rest)
      | cons first more => rfl

theorem cut_of_not_mem {xs : List α} (h : mark ∉ xs) : cut mark xs = [xs] := by
  induction xs with
  | nil => exact cut_nil
  | cons x rest ih =>
    have hne : x ≠ mark := fun heq => h (heq ▸ List.mem_cons_self)
    rw [cut_cons_of_ne hne, ih fun hmem => h (List.mem_cons_of_mem x hmem)]
    rfl

end Cut

namespace Utf8

theorem ofNat_of_mem_utf8EncodeChar {c : Char} {b : UInt8} (h : b ∈ String.utf8EncodeChar c)
    (hb : b < 0x80) : Char.ofNat b.toNat = c := by
  have hlow : b.toNat < 0x80 := UInt8.lt_iff_toNat_lt.1 hb
  simp only [String.utf8EncodeChar] at h
  split at h
  · rw [List.mem_singleton.mp h, UInt8.toNat_ofNat', Nat.mod_eq_of_lt (by omega)]
    exact Char.ofNat_toNat c
  · -- every byte of a longer encoding is at least 0x80
    repeat' split at h
    all_goals
      simp only [List.mem_cons, List.not_mem_nil, or_false] at h
      repeat' obtain rfl | h := h
      all_goals
        rw [UInt8.toNat_ofNat'] at hlow
        omega

theorem mem_of_mem_encode {s : String} {b : UInt8} (h : b ∈ encode s) (hb : b < 0x80) :
    Char.ofNat b.toNat ∈ s.toList := by
  obtain ⟨c, hc, hmem⟩ := List.mem_flatMap.mp h
  exact ofNat_of_mem_utf8EncodeChar hmem hb ▸ hc

end Utf8

namespace Path

/-- A file name as it stands in a path: there is something in it and no slash. -/
def IsName (file : Bytes) : Prop :=
  file ≠ [] ∧ slash ∉ file

variable {file : Bytes} (dir : Path)

theorem IsName.head?_ne (h : IsName file) : file.head? ≠ some slash := by
  intro hhead
  exact h.2 (List.mem_of_head? hhead)

theorem IsName.getLast?_ne (h : IsName file) : file.getLast? ≠ some slash := by
  intro hlast
  exact h.2 (List.mem_of_getLast? hlast)

theorem IsName.isAbsolute_eq_false (h : IsName file) : (Path.mk file).isAbsolute = false := by
  simpa [isAbsolute] using h.head?_ne

theorem bytes_join (h : IsName file) : ∃ before, (dir.join ⟨file⟩).bytes = before ++ file ∧
    (dir.bytes = [] ∧ before = [] ∨ ∃ start, before = start ++ [slash] ∧
      (dir.bytes = start ∧ dir.bytes ≠ [] ∨ dir.bytes = start ++ [slash])) := by
  rw [join]
  rw [h.isAbsolute_eq_false, if_neg Bool.false_ne_true]
  split
  · next hdir =>
    refine ⟨dir.bytes, rfl, ?_⟩
    rcases hdir with hempty | hends
    · exact .inl ⟨hempty, hempty⟩
    · obtain ⟨start, hstart⟩ := List.getLast?_eq_some_iff.mp (by simpa [endsInSlash] using hends)
      exact .inr ⟨start, hstart, .inr hstart⟩
  · next hdir =>
    refine ⟨dir.bytes ++ [slash], by simp, .inr ⟨dir.bytes, rfl, .inl ⟨rfl, ?_⟩⟩⟩
    exact fun hempty => hdir (.inl hempty)

theorem names_join (h : IsName file) : (dir.join ⟨file⟩).names = dir.names ++ [file] := by
  have hfile : (cut slash file).filter (· ≠ []) = [file] := by simp [cut_of_not_mem h.2, h.1]
  obtain ⟨before, hbytes, ⟨hempty, rfl⟩ | ⟨start, rfl, ⟨hdir, -⟩ | hdir⟩⟩ := bytes_join dir h
  · rw [names, names, hbytes, hempty, List.nil_append, hfile]
    simp [cut_nil]
  · rw [names, names, hbytes, List.append_assoc, List.singleton_append, cut_append,
      List.filter_append, hfile, hdir]
  · rw [names, names, hbytes, hdir, List.append_assoc, List.singleton_append, cut_append,
      List.filter_append, hfile, cut_append]
    simp [cut_nil]

theorem isAbsolute_join (h : IsName file) : (dir.join ⟨file⟩).isAbsolute = dir.isAbsolute := by
  obtain ⟨before, hbytes, ⟨hempty, rfl⟩ | ⟨start, rfl, ⟨rfl, hne⟩ | hdir⟩⟩ := bytes_join dir h
  · simpa [isAbsolute, hbytes, hempty] using h.head?_ne
  · obtain ⟨first, rest, hdir⟩ := List.exists_cons_of_ne_nil hne
    simp [isAbsolute, hbytes, hdir]
  · simp [isAbsolute, hbytes, hdir]

theorem endsInSlash_join (h : IsName file) : (dir.join ⟨file⟩).endsInSlash = false := by
  obtain ⟨before, hbytes, -⟩ := bytes_join dir h
  obtain ⟨start, last, hfile⟩ := List.eq_nil_or_concat file |>.resolve_left h.1
  rw [List.concat_eq_append] at hfile
  subst hfile
  have hlast := h.getLast?_ne
  rw [List.getLast?_concat] at hlast
  simpa [endsInSlash, hbytes, ← List.append_assoc] using hlast

end Path
end SoloRun
