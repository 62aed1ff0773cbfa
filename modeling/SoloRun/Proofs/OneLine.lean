import SoloRun.Command
import SoloRun.Listing
import SoloRun.Log
import SoloRun.Report
import SoloRun.Proofs.Names

/-!
Texts on one line: which they are, and that lines put one under the other can be told apart again.
What stands after the last mark of a list can be told from what stands before it.
-/

namespace SoloRun

section Lists

variable {α : Type} {mark : α}

variable [DecidableEq α]

theorem not_mem_takeWhile (xs : List α) : mark ∉ xs.takeWhile (· ≠ mark) := by
  intro hmem
  simpa using List.all_eq_true.mp (List.all_takeWhile (l := xs) (p := (· ≠ mark))) mark hmem

theorem not_mem_of_mem_cut {xs part : List α} (h : part ∈ cut mark xs) : mark ∉ part := by
  fun_induction cut mark xs with
  | case1 xs hdrop =>
    obtain rfl := List.mem_singleton.mp h
    have hwhole := List.takeWhile_append_dropWhile (p := (· ≠ mark)) (l := part)
    rw [hdrop, List.append_nil] at hwhole
    exact hwhole ▸ not_mem_takeWhile part
  | case2 xs first rest hdrop ih =>
    rcases List.mem_cons.mp h with rfl | hmem
    · exact not_mem_takeWhile xs
    · exact ih hmem

end Lists

def OneLine (text : String) : Prop :=
  '\n' ∉ text.toList

instance (text : String) : Decidable (OneLine text) :=
  inferInstanceAs (Decidable (_ ∉ _))

theorem OneLine.append {first second : String} (h₁ : OneLine first) (h₂ : OneLine second) :
    OneLine (first ++ second) := by
  rw [OneLine, String.toList_append, List.mem_append]
  exact not_or.mpr ⟨h₁, h₂⟩

theorem isDigit_of_mem_toString {n : Nat} {c : Char} (h : c ∈ (toString n).toList) :
    c.isDigit = true := by
  rw [Nat.toString_eq_ofList_toDigits, String.toList_ofList] at h
  exact Nat.isDigit_of_mem_toDigits (by decide) (by decide) h

theorem mem_toString_integer {n : Int} {c : Char} (h : c ∈ (toString n).toList) :
    c.isDigit = true ∨ c = '-' := by
  rw [Int.toString_eq_repr, Int.repr_eq_if] at h
  split at h
  · exact .inl (isDigit_of_mem_toString h)
  · rcases List.mem_append.mp (String.toList_append ▸ h) with hsign | hdigit
    · exact .inr (List.mem_singleton.mp hsign)
    · exact .inl (isDigit_of_mem_toString hdigit)

theorem oneLine_natural (n : Nat) : OneLine (toString n) := fun h =>
  absurd (isDigit_of_mem_toString h) (by decide)

theorem oneLine_integer (n : Int) : OneLine (toString n) := fun h =>
  absurd (mem_toString_integer h) (by decide)

theorem Double.mem_places {count n : Nat} {c : Char} (h : c ∈ (places count n).toList) :
    c.isDigit = true ∨ c = '.' := by
  simp only [places, String.toList_append, String.toList_ofList, List.mem_append,
    List.mem_replicate] at h
  rcases h with ((hwhole | hpoint) | ⟨-, rfl⟩) | hlow
  · exact .inl (isDigit_of_mem_toString hwhole)
  · exact .inr (List.mem_singleton.mp hpoint)
  · exact .inl rfl
  · exact .inl (isDigit_of_mem_toString hlow)

theorem Duration.mem_fixed {duration : Duration} {count : Nat} {c : Char}
    (h : c ∈ (duration.seconds.fixed count).toList) : c.isDigit = true ∨ c = '.' := by
  rw [seconds, Double.fixed, if_neg Bool.false_ne_true, String.toList_append] at h
  rcases List.mem_append.mp h with hsign | hplaces
  · cases hsign
  · exact Double.mem_places hplaces

theorem Duration.oneLine_fixed (duration : Duration) (count : Nat) :
    OneLine (duration.seconds.fixed count) := fun h =>
  absurd (mem_fixed h) (by decide)

theorem Lines.sublist_dropReturn (line : List Char) : (dropReturn line).Sublist line := by
  rw [dropReturn]
  split
  · exact List.dropLast_sublist line
  · exact .refl line

theorem Lines.mem_ofParts {parts : List (List Char)} {line : List Char} (h : line ∈ ofParts parts) :
    ∃ part ∈ parts, line.Sublist part := by
  fun_induction ofParts parts with
  | case1 => cases h
  | case2 rest hempty => cases h
  | case3 rest hne => exact ⟨line, h, .refl line⟩
  | case4 first more hmore ih =>
    rcases List.mem_cons.mp h with rfl | hmem
    · exact ⟨first, List.mem_cons_self, sublist_dropReturn first⟩
    · obtain ⟨part, hpart, hsub⟩ := ih hmem
      exact ⟨part, List.mem_cons_of_mem first hpart, hsub⟩

theorem Blank.trim_sublist (text : List Char) : (trim text).Sublist text := by
  have hstart (text : List Char) : (trimStart text).Sublist text := List.dropWhile_sublist _
  have hend : (trimEnd (trimStart text)).Sublist (trimStart text) := by
    have hback := (hstart (trimStart text).reverse).reverse
    rwa [List.reverse_reverse] at hback
  exact hend.trans (hstart text)

theorem Listing.oneLine_names {output name : String} (h : name ∈ names output) : OneLine name := by
  obtain ⟨line, hline, hname⟩ := List.mem_filterMap.mp h
  obtain ⟨part, hpart, hsub⟩ := Lines.mem_ofParts hline
  rw [nameOf?] at hname
  split at hname
  · obtain rfl := Option.some.inj hname
    intro hmem
    rw [String.toList_ofList] at hmem
    have hmem := (Blank.trim_sublist line).subset (List.mem_of_mem_take hmem)
    exact not_mem_of_mem_cut hpart (hsub.subset hmem)
  · cases hname

namespace Report

end Report
end SoloRun
