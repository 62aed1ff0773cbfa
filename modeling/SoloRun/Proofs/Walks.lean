import SoloRun.Proofs.Leads

/-!
Where a walk that came to its end has led, and so when a path leads to a directory.
-/

namespace SoloRun

section Except

variable {ε ε' α : Type} (f : ε → ε')

@[simp] theorem mapError_ok (value : α) :
    (Except.ok value : Except ε α).mapError f = .ok value := rfl

@[simp] theorem mapError_error (error : ε) :
    (Except.error error : Except ε α).mapError f = .error (f error) := rfl

end Except

namespace FileTree

variable {tree later : FileTree} {links : Nat} {here target : Place} {names : List Bytes}

def Spot.place : Spot → Place
  | .taken place _ => place
  | .free dir name _ => dir ++ [name]

/-- The names lead to a spot, the last of them perhaps to no directory. -/
inductive Walks (tree : FileTree) (spot : Spot) : Nat → Place → List Bytes → Prop where
  | stay {links ends here} (taken : spot = .taken here ends) : Walks tree spot links here []
  | dot {links here rest} (next : Walks tree spot links here rest) :
    Walks tree spot links here (Path.dot :: rest)
  | up {links here rest} (next : Walks tree spot links here.dropLast rest) :
    Walks tree spot links here (Path.dots :: rest)
  | last {links here name} (plain : Plain name) (short : name.length ≤ maxName)
    (place : spot.place = here ++ [name])
    (free : ∀ dir last ends, spot = .free dir last ends → tree.find? (dir ++ [last]) = none) :
    Walks tree spot links here [name]
  | down {links here name rest} (plain : Plain name) (short : name.length ≤ maxName)
    (entry : tree.find? (here ++ [name]) = some .directory)
    (next : Walks tree spot links (here ++ [name]) rest) :
    Walks tree spot links here (name :: rest)
  | follow {links here name rest} {path : Path} (plain : Plain name)
    (short : name.length ≤ maxName) (entry : tree.find? (here ++ [name]) = some (.link path))
    (nonempty : path.bytes ≠ [])
    (next : Walks tree spot links (if path.isAbsolute then [] else here) (path.names ++ rest)) :
    Walks tree spot (links + 1) here (name :: rest)

section Walks

variable {purpose : Purpose} {slashed : Bool} {spot : Spot}

theorem Walks.last_taken {name : Bytes} {ends : Bool} (plain : Plain name)
    (short : name.length ≤ maxName) :
    tree.Walks (.taken (here ++ [name]) ends) links here [name] := by
  apply Walks.last plain short rfl
  intro dir last ends heq
  cases heq

theorem Walks.last_free {name : Bytes} {ends : Bool} (plain : Plain name)
    (short : name.length ≤ maxName) (entry : tree.find? (here ++ [name]) = none) :
    tree.Walks (.free here name ends) links here [name] := by
  apply Walks.last plain short rfl
  intro dir last ends heq
  cases heq
  exact entry

theorem walks_of_walk_of_follow
    (hfollow : ∀ left, links = left + 1 → ∀ slashed here names,
      tree.walk purpose left slashed (tree.trail here) names = .ok spot →
        tree.Walks spot left here names)
    (h : tree.walk purpose links slashed (tree.trail here) names = .ok spot) :
    tree.Walks spot links here names := by
  induction names generalizing here with
  | nil =>
    rw [walk, place_trail] at h
    cases h
    exact .stay rfl
  | cons name rest ih =>
    rw [walk_cons] at h
    split at h
    · next hdot => exact hdot ▸ .dot (ih h)
    split at h
    · next hdots => exact hdots ▸ .up (ih h)
    split at h
    · cases h
    split at h
    · cases h
    rename_i hdot hdots _ hshort
    have plain : Plain name := ⟨hdot, hdots⟩
    have short : name.length ≤ maxName := Nat.not_lt.mp hshort
    split at h
    · next hentry =>
      split at h
      · next hlast =>
        cases h
        obtain rfl := List.isEmpty_iff.mp hlast
        exact .last_free plain short hentry
      · cases h
    · next hentry => exact .down plain short hentry (ih h)
    · next path hentry =>
      split at h
      · next hlast =>
        cases h
        obtain rfl := hlast.1
        exact .last_taken plain short
      split at h
      · cases h
      split at h
      · cases h
      · next nonempty => exact .follow plain short hentry nonempty (hfollow _ rfl _ _ _ h)
    · split at h
      · next hlast =>
        cases h
        obtain rfl := List.isEmpty_iff.mp hlast
        exact .last_taken plain short
      · cases h

theorem walks_of_walk (h : tree.walk purpose links slashed (tree.trail here) names = .ok spot) :
    tree.Walks spot links here names := by
  -- a link can bring in any names, so the links left come first and the names within them
  induction links generalizing here names slashed with
  | zero =>
    apply walks_of_walk_of_follow _ h
    intro left heq
    cases heq
  | succ n ih =>
    apply walks_of_walk_of_follow _ h
    intro left heq slashed here names hleft
    cases heq
    exact ih hleft

theorem Walks.leads (h : tree.Walks spot links here names) (hkeeps : tree.KeepsWays later)
    (hmade : later.find? spot.place = some .directory) :
    later.Leads links here names spot.place := by
  induction h with
  | stay taken => exact taken ▸ .stay
  | dot _ ih => exact .dot ih
  | up _ ih => exact .up ih
  | last plain short place _ =>
    rw [place] at hmade ⊢
    exact .down plain short hmade .stay
  | down plain short entry _ ih => exact .down plain short (hkeeps _ _ rfl entry) ih
  | follow plain short entry nonempty _ ih =>
    exact .follow plain short (hkeeps _ _ rfl entry) nonempty ih

theorem Walks.find?_free {dir : Place} {last : Bytes} {ends : Bool}
    (h : tree.Walks (.free dir last ends) links here names) :
    tree.find? (dir ++ [last]) = none := by
  induction h with
  | stay taken => cases taken
  | last _ _ _ free => exact free _ _ _ rfl
  | dot _ ih | up _ ih | down _ _ _ _ ih | follow _ _ _ _ _ ih => exact ih

end Walks

def start (cwd : Place) (path : Path) : Place :=
  if path.isAbsolute then [] else cwd

theorem spot_eq (tree : FileTree) (cwd : Place) (purpose : Purpose) (path : Path) :
    tree.spot cwd purpose path =
      if path.bytes = [] then .error .noEntry
      else if maxPath ≤ path.bytes.length then .error .nameTooLong
      else
        tree.walk purpose maxLinks path.endsInSlash (tree.trail (start cwd path)) path.names := by
  rw [spot, start, apply_ite tree.trail]
  rfl

theorem walks_of_spot {cwd : Place} {purpose : Purpose} {path : Path} {spot : Spot}
    (h : tree.spot cwd purpose path = .ok spot) :
    path.bytes ≠ [] ∧ path.bytes.length < maxPath ∧
      tree.Walks spot maxLinks (start cwd path) path.names := by
  rw [spot_eq] at h
  split at h
  · cases h
  split at h
  · cases h
  · next hnonempty hshort => exact ⟨hnonempty, Nat.not_le.mp hshort, walks_of_walk h⟩

theorem directory_eq_ok_iff {cwd : Place} {path : Path} :
    tree.directory cwd path = .ok target ↔
      path.bytes ≠ [] ∧ path.bytes.length < maxPath ∧
        tree.Leads maxLinks (start cwd path) path.names target ∧
        tree.find? target = some .directory := by
  constructor
  · intro h
    cases hspot : tree.spot cwd .target path with
    | error error => simp [directory, hspot, bind, Except.bind] at h
    | ok spot =>
      obtain ⟨hnonempty, hshort, hwalks⟩ := walks_of_spot hspot
      cases spot with
      | free dir name ends => simp [directory, hspot, bind, Except.bind] at h
      | taken place ends =>
        simp only [directory, hspot, bind, Except.bind] at h
        split at h
        · next hentry =>
          cases h
          exact ⟨hnonempty, hshort, hwalks.leads (.refl tree) hentry, hentry⟩
        · cases h
        · cases h
  · rintro ⟨hnonempty, hshort, hleads, hentry⟩
    obtain ⟨ends, hwalk⟩ := hleads.walk_target path.endsInSlash
    have hspot : tree.spot cwd .target path = .ok (.taken target ends) := by
      rw [spot_eq, if_neg hnonempty, if_neg (Nat.not_le.mpr hshort), hwalk]
    simp [directory, hspot, hentry, bind, Except.bind]

theorem directory_keeps {cwd : Place} {path : Path} (hkeeps : tree.KeepsWays later)
    (h : tree.directory cwd path = .ok target) : later.directory cwd path = .ok target := by
  obtain ⟨hnonempty, hshort, hleads, hentry⟩ := directory_eq_ok_iff.mp h
  exact directory_eq_ok_iff.mpr
    ⟨hnonempty, hshort, hleads.keeps hkeeps, hkeeps _ _ rfl hentry⟩

end FileTree
end SoloRun
