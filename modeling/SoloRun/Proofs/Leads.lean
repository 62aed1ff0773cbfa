import SoloRun.FileTree.Change

/-!
Where the names of a path lead. A walk that ends at a directory passes through directories and links
alone, so it ends there too in any tree that keeps them, and a longer path goes on from there.
-/

namespace SoloRun

def Entry.isWay : Entry → Bool
  | .directory | .link _ => true
  | _ => false

namespace FileTree

def Plain (name : Bytes) : Prop :=
  name ≠ Path.dot ∧ name ≠ Path.dots

def KeepsWays (tree later : FileTree) : Prop :=
  ∀ place entry, entry.isWay = true → tree.find? place = some entry →
    later.find? place = some entry

/-- The names lead from one place to another through directories and at most so many links. -/
inductive Leads (tree : FileTree) : Nat → Place → List Bytes → Place → Prop where
  | stay {links here} : Leads tree links here [] here
  | dot {links here rest target} (next : Leads tree links here rest target) :
    Leads tree links here (Path.dot :: rest) target
  | up {links here rest target} (next : Leads tree links here.dropLast rest target) :
    Leads tree links here (Path.dots :: rest) target
  | down {links here name rest target} (plain : Plain name) (short : name.length ≤ maxName)
    (entry : tree.find? (here ++ [name]) = some .directory)
    (next : Leads tree links (here ++ [name]) rest target) :
    Leads tree links here (name :: rest) target
  | follow {links here name rest target} {path : Path} (plain : Plain name)
    (short : name.length ≤ maxName) (entry : tree.find? (here ++ [name]) = some (.link path))
    (nonempty : path.bytes ≠ [])
    (next : Leads tree links (if path.isAbsolute then [] else here) (path.names ++ rest) target) :
    Leads tree (links + 1) here (name :: rest) target

theorem KeepsWays.refl (tree : FileTree) : tree.KeepsWays tree :=
  fun _ _ _ h => h

theorem KeepsWays.trans {tree middle later : FileTree} (h₁ : tree.KeepsWays middle)
    (h₂ : middle.KeepsWays later) : tree.KeepsWays later :=
  fun place entry hway h => h₂ place entry hway (h₁ place entry hway h)

variable {tree later : FileTree} {links : Nat} {here target : Place} {names : List Bytes}

theorem Leads.keeps (h : tree.Leads links here names target) (hkeeps : tree.KeepsWays later) :
    later.Leads links here names target := by
  induction h with
  | stay => exact .stay
  | dot _ ih => exact .dot ih
  | up _ ih => exact .up ih
  | down plain short entry _ ih => exact .down plain short (hkeeps _ _ rfl entry) ih
  | follow plain short entry nonempty _ ih =>
    exact .follow plain short (hkeeps _ _ rfl entry) nonempty ih

section Step

variable {purpose : Purpose} {slashed : Bool} {name : Bytes} {rest : List Bytes}

theorem walk_dot : tree.walk purpose links slashed (tree.trail here) (Path.dot :: rest) =
    tree.walk purpose links slashed (tree.trail here) rest := by
  rw [walk_cons, if_pos rfl]

theorem walk_dots : tree.walk purpose links slashed (tree.trail here) (Path.dots :: rest) =
    tree.walk purpose links slashed (tree.trail here.dropLast) rest := by
  rw [walk_cons, if_neg (by decide), if_pos rfl]

variable (plain : Plain name) (short : name.length ≤ maxName)
include plain short

theorem walk_directory (hopen : ¬ (purpose = .write ∧ slashed ∧ rest = []))
    (entry : tree.find? (here ++ [name]) = some .directory) :
    tree.walk purpose links slashed (tree.trail here) (name :: rest) =
      tree.walk purpose links slashed (tree.trail (here ++ [name])) rest := by
  rw [walk_cons, if_neg plain.1, if_neg plain.2, if_neg hopen, if_neg (Nat.not_lt.mpr short), entry]

theorem walk_link {path : Path} (hopen : ¬ (purpose = .write ∧ slashed ∧ rest = []))
    (entry : tree.find? (here ++ [name]) = some (.link path)) (nonempty : path.bytes ≠ [])
    (hfollowed : ¬ (rest = [] ∧ purpose = .entry)) :
    tree.walk purpose (links + 1) slashed (tree.trail here) (name :: rest) =
      tree.walk purpose links (slashed || (rest.isEmpty && path.endsInSlash))
        (tree.trail (if path.isAbsolute then [] else here)) (path.names ++ rest) := by
  rw [walk_cons, if_neg plain.1, if_neg plain.2, if_neg hopen, if_neg (Nat.not_lt.mpr short), entry]
  simp [hfollowed, nonempty]

theorem walk_last_link {path : Path} (entry : tree.find? (here ++ [name]) = some (.link path)) :
    tree.walk .entry links slashed (tree.trail here) [name] =
      .ok (.taken (here ++ [name]) slashed) := by
  rw [walk_cons, if_neg plain.1, if_neg plain.2, if_neg (by simp), if_neg (Nat.not_lt.mpr short),
    entry]
  simp

end Step

theorem Leads.walk_target (h : tree.Leads links here names target) (slashed : Bool) :
    ∃ ends, tree.walk .target links slashed (tree.trail here) names = .ok (.taken target ends) := by
  induction h generalizing slashed with
  | stay => exact ⟨slashed, by rw [walk, place_trail]⟩
  | dot _ ih =>
    rw [walk_dot]
    exact ih slashed
  | up _ ih =>
    rw [walk_dots]
    exact ih slashed
  | down plain short entry _ ih =>
    rw [walk_directory plain short (by simp) entry]
    exact ih slashed
  | follow plain short entry nonempty _ ih =>
    rw [walk_link plain short (by simp) entry nonempty (by simp)]
    exact ih _

theorem Leads.walk_entry (h : tree.Leads links here names target) (slashed : Bool) :
    ∃ place ends, tree.walk .entry links slashed (tree.trail here) names =
      .ok (.taken place ends) := by
  induction h generalizing slashed with
  | stay => exact ⟨_, slashed, by rw [walk, place_trail]⟩
  | dot _ ih =>
    rw [walk_dot]
    exact ih slashed
  | up _ ih =>
    rw [walk_dots]
    exact ih slashed
  | down plain short entry _ ih =>
    rw [walk_directory plain short (by simp) entry]
    exact ih slashed
  | @follow _ _ _ rest _ _ plain short entry nonempty _ ih =>
    by_cases hlast : rest = []
    · subst hlast
      exact ⟨_, slashed, walk_last_link plain short entry⟩
    · rw [walk_link plain short (by simp) entry nonempty (by simp [hlast])]
      exact ih _

theorem Leads.walk_concat (h : tree.Leads links here names target) (purpose : Purpose)
    (slashed : Bool) (last : Bytes) :
    ∃ left, tree.walk purpose links slashed (tree.trail here) (names ++ [last]) =
      tree.walk purpose left slashed (tree.trail target) [last] := by
  induction h with
  | stay => exact ⟨_, rfl⟩
  | dot _ ih =>
    rw [List.cons_append, walk_dot]
    exact ih
  | up _ ih =>
    rw [List.cons_append, walk_dots]
    exact ih
  | down plain short entry _ ih =>
    rw [List.cons_append, walk_directory plain short (by simp) entry]
    exact ih
  | follow plain short entry nonempty _ ih =>
    rw [List.cons_append, walk_link plain short (by simp) entry nonempty (by simp)]
    rw [show (_ ++ [last] : List Bytes).isEmpty = false by simp, Bool.false_and, Bool.or_false,
      ← List.append_assoc]
    exact ih

end FileTree
end SoloRun
