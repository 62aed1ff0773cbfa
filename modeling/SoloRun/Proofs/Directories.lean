import SoloRun.Proofs.Walks

/-!
Making directories adds directories at free places and nothing else. If it succeeds, the path leads
to a directory, and to make it again changes nothing.
-/

namespace SoloRun
namespace FileTree

def Grows (tree later : FileTree) : Prop :=
  ∀ place, later.find? place = tree.find? place ∨
    tree.find? place = none ∧ later.find? place = some .directory

variable {tree later : FileTree}

theorem Grows.refl (tree : FileTree) : tree.Grows tree :=
  fun _ => .inl rfl

theorem Grows.trans {middle : FileTree} (h₁ : tree.Grows middle) (h₂ : middle.Grows later) :
    tree.Grows later := by
  intro place
  rcases h₁ place with hfirst | ⟨hnone, hfirst⟩ <;> rcases h₂ place with hsecond | ⟨hfree, hsecond⟩
  · exact .inl (hsecond.trans hfirst)
  · exact .inr ⟨hfirst ▸ hfree, hsecond⟩
  · exact .inr ⟨hnone, hsecond.trans hfirst⟩
  · rw [hfree] at hfirst
    cases hfirst

theorem Grows.keeps {place : Place} {entry : Entry} (h : tree.Grows later)
    (hentry : tree.find? place = some entry) : later.find? place = some entry := by
  rcases h place with heq | ⟨hnone, -⟩
  · exact heq.trans hentry
  · rw [hnone] at hentry
    cases hentry

theorem Grows.keepsWays (h : tree.Grows later) : tree.KeepsWays later :=
  fun _ _ _ => h.keeps

theorem insert_grows {place : Place} (hfree : tree.find? place = none) :
    tree.Grows (tree.insert place .directory) := by
  have hplace : place ≠ [] := by
    rintro rfl
    simp [find?] at hfree
  intro other
  rw [find?_insert tree hplace]
  split
  · next heq => exact .inr ⟨heq ▸ hfree, rfl⟩
  · exact .inl rfl

variable {cwd : Place} {path : Path}

theorem spot?_eq_ok_iff {purpose : Purpose} {spot : Spot} :
    tree.spot? cwd purpose path = .ok spot ↔
      path.hasNul = false ∧ tree.spot cwd purpose path = .ok spot := by
  rw [spot?]
  cases path.hasNul <;> cases tree.spot cwd purpose path <;> simp

/-- What is written to a name in the directory goes to that name in the place. -/
def Hosts (tree : FileTree) (cwd : Place) (dir : Path) (place : Place) : Prop :=
  dir.bytes = [] ∧ place = cwd ∨ dir.hasNul = false ∧ tree.directory cwd dir = .ok place

theorem Hosts.keeps {place : Place} (h : tree.Hosts cwd path place)
    (hkeeps : tree.KeepsWays later) : later.Hosts cwd path place :=
  h.imp_right fun ⟨hnul, hdir⟩ => ⟨hnul, directory_keeps hkeeps hdir⟩

theorem Hosts.unique {place other : Place} (h : tree.Hosts cwd path place)
    (hother : tree.Hosts cwd path other) : place = other := by
  rcases h with ⟨hempty, rfl⟩ | ⟨-, hdir⟩ <;> rcases hother with ⟨hempty', rfl⟩ | ⟨-, hdir'⟩
  · rfl
  · exact absurd hempty (directory_eq_ok_iff.mp hdir').1
  · exact absurd hempty' (directory_eq_ok_iff.mp hdir).1
  · rw [hdir] at hdir'
    exact Except.ok.inj hdir'

theorem makeDirectory_ok {after : FileTree} (h : tree.makeDirectory cwd path = .ok after) :
    tree.Grows after ∧ ∃ place, after.Hosts cwd path place := by
  cases hspot : tree.spot? cwd .entry path with
  | error error => simp [makeDirectory, hspot, bind, Except.bind] at h
  | ok spot =>
    cases spot with
    | taken place ends => simp [makeDirectory, hspot, bind, Except.bind] at h
    | free dir name ends =>
      obtain rfl : tree.insert (dir ++ [name]) .directory = after := by
        simpa [makeDirectory, hspot, bind, Except.bind] using h
      obtain ⟨hnul, hspot⟩ := spot?_eq_ok_iff.mp hspot
      obtain ⟨hnonempty, hshort, hwalks⟩ := walks_of_spot hspot
      have hgrows := insert_grows hwalks.find?_free
      have hmade : (tree.insert (dir ++ [name]) .directory).find? (dir ++ [name]) =
          some .directory := by
        rw [find?_insert tree (by simp), if_pos rfl]
      exact ⟨hgrows, dir ++ [name], .inr ⟨hnul, directory_eq_ok_iff.mpr
        ⟨hnonempty, hshort, hwalks.leads hgrows.keepsWays hmade, hmade⟩⟩⟩

theorem unlessDirectory_ok {error : FileError}
    (h : (tree.unlessDirectory cwd path error).2 = .ok ()) :
    ∃ place, tree.Hosts cwd path place := by
  rw [unlessDirectory, isDirectory] at h
  cases hdir : tree.directory cwd path with
  | ok place => exact ⟨place, .inr ⟨by simpa [hdir, Except.toBool] using h, hdir⟩⟩
  | error other => simp [hdir, Except.toBool] at h

theorem settleDirectory_spec {after : FileTree} {result : Except FileError Unit}
    (h : tree.settleDirectory cwd path = (after, result)) :
    tree.Grows after ∧ (result = .ok () → ∃ place, after.Hosts cwd path place) := by
  rw [settleDirectory] at h
  split at h
  · next made hmade =>
    cases h
    exact ⟨(makeDirectory_ok hmade).1, fun _ => (makeDirectory_ok hmade).2⟩
  · obtain ⟨rfl, rfl⟩ := Prod.mk.inj h
    exact ⟨.refl tree, unlessDirectory_ok⟩

theorem climbDirectories_spec {paths : List Path} {after : FileTree}
    {result : Except FileError Unit} (h : tree.climbDirectories cwd paths = (after, result)) :
    tree.Grows after ∧ ∀ path above, paths = path :: above → result = .ok () →
      ∃ place, after.Hosts cwd path place := by
  induction paths generalizing after result with
  | nil =>
    cases h
    refine ⟨.refl tree, ?_⟩
    intro path above heq
    cases heq
  | cons path above ih =>
    rw [climbDirectories] at h
    split at h
    · next hempty =>
      cases h
      refine ⟨.refl tree, ?_⟩
      rintro _ _ ⟨⟩ -
      exact ⟨cwd, .inl ⟨hempty, rfl⟩⟩
    split at h
    · next made hmade =>
      cases h
      refine ⟨(makeDirectory_ok hmade).1, ?_⟩
      rintro _ _ ⟨⟩ -
      exact (makeDirectory_ok hmade).2
    · split at h
      · next made hmade =>
        obtain ⟨hgrows, hsettled⟩ := settleDirectory_spec h
        refine ⟨(ih hmade).1.trans hgrows, ?_⟩
        rintro _ _ ⟨⟩ hok
        exact hsettled hok
      · next made error hmade =>
        cases h
        refine ⟨(ih hmade).1, ?_⟩
        intro path above _ hok
        cases hok
    · obtain ⟨rfl, rfl⟩ := Prod.mk.inj h
      refine ⟨.refl tree, ?_⟩
      rintro _ _ ⟨⟩ hok
      exact unlessDirectory_ok hok

theorem ancestors_eq_cons (path : Path) : ∃ above, path.ancestors = path :: above := by
  rw [Path.ancestors]
  cases path.bytes.length with
  | zero => exact ⟨[], rfl⟩
  | succ n =>
    rw [Path.climb]
    split <;> exact ⟨_, rfl⟩

theorem makeDirectories_grows (tree : FileTree) (cwd : Place) (path : Path) :
    tree.Grows (tree.makeDirectories cwd path).1 :=
  (climbDirectories_spec rfl).1

theorem makeDirectories_ok (h : (tree.makeDirectories cwd path).2 = .ok ()) :
    ∃ place, (tree.makeDirectories cwd path).1.Hosts cwd path place := by
  obtain ⟨above, habove⟩ := ancestors_eq_cons path
  exact (climbDirectories_spec rfl).2 path above habove h

theorem makeDirectories_of_hosts {place : Place} (h : tree.Hosts cwd path place) :
    tree.makeDirectories cwd path = (tree, .ok ()) := by
  obtain ⟨above, habove⟩ := ancestors_eq_cons path
  rw [makeDirectories, habove, climbDirectories]
  rcases h with ⟨hempty, -⟩ | ⟨hnul, hdir⟩
  · rw [if_pos hempty]
  · obtain ⟨hnonempty, hshort, hleads, hentry⟩ := directory_eq_ok_iff.mp hdir
    obtain ⟨taken, ends, hwalk⟩ := hleads.walk_entry path.endsInSlash
    have hspot : tree.spot? cwd .entry path = .ok (.taken taken ends) := by
      rw [spot?_eq_ok_iff, spot_eq, if_neg hnonempty, if_neg (Nat.not_le.mpr hshort)]
      exact ⟨hnul, hwalk⟩
    have hmake : tree.makeDirectory cwd path = .error (.os .exists) := by
      simp [makeDirectory, hspot, bind, Except.bind]
    rw [if_neg hnonempty, hmake]
    simp [unlessDirectory, isDirectory, hnul, hdir, Except.toBool]

end FileTree
end SoloRun
