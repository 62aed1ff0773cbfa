/-!
Numbers by their decimal digits.
-/

namespace SoloRun.Decimal

def digitValue (digit : Char) : Nat :=
  digit.toNat - '0'.toNat

def natOf (digits : List Char) : Nat :=
  digits.foldl (fun n digit => 10 * n + digitValue digit) 0

theorem natOf_concat (digits : List Char) (digit : Char) :
    natOf (digits ++ [digit]) = 10 * natOf digits + digitValue digit := by
  simp [natOf]

/-- The number, or the bound if it is greater: no more digits are kept than the bound has. -/
def natUpTo (bound : Nat) (digits : List Char) : Nat :=
  digits.foldl (fun n digit => min bound (10 * n + digitValue digit)) 0

theorem natUpTo_eq (bound : Nat) (digits : List Char) :
    natUpTo bound digits = min bound (natOf digits) := by
  suffices h : ∀ n, digits.foldl (fun n digit => min bound (10 * n + digitValue digit))
      (min bound n) = min bound (digits.foldl (fun n digit => 10 * n + digitValue digit) n) by
    simpa [natUpTo, natOf] using h 0
  induction digits with
  | nil => intro n; rfl
  | cons digit rest ih =>
    intro n
    rw [List.foldl_cons, List.foldl_cons, ← ih]
    congr 1
    omega

theorem natUpTo_lt_iff {bound : Nat} {digits : List Char} :
    natUpTo bound digits < bound ↔ natOf digits < bound := by
  rw [natUpTo_eq]
  omega

end SoloRun.Decimal
