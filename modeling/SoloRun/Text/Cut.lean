/-!
A list cut at each mark, and parts joined with a mark between them. Joining undoes cutting.
-/

namespace SoloRun

variable {α : Type} [DecidableEq α]

def cut (mark : α) (xs : List α) : List (List α) :=
  match _h : xs.dropWhile (· ≠ mark) with
  | [] => [xs]
  | _ :: rest => xs.takeWhile (· ≠ mark) :: cut mark rest
termination_by xs.length
decreasing_by
  have := (List.dropWhile_sublist (l := xs) (· ≠ mark)).length_le
  rw [_h] at this
  simp at this
  omega

def joined (mark : α) : List (List α) → List α
  | [] => []
  | [part] => part
  | part :: more => part ++ mark :: joined mark more

theorem cut_ne_nil (mark : α) (xs : List α) : cut mark xs ≠ [] := by
  unfold cut; split <;> simp

omit [DecidableEq α] in
theorem joined_cons {mark : α} {part : List α} {more : List (List α)} (h : more ≠ []) :
    joined mark (part :: more) = part ++ mark :: joined mark more := by
  cases more with
  | nil => exact absurd rfl h
  | cons => rfl

theorem head_dropWhile_ne {mark x : α} {xs rest : List α}
    (h : xs.dropWhile (· ≠ mark) = x :: rest) : x = mark := by
  have := List.head?_dropWhile_not (fun y => decide (y ≠ mark)) xs
  rw [h] at this
  simpa using this

theorem joined_cut (mark : α) (xs : List α) : joined mark (cut mark xs) = xs := by
  fun_induction cut mark xs with
  | case1 xs h => rfl
  | case2 xs x rest h ih =>
    obtain rfl := head_dropWhile_ne h
    rw [joined_cons (cut_ne_nil _ _), ih, ← h]
    exact List.takeWhile_append_dropWhile

end SoloRun
