import SoloRun.Path

/-!
Maps from places, as branches by name: a step down looks at one name only. A place is the list of
names from the root; no links and no dots are left in it. The root itself has no value.
-/

namespace SoloRun

abbrev Place := List Bytes

inductive PlaceMap (α : Type) where
  | empty
  /-- A name with its value, if it has one, the names under it and the names beside it. -/
  | branch (name : Bytes) (value? : Option α) (under beside : PlaceMap α)
  deriving DecidableEq, Repr

namespace PlaceMap

variable {α : Type}

/-- The value of a name, and what lies under it. -/
def child (name : Bytes) : PlaceMap α → Option α × PlaceMap α
  | .empty => (none, .empty)
  | .branch n value? under beside =>
    if n = name then (value?, under) else child name beside

/-- Changes the value of a name and what lies under it. -/
def change (name : Bytes) (f : Option α × PlaceMap α → Option α × PlaceMap α) :
    PlaceMap α → PlaceMap α
  | .empty => .branch name (f (none, .empty)).1 (f (none, .empty)).2 .empty
  | .branch n value? under beside =>
    if n = name then .branch n (f (value?, under)).1 (f (value?, under)).2 beside
    else .branch n value? under (change name f beside)

def drop (name : Bytes) : PlaceMap α → PlaceMap α
  | .empty => .empty
  | .branch n value? under beside =>
    if n = name then drop name beside else .branch n value? under (drop name beside)

def get? (map : PlaceMap α) : Place → Option α
  | [] => none
  | [name] => (map.child name).1
  | name :: rest => (map.child name).2.get? rest

/-- What lies under a place. -/
def under (map : PlaceMap α) : Place → PlaceMap α
  | [] => map
  | name :: rest => (map.child name).2.under rest

def insert (map : PlaceMap α) : Place → α → PlaceMap α
  | [], _ => map
  | [name], value => map.change name fun old => (some value, old.2)
  | name :: rest, value => map.change name fun old => (old.1, old.2.insert rest value)

/-- Removes a place and everything under it. -/
def erase (map : PlaceMap α) : Place → PlaceMap α
  | [] => .empty
  | [name] => map.drop name
  | name :: rest => map.change name fun old => (old.1, old.2.erase rest)

/-- Removes everything under a place. -/
def clear (map : PlaceMap α) : Place → PlaceMap α
  | [] => .empty
  | name :: rest => map.change name fun old => (old.1, old.2.clear rest)

/-- The places under `here` that have a value. -/
def listed (here : Place) : PlaceMap α → List (Place × α)
  | .empty => []
  | .branch name value? under beside =>
    (value?.map (here ++ [name], ·)).toList ++ listed (here ++ [name]) under ++
      listed here beside

def toList (map : PlaceMap α) : List (Place × α) :=
  map.listed []

def ofList (pairs : List (Place × α)) : PlaceMap α :=
  pairs.foldl (fun map (place, value) => map.insert place value) .empty

theorem child_change (name q : Bytes) (f : Option α × PlaceMap α → Option α × PlaceMap α)
    (map : PlaceMap α) :
    (map.change name f).child q = if q = name then f (map.child name) else map.child q := by
  induction map with
  | empty => by_cases h : q = name <;> grind [change, child]
  | branch n value? under beside _ ih =>
    by_cases hn : n = name <;> by_cases hq : n = q <;> grind [change, child]

theorem child_drop (name q : Bytes) (map : PlaceMap α) :
    (map.drop name).child q = if q = name then (none, .empty) else map.child q := by
  induction map with
  | empty => simp [drop, child]
  | branch n value? under beside _ ih =>
    by_cases hn : n = name <;> by_cases hq : n = q <;> grind [drop, child]

theorem get?_cons (map : PlaceMap α) (name : Bytes) (rest : Place) :
    map.get? (name :: rest) =
      if rest = [] then (map.child name).1 else (map.child name).2.get? rest := by
  cases rest <;> simp [get?]

theorem get?_empty (q : Place) : (empty : PlaceMap α).get? q = none := by
  induction q with
  | nil => rfl
  | cons name rest ih => simp [get?_cons, child, ih]

theorem get?_insert (map : PlaceMap α) {place : Place} (hp : place ≠ []) (q : Place) (value : α) :
    (map.insert place value).get? q = if q = place then some value else map.get? q := by
  induction place generalizing map q with
  | nil => exact absurd rfl hp
  | cons name rest ih =>
    cases q with
    | nil => simp [get?]
    | cons first more =>
      cases rest with
      | nil => by_cases h : first = name <;> grind [insert, get?_cons, child_change]
      | cons second others =>
        by_cases h : first = name <;> grind [insert, get?_cons, child_change]

theorem get?_erase (map : PlaceMap α) (place q : Place) :
    (map.erase place).get? q = if place.isPrefixOf q then none else map.get? q := by
  induction place generalizing map q with
  | nil => simp [erase, get?_empty]
  | cons name rest ih =>
    cases q with
    | nil => simp [get?]
    | cons first more =>
      cases rest with
      | nil =>
        by_cases h : first = name
        · simp [erase, get?_cons, child_drop, h, get?_empty]
        · simp [erase, get?_cons, child_drop, h, Ne.symm h]
      | cons second others =>
        by_cases h : first = name
        · by_cases hm : more = [] <;> simp [erase, get?_cons, child_change, h, ih, hm]
        · simp [erase, get?_cons, child_change, h, Ne.symm h]

theorem get?_clear (map : PlaceMap α) (place q : Place) :
    (map.clear place).get? q =
      if place.isPrefixOf q && q ≠ place then none else map.get? q := by
  induction place generalizing map q with
  | nil => cases q <;> simp [clear, get?, get?_empty]
  | cons name rest ih =>
    cases q with
    | nil => simp [get?]
    | cons first more =>
      by_cases h : first = name
      · by_cases hm : more = []
        · cases rest <;> simp [clear, get?_cons, child_change, h, hm]
        · simp [clear, get?_cons, child_change, h, ih, hm]
      · simp [clear, get?_cons, child_change, h, Ne.symm h]

theorem under_concat (map : PlaceMap α) (place : Place) (name : Bytes) :
    map.under (place ++ [name]) = ((map.under place).child name).2 := by
  induction place generalizing map with
  | nil => rfl
  | cons first rest ih => exact ih _

theorem get?_concat (map : PlaceMap α) (place : Place) (name : Bytes) :
    map.get? (place ++ [name]) = ((map.under place).child name).1 := by
  induction place generalizing map with
  | nil => rfl
  | cons first rest ih => simp [get?_cons, under, ih]

end PlaceMap
end SoloRun
