import SoloRun.Json.Numeral
import SoloRun.Json.Text

/-!
A JSON text taken apart, before its strings are given their texts.
-/

namespace SoloRun.Json

inductive Tree where
  | null
  | bool (value : Bool)
  | number (numeral : Numeral)
  /-- What stands between the quotes. -/
  | string (inner : List Char)
  | array (items : List Tree)
  | object (members : List (List Char × Tree))
  deriving Repr

namespace Tree

mutual

/-- How deep arrays and objects nest. -/
def depth : Tree → Nat
  | .array items => depthOfItems items + 1
  | .object members => depthOfMembers members + 1
  | _ => 0

def depthOfItems : List Tree → Nat
  | [] => 0
  | item :: more => max (depth item) (depthOfItems more)

def depthOfMembers : List (List Char × Tree) → Nat
  | [] => 0
  | (_, value) :: more => max (depth value) (depthOfMembers more)

end

mutual

/-- The value, if every string has a text. -/
def value? : Tree → Option Json
  | .null => some .null
  | .bool value => some (.bool value)
  | .number numeral => some (.number (String.ofList numeral.text))
  | .string inner => (text? inner).map fun text => .string (String.ofList text)
  | .array items => (values? items).map .array
  | .object members => (valuesByName? members).map .object

def values? : List Tree → Option (List Json)
  | [] => some []
  | item :: more => do some ((← value? item) :: (← values? more))

def valuesByName? : List (List Char × Tree) → Option (List (String × Json))
  | [] => some []
  | (name, value) :: more => do
    let name := String.ofList (← text? name)
    some ((name, ← value? value) :: (← valuesByName? more))

end

mutual

/-- All numbers in it pass. -/
def allNumbers (passes : Numeral → Bool) : Tree → Bool
  | .number numeral => passes numeral
  | .array items => allNumbersOfItems passes items
  | .object members => allNumbersOfMembers passes members
  | _ => true

def allNumbersOfItems (passes : Numeral → Bool) : List Tree → Bool
  | [] => true
  | item :: more => allNumbers passes item && allNumbersOfItems passes more

def allNumbersOfMembers (passes : Numeral → Bool) : List (List Char × Tree) → Bool
  | [] => true
  | (_, value) :: more => allNumbers passes value && allNumbersOfMembers passes more

end

end Tree
end SoloRun.Json
