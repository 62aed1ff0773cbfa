import SoloRun.Json.Tree

/-!
Shapes of JSON: what a value has to look like, put together from its parts. A record may stand as an
object by the names of its fields, or as an array of all of them in their order.
-/

namespace SoloRun.Json

abbrev Shape := Tree → Bool

namespace Shape

def flag : Shape
  | .bool _ => true
  | _ => false

/-- A whole number that is not negative and fits into 64 bits. -/
def whole : Shape
  | .number numeral => numeral.isWord
  | _ => false

def text (passes : List Char → Bool) : Shape
  | .string inner => (text? inner).any passes
  | _ => false

def anyText : Shape :=
  text fun _ => true

/-- A name, which may also stand as the only one in an object, without a value. -/
def choice (passes : List Char → Bool) : Shape
  | .string inner => (text? inner).any passes
  | .object [(name, .null)] => (text? name).any passes
  | _ => false

def either (first second : Shape) : Shape :=
  fun tree => first tree || second tree

def orNull (shape : Shape) : Shape
  | .null => true
  | tree => shape tree

def listOf (item : Shape) : Shape
  | .array items => items.all item
  | _ => false

/-- An object with any names. -/
def tableOf (value : Shape) : Shape
  | .object members => members.all fun (name, tree) => (text? name).isSome && value tree
  | _ => false

/-- Arrays and objects may nest this deep. -/
def maxDepth : Nat := 127

/-- Any value that lies below `above` arrays and objects. -/
def anything (above : Nat) : Shape :=
  fun tree =>
    above + tree.depth ≤ maxDepth && tree.value?.isSome && tree.allNumbers Numeral.inRange

/-- Where a field must stand: in objects and in arrays, in arrays only, or nowhere. -/
inductive Presence where
  | required
  | listed
  | free
  deriving DecidableEq, Repr

structure Field where
  name : String
  presence : Presence
  shape : Shape

def required (name : String) (shape : Shape) : Field :=
  ⟨name, .required, shape⟩

def nullable (name : String) (shape : Shape) : Field :=
  ⟨name, .listed, orNull shape⟩

def free (name : String) (shape : Shape) : Field :=
  ⟨name, .free, shape⟩

/-- Members by the text of their names, if all names have one. -/
def named? (members : List (List Char × Tree)) : Option (List (String × Tree)) :=
  members.mapM fun (name, value) => (text? name).map fun text => (String.ofList text, value)

def valuesOf (name : String) (members : List (String × Tree)) : List Tree :=
  (members.filter (·.1 = name)).map (·.2)

/-- A field stands in an object once. -/
def Field.fits (field : Field) (members : List (String × Tree)) : Bool :=
  match valuesOf field.name members with
  | [] => field.presence ≠ .required
  | [value] => field.shape value
  | _ => false

def inOrder : List Field → List Tree → Bool
  | fields, [] => fields.all fun field => field.presence = .free
  | [], _ :: _ => false
  | field :: fields, item :: items => field.shape item && inOrder fields items

def record (fields : List Field) : Shape
  | .object members =>
    (named? members).any fun members => fields.all fun field => field.fits members
  | .array items => inOrder fields items
  | _ => false

end Shape
end SoloRun.Json
