/-!
# JSON values

Configurations and syntax trees are given as JSON values. An object keeps the order of its fields;
a field that is not there reads as null.
-/

namespace Glean

/-- A JSON value. -/
inductive Json where
  | null
  | boolean (value : Bool)
  /-- A number, as it was written. -/
  | number (text : String)
  | string (value : String)
  | array (items : List Json)
  | object (fields : List (String × Json))
deriving Inhabited

namespace Json

/-- The value of a field that is there. -/
def field? (json : Json) (name : String) : Option Json :=
  match json with
  | object fields => fields.lookup name
  | _ => none

/-- The value of a field. -/
def field (json : Json) (name : String) : Json := (json.field? name).getD null

/-- The items of an array. -/
def items : Json → List Json
  | array items => items
  | _ => []

/-- The text of a string. -/
def text : Json → String
  | string value => value
  | _ => ""

/-- The value of a natural number. -/
def natural : Json → Nat
  | number text => text.toNat?.getD 0
  | _ => 0

/-- Whether a value is the word for true. -/
def isTrue : Json → Bool
  | boolean value => value
  | _ => false

/-- Whether a value is null. -/
def isNull : Json → Bool
  | null => true
  | _ => false

mutual

/-- How deeply arrays and objects are nested in a value. -/
def depth : Json → Nat
  | array items => depthOfItems items + 1
  | object fields => depthOfFields fields + 1
  | _ => 1

/-- The depth of the deepest item. -/
def depthOfItems : List Json → Nat
  | [] => 0
  | item :: rest => max item.depth (depthOfItems rest)

/-- The depth of the deepest field. -/
def depthOfFields : List (String × Json) → Nat
  | [] => 0
  | (_, value) :: rest => max value.depth (depthOfFields rest)

end

end Json

end Glean
