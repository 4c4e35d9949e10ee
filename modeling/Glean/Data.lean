import Glean.Primitive

/-!
# Values of data files

What a fully static value becomes in a data file: one word for nothing, whole numbers apart from
the others, and objects whose entries keep their order.
-/

namespace Glean

/-- A value of a data file: what is left of a fully static box. -/
inductive Data where
  | null
  | boolean (value : Bool)
  | string (value : String)
  /-- An integer that fits sixty-three bits and a sign. -/
  | integer (value : Int)
  /-- Any other finite number. -/
  | number (value : Float)
  | list (items : List Data)
  | object (entries : List (String × Data))

/-- The value in a data file, which has one word for nothing and no infinite or undefined
numbers. -/
def Primitive.toData : Primitive → Data
  | string value => .string value
  | number value =>
    match Number.toInt? value with
    | some integer => if integer.natAbs < Number.twoTo 63 then .integer integer else .number value
    | none => if value.isFinite then .number value else .null
  | boolean value => .boolean value
  | null | undefined => .null

end Glean
