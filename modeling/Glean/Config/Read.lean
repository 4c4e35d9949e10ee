import Glean.Config.Mismatch
import Glean.Matching.Matchers
import Glean.Policy

/-!
# Reading configurations

Flags and name rules are objects whose fields may be missing; fields that they do not have are
ignored. The fields may also be given without their names, as a list in their order. The first
field of the wrong type, in the order of the value, is the one that is reported.
-/

namespace Glean.Config

/-- A value read, or a message that says what is wrong. -/
abbrev Reading (α : Type) := Except String α

/-- A truth value. -/
def readBoolean : Json → Reading Bool
  | .boolean value => pure value
  | value => throw (value.mismatch "a boolean")

/-- Reads a value into one field of a structure. -/
structure Field (α : Type) where
  /-- The name of the field. -/
  name : String
  /-- The structure with the field read. -/
  read : α → Json → Reading α

/-- Reads named fields in the order in which they are given. -/
def readNamed {α : Type} (fields : List (Field α)) (start : α) (given : List (String × Json)) :
    Reading α :=
  given.foldlM
    (fun value (name, json) =>
      match fields.find? (·.name = name) with
      | some field => field.read value json
      | none => pure value)
    start

/-- Reads fields given in their order; there must not be more values than fields. -/
def readListed {α : Type} (fields : List (Field α)) (start : α) (given : List Json) :
    Reading α := do
  let value ← (fields.zip given).foldlM (fun value (field, json) => field.read value json) start
  if fields.length < given.length then
    throw ("invalid length " ++ toString given.length ++ ", expected fewer elements in array")
  pure value

/-- Reads a structure whose fields may be missing. -/
def readFields {α : Type} (name : String) (fields : List (Field α)) (start : α) :
    Json → Reading α
  | .object given => readNamed fields start given
  | .array given => readListed fields start given
  | value => throw (value.mismatch ("struct " ++ name))

/-- The fields of the flags. -/
def flagFields : List (Field Flags) :=
  [ ⟨"skipEvaluate", fun flags json => do pure { flags with skipEvaluate := ← readBoolean json }⟩,
    ⟨"skipConditions", fun flags json => do
      pure { flags with skipConditions := ← readBoolean json }⟩,
    ⟨"skipTraverseFiles", fun flags json => do
      pure { flags with skipFiles := ← readBoolean json }⟩ ]

/-- Reads flags. -/
def readFlags : Json → Reading Flags := readFields "EvaluationFlags" flagFields {}

/-- The texts of a list that holds texts alone. -/
def texts? : List Json → Option (List String)
  | [] => some []
  | .string text :: rest => (texts? rest).map (text :: ·)
  | _ :: _ => none

/-- Reads the word for all names or a list of names. -/
def readNames : Json → Reading Names
  | .string word =>
    if word = "all" then pure .all
    else throw ("expected \"all\" or a list of names, got " ++ Text.quoted word)
  | .array items =>
    match texts? items with
    | some names => pure (.only names)
    | none => throw unmatched
  | _ => throw unmatched
where
  /-- The message for a value that is neither a word nor a list of names. -/
  unmatched : String := "data did not match any variant of untagged enum Raw"

/-- The fields of name rules. Default values are not part of a configuration. -/
def ruleFields : List (Field NameRules) :=
  [ ⟨"names", fun rules json => do pure { rules with names := ← readNames json }⟩,
    ⟨"props", fun rules json => do pure { rules with properties := ← readNames json }⟩ ]

/-- Reads name rules. -/
def readRules : Json → Reading NameRules := readFields "NameMatchers" ruleFields {}

end Glean.Config
