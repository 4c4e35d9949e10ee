import Glean.Box.Alternatives
import Glean.Number.Exact

/-!
# Operators on boxes

An operator has a result on literals and is carried into the alternatives of conditional operands
(`Box.binary`, `Box.unary`). A value about which nothing is known makes the result unknown for the
same reason. The alternatives of a result are bounded: beyond `Box.alternativeLimit` combinations
there is no result.
-/

namespace Glean

open Syntax

namespace Primitive

/-- How two values compare: texts by their units, everything else as numbers. An undefined number
does not compare. -/
def order? (a b : Primitive) : Option Ordering :=
  match a, b with
  | string a, string b => some (Text.compareByUnits a b)
  | a, b =>
    let left := a.toNumber
    let right := b.toNumber
    if left < right then some .lt
    else if right < left then some .gt
    else if left == right then some .eq
    else none

/-- Whether a value is a text. -/
def isString : Primitive → Bool
  | string _ => true
  | _ => false

/-- The result of an operator on two values. -/
def binary? (operator : Binary) (a b : Primitive) : Option Primitive :=
  match operator with
  | .add =>
    if a.isString || b.isString then some (string (a.toText ++ b.toText))
    else some (number (a.toNumber + b.toNumber))
  | .subtract => some (number (a.toNumber - b.toNumber))
  | .multiply => some (number (a.toNumber * b.toNumber))
  | .divide => some (number (a.toNumber / b.toNumber))
  | .remainder => some (number (Number.remainder a.toNumber b.toNumber))
  | .power => some (number (a.toNumber.pow b.toNumber))
  | .strictEqual => some (boolean (a.strictEquals b))
  | .strictDiffer => some (boolean !a.strictEquals b)
  | .looseEqual => some (boolean (a.looseEquals b))
  | .looseDiffer => some (boolean !a.looseEquals b)
  | .less => some (boolean (a.order? b = some .lt))
  | .greater => some (boolean (a.order? b = some .gt))
  | .atMost => some (boolean (a.order? b = some .lt || a.order? b = some .eq))
  | .atLeast => some (boolean (a.order? b = some .gt || a.order? b = some .eq))
  | .unreduced _ => none

/-- The complement of a number's bits as a word of thirty-two bits. -/
def complement (value : Float) : Float :=
  .ofInt (-1 - Number.wrap32 (Number.saturate64 value))

/-- The result of an operator on one value. -/
def unary? (operator : Unary) (value : Primitive) : Option Primitive :=
  match operator with
  | .not => some (boolean !value.truthy)
  | .negate => some (number (-value.toNumber))
  | .plus => some (number value.toNumber)
  | .complement => some (number (complement value.toNumber))
  | .typeOf => some (string value.typeName)
  | .void | .delete => none

end Primitive

namespace Box

/-- The most combinations of operands that an operator is carried into. -/
def alternativeLimit : Nat := 64

/-- The box of a result that need not exist. -/
def ofResult (node : Reference) : Option Primitive → Box
  | some value => literal value (some node)
  | none => unresolvable .unsupported (some node)

/-- The result of an operator on two boxes that are not conditional. -/
def binaryLeaf (operator : Binary) (node : Reference) : Box → Box → Box
  | unresolvable reason origin, _ => unresolvable reason origin
  | _, unresolvable reason origin => unresolvable reason origin
  | literal a _, literal b _ => ofResult node (Primitive.binary? operator a b)
  | _, _ => unresolvable .unsupported (some node)

/-- The result of an operator for all combinations of two boxes. -/
def combine (operator : Binary) (node : Reference) (left right : Box) : Box :=
  match left, right with
  | unresolvable reason origin, _ => unresolvable reason origin
  | _, unresolvable reason origin => unresolvable reason origin
  | left, right =>
    left.distribute node fun a =>
      if a.isUnresolvable then a else right.distribute node fun b => binaryLeaf operator node a b

/-- The result of an operator on two boxes, unless there are too many combinations. -/
def binary (operator : Binary) (node : Reference) (left right : Box) : Box :=
  if alternativeLimit < left.possible.length * right.possible.length then
    unresolvable .unsupported (some node)
  else combine operator node left right

/-- The result of an operator on one box that is not conditional. -/
def unaryLeaf (operator : Unary) (node : Reference) : Box → Box
  | literal value _ => ofResult node (Primitive.unary? operator value)
  | list .. | map .. =>
    match operator with
    | .not => literal (.boolean false) (some node)
    | .typeOf => literal (.string "object") (some node)
    | _ => unresolvable .unsupported (some node)
  | box => box

/-- The result of an operator on every value that a box may take. -/
def unary (operator : Unary) (node : Reference) (box : Box) : Box :=
  box.distribute node (unaryLeaf operator node)

end Box

end Glean
