import Glean.Entries
import Glean.Primitive
import Glean.Reference

/-!
# Boxes

A box is what is known about the value of an expression without running the program: a primitive
value, a list or a map of boxes, one of two boxes where a condition could not be decided, or
nothing, with the reason. A box remembers the node that it came from.

Equality of boxes (`==`) looks at values, keys and reasons and at no reference, so two runs over
one input are equal. It keeps the order of map entries.
-/

namespace Glean

/-- Why nothing is known about a value. -/
inductive Reason where
  /-- The name has no constant binding within reach. -/
  | unbound
  /-- It is the result of a call that is not folded. -/
  | call
  /-- It depends on itself. -/
  | cycle
  /-- It was left out by a flag. -/
  | notEvaluated
  /-- There is no static meaning for the expression. -/
  | unsupported
  /-- The policy refused to look at it. -/
  | denied
deriving DecidableEq, Repr

/-- The name of a reason. -/
def Reason.name : Reason → String
  | unbound => "unbound"
  | call => "call"
  | cycle => "cycle"
  | notEvaluated => "not-evaluated"
  | unsupported => "unsupported-syntax"
  | denied => "policy-denied"

/-- What is known about the value of an expression. -/
inductive Box where
  | literal (value : Primitive) (node : Option Reference)
  | list (items : List Box) (node : Option Reference)
  | map (entries : List (String × Box)) (node : Option Reference)
  /-- One of two values, by a condition that could not be decided. -/
  | conditional (whenTrue whenFalse : Box) (condition node : Option Reference)
  | unresolvable (reason : Reason) (node : Option Reference)
deriving Inhabited

namespace Box

/-- The undefined value that stands for something missing; it comes from no node. -/
def missing : Box := literal .undefined none

/-- A text. -/
def text (value : String) (node : Option Reference) : Box := literal (.string value) node

/-- The node that the box came from. -/
def node : Box → Option Reference
  | literal _ node | list _ node | map _ node | conditional _ _ _ node | unresolvable _ node => node

/-- The value of a literal. -/
def literal? : Box → Option Primitive
  | literal value _ => some value
  | _ => none

/-- The items of a list. -/
def items? : Box → Option (List Box)
  | list items _ => some items
  | _ => none

/-- The entries of a map. -/
def entries? : Box → Option (Entries String Box)
  | map entries _ => some entries
  | _ => none

/-- The two alternatives of a conditional, with its condition. -/
def branches? : Box → Option (Box × Box × Option Reference)
  | conditional whenTrue whenFalse condition _ => some (whenTrue, whenFalse, condition)
  | _ => none

/-- The reason why nothing is known. -/
def reason? : Box → Option Reason
  | unresolvable reason _ => some reason
  | _ => none

/-- Whether nothing is known about the value. -/
def isUnresolvable (box : Box) : Bool := box.reason?.isSome

mutual

/-- Whether two boxes say the same, whichever nodes they came from. -/
def same : Box → Box → Bool
  | literal a _, literal b _ => a.same b
  | list a _, list b _ => sameItems a b
  | map a _, map b _ => sameEntries a b
  | conditional a b _ _, conditional c d _ _ => same a c && same b d
  | unresolvable a _, unresolvable b _ => a == b
  | _, _ => false

/-- Whether two lists hold the same, item by item. -/
def sameItems : List Box → List Box → Bool
  | [], [] => true
  | a :: left, b :: right => same a b && sameItems left right
  | _, _ => false

/-- Whether two maps hold the same under the same keys in the same order. -/
def sameEntries : List (String × Box) → List (String × Box) → Bool
  | [], [] => true
  | (key, a) :: left, (other, b) :: right => key == other && same a b && sameEntries left right
  | _, _ => false

end

/-- Two boxes are equal when they say the same. -/
instance : BEq Box := ⟨same⟩

end Box

end Glean
