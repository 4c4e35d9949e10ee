import Glean.Matching.Question

/-!
# Events

What evaluation and extraction ask their caller, in the order of asking.
-/

namespace Glean

/-- Something that evaluation or extraction asked its caller. -/
inductive Event where
  /-- The gate was asked about an expression within the given nodes, innermost first. -/
  | gate (expr : Syntax.Expr) (stack : List Reference) (allowed : Bool)
  /-- A matcher was asked. -/
  | question (question : Question)

end Glean
