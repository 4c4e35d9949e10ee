import Glean.Proofs.Box.Covering
import Glean.Proofs.Evaluation.Calls

/-!
# Cautious evaluation

Evaluation sometimes lets a value about which it knows too little decide something: how many items a
list has, which keys an object has, whether a default applies, which module exports a name. Cautious
evaluation is the same evaluation except that such a step knows nothing of its result, and that a
step beyond its depth knows nothing either.
-/

namespace Glean

open Syntax

namespace Syntax

/-- The value of a computed key decides under which key a member stands. -/
def Key.shape? : Key → Option Span
  | .computed _ value => some value.span
  | _ => none

/-- The operand whose value decides under which keys a member stands. -/
def Member.shape? : Member → Option Span
  | .spread _ value => some value.span
  | .keyed _ key _ | .accessor _ _ key _ => key.shape?
  | _ => none

/-- The operand whose value decides how many items an element of an array stands for. -/
def Argument.shape? : Argument → Option Span
  | .spread value => some value.span
  | .single _ => none

/-- The operands of an expression whose values decide which items or keys its value has. -/
def Expr.shapes : Expr → List Span
  | .array _ items => items.filterMap (·.bind Argument.shape?)
  | .object _ members => members.filterMap Member.shape?
  | _ => []

/-- The left operand of an `and`. -/
def Expr.guarding : Expr → List Span
  | .logical _ .and left _ => [left.span]
  | _ => []

end Syntax

/-- Whether it is known of a part of a declared value if the default applies to it. -/
def Variable.isClear (binding : Variable) (part : Box) : Bool :=
  binding.fallback.isNone || part.isDefinite || !part.possible.any Box.isUndefined

namespace Task

/-- Whether a step of a task may go on with the box of one of its parts. -/
def accepts (setting : Setting) : Task → Task → Box → Bool
  | .expr _ outer, .expr _ inner, box =>
    (inner.span ∉ outer.unwrap.shapes || box.isDefinite) &&
      (inner.span ∉ outer.unwrap.guarding || setting.policy.flags.skipConditions ||
        box.truthy?.isSome)
  | .binding scope id node, .expr _ _, box =>
    match scope.binding? id with
    | some (.variable value) =>
      value.isClear (value.part node box)
    | _ => true
  | .exported path name _, .exported place _ _, box =>
    ((setting.project.scope path).export? name).isSome ||
      ((setting.project.scope place).export? name).isNone || box.reason? ≠ some .unbound
  | _, _, _ => true

end Task

namespace Evaluation

variable (setting : Setting)

/-- The box of a part of a task, if a step of the task may go on with it. -/
def accepted (next : Task → Eval Box) (task part : Task) : Eval Box := do
  let box ← next part
  if task.accepts setting part box then pure box else failure

/-- Evaluates a task in a number of nested steps. A step that would have to go on with a box that it
must not use, or beyond the depth, leaves nothing known. -/
def cautious : Nat → Task → Eval Box
  | 0, task => pure (.unknown .notEvaluated task.node)
  | depth + 1, task =>
    step setting (.remembering false) (accepted setting (cautious depth) task) task <|>
      pure (.unknown .notEvaluated task.node)

end Evaluation

/-- What the cautious evaluation of an expression of the file at a path comes to in a depth. -/
def Setting.cautiously (setting : Setting) (depth : Nat) (path : Path) (expr : Expr) : Box :=
  let scope := setting.project.scope path
  match Evaluation.cautious setting depth (.expr scope expr) {} with
  | some (box, _) => box
  | none => .unknown .notEvaluated (scope.refer expr.span)

end Glean
