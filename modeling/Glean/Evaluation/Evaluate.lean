import Glean.Evaluation.Step

/-!
# Evaluation

`evaluate` evaluates an expression of a file and always ends. Its fuel is computed from the
project and the expression alone: a value that is referred to by name is being worked out at most
once at a time, and between two such values the nesting is bounded by the sizes of the trees and
the number of files.
-/

namespace Glean

open Syntax

namespace Setting

/-- How goals are guarded: values are kept unless they may depend on the nodes around them. -/
def guard (setting : Setting) : Guard := .remembering !setting.policy.isStackSensitive

/-- Enough fuel for an expression. -/
def fuel (setting : Setting) (expr : Expr) : Nat :=
  let weight := setting.project.weight
  (weight + 2) * (2 * weight + (Node.expr expr).all.length + 8)

/-- The scope of a path. A path without a file keeps the form in which it was written first. -/
def scopeAt (setting : Setting) (path : Path) : StateM Run Scope := do
  match setting.project.file? path with
  | some file => pure file.scope
  | none =>
    let run ← get
    match run.strangers.find? (· == path) with
    | some stranger => pure (.empty stranger)
    | none =>
      set { run with strangers := path :: run.strangers }
      pure (.empty path)

/-- Evaluates an expression as one of the file at a path. -/
def evaluate (setting : Setting) (path : Path) (expr : Expr) : StateM Run Box := do
  let scope ← setting.scopeAt path
  let run ← get
  match (Evaluation.run setting setting.guard (setting.fuel expr) (.expr scope expr)).run run with
  | some (box, after) =>
    set after
    pure box
  | none => pure (.unknown .cycle (scope.refer expr.span))

end Setting

end Glean
