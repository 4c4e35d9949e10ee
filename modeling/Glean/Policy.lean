import Glean.Box.Basic
import Glean.Helper

/-!
# Policies

A policy says how far evaluation goes: three flags, a gate that may refuse single expressions, and
overrides that give names and helpers a meaning while an expression and its parts are evaluated.
Gate and overrides see the expression and the nodes around it, innermost first.
-/

namespace Glean

open Syntax (Expr)

/-- Switches that bound the cost of evaluation. -/
structure Flags where
  /-- Nothing is evaluated. -/
  skipEvaluate : Bool := false
  /-- A condition that cannot be decided leaves nothing known. -/
  skipConditions : Bool := false
  /-- Imports are not followed into other files. -/
  skipFiles : Bool := false
deriving DecidableEq

/-- What names and calls mean while an expression and its parts are evaluated. -/
structure Overrides where
  /-- The boxes of names, which go before all bindings. -/
  environment : Entries String Box := []
  /-- The helpers that calls are folded with. -/
  helpers : Helpers := []

/-- Whether an expression may be evaluated, seen with the nodes around it, innermost first. -/
abbrev Gate := Expr → List Reference → Bool

/-- How far evaluation goes. -/
structure Policy where
  /-- The switches. -/
  flags : Flags := {}
  /-- The gate; without one every expression may be evaluated. -/
  gate : Option Gate := none
  /-- The overrides that an expression brings with it. -/
  overrides : Option (Expr → List Reference → Option Overrides) := none

namespace Policy

/-- Whether a value may depend on the nodes around an expression, so that it must not be kept. -/
def isStackSensitive (policy : Policy) : Bool := policy.gate.isSome || policy.overrides.isSome

/-- The overrides that an expression brings with it. -/
def overridesFor (policy : Policy) (expr : Expr) (stack : List Reference) : Option Overrides :=
  policy.overrides.bind fun overrides => overrides expr stack

end Policy

/-- A field of a description: its name and the word for its truth value. -/
def describeField (name : String) (value : Bool) : String :=
  name ++ ": " ++ if value then "true" else "false"

/-- A description of named fields. -/
def describeFields (name : String) (fields : List String) : String :=
  name ++ " \x7b " ++ ", ".intercalate fields ++ " \x7d"

/-- A description of the flags. -/
def Flags.describe (flags : Flags) : String :=
  describeFields "EvaluationFlags"
    [ describeField "skip_evaluate" flags.skipEvaluate,
      describeField "skip_conditions" flags.skipConditions,
      describeField "skip_traverse_files" flags.skipFiles ]

/-- A description of a policy, which only says whether there are a gate and overrides. -/
def Policy.describe (policy : Policy) : String :=
  describeFields "EvaluationContext"
    [ "flags: " ++ policy.flags.describe,
      describeField "can_eval" policy.gate.isSome,
      describeField "evaluate_options" policy.overrides.isSome ]

/-- A description of helpers: their names. -/
def Helpers.describe (helpers : Helpers) : String :=
  "[" ++ ", ".intercalate ((Entries.keys helpers).map Text.quoted) ++ "]"

end Glean
