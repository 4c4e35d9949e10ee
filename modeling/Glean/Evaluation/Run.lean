import Glean.Event
import Glean.Policy
import Glean.Project

/-!
# Runs

The working state of an evaluation, and the computations over it. A computation either ends with a
value and a new state or runs out of fuel (`none`).

`Run.within` and `Eval.overriding` change the state for the time of one computation and restore it.
-/

namespace Glean

open Syntax (Expr Id)

/-- A value that other values refer to by name. It is worked out once, and asking for it while it
is being worked out is a cycle. Files go by the components of their paths. -/
inductive Goal where
  /-- The value of a binding. -/
  | binding (file : List Component) (id : Id)
  /-- The value of an export. -/
  | exported (file : List Component) (name : String)
  /-- All exports as one object. -/
  | whole (file : List Component)
deriving DecidableEq

/-- The working state of an evaluation. -/
structure Run where
  /-- The values worked out so far. -/
  known : List (Goal × Box) := []
  /-- The values being worked out, innermost first. -/
  inProgress : List Goal := []
  /-- How often a value has been found to depend on itself. -/
  cycles : Nat := 0
  /-- The nodes around the current expression, innermost first. -/
  stack : List Reference := []
  /-- The overrides in force, innermost first. -/
  overrides : List Overrides := []
  /-- Paths without a file that expressions were evaluated at, as they were written first. -/
  strangers : List Path := []
  /-- What was asked so far, latest first. -/
  events : List Event := []

/-- Runs a computation with a node around it. -/
def Run.within {m : Type → Type} [Monad m] {α : Type} (node : Reference)
    (computation : StateT Run m α) : StateT Run m α := do
  modify fun run => { run with stack := node :: run.stack }
  let result ← computation
  modify fun run => { run with stack := run.stack.tail }
  pure result

/-- Records an event. -/
def Run.record {m : Type → Type} [Monad m] (event : Event) : StateT Run m Unit :=
  modify fun run => { run with events := event :: run.events }

/-- A computation over the working state that may run out of fuel. -/
abbrev Eval := StateT Run Option

namespace Eval

variable {α : Type}

/-- Runs a computation with overrides in force, if there are any. -/
def overriding (overrides : Option Overrides) (computation : Eval α) : Eval α :=
  match overrides with
  | none => computation
  | some overrides => do
    modify fun run => { run with overrides := overrides :: run.overrides }
    let result ← computation
    modify fun run => { run with overrides := run.overrides.tail }
    pure result

/-- The box that the innermost override of a name gives it. -/
def override? (name : String) : Eval (Option Box) := do
  let run ← get
  pure (run.overrides.findSome? fun overrides => Entries.get? overrides.environment name)

/-- The innermost helper of a name. -/
def helper? (name : String) : Eval (Option Helper) := do
  let run ← get
  pure (run.overrides.findSome? fun overrides => Entries.get? overrides.helpers name)

/-- Asks the gate of a policy about an expression; without a gate nothing is asked. -/
def allowed (policy : Policy) (expr : Expr) : Eval Bool :=
  match policy.gate with
  | none => pure true
  | some gate => do
    let run ← get
    let answer := gate expr run.stack
    Run.record (.gate expr run.stack answer)
    pure answer

end Eval

/-- How the value of a goal is found, given the computation that works it out. -/
abbrev Guard := Goal → Reference → Eval Box → Eval Box

namespace Guard

/-- Every goal is worked out whenever it is asked for. -/
def plain : Guard := fun _ _ computation => computation

/-- Looks up what is known and finds cycles. A value is kept unless a cycle was found while it was
worked out, because it then depends on where the cycle was entered, and unless `keep` is false. -/
def remembering (keep : Bool) : Guard := fun goal node computation => do
  let run ← get
  match run.known.lookup goal with
  | some value => pure value
  | none =>
    if goal ∈ run.inProgress then
      set { run with cycles := run.cycles + 1 }
      pure (.unresolvable .cycle (some node))
    else
      set { run with inProgress := goal :: run.inProgress }
      let value ← computation
      modify fun after =>
        { after with
          inProgress := after.inProgress.erase goal
          known :=
            if after.cycles = run.cycles ∧ keep then (goal, value) :: after.known
            else after.known }
      pure value

end Guard

end Glean
