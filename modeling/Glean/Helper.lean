import Glean.Entries
import Glean.Number.Exact
import Glean.Primitive

/-!
# Helpers

A helper is a function that a call may be folded with once all its arguments are literals. Helpers
go by the dotted name of the callee.
-/

namespace Glean

/-- A function on primitive values that need not have a result. -/
abbrev Helper := List Primitive → Option Primitive

/-- Helpers by the dotted names under which they are called. -/
abbrev Helpers := Entries String Helper

namespace Helper

/-- A function of the first argument as a number; without arguments there is no result. -/
def unary (operation : Float → Float) : Helper := fun arguments =>
  arguments.head?.map fun argument => .number (operation argument.toNumber)

/-- Combines all arguments as numbers, starting from a number. -/
def folded (start : Float) (operation : Float → Float → Float) : Helper := fun arguments =>
  some (.number ((arguments.map Primitive.toNumber).foldl operation start))

/-- The largest argument; arguments that are no numbers do not count. -/
def maximum : Helper := folded (-Number.infinity) Number.larger

/-- The smallest argument; arguments that are no numbers do not count. -/
def minimum : Helper := folded Number.infinity Number.smaller

end Helper

/-- The helpers for arithmetic. -/
def Helpers.math : Helpers :=
  [ ("Math.max", Helper.maximum),
    ("Math.min", Helper.minimum),
    ("Math.abs", Helper.unary Float.abs),
    ("Math.ceil", Helper.unary Float.ceil),
    ("Math.floor", Helper.unary Float.floor),
    ("Math.round", Helper.unary Number.roundHalfUp) ]

end Glean
