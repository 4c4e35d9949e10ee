import Glean.Entries
import Glean.Path
import Glean.Syntax.Basic

/-!
# Scopes

What the names of one module stand for: the bindings it makes, which of them change after they
are made, and what it exports. Because an identifier carries the context of its binding, one flat
table serves all nesting levels.
-/

namespace Glean

open Syntax (Expr Id)

/-- One step from a value to a part of it that a pattern binds. -/
inductive Step where
  | key (name : String)
  | index (position : Nat)
deriving DecidableEq

/-- A name bound by a declaration. -/
structure Variable where
  /-- The value that the whole declaration takes apart. -/
  init : Option Expr
  /-- The steps from that value to the part bound here. -/
  path : List Step
  /-- The value used when the part is undefined. -/
  fallback : Option Expr

/-- Which of a module's exports is meant. -/
inductive Imported where
  | named (name : String)
  | standard
  | whole
deriving DecidableEq

/-- The name of the default export. -/
def standardName : String := "default"

namespace Imported

/-- The export of a given name. -/
def ofName (name : String) : Imported := if name = standardName then .standard else .named name

/-- The name under which the module exports it; all exports together have none. -/
def exportName? : Imported → Option String
  | named name => some name
  | standard => some standardName
  | whole => none

end Imported

/-- What a name stands for. -/
inductive Binding where
  | variable (value : Variable)
  | imported (source : String) (name : Imported)
  /-- Something without a static value: code, or a part that a pattern does not name. -/
  | sealed

/-- What a module exports under a name. -/
inductive Export where
  /-- One of its own bindings. -/
  | binding (id : Id)
  /-- An export of another module. -/
  | forward (source : String) (name : Imported)
  /-- The value of an expression. -/
  | value (expr : Expr)

/-- Bindings and exports of one module. -/
structure Scope where
  /-- The file of the module. -/
  file : Path
  /-- What each binding stands for. -/
  bindings : Entries Id Binding
  /-- The bindings that change, or have members changed, after they are made. -/
  reassigned : List Id
  /-- What is exported, by name. -/
  exports : Entries String Export
  /-- The modules whose exports are exported as well, in order. -/
  stars : List String

namespace Scope

/-- The scope of a file that is not there: nothing is bound. -/
def empty (file : Path) : Scope :=
  { file, bindings := [], reassigned := [], exports := [], stars := [] }

/-- What a name stands for. -/
def binding? (scope : Scope) (id : Id) : Option Binding := Entries.get? scope.bindings id

/-- Whether a binding changes after it is made. -/
def isReassigned (scope : Scope) (id : Id) : Bool := scope.reassigned.contains id

/-- What is exported under a name. -/
def export? (scope : Scope) (name : String) : Option Export := Entries.get? scope.exports name

/-- How many bindings and exports there are, the object of all exports among them. -/
def weight (scope : Scope) : Nat := scope.bindings.length + scope.exports.length + 1

end Scope

end Glean
