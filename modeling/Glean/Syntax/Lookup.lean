import Glean.Syntax.Basic

/-!
# Looking up declared values

The value that a module gives a name at its top level, by a declaration of that plain name or, for
the default export, by an export of an expression.
-/

namespace Glean.Syntax

/-- The value of a declaration of a plain name. -/
def Declarator.named? (name : String) : Declarator → Option Expr
  | .mk (.ident id) init => if id.name = name then init else none
  | _ => none

/-- The value that a top-level item gives a name. -/
def Node.initializer? (name : String) : Node → Option Expr
  | declarations declarators | exportDeclaration (declarations declarators) =>
    declarators.findSome? (Declarator.named? name)
  | exportDefault _ value => if name = "default" then some value else none
  | _ => none

/-- The first value that a module gives a name. -/
def Module.initializer? (module : Module) (name : String) : Option Expr :=
  module.items.findSome? (Node.initializer? name)

end Glean.Syntax
