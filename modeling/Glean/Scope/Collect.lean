import Glean.Number.Decimal
import Glean.Scope.Basic
import Glean.Syntax.Walk

/-!
# Collecting a scope

One walk over a module lists its findings: bindings made and bindings changed. The walk does not
enter the head of a loop over items, whose names hold no constant; the node of the loop reports
them. Exports are read off the top-level items.
-/

namespace Glean

open Syntax

namespace Syntax

/-- The name of a member, when it is written out. -/
def Key.written? : Key → Option String
  | .name text | .string text => some text
  | .number value => some (Number.text value)
  | .bigint _ | .computed .. | .hidden _ => none

mutual

/-- The bindings that a pattern makes when it declares names. -/
def Pattern.bound : Pattern → List Id
  | .ident id => [id]
  | .array elements => boundElements elements
  | .object properties => boundProperties properties
  | .withDefault inner _ | .rest inner => inner.bound
  | .expr _ | .invalid => []

/-- The bindings that the elements of an array pattern make. -/
def boundElements : List (Option Pattern) → List Id
  | [] => []
  | none :: rest => boundElements rest
  | some inner :: rest => inner.bound ++ boundElements rest

/-- The bindings that the properties of an object pattern make. -/
def boundProperties : List PatternProperty → List Id
  | [] => []
  | .keyed _ inner :: rest | .rest inner :: rest => inner.bound ++ boundProperties rest
  | .shorthand id _ :: rest => id :: boundProperties rest

end

/-- The identifiers in a node, wherever they stand. -/
def Node.idents (node : Node) : List Id :=
  node.all.filterMap fun
    | .ident id => some id
    | _ => none

/-- The binding whose value an expression reaches into: the root of a chain of members. -/
def Expr.root? : Expr → Option Id
  | .ident _ id => some id
  | .member _ base _ => base.root?
  | .wrapped _ .parentheses inner => inner.root?
  | _ => none

/-- Whether an expression is itself a function or a class. -/
def Expr.isDefinition : Expr → Bool
  | .definition .. => true
  | _ => false

end Syntax

/-- One thing that a module does to a binding. -/
inductive Finding where
  /-- It makes the binding. -/
  | binds (id : Id) (binding : Binding)
  /-- It changes the binding or a member of its value. -/
  | reassigns (id : Id)

namespace Finding

/-- The bindings of a pattern, none of which has a static value. -/
def ofSealed (pattern : Pattern) : List Finding := pattern.bound.map (.binds · .sealed)

mutual

/-- The bindings that a pattern makes of a part of `init`: the part at the end of `path`, or
`fallback` when that is undefined. -/
def ofPattern (init : Option Expr) (path : List Step) (fallback : Option Expr) :
    Pattern → List Finding
  | .ident id => [.binds id (.variable ⟨init, path, fallback⟩)]
  | .object properties => ofProperties init path properties
  | .array elements => ofElements init path 0 elements
  | .withDefault inner value => ofPattern init path (some value) inner
  | .rest inner => ofSealed inner
  | .expr _ | .invalid => []

/-- The bindings that the properties of an object pattern make. -/
def ofProperties (init : Option Expr) (path : List Step) : List PatternProperty → List Finding
  | [] => []
  | .keyed key inner :: rest =>
    (match key.written? with
      | some name => ofPattern init (path ++ [.key name]) none inner
      | none => ofSealed inner) ++ ofProperties init path rest
  | .shorthand id fallback :: rest =>
    .binds id (.variable ⟨init, path ++ [.key id.name], fallback⟩) :: ofProperties init path rest
  | .rest inner :: rest => ofSealed inner ++ ofProperties init path rest

/-- The bindings that the elements of an array pattern make, from a position on. -/
def ofElements (init : Option Expr) (path : List Step) (position : Nat) :
    List (Option Pattern) → List Finding
  | [] => []
  | none :: rest => ofElements init path (position + 1) rest
  | some inner :: rest =>
    ofPattern init (path ++ [.index position]) none inner ++
      ofElements init path (position + 1) rest

end

/-- The bindings of one declaration; those of a function or class have no static value. -/
def ofDeclarator (declarator : Declarator) : List Finding :=
  if declarator.init.any Expr.isDefinition then ofSealed declarator.pattern
  else ofPattern declarator.init [] none declarator.pattern

/-- The names that a loop sets in each round hold no constant. -/
def ofHead : LoopHead → List Finding
  | .declarations declarators | .usings declarators =>
    declarators.flatMap fun declarator => ofSealed declarator.pattern
  | .pattern inner => (Node.pattern inner).idents.map .reassigns

/-- The binding of one imported name. -/
def ofImport (source : String) : ImportSpecifier → Finding
  | .named id imported =>
    .binds id (.imported source ((imported.map Imported.ofName).getD (.named id.name)))
  | .standard id => .binds id (.imported source .standard)
  | .whole id => .binds id (.imported source .whole)

/-- The bindings that an assignment changes. -/
def ofTarget : Target → List Finding
  | .ident id => [.reassigns id]
  | .member base _ => base.root?.toList.map .reassigns
  | .pattern inner => (Node.pattern inner).idents.map .reassigns
  | .wrapped .. | .other _ => []

/-- What one node does to bindings, apart from the nodes inside it. -/
def ofNode : Node → List Finding
  | .declarations declarators => declarators.flatMap ofDeclarator
  | .forEach head _ _ => ofHead head
  | .importFrom source false specifiers => specifiers.map (ofImport source)
  | .functionDeclaration id _ | .classDeclaration id _ => [.binds id .sealed]
  | .expr (.assign _ target _) => ofTarget target
  | .expr (.update _ operand) => operand.root?.toList.map .reassigns
  | _ => []

/-- What a module does to bindings, in order. -/
def ofModule (module : Module) : List Finding :=
  (module.walk fun
    | .head _ => false
    | _ => true).flatMap ofNode

/-- The binding made, if one is made. -/
def made? : Finding → Option (Id × Binding)
  | binds id binding => some (id, binding)
  | reassigns _ => none

/-- The binding changed, if one is changed. -/
def changed? : Finding → Option Id
  | binds .. => none
  | reassigns id => some id

end Finding

namespace Export

/-- The text of the name of an export. -/
def nameText : ExportName → String
  | .ident id => id.name
  | .string text => text

/-- What one name of an export declaration exports. -/
def ofSpecifier? (source : Option String) : ExportSpecifier → Option (String × Export)
  | .named name exported =>
    let exported := exported.getD (nameText name)
    match source, name with
    | some source, _ => some (exported, .forward source (Imported.ofName (nameText name)))
    | none, .ident id => some (exported, .binding id)
    | none, .string _ => none
  | .whole exported => source.map fun source => (exported, .forward source .whole)

/-- What a top-level item exports by name. -/
def ofItem : Node → List (String × Export)
  | .exportDeclaration (.declarations declarators) =>
    declarators.flatMap fun declarator =>
      declarator.pattern.bound.map fun id => (id.name, .binding id)
  | .exportDeclaration (.functionDeclaration id _) => [(id.name, .binding id)]
  | .exportDeclaration (.classDeclaration id _) => [(id.name, .binding id)]
  | .exportNames source false specifiers => specifiers.filterMap (ofSpecifier? source)
  | .exportDefault _ (.ident _ id) => [(standardName, .binding id)]
  | .exportDefault _ expr => [(standardName, .value expr)]
  | _ => []

/-- The module whose exports a top-level item exports as well. -/
def star? : Node → Option String
  | .exportAll source false => some source
  | _ => none

end Export

namespace Scope

/-- Bindings and exports of a module. Of two declarations of one name, and of two exports under
one name, the later counts. -/
def collect (file : Path) (module : Module) : Scope :=
  let findings := Finding.ofModule module
  { file
    bindings := Entries.ofList (findings.filterMap Finding.made?)
    reassigned := findings.filterMap Finding.changed?
    exports := Entries.ofList (module.items.flatMap Export.ofItem)
    stars := module.items.filterMap Export.star? }

end Scope

end Glean
