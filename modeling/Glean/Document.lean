import Glean.Reference
import Glean.Scope.Collect
import Glean.Syntax.Walk
import Glean.Text.Position

/-!
# Documents

A document is a file of a project: its text, its tree and the scope of its module. References into
it are turned back into nodes, pieces of text and places.
-/

namespace Glean

open Syntax

/-- A file with its tree. -/
structure Document where
  /-- Where the file is. -/
  path : Path
  /-- The text, from which a byte order mark has been removed. -/
  text : String
  /-- The tree of the text. -/
  module : Module
  /-- What the names of the module stand for. -/
  scope : Scope
  /-- A bound on the number of things in the tree: its nodes, bindings and exports. -/
  weight : Nat
  /-- The scope belongs to the tree. -/
  scope_eq : scope = Scope.collect path module
  /-- The bound belongs to tree and scope. -/
  weight_eq : weight = module.all.length + scope.weight

/-- A node that can be referred to. -/
inductive Handle where
  | expr (value : Expr)
  | opening (value : Opening)
  | attr (span : Span) (name : String) (value : AttributeValue)
  | call (value : Call)
  | tagged (value : TaggedTemplate)
  | property (value : Member)

namespace Handle

/-- Where the node stands. -/
def span : Handle → Span
  | expr value => value.span
  | opening value => value.span
  | attr span .. => span
  | call value => value.span
  | tagged value => value.span
  | property value => value.span

/-- What the node is. -/
def kind : Handle → NodeKind
  | expr _ => .expr
  | opening _ => .opening
  | attr .. => .attr
  | call _ => .call
  | tagged _ => .tagged
  | property _ => .property

/-- Whether a reference names the node, when it names a node of the file. -/
def answers (handle : Handle) (reference : Reference) : Bool :=
  handle.kind = reference.kind && handle.span = reference.span

end Handle

/-- The nodes that can be referred to among the sorts that one node has. A call and a template with
a tag are expressions too; spreads are no nodes of their own. -/
def Syntax.Node.handles : Node → List Handle
  | .expr value =>
    .expr value ::
      match value with
      | .call span callee arguments => [.call ⟨span, callee, arguments⟩]
      | .tagged span tag quasis interpolations => [.tagged ⟨span, tag, quasis, interpolations⟩]
      | _ => []
  | .opening value => [.opening value]
  | .attr (.named span name value) => [.attr span name value]
  | .attr (.spread ..) => []
  | .member (.spread ..) => []
  | .member value => [.property value]
  | _ => []

/-- Whether one span lies within another. -/
def Syntax.Span.covers (outer inner : Span) : Bool :=
  outer.start ≤ inner.start && inner.stop ≤ outer.stop

/-- A search for the node that a reference names. -/
structure Finder (m : Type → Type) (α : Type) where
  /-- What is done with the node; it is taken when the node is found. -/
  callback : Option (Handle → m α)
  /-- What that came to. -/
  result : Option α := none

namespace Finder

variable {m : Type → Type} [Monad m] {α : Type}

/-- Whether the node has been found. -/
def isDone (finder : Finder m α) : Bool := finder.callback.isNone

/-- Hands a node to the callback unless that has been taken. -/
def found (finder : Finder m α) (handle : Handle) : m (Finder m α) :=
  match finder.callback with
  | some callback => do
    let result ← callback handle
    pure { callback := none, result := some result }
  | none => pure finder

/-- Whether a target may be at or inside a node: an expression whose span does not cover the target
has no such node inside. -/
def mayHold (target : Reference) : Node → Bool
  | .expr value => value.span.covers target.span
  | _ => true

/-- Looks for the target at a node and then inside it. Nodes that can be referred to are passed over
when the search is done. -/
def visit (target : Reference) (finder : Finder m α) (node : Node) : m (Finder m α) :=
  if (finder.isDone && !node.handles.isEmpty) || !mayHold target node then pure finder
  else
    match node.handles.find? (·.answers target) with
    | some handle => finder.found handle
    | none => node.children.attach.foldlM (fun finder ⟨part, _⟩ => visit target finder part) finder
termination_by sizeOf node
decreasing_by exact Node.sizeOf_children (by assumption)

end Finder

namespace Document

/-- The character that marks the order of bytes at the start of a text. -/
def byteOrderMark : Char := '\ufeff'

/-- A file from its text and its tree. -/
def make (path : Path) (code : String) (module : Module) : Document :=
  let text :=
    match code.toList with
    | first :: rest => if first = byteOrderMark then String.ofList rest else code
    | [] => code
  let scope := Scope.collect path module
  { path, text, module, scope, weight := module.all.length + scope.weight
    scope_eq := rfl, weight_eq := rfl }

/-- Hands the node that a reference names to a callback. There is no result when the reference names
no node of the file. -/
def withNode {m : Type → Type} [Monad m] {α : Type} (file : Document) (reference : Reference)
    (callback : Handle → m α) : m (Option α) :=
  if reference.file == file.path then do
    let finder ← file.module.items.foldlM (Finder.visit reference) { callback := some callback }
    pure finder.result
  else pure none

/-- The node that a reference names. -/
def find? (file : Document) (reference : Reference) : Option Handle :=
  Id.run (file.withNode reference pure)

/-- The text of a span, whichever of its ends comes first. Position zero is in no text. -/
def snippet? (file : Document) (span : Span) : Option String :=
  let start := min span.start span.stop
  let stop := max span.start span.stop
  if start = 0 then none else Text.slice? file.text (start - 1) (stop - 1)

/-- The place where a node starts. -/
def locate? (file : Document) (reference : Reference) : Option Text.Location :=
  if reference.file == file.path && reference.span.start != 0 then
    Text.locate? file.text (reference.span.start - 1)
  else none

end Document

end Glean
