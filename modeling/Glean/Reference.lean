import Glean.Path
import Glean.Syntax.Basic

/-!
# References to nodes

A reference names a node of a module without holding it: by file, span and kind. The kind tells
apart nodes that share a span.
-/

namespace Glean

open Syntax (Span)

/-- The kinds of nodes that can be referred to. -/
inductive NodeKind where
  | expr
  | opening
  | attr
  | call
  | tagged
  | property
deriving DecidableEq, Repr

/-- The name of a kind. -/
def NodeKind.name : NodeKind → String
  | expr => "expr"
  | opening => "jsx-opening-element"
  | attr => "jsx-attr"
  | call => "call-expr"
  | tagged => "tagged-tpl"
  | property => "prop"

/-- A node of a module, by its place and kind. -/
structure Reference where
  /-- The file of the module. -/
  file : Path
  /-- Where the node stands. -/
  span : Span
  /-- What the node is. -/
  kind : NodeKind
deriving DecidableEq

/-- How a reference is shown: the file and the two ends of the span. -/
def Reference.text (reference : Reference) : String :=
  reference.file.text ++ "@" ++ toString reference.span.start ++ ".." ++
    toString reference.span.stop

end Glean
