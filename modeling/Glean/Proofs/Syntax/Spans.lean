import Glean.Proofs.Syntax.Finder

/-!
# Spans in a tree

Every place that a value of an expression can be blamed on is the span of an expression, or one of
the spans of members and attributes at which evaluation makes up an expression of its own
(`Node.cited`).

Where spans are nested (`Module.isNested`), every node that can be referred to is found again by its
span and kind (`Document.find?_of_mem`).
-/

namespace Glean

open Syntax

namespace Syntax

/-- The span of a computed key, which is blamed for a value that cannot be a key. -/
def Key.cited : Key → List Span
  | .computed span _ => [span]
  | _ => []

/-- The spans that are referred to as those of expressions though none stands there: a shorthand, an
accessor, a computed key, an attribute without a value and a literal after an attribute's name. -/
def Node.synthetic : Node → List Span
  | .member (.shorthand span _) => [span]
  | .member (.keyed _ key _) => key.cited
  | .member (.accessor span _ key _) => span :: key.cited
  | .attr (.named span _ .missing) => [span]
  | .attr (.named _ _ (.literal span _)) => [span]
  | _ => []

/-- The spans that are referred to as those of expressions. -/
def Node.cited : Node → List Span
  | .expr value => [value.span]
  | node => node.synthetic

/-- Where an expression or an element stands. -/
def Node.extent? : Node → Option Span
  | .expr value => some value.span
  | .opening value => some value.span
  | _ => none

/-- The spans that a node states. -/
def Node.spans (node : Node) : List Span := node.cited ++ node.handles.map Handle.span

/-- What stands inside an expression or an element has its spans within that of the whole. -/
def Module.isNested (module : Module) : Bool :=
  module.all.all fun outer => outer.extent?.all fun extent =>
    outer.all.all fun inner => inner.spans.all extent.covers

/-- What is inside something inside a node is inside the node. -/
theorem Node.mem_all_trans {node part inner : Node} (outside : part ∈ node.all)
    (inside : inner ∈ part.all) : inner ∈ node.all :=
  Node.mem_all_of_mem_walk outside inside

/-- What a node of a module holds is held by the module. -/
theorem Module.mem_all_trans {module : Module} {part inner : Node} (outside : part ∈ module.all)
    (inside : inner ∈ part.all) : inner ∈ module.all :=
  Module.mem_all_of_mem_walk outside inside

/-- An expression without the parentheses and types around it is inside the expression. -/
theorem Expr.mem_all_unwrap (expr : Expr) : .expr expr.unwrap ∈ (Node.expr expr).all := by
  fun_induction unwrap expr with
  | case1 span wrapper inner ih => exact Node.mem_all_of_child (List.mem_singleton_self _) ih
  | case2 expr => exact Node.mem_all_self _

variable {module : Module} {outer inner : Node} {extent span : Span}

/-- In a nested module the span of an expression or element covers every span stated inside it. -/
theorem Module.covers_of_isNested (nested : module.isNested = true) (listed : outer ∈ module.all)
    (stands : outer.extent? = some extent) (inside : inner ∈ outer.all)
    (stated : span ∈ inner.spans) : extent.covers span = true := by
  have each := List.all_eq_true.1 nested outer listed
  rw [stands] at each
  have within := List.all_eq_true.1 each inner inside
  exact List.all_eq_true.1 within span stated

/-- A walk visits a node when it enters everything around the node. -/
theorem Node.mem_walk_of_mem_all {enter : Node → Bool} {node : Node} (inside : inner ∈ node.all)
    (enters : ∀ around ∈ node.all, inner ∈ around.all → enter around = true) :
    inner ∈ node.walk enter := by
  have entered := enters node (mem_all_self node) inside
  rw [walk_eq, entered, if_pos rfl]
  rw [all_eq] at inside
  rcases List.mem_cons.1 inside with rfl | inside
  · exact List.mem_cons_self ..
  · obtain ⟨child, listed, inside⟩ := List.mem_flatMap.1 inside
    refine List.mem_cons_of_mem _ (List.mem_flatMap.2 ⟨child, listed, ?_⟩)
    exact mem_walk_of_mem_all inside fun around held =>
      enters around (mem_all_of_child listed held)
termination_by sizeOf node
decreasing_by exact Node.sizeOf_children listed

/-- A node is visited when the walk enters every node around it. -/
theorem Module.mem_walk_of_mem_all {enter : Node → Bool} (inside : inner ∈ module.all)
    (enters : ∀ around ∈ module.all, inner ∈ around.all → enter around = true) :
    inner ∈ module.walk enter := by
  obtain ⟨item, listed, inside⟩ := List.mem_flatMap.1 inside
  refine List.mem_flatMap.2 ⟨item, listed, Node.mem_walk_of_mem_all inside fun around held => ?_⟩
  exact enters around (List.mem_flatMap.2 ⟨item, listed, held⟩)

end Syntax

namespace Document

/-- A node that can be referred to is found by its span and kind. -/
theorem find?_of_mem {file : Document} (nested : file.module.isNested = true) {node : Node}
    (listed : node ∈ file.module.all) {handle : Handle} (held : handle ∈ node.handles)
    {place : Reference} (here : (place.file == file.path) = true) (kind : place.kind = handle.kind)
    (span : place.span = handle.span) :
    ∃ found, file.find? place = some found ∧ found.kind = place.kind ∧ found.span = place.span := by
  have stated : place.span ∈ node.spans :=
    List.mem_append_right _ (List.mem_map.2 ⟨handle, held, span.symm⟩)
  have visited : node ∈ file.module.walk (Finder.mayHold place) := by
    refine Module.mem_walk_of_mem_all listed fun around outside inside => ?_
    cases around with
    | expr value => exact Module.covers_of_isNested nested outside rfl inside stated
    | _ => rfl
  have answers : handle.answers place = true := by
    simp [Handle.answers, kind, span]
  have some : first? place (file.module.walk (Finder.mayHold place)) ≠ none := by
    intro missing
    have refuses := List.find?_eq_none.1 missing handle (List.mem_flatMap.2 ⟨node, visited, held⟩)
    exact refuses answers
  obtain ⟨found, first⟩ := Option.ne_none_iff_exists'.1 some
  refine ⟨found, ?_, ?_⟩
  · rw [find?_eq, if_pos here]
    exact first
  · have same := List.find?_some first
    simpa [Handle.answers] using same

end Document

end Glean
