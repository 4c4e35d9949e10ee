import Glean.Proofs.Scope.Sources
import Glean.Proofs.Syntax.Bare

/-!
# Scopes of bare trees

The scope of a bare module is that of the module itself, with its expressions bare
(`Scope.collect_bare`). So modules with one bare form bind and export the same.

What a module says of its names is told by its nodes, each for itself. A node within wrappers is
told of when the wrappers are entered, and the wrappers say nothing.
-/

namespace Glean

namespace Syntax

variable {source : String → Span → String} {α β : Type}

section Parts

variable {tell : Node → List α}
  (notes : ∀ text expr, tell (.expr (expr.noted text)) = tell (.expr expr))
  (shuts : ∀ closed expr, tell (.expr (expr.shut closed)) = tell (.expr expr))

/-- The parts of a bare key tell what the parts tell when they are bare. -/
theorem Key.flatMap_bare (key : Key) :
    (key.bare source).parts.flatMap tell = key.parts.flatMap fun part => tell (part.bare source) := by
  cases key <;> simp [Key.parts]

include notes in
/-- A noted key tells what the key tells when it is bare. -/
theorem Key.flatMap_note (key : Key) :
    (key.note source (key.bare source)).parts.flatMap tell =
      key.parts.flatMap fun part => tell (part.bare source) := by
  cases key <;> simp [Key.note, Key.parts, notes]

include shuts in
/-- The parts of a bare target tell what the parts tell when they are bare. -/
theorem Target.flatMap_bare (target : Target) :
    (target.bare source).parts.flatMap tell =
      target.parts.flatMap fun part => tell (part.bare source) := by
  cases target with
  | member base key => simp [Target.parts, shuts, key.flatMap_bare]
  | _ => simp [Target.parts, List.flatMap_map]

/-- The parts of a bare property of a pattern tell what the parts tell when they are bare. -/
theorem PatternProperty.flatMap_bare (property : PatternProperty) :
    (property.bare source).parts.flatMap tell =
      property.parts.flatMap fun part => tell (part.bare source) := by
  cases property with
  | keyed key inner => simp [PatternProperty.parts, key.flatMap_bare]
  | shorthand id fallback =>
    cases fallback <;> simp [PatternProperty.parts]
  | rest inner => simp [PatternProperty.parts]

/-- The parts of a bare pattern tell what the parts tell when they are bare. -/
theorem Pattern.flatMap_bare (pattern : Pattern) :
    (pattern.bare source).parts.flatMap tell =
      pattern.parts.flatMap fun part => tell (part.bare source) := by
  cases pattern with
  | array elements =>
    simp only [Pattern.bare, Pattern.parts, barePatterns_eq, List.flatMap_map, List.flatMap_assoc]
    refine List.flatMap_congr fun element _ => ?_
    cases element <;> simp
  | object properties =>
    simp only [Pattern.bare, Pattern.parts, bareProperties_eq, List.flatMap_map, List.flatMap_assoc,
      PatternProperty.flatMap_bare]
  | _ => simp [Pattern.parts]

include shuts in
/-- The parts of a bare declaration tell what the parts tell when they are bare. -/
theorem Declarator.flatMap_bare (declarator : Declarator) :
    (declarator.bare source).parts.flatMap tell =
      declarator.parts.flatMap fun part => tell (part.bare source) := by
  obtain ⟨pattern, init⟩ := declarator
  cases init <;> simp [Declarator.parts, shuts]

/-- The parts of a bare loop's head tell what the parts tell when they are bare. -/
theorem LoopHead.flatMap_bare (head : LoopHead) :
    (head.bare source).parts.flatMap tell =
      head.parts.flatMap fun part => tell (part.bare source) := by
  cases head <;> simp [LoopHead.parts]

include notes in
/-- The parts of a bare member tell what the parts tell when they are bare. -/
theorem Member.flatMap_bare (member : Member) :
    (member.bare source).parts.flatMap tell =
      member.parts.flatMap fun part => tell (part.bare source) := by
  cases member with
  | keyed _ key value =>
    simp [Member.parts, key.flatMap_note notes]
  | accessor _ _ key parts =>
    simp [Member.parts, key.flatMap_note notes, List.flatMap_map]
  | _ => simp [Member.parts, notes]

/-- The parts of a bare attribute tell what the parts tell when they are bare. -/
theorem Attribute.flatMap_bare (attr : Attribute) :
    (attr.bare source).parts.flatMap tell =
      attr.parts.flatMap fun part => tell (part.bare source) := by
  cases attr with
  | named _ _ value =>
    cases value <;> simp [Attribute.parts, AttributeValue.parts, List.flatMap_map]
  | spread => simp [Attribute.parts]

/-- The parts of a bare opening tell what the parts tell when they are bare. -/
theorem Opening.flatMap_bare (opening : Opening) :
    (opening.bare source).parts.flatMap tell =
      opening.parts.flatMap fun part => tell (part.bare source) := by
  obtain ⟨_, name, attributes⟩ := opening
  simp [Opening.parts, List.flatMap_map]

/-- The node of a bare argument is its node, bare. -/
theorem Argument.bare_node (argument : Argument) :
    (argument.bare source).node = argument.node.bare source := by
  cases argument <;> rfl

include shuts in
/-- The nodes inside a bare expression tell what those inside the expression tell when they are
bare. -/
theorem Expr.flatMap_bare {expr : Expr} (plain : expr.isWrapped = false) :
    (expr.bare source).parts.flatMap tell =
      expr.parts.flatMap fun part => tell (part.bare source) := by
  cases expr with
  | wrapped => cases plain
  | array _ elements =>
    simp only [Expr.bare, Expr.parts, bareElements_eq, List.flatMap_map, List.flatMap_assoc]
    refine List.flatMap_congr fun element _ => ?_
    cases element <;> simp [Argument.bare_node]
  | member _ base key | optionalMember _ base key =>
    simp [Expr.parts, key.flatMap_bare]
  | call _ callee arguments =>
    cases callee <;>
      simp [Expr.parts, List.flatMap_map, Argument.bare_node]
  | _ => simp [Expr.parts, List.flatMap_map, Argument.bare_node, shuts]

include notes shuts in
/-- The children of a bare node tell what its children tell when they are bare, unless it is
wrapped. -/
theorem Node.flatMap_bare {node : Node} (plain : ∀ expr, node = .expr expr → expr.isWrapped = false) :
    (node.bare source).children.flatMap tell =
      node.children.flatMap fun part => tell (part.bare source) := by
  cases node with
  | expr value => exact Expr.flatMap_bare shuts (plain value rfl)
  | pattern value => exact value.flatMap_bare
  | target value => exact value.flatMap_bare shuts
  | member value => exact value.flatMap_bare notes
  | attr value => exact value.flatMap_bare
  | opening value => exact value.flatMap_bare
  | head value => exact value.flatMap_bare
  | declarations declarators | usings declarators =>
    simp [Node.children, List.flatMap_map, List.flatMap_assoc, Declarator.flatMap_bare shuts]
  | _ => simp [Node.children, List.flatMap_map, shuts]

end Parts

/-- What a node and everything inside it say, where the walk enters. -/
def Node.told (enter : Node → Bool) (own : Node → List α) (node : Node) : List α :=
  (node.walk enter).flatMap own

/-- A node tells what it says itself and, where the walk enters, what its children tell. -/
theorem Node.told_eq (enter : Node → Bool) (own : Node → List α) (node : Node) :
    node.told enter own =
      own node ++ if enter node then node.children.flatMap (told enter own) else [] := by
  rw [told, walk_eq, List.flatMap_cons]
  split
  · rw [List.flatMap_assoc]
    rfl
  · rfl

/-- What nodes say is told alike of a tree and of its bare form: wrappers and notes say nothing, and
a node says the same when it is bare, but for a change of the expressions in it. -/
structure Tells (source : String → Span → String) (enter : Node → Bool) (own : Node → List α)
    (change : α → α) : Prop where
  enters : ∀ expr, enter (.expr expr) = true
  enterBare : ∀ node : Node, enter (node.bare source) = enter node
  wrapped : ∀ span wrapper inner, own (.expr (.wrapped span wrapper inner)) = []
  tagged : ∀ span tag quasis parts, own (.expr (.tagged span tag quasis parts)) = []
  ownBare : ∀ node : Node, (∀ expr, node = .expr expr → expr.isWrapped = false) →
    own (node.bare source) = (own node).map change

namespace Tells

variable {enter : Node → Bool} {own : Node → List α} {change : α → α}
  (tells : Tells source enter own change)

include tells

/-- Wrappers tell nothing. -/
theorem told_wrapped (span : Span) (wrapper : Wrapper) (inner : Expr) :
    (Node.expr (.wrapped span wrapper inner)).told enter own = (Node.expr inner).told enter own := by
  rw [Node.told_eq, tells.wrapped, tells.enters, List.nil_append]
  exact List.flatMap_singleton ..

/-- Shutting an expression in a wrapper tells nothing. -/
theorem told_shut (closed : Bool) (expr : Expr) :
    (Node.expr (expr.shut closed)).told enter own = (Node.expr expr).told enter own := by
  cases closed with
  | false => rfl
  | true => exact tells.told_wrapped ..

/-- A note at an expression tells nothing. -/
theorem told_noted (text : String) (expr : Expr) :
    (Node.expr (expr.noted text)).told enter own = (Node.expr expr).told enter own := by
  rw [Expr.noted, Node.told_eq, tells.tagged, tells.enters, List.nil_append]
  exact List.flatMap_singleton ..

/-- What is told of a bare tree is what is told of the tree, with the expressions in it changed. -/
theorem told_bare (node : Node) :
    (node.bare source).told enter own = (node.told enter own).map change := by
  -- The induction is on the size, because the nodes inside a node are found by its children.
  induction size : sizeOf node using Nat.strongRecOn generalizing node with
  | ind size ih =>
    subst size
    by_cases within : ∃ span wrapper inner, node = .expr (.wrapped span wrapper inner)
    · obtain ⟨span, wrapper, inner, rfl⟩ := within
      have smaller : sizeOf (Node.expr inner) < sizeOf (Node.expr (.wrapped span wrapper inner)) :=
        Node.sizeOf_children (List.mem_singleton_self _)
      rw [tells.told_wrapped, ← ih _ smaller (.expr inner) rfl]
      rfl
    · have plain : ∀ expr, node = .expr expr → expr.isWrapped = false := by
        rintro expr rfl
        cases expr with
        | wrapped span wrapper inner => exact absurd ⟨span, wrapper, inner, rfl⟩ within
        | _ => rfl
      have inside : (node.bare source).children.flatMap (Node.told enter own) =
          (node.children.flatMap (Node.told enter own)).map change := by
        rw [Node.flatMap_bare tells.told_noted tells.told_shut plain, List.map_flatMap]
        exact List.flatMap_congr fun part child => ih _ (Node.sizeOf_children child) part rfl
      rw [Node.told_eq, Node.told_eq, tells.ownBare node plain, tells.enterBare, List.map_append,
        inside]
      split <;> rfl

end Tells

/-- The identifier that a node is, if it is one. -/
def Node.own : Node → List Id
  | .ident id => [id]
  | _ => []

/-- The identifiers in a bare node are those in the node. -/
theorem Node.idents_bare (node : Node) : (node.bare source).idents = node.idents := by
  have tells : Tells source (fun _ => true) own id :=
    { enters := fun _ => rfl
      enterBare := fun _ => rfl
      wrapped := fun _ _ _ => rfl
      tagged := fun _ _ _ _ => rfl
      ownBare := fun node _ => by cases node <;> rfl }
  have told : ∀ node : Node, node.idents = node.told (fun _ => true) own := by
    intro node
    rw [idents, told, all, List.filterMap_eq_flatMap_toList]
    refine List.flatMap_congr fun inner _ => ?_
    cases inner <;> rfl
  rw [told, told, tells.told_bare, List.map_id]

/-! ### What wrappers could hide -/

/-- The name that a chain starts from is that of its bare form. -/
theorem Expr.root?_bare {id : Id} (expr : Expr) (root : expr.root? = some id) :
    (expr.bare source).root? = some id := by
  cases expr with
  | ident => exact root
  | member _ base _ => exact root?_bare base root
  | wrapped _ wrapper inner =>
    cases wrapper with
    | parentheses => exact root?_bare inner root
    | _ => cases root
  | _ => cases root
termination_by sizeOf expr

/-- A bare base reaches the same name as the base. -/
theorem Expr.root?_shut (expr : Expr) :
    ((expr.bare source).shut expr.root?.isNone).root? = expr.root? := by
  cases root : expr.root? with
  | none => rfl
  | some id => exact root?_bare expr root

/-- A bare initializer is a definition when the initializer is one as it stands. -/
theorem Expr.isDefinition_shut (expr : Expr) :
    ((expr.bare source).shut expr.hidesDefinition).isDefinition = expr.isDefinition := by
  have shown : ∀ inner : Expr, inner.isWrapped = false →
      (inner.bare source).isDefinition = inner.isDefinition := by
    intro inner plain
    cases inner with
    | wrapped => cases plain
    | _ => rfl
  cases within : expr.isWrapped with
  | false =>
    rw [hidesDefinition, within, Bool.false_and]
    exact shown expr within
  | true =>
    have bare : expr.isDefinition = false := by
      cases expr with
      | wrapped => rfl
      | _ => cases within
    rw [hidesDefinition, within, Bool.true_and, bare]
    cases hidden : expr.unwrap.isDefinition with
    | true => rfl
    | false =>
      rw [shut, if_neg Bool.false_ne_true, ← bare_unwrap, shown _ expr.isWrapped_unwrap, hidden]

/-- A bare key is written like the key. -/
theorem Key.written?_bare (key : Key) : (key.bare source).written? = key.written? := by
  cases key <;> rfl

mutual

/-- A bare pattern binds the same names. -/
theorem Pattern.bound_bare : ∀ pattern : Pattern, (pattern.bare source).bound = pattern.bound
  | .ident _ => rfl
  | .array elements => boundElements_bare elements
  | .object properties => boundProperties_bare properties
  | .withDefault inner _ => inner.bound_bare
  | .rest inner => inner.bound_bare
  | .expr _ => rfl
  | .invalid => rfl

/-- The elements of a bare array pattern bind the same names. -/
theorem boundElements_bare : ∀ elements : List (Option Pattern),
    boundElements (barePatterns source elements) = boundElements elements
  | [] => rfl
  | none :: rest => boundElements_bare rest
  | some inner :: rest => by
    rw [barePatterns, boundElements, boundElements, inner.bound_bare, boundElements_bare rest]

/-- The properties of a bare object pattern bind the same names. -/
theorem boundProperties_bare : ∀ properties : List PatternProperty,
    boundProperties (bareProperties source properties) = boundProperties properties
  | [] => rfl
  | .keyed _ inner :: rest => by
    rw [bareProperties, PatternProperty.bare, boundProperties, boundProperties, inner.bound_bare,
      boundProperties_bare rest]
  | .shorthand id _ :: rest => by
    rw [bareProperties, PatternProperty.bare, boundProperties, boundProperties,
      boundProperties_bare rest]
  | .rest inner :: rest => by
    rw [bareProperties, PatternProperty.bare, boundProperties, boundProperties, inner.bound_bare,
      boundProperties_bare rest]

end

end Syntax

open Syntax

section

variable (source : String → Span → String)

/-- The variable with its expressions bare. -/
def Variable.bare (value : Variable) : Variable :=
  { init := bareInit? source value.init
    path := value.path
    fallback := value.fallback.map (Expr.bare source) }

/-- The binding with its expressions bare. -/
def Binding.bare : Binding → Binding
  | .variable value => .variable (value.bare source)
  | .imported origin name => .imported origin name
  | .sealed => .sealed

/-- The finding with its expressions bare. -/
def Finding.bare : Finding → Finding
  | .binds id binding => .binds id (binding.bare source)
  | .reassigns id => .reassigns id

end

variable {source : String → Span → String}

namespace Finding

/-- What a pattern binds without values is found in its bare form. -/
theorem ofSealed_bare (pattern : Pattern) :
    ofSealed (pattern.bare source) = (ofSealed pattern).map (bare source) := by
  rw [ofSealed, ofSealed, pattern.bound_bare, List.map_map]
  rfl

mutual

/-- What a pattern binds is found in its bare form, with the expressions bare. -/
theorem ofPattern_bare (init : Option Expr) : ∀ (pattern : Pattern) (path : List Step)
    (fallback : Option Expr),
    ofPattern (bareInit? source init) path (fallback.map (Expr.bare source)) (pattern.bare source) =
      (ofPattern init path fallback pattern).map (bare source)
  | .ident _, _, _ => rfl
  | .object properties, path, _ => ofProperties_bare init properties path
  | .array elements, path, _ => ofElements_bare init elements path 0
  | .withDefault inner value, path, _ => ofPattern_bare init inner path (some value)
  | .rest inner, _, _ => ofSealed_bare inner
  | .expr _, _, _ => rfl
  | .invalid, _, _ => rfl

/-- What the properties of a pattern bind is found in their bare form, with the expressions bare. -/
theorem ofProperties_bare (init : Option Expr) : ∀ (properties : List PatternProperty)
    (path : List Step),
    ofProperties (bareInit? source init) path (bareProperties source properties) =
      (ofProperties init path properties).map (bare source)
  | [], _ => rfl
  | .keyed key inner :: rest, path => by
    rw [bareProperties, PatternProperty.bare, ofProperties, ofProperties, key.written?_bare,
      ofProperties_bare init rest, List.map_append]
    cases key.written? with
    | none => rw [ofSealed_bare]
    | some name => exact congrArg (· ++ _) (ofPattern_bare init inner _ none)
  | .shorthand id fallback :: rest, path => by
    rw [bareProperties, PatternProperty.bare, ofProperties, ofProperties, ofProperties_bare init rest,
      bareExpr?_eq]
    rfl
  | .rest inner :: rest, path => by
    rw [bareProperties, PatternProperty.bare, ofProperties, ofProperties, ofProperties_bare init rest,
      ofSealed_bare, List.map_append]

/-- What the elements of a pattern bind is found in their bare form, with the expressions bare. -/
theorem ofElements_bare (init : Option Expr) : ∀ (elements : List (Option Pattern))
    (path : List Step) (position : Nat),
    ofElements (bareInit? source init) path position (barePatterns source elements) =
      (ofElements init path position elements).map (bare source)
  | [], _, _ => rfl
  | none :: rest, path, position => ofElements_bare init rest path (position + 1)
  | some inner :: rest, path, position => by
    rw [barePatterns, ofElements, ofElements, ofElements_bare init rest, List.map_append]
    exact congrArg (· ++ _) (ofPattern_bare init inner _ none)

end

/-- What a declaration binds is found in its bare form, with the expressions bare. -/
theorem ofDeclarator_bare (declarator : Declarator) :
    ofDeclarator (declarator.bare source) = (ofDeclarator declarator).map (bare source) := by
  obtain ⟨pattern, init⟩ := declarator
  have defines : (bareInit? source init).any Expr.isDefinition = init.any Expr.isDefinition := by
    cases init with
    | none => rfl
    | some init => exact init.isDefinition_shut
  rw [Declarator.bare, ofDeclarator_mk, ofDeclarator_mk, defines]
  by_cases defined : init.any Expr.isDefinition = true
  · rw [if_pos defined, if_pos defined]
    exact ofSealed_bare pattern
  · rw [if_neg defined, if_neg defined]
    exact ofPattern_bare init pattern [] none

/-- What the head of a loop changes is found in its bare form. -/
theorem ofHead_bare (head : LoopHead) :
    ofHead (head.bare source) = (ofHead head).map (bare source) := by
  have patterns : ∀ declarators : List Declarator,
      ((declarators.map (Declarator.bare source)).flatMap fun declarator =>
        ofSealed declarator.pattern) =
      (declarators.flatMap fun declarator => ofSealed declarator.pattern).map (bare source) := by
    intro declarators
    rw [List.flatMap_map, List.map_flatMap]
    refine List.flatMap_congr fun declarator _ => ?_
    obtain ⟨pattern, init⟩ := declarator
    exact ofSealed_bare pattern
  cases head with
  | declarations declarators | usings declarators =>
    rw [LoopHead.bare, bareDeclarators_eq]
    exact patterns declarators
  | pattern inner =>
    rw [LoopHead.bare, ofHead, ofHead, ← @Node.idents_bare source (.pattern inner),
      List.map_map]
    rfl

/-- What an assignment changes is found in the bare form of its target. -/
theorem ofTarget_bare (target : Target) :
    ofTarget (target.bare source) = (ofTarget target).map (bare source) := by
  cases target with
  | member base key =>
    rw [Target.bare, ofTarget, ofTarget, base.root?_shut, List.map_map]
    rfl
  | pattern inner =>
    rw [Target.bare, ofTarget, ofTarget, ← @Node.idents_bare source (.pattern inner),
      List.map_map]
    rfl
  | _ => rfl

/-- A node does the same to bindings when it is bare. -/
theorem tells_ofNode : Tells source (fun
    | .head _ => false
    | _ => true) ofNode (bare source) where
  enters _ := rfl
  enterBare node := by cases node <;> rfl
  wrapped _ _ _ := rfl
  tagged _ _ _ _ := rfl
  ownBare node plain := by
    cases node with
    | expr value =>
      have plain := plain value rfl
      cases value with
      | wrapped => cases plain
      | assign _ target _ => exact ofTarget_bare target
      | update _ operand =>
        simp only [Node.bare, Expr.bare, ofNode, operand.root?_shut, List.map_map]
        rfl
      | _ => rfl
    | declarations declarators =>
      rw [Node.bare, ofNode, ofNode, bareDeclarators_eq, List.flatMap_map, List.map_flatMap]
      exact List.flatMap_congr fun declarator _ => ofDeclarator_bare declarator
    | forEach head _ _ => exact ofHead_bare head
    | importFrom origin typeOnly specifiers =>
      cases typeOnly with
      | true => rfl
      | false =>
        rw [Node.bare, ofNode, List.map_map]
        refine List.map_congr_left fun specifier _ => ?_
        cases specifier <;> rfl
    | _ => rfl

/-- A bare module does the same to bindings. -/
theorem ofModule_bare (module : Module) :
    ofModule ⟨module.items.map (Node.bare source)⟩ = (ofModule module).map (bare source) := by
  simp only [ofModule, Module.walk, List.flatMap_map, List.flatMap_assoc, List.map_flatMap]
  refine List.flatMap_congr fun item _ => ?_
  have told := (@tells_ofNode source).told_bare item
  simp only [Node.told, List.map_flatMap] at told
  exact told

end Finding

namespace Export

/-- What a default export of an expression exports. -/
def ofDefault : Expr → Export
  | .ident _ id => .binding id
  | expr => .value expr

/-- The export with its expression bare. A wrapped name is exported like the name itself, unless it
has a value without a binding. -/
def bare (source : String → Span → String) : Export → Export
  | .binding id => .binding id
  | .forward origin name => .forward origin name
  | .value expr => ofDefault ((expr.bare source).shut expr.namesValue)

/-- A default export of an expression exports it under the standard name. -/
theorem ofItem_exportDefault (span : Span) (expr : Expr) :
    ofItem (.exportDefault span expr) = [(standardName, ofDefault expr)] := by
  cases expr <;> rfl

/-- A bare item exports the same, with its expressions bare. -/
theorem ofItem_bare (item : Node) :
    ofItem (item.bare source) = Entries.mapValues (bare source) (ofItem item) := by
  cases item with
  | exportDeclaration declaration =>
    cases declaration with
    | declarations declarators =>
      rw [Node.bare, Node.bare, ofItem, ofItem, bareDeclarators_eq, List.flatMap_map,
        Entries.mapValues, List.map_flatMap]
      refine List.flatMap_congr fun declarator _ => ?_
      obtain ⟨pattern, init⟩ := declarator
      rw [Declarator.bare, Declarator.pattern, pattern.bound_bare, List.map_map]
      rfl
    | _ => rfl
  | exportNames origin typeOnly specifiers =>
    cases typeOnly with
    | true => rfl
    | false =>
      rw [Node.bare, ofItem, Entries.mapValues, List.map_filterMap]
      refine List.filterMap_congr fun specifier _ => ?_
      cases specifier with
      | named name exported => cases origin <;> cases name <;> rfl
      | whole exported => cases origin <;> rfl
  | exportDefault span value =>
    rw [Node.bare, ofItem_exportDefault, ofItem_exportDefault]
    cases value with
    | ident => rfl
    | wrapped => rfl
    | _ => rfl
  | _ => rfl

/-- A default export of a name is a binding when the name needs one, and an expression otherwise. -/
theorem bare_value (expr : Expr) :
    (∃ span id, expr.unwrap = .ident span id ∧ builtin? id.name = none ∧
      bare source (.value expr) = .binding id) ∨
    bare source (.value expr) = .value ((expr.bare source).shut expr.namesValue) := by
  have plain := expr.isWrapped_unwrap
  rw [bare, Expr.namesValue, ← expr.bare_unwrap]
  cases inner : expr.unwrap with
  | ident span id =>
    cases value : builtin? id.name with
    | none => exact .inl ⟨span, id, rfl, value, by simp [value, Expr.shut, Expr.bare, ofDefault]⟩
    | some => exact .inr (by simp [value, Expr.shut, ofDefault])
  | wrapped => rw [inner] at plain; cases plain
  | _ => exact .inr rfl

/-- An expression that is exported like a name is that name within wrappers. -/
theorem unwrap_of_bare_value {expr : Expr} {id : Id}
    (same : bare source (.value expr) = .binding id) :
    builtin? id.name = none ∧ ∃ span, expr.unwrap = .ident span id := by
  rcases @bare_value source expr with ⟨span, other, name, plain, binding⟩ | value
  · rw [binding] at same
    obtain rfl := Export.binding.inj same
    exact ⟨plain, span, name⟩
  · rw [value] at same
    cases same

/-- An expression is not exported like what another module exports. -/
theorem bare_value_ne_forward (expr : Expr) (origin : String) (name : Imported) :
    bare source (.value expr) ≠ .forward origin name := by
  intro same
  rcases @bare_value source expr with ⟨_, _, _, _, binding⟩ | value
  · rw [binding] at same
    cases same
  · rw [value] at same
    cases same

/-- Expressions that are exported alike have one bare form. -/
theorem rewraps_of_bare_value {other : String → Span → String} {expr twin : Expr}
    (same : bare source (.value expr) = bare other (.value twin)) :
    expr.Rewraps source other twin := by
  rcases @bare_value other twin with ⟨_, id, name, _, binding⟩ | value
  · obtain ⟨_, span, named⟩ := unwrap_of_bare_value (same.trans binding)
    rw [Expr.Rewraps, ← expr.bare_unwrap, ← twin.bare_unwrap, named, name]
    rfl
  · rcases @bare_value source expr with ⟨_, _, _, _, binding⟩ | valueTwin
    · rw [binding, value] at same
      cases same
    · rw [valueTwin, value] at same
      exact (Expr.shut_inj (Export.value.inj same)).2

/-- A bare item takes over the exports of the same module. -/
theorem star?_bare (item : Node) : star? (item.bare source) = star? item := by
  cases item <;> rfl

end Export

namespace Scope

/-- The scope with its expressions bare. -/
def bare (source : String → Span → String) (scope : Scope) : Scope :=
  { file := scope.file
    bindings := Entries.mapValues (Binding.bare source) scope.bindings
    reassigned := scope.reassigned
    exports := Entries.mapValues (Export.bare source) scope.exports
    stars := scope.stars }

/-- The scope of a bare module is the bare scope of the module. -/
theorem collect_bare (file : Path) (module : Module) :
    collect file ⟨module.items.map (Node.bare source)⟩ = (collect file module).bare source := by
  have listed : ∀ {κ α β : Type} [BEq κ] (change : α → β) (pairs : Entries κ α),
      Entries.ofList (Entries.mapValues change pairs) =
        Entries.mapValues change (Entries.ofList pairs) :=
    fun change pairs => Entries.insertAll_mapValues change [] pairs
  have made : ∀ findings : List Finding,
      (findings.map (Finding.bare source)).filterMap Finding.made? =
        Entries.mapValues (Binding.bare source) (findings.filterMap Finding.made?) := by
    intro findings
    rw [List.filterMap_map, Entries.mapValues, List.map_filterMap]
    refine List.filterMap_congr fun finding _ => ?_
    cases finding <;> rfl
  have changed : ∀ findings : List Finding,
      (findings.map (Finding.bare source)).filterMap Finding.changed? =
        findings.filterMap Finding.changed? := by
    intro findings
    rw [List.filterMap_map]
    refine List.filterMap_congr fun finding _ => ?_
    cases finding <;> rfl
  have exported : (module.items.map (Node.bare source)).flatMap Export.ofItem =
      Entries.mapValues (Export.bare source) (module.items.flatMap Export.ofItem) := by
    rw [List.flatMap_map, Entries.mapValues, List.map_flatMap]
    exact List.flatMap_congr fun item _ => Export.ofItem_bare item
  have stars : (module.items.map (Node.bare source)).filterMap Export.star? =
      module.items.filterMap Export.star? := by
    rw [List.filterMap_map]
    exact List.filterMap_congr fun item _ => Export.star?_bare item
  simp only [collect, bare, Finding.ofModule_bare, made, changed, exported, stars, listed]

end Scope

end Glean
