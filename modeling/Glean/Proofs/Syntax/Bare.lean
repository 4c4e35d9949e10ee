import Glean.Evaluation.Step
import Glean.Proofs.Syntax.Inside
import Mathlib.Data.List.Forall2

/-!
# Bare trees

The bare form of a tree is the tree without its wrappers and spans, so trees that differ in wrappers
have one bare form. What a program can tell of wrappers stays in it, as one wrapper of a fixed sort
(`Expr.shut`) or as a text:

* whether an assignment reaches a name through the members before it;
* whether an initializer is a definition as it stands, and not within wrappers;
* whether a default export names a value that needs no binding within wrappers;
* the source texts of spreads and of computed keys in objects, under which they may be stored.
-/

namespace Glean.Syntax

/-- The span of every bare expression. -/
def blank : Span := ⟨0, 0⟩

namespace Expr

/-- Whether wrappers stand around the expression. -/
def isWrapped : Expr → Bool
  | wrapped .. => true
  | _ => false

/-- Puts an expression within a wrapper, if it is to be closed. -/
def shut (closed : Bool) (expr : Expr) : Expr :=
  if closed then .wrapped blank .cast expr else expr

/-- An expression with a text noted at it. -/
def noted (text : String) (expr : Expr) : Expr := .tagged blank expr [⟨some text, text⟩] []

/-- Whether a wrapped expression is a definition. -/
def hidesDefinition (expr : Expr) : Bool := expr.isWrapped && expr.unwrap.isDefinition

/-- Whether an expression is a name that has a value without a binding. -/
def namesValue (expr : Expr) : Bool :=
  match expr.unwrap with
  | .ident _ id => (builtin? id.name).isSome
  | _ => false

end Expr

/-- The text noted at a key: that of its source, if the key is computed. -/
def Key.note (source : String → Span → String) : Key → Key → Key
  | computed span _, computed _ value =>
    computed blank (value.noted (source "[computed]" span))
  | _, key => key

section

variable (source : String → Span → String)

mutual

/-- The expression without wrappers and spans. -/
@[simp]
def Expr.bare : Expr → Expr
  | .ident _ id => .ident blank id
  | .literal _ value => .literal blank value
  | .template _ quasis interpolations => .template blank quasis (bareExprs interpolations)
  | .tagged _ tag quasis interpolations =>
    .tagged blank tag.bare quasis (bareExprs interpolations)
  | .array _ elements => .array blank (bareElements elements)
  | .object _ members => .object blank (bareMembers members)
  | .member _ base key => .member blank base.bare key.bare
  | .optionalMember _ base key => .optionalMember blank base.bare key.bare
  | .optionalCall _ callee arguments => .optionalCall blank callee.bare (bareArguments arguments)
  | .conditional _ test whenTrue whenFalse =>
    .conditional blank test.bare whenTrue.bare whenFalse.bare
  | .logical _ operator left right => .logical blank operator left.bare right.bare
  | .binary _ operator left right => .binary blank operator left.bare right.bare
  | .unary _ operator operand => .unary blank operator operand.bare
  | .call _ callee arguments => .call blank (bareExpr? callee) (bareArguments arguments)
  | .assign _ target value => .assign blank target.bare value.bare
  | .update _ operand => .update blank (operand.bare.shut operand.root?.isNone)
  | .wrapped _ _ inner => inner.bare
  | .definition _ kind parts => .definition blank kind (bareNodes parts)
  | .other _ typeName parts => .other blank typeName (bareNodes parts)

/-- The argument without wrappers and spans. -/
@[simp]
def Argument.bare : Argument → Argument
  | .single value => .single value.bare
  | .spread value => .spread value.bare

/-- The key without wrappers and spans. -/
@[simp]
def Key.bare : Key → Key
  | .computed _ value => .computed blank value.bare
  | .name text => .name text
  | .string text => .string text
  | .number value => .number value
  | .bigint digits => .bigint digits
  | .hidden name => .hidden name

/-- The member without wrappers and spans, with the source texts that it may be stored under. -/
@[simp]
def Member.bare : Member → Member
  | .spread span value => .spread blank (value.bare.noted (source "..." span))
  | .shorthand _ id => .shorthand blank id
  | .keyed _ key value => .keyed blank (key.note source key.bare) value.bare
  | .accessor _ kind key parts => .accessor blank kind (key.note source key.bare) (bareNodes parts)
  | .defaulted _ id value => .defaulted blank id value.bare

/-- The target without wrappers and spans. -/
@[simp]
def Target.bare : Target → Target
  | .ident id => .ident id
  | .member object key => .member (object.bare.shut object.root?.isNone) key.bare
  | .pattern inner => .pattern inner.bare
  | .wrapped _ inner => .wrapped .parentheses inner.bare
  | .other parts => .other (bareNodes parts)

/-- The pattern without wrappers and spans. -/
@[simp]
def Pattern.bare : Pattern → Pattern
  | .ident id => .ident id
  | .array elements => .array (barePatterns elements)
  | .object properties => .object (bareProperties properties)
  | .withDefault inner value => .withDefault inner.bare value.bare
  | .rest inner => .rest inner.bare
  | .expr value => .expr value.bare
  | .invalid => .invalid

/-- The property without wrappers and spans. -/
@[simp]
def PatternProperty.bare : PatternProperty → PatternProperty
  | .keyed key inner => .keyed key.bare inner.bare
  | .shorthand id fallback => .shorthand id (bareExpr? fallback)
  | .rest inner => .rest inner.bare

/-- The declaration without wrappers and spans. -/
@[simp]
def Declarator.bare : Declarator → Declarator
  | .mk pattern init => .mk pattern.bare (bareInit? init)

/-- The head of a loop without wrappers and spans. -/
@[simp]
def LoopHead.bare : LoopHead → LoopHead
  | .declarations declarators => .declarations (bareDeclarators declarators)
  | .usings declarators => .usings (bareDeclarators declarators)
  | .pattern inner => .pattern inner.bare

/-- The value of an attribute without wrappers and spans. -/
@[simp]
def AttributeValue.bare : AttributeValue → AttributeValue
  | .missing => .missing
  | .literal _ value => .literal blank value
  | .expr value => .expr value.bare
  | .empty => .empty
  | .element parts => .element (bareNodes parts)

/-- The attribute without wrappers and spans. -/
@[simp]
def Attribute.bare : Attribute → Attribute
  | .named _ name value => .named blank name value.bare
  | .spread _ value => .spread blank value.bare

/-- The opening without wrappers and spans. -/
@[simp]
def Opening.bare : Opening → Opening
  | .mk _ name attributes => .mk blank name (bareAttributes attributes)

/-- The node without wrappers and spans. -/
@[simp]
def Node.bare : Node → Node
  | .expr value => .expr value.bare
  | .pattern value => .pattern value.bare
  | .target value => .target value.bare
  | .member value => .member value.bare
  | .attr value => .attr value.bare
  | .opening value => .opening value.bare
  | .head value => .head value.bare
  | .ident id => .ident id
  | .declarations declarators => .declarations (bareDeclarators declarators)
  | .usings declarators => .usings (bareDeclarators declarators)
  | .forEach head items body => .forEach head.bare items.bare (bareNodes body)
  | .functionDeclaration id parts => .functionDeclaration id (bareNodes parts)
  | .classDeclaration id parts => .classDeclaration id (bareNodes parts)
  | .importFrom source typeOnly specifiers => .importFrom source typeOnly specifiers
  | .exportDeclaration declaration => .exportDeclaration declaration.bare
  | .exportNames source typeOnly specifiers => .exportNames source typeOnly specifiers
  | .exportDefault _ value =>
    .exportDefault blank (value.bare.shut (value.isWrapped && value.namesValue))
  | .exportAll source typeOnly => .exportAll source typeOnly
  | .group parts => .group (bareNodes parts)

/-- An expression without wrappers and spans, if there is one. -/
@[simp]
def bareExpr? : Option Expr → Option Expr
  | none => none
  | some expr => some expr.bare

/-- The initializer of a declaration without wrappers and spans. It stays closed when the wrappers
hide that it is a definition. -/
@[simp]
def bareInit? : Option Expr → Option Expr
  | none => none
  | some init => some (init.bare.shut init.hidesDefinition)

/-- The expressions of a list without wrappers and spans. -/
@[simp]
def bareExprs : List Expr → List Expr
  | [] => []
  | first :: rest => first.bare :: bareExprs rest

/-- The elements of an array without wrappers and spans. -/
@[simp]
def bareElements : List (Option Argument) → List (Option Argument)
  | [] => []
  | none :: rest => none :: bareElements rest
  | some first :: rest => some first.bare :: bareElements rest

/-- The arguments of a call without wrappers and spans. -/
@[simp]
def bareArguments : List Argument → List Argument
  | [] => []
  | first :: rest => first.bare :: bareArguments rest

/-- The members of an object without wrappers and spans. -/
@[simp]
def bareMembers : List Member → List Member
  | [] => []
  | first :: rest => first.bare :: bareMembers rest

/-- The elements of an array pattern without wrappers and spans. -/
@[simp]
def barePatterns : List (Option Pattern) → List (Option Pattern)
  | [] => []
  | none :: rest => none :: barePatterns rest
  | some first :: rest => some first.bare :: barePatterns rest

/-- The properties of an object pattern without wrappers and spans. -/
@[simp]
def bareProperties : List PatternProperty → List PatternProperty
  | [] => []
  | first :: rest => first.bare :: bareProperties rest

/-- The declarations of a list without wrappers and spans. -/
@[simp]
def bareDeclarators : List Declarator → List Declarator
  | [] => []
  | first :: rest => first.bare :: bareDeclarators rest

/-- The attributes of an element without wrappers and spans. -/
@[simp]
def bareAttributes : List Attribute → List Attribute
  | [] => []
  | first :: rest => first.bare :: bareAttributes rest

/-- The nodes of a list without wrappers and spans. -/
@[simp]
def bareNodes : List Node → List Node
  | [] => []
  | first :: rest => first.bare :: bareNodes rest

end

variable {source}

/-- An optional expression is bared where there is one. -/
@[simp]
theorem bareExpr?_eq (expr? : Option Expr) :
    bareExpr? source expr? = expr?.map (Expr.bare source) := by
  cases expr? <;> rfl

/-- Expressions are bared one by one. -/
@[simp]
theorem bareExprs_eq (list : List Expr) : bareExprs source list = list.map (Expr.bare source) := by
  induction list with
  | nil => rfl
  | cons first rest ih => rw [bareExprs, ih, List.map_cons]

/-- The elements of an array are bared one by one, and holes stay. -/
@[simp]
theorem bareElements_eq (list : List (Option Argument)) :
    bareElements source list = list.map (Option.map (Argument.bare source)) := by
  induction list with
  | nil => rfl
  | cons first rest ih => cases first <;> rw [bareElements, ih] <;> rfl

/-- Arguments are bared one by one. -/
@[simp]
theorem bareArguments_eq (list : List Argument) :
    bareArguments source list = list.map (Argument.bare source) := by
  induction list with
  | nil => rfl
  | cons first rest ih => rw [bareArguments, ih, List.map_cons]

/-- Members are bared one by one. -/
@[simp]
theorem bareMembers_eq (list : List Member) :
    bareMembers source list = list.map (Member.bare source) := by
  induction list with
  | nil => rfl
  | cons first rest ih => rw [bareMembers, ih, List.map_cons]

/-- The elements of an array pattern are bared one by one, and holes stay. -/
@[simp]
theorem barePatterns_eq (list : List (Option Pattern)) :
    barePatterns source list = list.map (Option.map (Pattern.bare source)) := by
  induction list with
  | nil => rfl
  | cons first rest ih => cases first <;> rw [barePatterns, ih] <;> rfl

/-- The properties of an object pattern are bared one by one. -/
@[simp]
theorem bareProperties_eq (list : List PatternProperty) :
    bareProperties source list = list.map (PatternProperty.bare source) := by
  induction list with
  | nil => rfl
  | cons first rest ih => rw [bareProperties, ih, List.map_cons]

/-- Declarations are bared one by one. -/
@[simp]
theorem bareDeclarators_eq (list : List Declarator) :
    bareDeclarators source list = list.map (Declarator.bare source) := by
  induction list with
  | nil => rfl
  | cons first rest ih => rw [bareDeclarators, ih, List.map_cons]

/-- Attributes are bared one by one. -/
@[simp]
theorem bareAttributes_eq (list : List Attribute) :
    bareAttributes source list = list.map (Attribute.bare source) := by
  induction list with
  | nil => rfl
  | cons first rest ih => rw [bareAttributes, ih, List.map_cons]

/-- Nodes are bared one by one. -/
@[simp]
theorem bareNodes_eq (list : List Node) : bareNodes source list = list.map (Node.bare source) := by
  induction list with
  | nil => rfl
  | cons first rest ih => rw [bareNodes, ih, List.map_cons]

namespace Expr

/-- Wrappers make no difference to the bare form. -/
theorem bare_unwrap (expr : Expr) : expr.unwrap.bare source = expr.bare source := by
  fun_induction unwrap expr with
  | case1 _ _ inner ih => rw [ih, Expr.bare]
  | case2 => rfl

/-- No wrapper is left around an unwrapped expression. -/
theorem isWrapped_unwrap (expr : Expr) : expr.unwrap.isWrapped = false := by
  fun_induction unwrap expr with
  | case1 _ _ _ ih => exact ih
  | case2 expr bare =>
    cases expr with
    | wrapped span wrapper inner => exact absurd rfl (bare span wrapper inner)
    | _ => rfl

/-- A bare expression has no wrappers. -/
theorem isWrapped_bare (expr : Expr) : (expr.bare source).isWrapped = false := by
  rw [← bare_unwrap]
  have plain := expr.isWrapped_unwrap
  generalize expr.unwrap = inner at plain ⊢
  cases inner with
  | wrapped => cases plain
  | _ => rfl

/-- What is closed in the one bare form is closed in the other. -/
theorem shut_inj {other : String → Span → String} {closed closedTwin : Bool} {expr twin : Expr}
    (same : (expr.bare source).shut closed = (twin.bare other).shut closedTwin) :
    closed = closedTwin ∧ expr.bare source = twin.bare other := by
  have first : (expr.bare source).isWrapped = false := isWrapped_bare expr
  have second : (twin.bare other).isWrapped = false := isWrapped_bare twin
  cases closed <;> cases closedTwin <;>
    simp only [shut, Bool.false_eq_true, if_false, if_true] at same
  · exact ⟨rfl, same⟩
  · rw [same] at first
    cases first
  · rw [← same] at second
    cases second
  · exact ⟨rfl, (Expr.wrapped.inj same).2.2⟩

end Expr

/-! ### Trees with one bare form -/

variable (source) (other : String → Span → String)

/-- The two expressions have one bare form, with the source texts of either. -/
def Expr.Rewraps (expr twin : Expr) : Prop := expr.bare source = twin.bare other

/-- Two expressions without wrappers are of one sort, and what evaluation looks at in them has one
bare form. -/
inductive Expr.Matches : Expr → Expr → Prop where
  | ident {span place : Span} (id : Id) : Matches (.ident span id) (.ident place id)
  | literal {span place : Span} (value : Literal) :
    Matches (.literal span value) (.literal place value)
  | template {span place : Span} (quasis : List Quasi) {parts twins : List Expr}
    (each : List.Forall₂ (Rewraps source other) parts twins) :
    Matches (.template span quasis parts) (.template place quasis twins)
  | tagged {span place : Span} {tag twin : Expr} (quasis : List Quasi) {parts twins : List Expr}
    (each : List.Forall₂ (Rewraps source other) parts twins) :
    Matches (.tagged span tag quasis parts) (.tagged place twin quasis twins)
  | array {span place : Span} {elements twins : List (Option Argument)}
    (each : List.Forall₂ (fun element twin =>
      element.map (Argument.bare source) = twin.map (Argument.bare other)) elements twins) :
    Matches (.array span elements) (.array place twins)
  | object {span place : Span} {members twins : List Member}
    (each : List.Forall₂ (fun member twin => member.bare source = twin.bare other) members twins) :
    Matches (.object span members) (.object place twins)
  | member {span place : Span} {base twin : Expr} {key keyTwin : Key}
    (bases : Rewraps source other base twin) (keys : key.bare source = keyTwin.bare other) :
    Matches (.member span base key) (.member place twin keyTwin)
  | optionalMember {span place : Span} {base twin : Expr} {key keyTwin : Key}
    (bases : Rewraps source other base twin) (keys : key.bare source = keyTwin.bare other) :
    Matches (.optionalMember span base key) (.optionalMember place twin keyTwin)
  | conditional {span place : Span} {test testTwin whenTrue trueTwin whenFalse falseTwin : Expr}
    (tests : Rewraps source other test testTwin) (yes : Rewraps source other whenTrue trueTwin)
    (no : Rewraps source other whenFalse falseTwin) :
    Matches (.conditional span test whenTrue whenFalse)
      (.conditional place testTwin trueTwin falseTwin)
  | logical {span place : Span} (operator : Logical) {left leftTwin right rightTwin : Expr}
    (lefts : Rewraps source other left leftTwin) (rights : Rewraps source other right rightTwin) :
    Matches (.logical span operator left right) (.logical place operator leftTwin rightTwin)
  | binary {span place : Span} (operator : Binary) {left leftTwin right rightTwin : Expr}
    (lefts : Rewraps source other left leftTwin) (rights : Rewraps source other right rightTwin) :
    Matches (.binary span operator left right) (.binary place operator leftTwin rightTwin)
  | unary {span place : Span} (operator : Unary) {operand twin : Expr}
    (operands : Rewraps source other operand twin) :
    Matches (.unary span operator operand) (.unary place operator twin)
  | call {span place : Span} {callee twin : Option Expr} {arguments twins : List Argument} :
    Matches (.call span callee arguments) (.call place twin twins)
  | optionalCall {span place : Span} {callee twin : Expr} {arguments twins : List Argument} :
    Matches (.optionalCall span callee arguments) (.optionalCall place twin twins)
  | assign {span place : Span} {target targetTwin : Target} {value twin : Expr} :
    Matches (.assign span target value) (.assign place targetTwin twin)
  | update {span place : Span} {operand twin : Expr} :
    Matches (.update span operand) (.update place twin)
  | definition {span place : Span} {kind kindTwin : Definition} {parts twins : List Node} :
    Matches (.definition span kind parts) (.definition place kindTwin twins)
  | other {span place : Span} {typeName typeTwin : String} {parts twins : List Node} :
    Matches (.other span typeName parts) (.other place typeTwin twins)

variable {source other}

/-- Lists that come to one list are alike place by place. -/
theorem forall₂_of_map_eq {α β γ : Type} {f : α → γ} {g : β → γ} {list : List α} {twins : List β}
    (same : list.map f = twins.map g) : List.Forall₂ (fun a b => f a = g b) list twins := by
  rw [← List.forall₂_map_right_iff, ← List.forall₂_map_left_iff, List.forall₂_eq_eq_eq]
  exact same

/-- Expressions with one bare form match when the wrappers around them are taken away. -/
theorem Expr.Rewraps.matches {expr twin : Expr} (rewraps : Rewraps source other expr twin) :
    Matches source other expr.unwrap twin.unwrap := by
  have same : expr.unwrap.bare source = twin.unwrap.bare other := by
    rw [bare_unwrap, bare_unwrap]
    exact rewraps
  have plain := expr.isWrapped_unwrap
  have plainTwin := twin.isWrapped_unwrap
  generalize expr.unwrap = left at same plain
  generalize twin.unwrap = right at same plainTwin
  -- Bare forms of two sorts differ, and no wrapper is left on either side.
  cases left <;> cases right
  case ident.ident => cases same; exact .ident _
  case literal.literal => cases same; exact .literal _
  case template.template =>
    rw [bare, bare, template.injEq, bareExprs_eq, bareExprs_eq] at same
    obtain ⟨-, rfl, each⟩ := same
    exact .template _ (forall₂_of_map_eq each)
  case tagged.tagged =>
    rw [bare, bare, tagged.injEq, bareExprs_eq, bareExprs_eq] at same
    obtain ⟨-, -, rfl, each⟩ := same
    exact .tagged _ (forall₂_of_map_eq each)
  case array.array =>
    rw [bare, bare, array.injEq, bareElements_eq, bareElements_eq] at same
    exact .array (forall₂_of_map_eq same.2)
  case object.object =>
    rw [bare, bare, object.injEq, bareMembers_eq, bareMembers_eq] at same
    exact .object (forall₂_of_map_eq same.2)
  case member.member =>
    obtain ⟨-, bases, keys⟩ := member.inj same
    exact .member bases keys
  case optionalMember.optionalMember =>
    obtain ⟨-, bases, keys⟩ := optionalMember.inj same
    exact .optionalMember bases keys
  case conditional.conditional =>
    obtain ⟨-, tests, yes, no⟩ := conditional.inj same
    exact .conditional tests yes no
  case logical.logical =>
    obtain ⟨-, rfl, lefts, rights⟩ := logical.inj same
    exact .logical _ lefts rights
  case binary.binary =>
    obtain ⟨-, rfl, lefts, rights⟩ := binary.inj same
    exact .binary _ lefts rights
  case unary.unary =>
    obtain ⟨-, rfl, operands⟩ := unary.inj same
    exact .unary _ operands
  case call.call => exact .call
  case optionalCall.optionalCall => exact .optionalCall
  case assign.assign => exact .assign
  case update.update => exact .update
  case definition.definition => exact .definition
  case other.other => exact .other
  all_goals first | (cases plain; done) | (cases plainTwin; done) | cases same

end

end Glean.Syntax
