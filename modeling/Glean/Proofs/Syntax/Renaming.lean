import Glean.Proofs.Syntax.Inside

/-!
# Renamed trees

A renaming puts an identifier in the place of each identifier of a tree and leaves the rest as it is,
spans included. The nodes of the renamed tree are the renamed nodes, in the same order
(`Node.walk_rename`), and only what the renaming does to the identifiers in the tree matters
(`Node.rename_congr`).
-/

namespace Glean.Syntax

section

variable (change : Id → Id)

/-- The name of an element with its first name renamed. -/
@[simp]
def TagName.rename : TagName → TagName
  | .ident id => .ident (change id)
  | .member object property => .member object.rename property
  | .qualified qualifier name => .qualified qualifier name

/-- The imported name with its binding renamed. -/
@[simp]
def ImportSpecifier.rename : ImportSpecifier → ImportSpecifier
  | .named binding imported => .named (change binding) imported
  | .standard binding => .standard (change binding)
  | .whole binding => .whole (change binding)

/-- What is exported, renamed. -/
@[simp]
def ExportName.rename : ExportName → ExportName
  | .ident id => .ident (change id)
  | .string text => .string text

/-- The exported name with what it exports renamed. -/
@[simp]
def ExportSpecifier.rename : ExportSpecifier → ExportSpecifier
  | .named source exported => .named (source.rename change) exported
  | .whole exported => .whole exported

mutual

/-- The expression with its identifiers renamed. -/
@[simp]
def Expr.rename : Expr → Expr
  | .ident span id => .ident span (change id)
  | .literal span value => .literal span value
  | .template span quasis interpolations => .template span quasis (renameExprs interpolations)
  | .tagged span tag quasis interpolations =>
    .tagged span tag.rename quasis (renameExprs interpolations)
  | .array span elements => .array span (renameElements elements)
  | .object span members => .object span (renameMembers members)
  | .member span base key => .member span base.rename key.rename
  | .optionalMember span base key => .optionalMember span base.rename key.rename
  | .optionalCall span callee arguments =>
    .optionalCall span callee.rename (renameArguments arguments)
  | .conditional span test whenTrue whenFalse =>
    .conditional span test.rename whenTrue.rename whenFalse.rename
  | .logical span operator left right => .logical span operator left.rename right.rename
  | .binary span operator left right => .binary span operator left.rename right.rename
  | .unary span operator operand => .unary span operator operand.rename
  | .call span callee arguments => .call span (renameExpr? callee) (renameArguments arguments)
  | .assign span target value => .assign span target.rename value.rename
  | .update span operand => .update span operand.rename
  | .wrapped span wrapper inner => .wrapped span wrapper inner.rename
  | .definition span kind parts => .definition span kind (renameNodes parts)
  | .other span typeName parts => .other span typeName (renameNodes parts)

/-- The argument with its identifiers renamed. -/
@[simp]
def Argument.rename : Argument → Argument
  | .single value => .single value.rename
  | .spread value => .spread value.rename

/-- The key with its identifiers renamed. -/
@[simp]
def Key.rename : Key → Key
  | .computed span value => .computed span value.rename
  | .name text => .name text
  | .string text => .string text
  | .number value => .number value
  | .bigint digits => .bigint digits
  | .hidden name => .hidden name

/-- The member with its identifiers renamed. -/
@[simp]
def Member.rename : Member → Member
  | .spread span value => .spread span value.rename
  | .shorthand span id => .shorthand span (change id)
  | .keyed span key value => .keyed span key.rename value.rename
  | .accessor span kind key parts => .accessor span kind key.rename (renameNodes parts)
  | .defaulted span id value => .defaulted span (change id) value.rename

/-- The target with its identifiers renamed. -/
@[simp]
def Target.rename : Target → Target
  | .ident id => .ident (change id)
  | .member object key => .member object.rename key.rename
  | .pattern inner => .pattern inner.rename
  | .wrapped wrapper inner => .wrapped wrapper inner.rename
  | .other parts => .other (renameNodes parts)

/-- The pattern with its identifiers renamed. -/
@[simp]
def Pattern.rename : Pattern → Pattern
  | .ident id => .ident (change id)
  | .array elements => .array (renamePatterns elements)
  | .object properties => .object (renameProperties properties)
  | .withDefault inner value => .withDefault inner.rename value.rename
  | .rest inner => .rest inner.rename
  | .expr value => .expr value.rename
  | .invalid => .invalid

/-- The property with its identifiers renamed. -/
@[simp]
def PatternProperty.rename : PatternProperty → PatternProperty
  | .keyed key inner => .keyed key.rename inner.rename
  | .shorthand id fallback => .shorthand (change id) (renameExpr? fallback)
  | .rest inner => .rest inner.rename

/-- The declaration with its identifiers renamed. -/
@[simp]
def Declarator.rename : Declarator → Declarator
  | .mk pattern init => .mk pattern.rename (renameExpr? init)

/-- The head of a loop with its identifiers renamed. -/
@[simp]
def LoopHead.rename : LoopHead → LoopHead
  | .declarations declarators => .declarations (renameDeclarators declarators)
  | .usings declarators => .usings (renameDeclarators declarators)
  | .pattern inner => .pattern inner.rename

/-- The value of an attribute with its identifiers renamed. -/
@[simp]
def AttributeValue.rename : AttributeValue → AttributeValue
  | .missing => .missing
  | .literal span value => .literal span value
  | .expr value => .expr value.rename
  | .empty => .empty
  | .element parts => .element (renameNodes parts)

/-- The attribute with its identifiers renamed. -/
@[simp]
def Attribute.rename : Attribute → Attribute
  | .named span name value => .named span name value.rename
  | .spread span value => .spread span value.rename

/-- The opening with its identifiers renamed. -/
@[simp]
def Opening.rename : Opening → Opening
  | .mk span name attributes => .mk span (name.rename change) (renameAttributes attributes)

/-- The node with its identifiers renamed. -/
@[simp]
def Node.rename : Node → Node
  | .expr value => .expr value.rename
  | .pattern value => .pattern value.rename
  | .target value => .target value.rename
  | .member value => .member value.rename
  | .attr value => .attr value.rename
  | .opening value => .opening value.rename
  | .head value => .head value.rename
  | .ident id => .ident (change id)
  | .declarations declarators => .declarations (renameDeclarators declarators)
  | .usings declarators => .usings (renameDeclarators declarators)
  | .forEach head items body => .forEach head.rename items.rename (renameNodes body)
  | .functionDeclaration id parts => .functionDeclaration (change id) (renameNodes parts)
  | .classDeclaration id parts => .classDeclaration (change id) (renameNodes parts)
  | .importFrom source typeOnly specifiers =>
    .importFrom source typeOnly (specifiers.map (ImportSpecifier.rename change))
  | .exportDeclaration declaration => .exportDeclaration declaration.rename
  | .exportNames source typeOnly specifiers =>
    .exportNames source typeOnly (specifiers.map (ExportSpecifier.rename change))
  | .exportDefault span value => .exportDefault span value.rename
  | .exportAll source typeOnly => .exportAll source typeOnly
  | .group parts => .group (renameNodes parts)

/-- An expression with its identifiers renamed, if there is one. -/
@[simp]
def renameExpr? : Option Expr → Option Expr
  | none => none
  | some expr => some expr.rename

/-- The expressions of a list with their identifiers renamed. -/
@[simp]
def renameExprs : List Expr → List Expr
  | [] => []
  | first :: rest => first.rename :: renameExprs rest

/-- The elements of an array with their identifiers renamed. -/
@[simp]
def renameElements : List (Option Argument) → List (Option Argument)
  | [] => []
  | none :: rest => none :: renameElements rest
  | some first :: rest => some first.rename :: renameElements rest

/-- The arguments of a call with their identifiers renamed. -/
@[simp]
def renameArguments : List Argument → List Argument
  | [] => []
  | first :: rest => first.rename :: renameArguments rest

/-- The members of an object with their identifiers renamed. -/
@[simp]
def renameMembers : List Member → List Member
  | [] => []
  | first :: rest => first.rename :: renameMembers rest

/-- The elements of an array pattern with their identifiers renamed. -/
@[simp]
def renamePatterns : List (Option Pattern) → List (Option Pattern)
  | [] => []
  | none :: rest => none :: renamePatterns rest
  | some first :: rest => some first.rename :: renamePatterns rest

/-- The properties of an object pattern with their identifiers renamed. -/
@[simp]
def renameProperties : List PatternProperty → List PatternProperty
  | [] => []
  | first :: rest => first.rename :: renameProperties rest

/-- The declarations of a list with their identifiers renamed. -/
@[simp]
def renameDeclarators : List Declarator → List Declarator
  | [] => []
  | first :: rest => first.rename :: renameDeclarators rest

/-- The attributes of an element with their identifiers renamed. -/
@[simp]
def renameAttributes : List Attribute → List Attribute
  | [] => []
  | first :: rest => first.rename :: renameAttributes rest

/-- The nodes of a list with their identifiers renamed. -/
@[simp]
def renameNodes : List Node → List Node
  | [] => []
  | first :: rest => first.rename :: renameNodes rest

end

/-- The module with its identifiers renamed. -/
def Module.rename (module : Module) : Module := ⟨module.items.map (Node.rename change)⟩

end

variable {change : Id → Id}

/-- An optional expression is renamed where there is one. -/
@[simp]
theorem renameExpr?_eq (expr? : Option Expr) :
    renameExpr? change expr? = expr?.map (Expr.rename change) := by
  cases expr? <;> rfl

/-- Expressions are renamed one by one. -/
@[simp]
theorem renameExprs_eq (list : List Expr) :
    renameExprs change list = list.map (Expr.rename change) := by
  induction list with
  | nil => rfl
  | cons first rest ih => rw [renameExprs, ih, List.map_cons]

/-- The elements of an array are renamed one by one, and holes stay. -/
@[simp]
theorem renameElements_eq (list : List (Option Argument)) :
    renameElements change list = list.map (Option.map (Argument.rename change)) := by
  induction list with
  | nil => rfl
  | cons first rest ih => cases first <;> rw [renameElements, ih] <;> rfl

/-- Arguments are renamed one by one. -/
@[simp]
theorem renameArguments_eq (list : List Argument) :
    renameArguments change list = list.map (Argument.rename change) := by
  induction list with
  | nil => rfl
  | cons first rest ih => rw [renameArguments, ih, List.map_cons]

/-- Members are renamed one by one. -/
@[simp]
theorem renameMembers_eq (list : List Member) :
    renameMembers change list = list.map (Member.rename change) := by
  induction list with
  | nil => rfl
  | cons first rest ih => rw [renameMembers, ih, List.map_cons]

/-- The elements of an array pattern are renamed one by one, and holes stay. -/
@[simp]
theorem renamePatterns_eq (list : List (Option Pattern)) :
    renamePatterns change list = list.map (Option.map (Pattern.rename change)) := by
  induction list with
  | nil => rfl
  | cons first rest ih => cases first <;> rw [renamePatterns, ih] <;> rfl

/-- The properties of an object pattern are renamed one by one. -/
@[simp]
theorem renameProperties_eq (list : List PatternProperty) :
    renameProperties change list = list.map (PatternProperty.rename change) := by
  induction list with
  | nil => rfl
  | cons first rest ih => rw [renameProperties, ih, List.map_cons]

/-- Declarations are renamed one by one. -/
@[simp]
theorem renameDeclarators_eq (list : List Declarator) :
    renameDeclarators change list = list.map (Declarator.rename change) := by
  induction list with
  | nil => rfl
  | cons first rest ih => rw [renameDeclarators, ih, List.map_cons]

/-- Attributes are renamed one by one. -/
@[simp]
theorem renameAttributes_eq (list : List Attribute) :
    renameAttributes change list = list.map (Attribute.rename change) := by
  induction list with
  | nil => rfl
  | cons first rest ih => rw [renameAttributes, ih, List.map_cons]

/-- Nodes are renamed one by one. -/
@[simp]
theorem renameNodes_eq (list : List Node) :
    renameNodes change list = list.map (Node.rename change) := by
  induction list with
  | nil => rfl
  | cons first rest ih => rw [renameNodes, ih, List.map_cons]

/-! ### Renaming to the same -/

/-- Renaming every identifier to itself leaves the name of an element as it is. -/
theorem TagName.rename_id (name : TagName) : name.rename id = name := by
  induction name with
  | member base property ih => rw [rename, ih]
  | _ => rfl

/-- Renaming every identifier to itself leaves what is imported as it is. -/
theorem ImportSpecifier.rename_id : ImportSpecifier.rename id = id := by
  funext specifier
  cases specifier <;> rfl

/-- Renaming every identifier to itself leaves what is exported as it is. -/
theorem ExportSpecifier.rename_id : ExportSpecifier.rename id = id := by
  funext specifier
  cases specifier with
  | named name _ => cases name <;> rfl
  | whole => rfl

mutual

/-- Renaming every identifier to itself leaves an expression as it is. -/
theorem Expr.rename_id : ∀ expr : Expr, expr.rename id = expr
  | .ident .. | .literal .. => rfl
  | .template _ _ interpolations => by rw [Expr.rename, renameExprs_id interpolations]
  | .tagged _ tag _ interpolations => by
    rw [Expr.rename, tag.rename_id, renameExprs_id interpolations]
  | .array _ elements => by rw [Expr.rename, renameElements_id elements]
  | .object _ members => by rw [Expr.rename, renameMembers_id members]
  | .member _ base key => by rw [Expr.rename, base.rename_id, key.rename_id]
  | .optionalMember _ base key => by rw [Expr.rename, base.rename_id, key.rename_id]
  | .optionalCall _ callee arguments => by
    rw [Expr.rename, callee.rename_id, renameArguments_id arguments]
  | .conditional _ test whenTrue whenFalse => by
    rw [Expr.rename, test.rename_id, whenTrue.rename_id, whenFalse.rename_id]
  | .logical _ _ left right => by rw [Expr.rename, left.rename_id, right.rename_id]
  | .binary _ _ left right => by rw [Expr.rename, left.rename_id, right.rename_id]
  | .unary _ _ operand => by rw [Expr.rename, operand.rename_id]
  | .call _ callee arguments => by
    rw [Expr.rename, renameExpr?_id callee, renameArguments_id arguments]
  | .assign _ target value => by rw [Expr.rename, target.rename_id, value.rename_id]
  | .update _ operand => by rw [Expr.rename, operand.rename_id]
  | .wrapped _ _ inner => by rw [Expr.rename, inner.rename_id]
  | .definition _ _ parts => by rw [Expr.rename, renameNodes_id parts]
  | .other _ _ parts => by rw [Expr.rename, renameNodes_id parts]

/-- Renaming every identifier to itself leaves an argument as it is. -/
theorem Argument.rename_id : ∀ argument : Argument, argument.rename id = argument
  | .single value => by rw [Argument.rename, value.rename_id]
  | .spread value => by rw [Argument.rename, value.rename_id]

/-- Renaming every identifier to itself leaves a key as it is. -/
theorem Key.rename_id : ∀ key : Key, key.rename id = key
  | .computed _ value => by rw [Key.rename, value.rename_id]
  | .name _ | .string _ | .number _ | .bigint _ | .hidden _ => rfl

/-- Renaming every identifier to itself leaves a member as it is. -/
theorem Member.rename_id : ∀ member : Member, member.rename id = member
  | .spread _ value => by rw [Member.rename, value.rename_id]
  | .shorthand .. => rfl
  | .keyed _ key value => by rw [Member.rename, key.rename_id, value.rename_id]
  | .accessor _ _ key parts => by rw [Member.rename, key.rename_id, renameNodes_id parts]
  | .defaulted _ _ value => by rw [Member.rename, value.rename_id, id]

/-- Renaming every identifier to itself leaves a target as it is. -/
theorem Target.rename_id : ∀ target : Target, target.rename id = target
  | .ident _ => rfl
  | .member base key => by rw [Target.rename, base.rename_id, key.rename_id]
  | .pattern inner => by rw [Target.rename, inner.rename_id]
  | .wrapped _ inner => by rw [Target.rename, inner.rename_id]
  | .other parts => by rw [Target.rename, renameNodes_id parts]

/-- Renaming every identifier to itself leaves a pattern as it is. -/
theorem Pattern.rename_id : ∀ pattern : Pattern, pattern.rename id = pattern
  | .ident _ | .invalid => rfl
  | .array elements => by rw [Pattern.rename, renamePatterns_id elements]
  | .object properties => by rw [Pattern.rename, renameProperties_id properties]
  | .withDefault inner value => by rw [Pattern.rename, inner.rename_id, value.rename_id]
  | .rest inner => by rw [Pattern.rename, inner.rename_id]
  | .expr value => by rw [Pattern.rename, value.rename_id]

/-- Renaming every identifier to itself leaves a property of a pattern as it is. -/
theorem PatternProperty.rename_id : ∀ property : PatternProperty, property.rename id = property
  | .keyed key inner => by rw [PatternProperty.rename, key.rename_id, inner.rename_id]
  | .shorthand _ fallback => by rw [PatternProperty.rename, renameExpr?_id fallback, id]
  | .rest inner => by rw [PatternProperty.rename, inner.rename_id]

/-- Renaming every identifier to itself leaves a declaration as it is. -/
theorem Declarator.rename_id : ∀ declarator : Declarator, declarator.rename id = declarator
  | .mk pattern init => by rw [Declarator.rename, pattern.rename_id, renameExpr?_id init]

/-- Renaming every identifier to itself leaves the head of a loop as it is. -/
theorem LoopHead.rename_id : ∀ head : LoopHead, head.rename id = head
  | .declarations declarators => by rw [LoopHead.rename, renameDeclarators_id declarators]
  | .usings declarators => by rw [LoopHead.rename, renameDeclarators_id declarators]
  | .pattern inner => by rw [LoopHead.rename, inner.rename_id]

/-- Renaming every identifier to itself leaves the value of an attribute as it is. -/
theorem AttributeValue.rename_id : ∀ value : AttributeValue, value.rename id = value
  | .missing | .literal .. | .empty => rfl
  | .expr value => by rw [AttributeValue.rename, value.rename_id]
  | .element parts => by rw [AttributeValue.rename, renameNodes_id parts]

/-- Renaming every identifier to itself leaves an attribute as it is. -/
theorem Attribute.rename_id : ∀ attr : Attribute, attr.rename id = attr
  | .named _ _ value => by rw [Attribute.rename, value.rename_id]
  | .spread _ value => by rw [Attribute.rename, value.rename_id]

/-- Renaming every identifier to itself leaves an opening as it is. -/
theorem Opening.rename_id : ∀ opening : Opening, opening.rename id = opening
  | .mk _ name attributes => by
    rw [Opening.rename, name.rename_id, renameAttributes_id attributes]

/-- Renaming every identifier to itself leaves a node as it is. -/
theorem Node.rename_id : ∀ node : Node, node.rename id = node
  | .expr value => by rw [Node.rename, value.rename_id]
  | .pattern value => by rw [Node.rename, value.rename_id]
  | .target value => by rw [Node.rename, value.rename_id]
  | .member value => by rw [Node.rename, value.rename_id]
  | .attr value => by rw [Node.rename, value.rename_id]
  | .opening value => by rw [Node.rename, value.rename_id]
  | .head value => by rw [Node.rename, value.rename_id]
  | .ident _ | .exportAll .. => rfl
  | .declarations declarators => by rw [Node.rename, renameDeclarators_id declarators]
  | .usings declarators => by rw [Node.rename, renameDeclarators_id declarators]
  | .forEach head items body => by
    rw [Node.rename, head.rename_id, items.rename_id, renameNodes_id body]
  | .functionDeclaration _ parts => by rw [Node.rename, renameNodes_id parts, id]
  | .classDeclaration _ parts => by rw [Node.rename, renameNodes_id parts, id]
  | .importFrom .. => by rw [Node.rename, ImportSpecifier.rename_id, List.map_id]
  | .exportDeclaration declaration => by rw [Node.rename, declaration.rename_id]
  | .exportNames .. => by rw [Node.rename, ExportSpecifier.rename_id, List.map_id]
  | .exportDefault _ value => by rw [Node.rename, value.rename_id]
  | .group parts => by rw [Node.rename, renameNodes_id parts]

/-- Renaming every identifier to itself leaves an optional expression as it is. -/
theorem renameExpr?_id : ∀ expr? : Option Expr, renameExpr? id expr? = expr?
  | none => rfl
  | some expr => by rw [renameExpr?, expr.rename_id]

/-- Renaming every identifier to itself leaves a list of expressions as it is. -/
theorem renameExprs_id : ∀ list : List Expr, renameExprs id list = list
  | [] => rfl
  | first :: rest => by rw [renameExprs, first.rename_id, renameExprs_id rest]

/-- Renaming every identifier to itself leaves the elements of an array as it is. -/
theorem renameElements_id : ∀ list : List (Option Argument), renameElements id list = list
  | [] => rfl
  | none :: rest => by rw [renameElements, renameElements_id rest]
  | some first :: rest => by rw [renameElements, first.rename_id, renameElements_id rest]

/-- Renaming every identifier to itself leaves a list of arguments as it is. -/
theorem renameArguments_id : ∀ list : List Argument, renameArguments id list = list
  | [] => rfl
  | first :: rest => by rw [renameArguments, first.rename_id, renameArguments_id rest]

/-- Renaming every identifier to itself leaves the members of an object as it is. -/
theorem renameMembers_id : ∀ list : List Member, renameMembers id list = list
  | [] => rfl
  | first :: rest => by rw [renameMembers, first.rename_id, renameMembers_id rest]

/-- Renaming every identifier to itself leaves the elements of an array pattern as it is. -/
theorem renamePatterns_id : ∀ list : List (Option Pattern), renamePatterns id list = list
  | [] => rfl
  | none :: rest => by rw [renamePatterns, renamePatterns_id rest]
  | some first :: rest => by rw [renamePatterns, first.rename_id, renamePatterns_id rest]

/-- Renaming every identifier to itself leaves the properties of an object pattern as it is. -/
theorem renameProperties_id : ∀ list : List PatternProperty, renameProperties id list = list
  | [] => rfl
  | first :: rest => by rw [renameProperties, first.rename_id, renameProperties_id rest]

/-- Renaming every identifier to itself leaves a list of declarations as it is. -/
theorem renameDeclarators_id : ∀ list : List Declarator, renameDeclarators id list = list
  | [] => rfl
  | first :: rest => by rw [renameDeclarators, first.rename_id, renameDeclarators_id rest]

/-- Renaming every identifier to itself leaves a list of attributes as it is. -/
theorem renameAttributes_id : ∀ list : List Attribute, renameAttributes id list = list
  | [] => rfl
  | first :: rest => by rw [renameAttributes, first.rename_id, renameAttributes_id rest]

/-- Renaming every identifier to itself leaves a list of nodes as it is. -/
theorem renameNodes_id : ∀ list : List Node, renameNodes id list = list
  | [] => rfl
  | first :: rest => by rw [renameNodes, first.rename_id, renameNodes_id rest]

end

/-- Renaming every identifier to itself leaves a module as it is. -/
theorem Module.rename_id (module : Module) : module.rename id = module := by
  obtain ⟨items⟩ := module
  rw [rename, ← renameNodes_eq, renameNodes_id]

/-! ### What renaming leaves as it is -/

/-- A renamed expression stands where it stood. -/
@[simp]
theorem Expr.span_rename (expr : Expr) : (expr.rename change).span = expr.span := by
  cases expr <;> rfl

/-- An expression is unwrapped before or after it is renamed. -/
theorem Expr.unwrap_rename (expr : Expr) :
    (expr.rename change).unwrap = expr.unwrap.rename change := by
  fun_induction unwrap expr with
  | case1 _ _ inner ih => rw [Expr.rename, unwrap, ih]
  | case2 expr plain =>
    cases expr with
    | wrapped span wrapper inner => exact absurd rfl (plain span wrapper inner)
    | _ => rfl

/-! ### The nodes of a renamed tree -/

/-- The parts of a renamed key are its parts, renamed. -/
theorem Key.parts_rename (key : Key) :
    (key.rename change).parts = key.parts.map (Node.rename change) := by
  cases key <;> simp [Key.parts]

/-- The node of a renamed argument is its node, renamed. -/
theorem Argument.node_rename (argument : Argument) :
    (argument.rename change).node = argument.node.rename change := by
  cases argument <;> rfl

/-- The parts of a renamed target are its parts, renamed. -/
theorem Target.parts_rename (target : Target) :
    (target.rename change).parts = target.parts.map (Node.rename change) := by
  cases target <;> simp [Target.parts, Key.parts_rename]

/-- The parts of a renamed property of a pattern are its parts, renamed. -/
theorem PatternProperty.parts_rename (property : PatternProperty) :
    (property.rename change).parts = property.parts.map (Node.rename change) := by
  cases property with
  | shorthand id fallback => cases fallback <;> simp [PatternProperty.parts]
  | _ => simp [PatternProperty.parts, Key.parts_rename]

/-- What is present in a list is converted before or after the holes are dropped. -/
theorem flatMap_toList_map {α β : Type} (convert : α → β) (items : List (Option α)) :
    (items.map (Option.map convert)).flatMap Option.toList =
      (items.flatMap Option.toList).map convert := by
  rw [List.flatMap_map, List.map_flatMap]
  refine List.flatMap_congr fun item _ => ?_
  cases item <;> rfl

/-- The parts of a renamed pattern are its parts, renamed. -/
theorem Pattern.parts_rename (pattern : Pattern) :
    (pattern.rename change).parts = pattern.parts.map (Node.rename change) := by
  cases pattern with
  | array elements => simp [Pattern.parts, flatMap_toList_map]
  | object properties =>
    simp [Pattern.parts, List.flatMap_map, List.map_flatMap, PatternProperty.parts_rename]
  | _ => simp [Pattern.parts]

/-- The parts of a renamed declaration are its parts, renamed. -/
theorem Declarator.parts_rename (declarator : Declarator) :
    (declarator.rename change).parts = declarator.parts.map (Node.rename change) := by
  obtain ⟨pattern, init⟩ := declarator
  cases init <;> simp [Declarator.parts]

/-- The parts of a renamed loop's head are its parts, renamed. -/
theorem LoopHead.parts_rename (head : LoopHead) :
    (head.rename change).parts = head.parts.map (Node.rename change) := by
  cases head <;> simp [LoopHead.parts]

/-- The parts of a renamed member are its parts, renamed. -/
theorem Member.parts_rename (member : Member) :
    (member.rename change).parts = member.parts.map (Node.rename change) := by
  cases member <;> simp [Member.parts, Key.parts_rename]

/-- The first name of a renamed tag is its first name, renamed. -/
theorem TagName.root?_rename (name : TagName) :
    (name.rename change).root? = name.root?.map change := by
  induction name with
  | member _ _ ih => exact ih
  | _ => rfl

/-- The parts of a renamed attribute are its parts, renamed. -/
theorem Attribute.parts_rename (attr : Attribute) :
    (attr.rename change).parts = attr.parts.map (Node.rename change) := by
  cases attr with
  | named _ _ value => cases value <;> simp [Attribute.parts, AttributeValue.parts]
  | spread => simp [Attribute.parts]

/-- The parts of a renamed opening are its parts, renamed. -/
theorem Opening.parts_rename (opening : Opening) :
    (opening.rename change).parts = opening.parts.map (Node.rename change) := by
  obtain ⟨_, name, attributes⟩ := opening
  cases root : name.root? <;> simp [Opening.parts, TagName.root?_rename, root]

/-- The parts of a renamed expression are its parts, renamed. -/
theorem Expr.parts_rename (expr : Expr) :
    (expr.rename change).parts = expr.parts.map (Node.rename change) := by
  cases expr with
  | array _ elements =>
    simp [Expr.parts, flatMap_toList_map, Argument.node_rename]
  | call _ callee arguments => cases callee <;> simp [Expr.parts, Argument.node_rename]
  | _ => simp [Expr.parts, Key.parts_rename, Argument.node_rename]

/-- The children of a renamed node are its children, renamed. -/
theorem Node.children_rename (node : Node) :
    (node.rename change).children = node.children.map (Node.rename change) := by
  cases node with
  | expr value => exact value.parts_rename
  | pattern value => exact value.parts_rename
  | target value => exact value.parts_rename
  | member value => exact value.parts_rename
  | attr value => exact value.parts_rename
  | opening value => exact value.parts_rename
  | head value => exact value.parts_rename
  | declarations declarators | usings declarators =>
    simp [Node.children, List.flatMap_map, List.map_flatMap, Declarator.parts_rename]
  | _ => simp [Node.children]

/-- A walk that does not look at identifiers visits the renamed nodes. -/
theorem Node.walk_rename {enter : Node → Bool}
    (blind : ∀ node : Node, enter (node.rename change) = enter node) (node : Node) :
    (node.rename change).walk enter = (node.walk enter).map (Node.rename change) := by
  rw [walk_eq, walk_eq, blind, children_rename, List.map_cons, List.flatMap_map]
  split
  · rw [List.map_flatMap]
    refine congrArg _ (List.flatMap_congr fun part child => ?_)
    exact part.walk_rename blind
  · rfl
termination_by sizeOf node
decreasing_by exact Node.sizeOf_children child

/-- A renamed node holds what it held, renamed. -/
theorem Node.all_rename (node : Node) :
    (node.rename change).all = node.all.map (Node.rename change) :=
  node.walk_rename fun _ => rfl

/-- A walk that does not look at identifiers visits the same nodes after a renaming, renamed. -/
theorem Module.walk_rename {enter : Node → Bool}
    (blind : ∀ node : Node, enter (node.rename change) = enter node) (module : Module) :
    (module.rename change).walk enter = (module.walk enter).map (Node.rename change) := by
  rw [Module.walk, Module.walk, Module.rename, List.flatMap_map, List.map_flatMap]
  exact List.flatMap_congr fun item _ => item.walk_rename blind

/-! ### The identifiers of a tree -/

/-- The identifier that an imported name binds. -/
def ImportSpecifier.binding : ImportSpecifier → Id
  | named binding _ | standard binding | whole binding => binding

/-- The identifiers in an exported name. -/
def ExportSpecifier.idents : ExportSpecifier → List Id
  | named (.ident id) _ => [id]
  | named (.string _) _ | whole _ => []

/-- The identifiers of a node that are not inside the nodes in it. -/
def Node.mentions : Node → List Id
  | ident id => [id]
  | importFrom _ _ specifiers => specifiers.map ImportSpecifier.binding
  | exportNames _ _ specifiers => specifiers.flatMap ExportSpecifier.idents
  | _ => []

/-- The identifiers in a node, those of imports and exports among them. -/
def Node.ids (node : Node) : List Id := node.all.flatMap mentions

/-- The identifiers in a module. -/
def Module.ids (module : Module) : List Id := module.all.flatMap Node.mentions

/-- An identifier that a node mentions is in the node. -/
theorem Node.mem_ids_of_mentions {node : Node} {id : Id} (found : id ∈ node.mentions) :
    id ∈ node.ids :=
  List.mem_flatMap.2 ⟨node, mem_all_self node, found⟩

/-- An identifier is in the node that it is. -/
theorem Node.mem_ids_ident (id : Id) : id ∈ (Node.ident id).ids :=
  mem_ids_of_mentions (List.mem_singleton_self id)

/-- An identifier in a child is in the node. -/
theorem Node.mem_ids_of_child {node part : Node} {id : Id} (child : part ∈ node.children)
    (found : id ∈ part.ids) : id ∈ node.ids := by
  obtain ⟨inner, held, mentioned⟩ := List.mem_flatMap.1 found
  exact List.mem_flatMap.2 ⟨inner, mem_all_of_child child held, mentioned⟩

/-- An identifier in a node of a module is in the module. -/
theorem Module.mem_ids {module : Module} {part : Node} {id : Id} (held : part ∈ module.all)
    (found : id ∈ part.ids) : id ∈ module.ids := by
  obtain ⟨inner, within, mentioned⟩ := List.mem_flatMap.1 found
  exact List.mem_flatMap.2 ⟨inner, mem_all_of_mem_walk held within, mentioned⟩

section Congruence

variable {other : Id → Id}

/-- A key is renamed alike when its parts are. -/
theorem Key.rename_congr {key : Key}
    (same : ∀ part ∈ key.parts, part.rename change = part.rename other) :
    key.rename change = key.rename other := by
  cases key <;> simp_all [Key.parts]

/-- An argument is renamed alike when its node is. -/
theorem Argument.rename_congr {argument : Argument}
    (same : argument.node.rename change = argument.node.rename other) :
    argument.rename change = argument.rename other := by
  cases argument <;> simpa [node, value] using same

/-- A target is renamed alike when its parts are. -/
theorem Target.rename_congr {target : Target}
    (same : ∀ part ∈ target.parts, part.rename change = part.rename other) :
    target.rename change = target.rename other := by
  cases target with
  | member base key =>
    simp only [parts, List.forall_mem_cons] at same
    simp [Node.expr.inj same.1, Key.rename_congr same.2]
  | _ => simpa [parts] using same

/-- A property of a pattern is renamed alike when its parts are. -/
theorem PatternProperty.rename_congr {property : PatternProperty}
    (same : ∀ part ∈ property.parts, part.rename change = part.rename other) :
    property.rename change = property.rename other := by
  cases property with
  | keyed key inner =>
    simp only [parts, List.forall_mem_append, List.forall_mem_singleton] at same
    simp [Key.rename_congr same.1, Node.pattern.inj same.2]
  | shorthand id fallback => cases fallback <;> simpa [parts] using same
  | rest inner => simpa [parts] using same

/-- A pattern is renamed alike when its parts are. -/
theorem Pattern.rename_congr {pattern : Pattern}
    (same : ∀ part ∈ pattern.parts, part.rename change = part.rename other) :
    pattern.rename change = pattern.rename other := by
  cases pattern with
  | array elements =>
    have each : elements.map (Option.map (Pattern.rename change)) =
        elements.map (Option.map (Pattern.rename other)) := by
      refine List.map_congr_left fun element listed => ?_
      cases element with
      | none => rfl
      | some inner =>
        have held : Node.pattern inner ∈ (Pattern.array elements).parts :=
          List.mem_map.2 ⟨inner, List.mem_flatMap.2 ⟨_, listed, by simp⟩, rfl⟩
        exact congrArg some (Node.pattern.inj (same _ held))
    simpa using each
  | object properties =>
    have each : properties.map (PatternProperty.rename change) =
        properties.map (PatternProperty.rename other) :=
      List.map_congr_left fun property listed => PatternProperty.rename_congr fun part held =>
        same part (List.mem_flatMap.2 ⟨property, listed, held⟩)
    simpa using each
  | invalid => rfl
  | _ => simpa [parts] using same

/-- A declaration is renamed alike when its parts are. -/
theorem Declarator.rename_congr {declarator : Declarator}
    (same : ∀ part ∈ declarator.parts, part.rename change = part.rename other) :
    declarator.rename change = declarator.rename other := by
  obtain ⟨pattern, init⟩ := declarator
  cases init <;> simpa [parts] using same

/-- A loop's head is renamed alike when its parts are. -/
theorem LoopHead.rename_congr {head : LoopHead}
    (same : ∀ part ∈ head.parts, part.rename change = part.rename other) :
    head.rename change = head.rename other := by
  cases head <;> simpa [parts] using same

/-- A member is renamed alike when its parts are. -/
theorem Member.rename_congr {member : Member}
    (same : ∀ part ∈ member.parts, part.rename change = part.rename other) :
    member.rename change = member.rename other := by
  cases member with
  | keyed _ key value =>
    simp only [parts, List.forall_mem_append, List.forall_mem_singleton] at same
    simp [Key.rename_congr same.1, Node.expr.inj same.2]
  | accessor _ _ key inner =>
    simp only [parts, List.forall_mem_append] at same
    simpa [Key.rename_congr same.1] using same.2
  | _ => simpa [parts] using same

/-- The name of an element is renamed alike when its first name is. -/
theorem TagName.rename_congr {name : TagName} (same : ∀ id ∈ name.root?, change id = other id) :
    name.rename change = name.rename other := by
  induction name with
  | ident id => simpa [root?] using same
  | member base property ih => rw [TagName.rename, TagName.rename, ih same]
  | qualified => rfl

/-- An attribute is renamed alike when its parts are. -/
theorem Attribute.rename_congr {attr : Attribute}
    (same : ∀ part ∈ attr.parts, part.rename change = part.rename other) :
    attr.rename change = attr.rename other := by
  cases attr with
  | named _ _ value =>
    cases value with
    | expr | element => simpa [parts, AttributeValue.parts] using same
    | _ => rfl
  | spread => simpa [parts] using same

/-- An opening is renamed alike when its parts are. -/
theorem Opening.rename_congr {opening : Opening}
    (same : ∀ part ∈ opening.parts, part.rename change = part.rename other) :
    opening.rename change = opening.rename other := by
  obtain ⟨_, name, attributes⟩ := opening
  simp only [parts, List.forall_mem_append, List.forall_mem_map] at same
  have names : name.rename change = name.rename other :=
    TagName.rename_congr fun id root => Node.ident.inj (same.1 id (Option.mem_toList.2 root))
  simpa [names] using same.2

/-- An expression is renamed alike when its parts are. -/
theorem Expr.rename_congr {expr : Expr}
    (same : ∀ part ∈ expr.parts, part.rename change = part.rename other) :
    expr.rename change = expr.rename other := by
  have listed : ∀ {arguments : List Argument},
      (∀ argument ∈ arguments, argument.node.rename change = argument.node.rename other) →
      arguments.map (Argument.rename change) = arguments.map (Argument.rename other) :=
    fun each =>
      List.map_congr_left fun argument found => Argument.rename_congr (each argument found)
  cases expr with
  | array _ elements =>
    have each : elements.map (Option.map (Argument.rename change)) =
        elements.map (Option.map (Argument.rename other)) := by
      refine List.map_congr_left fun element found => ?_
      cases element with
      | none => rfl
      | some argument =>
        have held : argument.node ∈ (Expr.array ⟨0, 0⟩ elements).parts :=
          List.mem_map.2 ⟨argument, List.mem_flatMap.2 ⟨_, found, by simp⟩, rfl⟩
        exact congrArg some (Argument.rename_congr (same _ held))
    simpa using each
  | member _ base key | optionalMember _ base key =>
    simp only [parts, List.forall_mem_cons] at same
    simp [Node.expr.inj same.1, Key.rename_congr same.2]
  | optionalCall _ callee arguments =>
    simp only [parts, List.forall_mem_cons, List.forall_mem_map] at same
    simp [Node.expr.inj same.1, listed same.2]
  | call _ callee arguments =>
    simp only [parts, List.forall_mem_append, List.forall_mem_map] at same
    cases callee with
    | none => simp [listed same.2]
    | some callee => simp [listed same.2, Node.expr.inj (same.1 callee (by simp))]
  | literal => rfl
  | _ => simpa [parts] using same

/-- Renamings that agree on the identifiers in a node rename it alike. -/
theorem Node.rename_congr {node : Node} (agree : ∀ id ∈ node.ids, change id = other id) :
    node.rename change = node.rename other := by
  -- The induction is on the size, because the nodes inside a node are found by its children.
  have inside : ∀ part ∈ node.children, part.rename change = part.rename other := fun part child =>
    part.rename_congr fun id found => agree id (mem_ids_of_child child found)
  have own : ∀ id ∈ node.mentions, change id = other id := fun id found =>
    agree id (mem_ids_of_mentions found)
  cases node with
  | expr value => exact congrArg Node.expr (Expr.rename_congr inside)
  | pattern value => exact congrArg Node.pattern (Pattern.rename_congr inside)
  | target value => exact congrArg Node.target (Target.rename_congr inside)
  | member value => exact congrArg Node.member (Member.rename_congr inside)
  | attr value => exact congrArg Node.attr (Attribute.rename_congr inside)
  | opening value => exact congrArg Node.opening (Opening.rename_congr inside)
  | head value => exact congrArg Node.head (LoopHead.rename_congr inside)
  | declarations declarators | usings declarators =>
    have each : declarators.map (Declarator.rename change) =
        declarators.map (Declarator.rename other) :=
      List.map_congr_left fun declarator listed => Declarator.rename_congr fun part held =>
        inside part (List.mem_flatMap.2 ⟨declarator, listed, held⟩)
    simpa using each
  | forEach head items body =>
    simp only [children, List.forall_mem_cons] at inside
    simpa [Node.head.inj inside.1, Node.expr.inj inside.2.1] using inside.2.2
  | importFrom source typeOnly specifiers =>
    have each : specifiers.map (ImportSpecifier.rename change) =
        specifiers.map (ImportSpecifier.rename other) := by
      refine List.map_congr_left fun specifier listed => ?_
      have binds := own specifier.binding (List.mem_map.2 ⟨specifier, listed, rfl⟩)
      cases specifier <;> simpa [ImportSpecifier.binding] using binds
    simpa using each
  | exportNames source typeOnly specifiers =>
    have each : specifiers.map (ExportSpecifier.rename change) =
        specifiers.map (ExportSpecifier.rename other) := by
      refine List.map_congr_left fun specifier listed => ?_
      have names : ∀ id ∈ specifier.idents, change id = other id := fun id found =>
        own id (List.mem_flatMap.2 ⟨specifier, listed, found⟩)
      cases specifier with
      | named name _ =>
        cases name with
        | ident => simpa [ExportSpecifier.idents] using names
        | string => rfl
      | whole => rfl
    simpa using each
  | exportAll => rfl
  | _ => simpa [children, mentions] using And.intro inside own
termination_by sizeOf node
decreasing_by exact Node.sizeOf_children child

/-- Renamings that agree on the identifiers in a module rename it alike. -/
theorem Module.rename_congr {module : Module} (agree : ∀ id ∈ module.ids, change id = other id) :
    module.rename change = module.rename other := by
  refine congrArg Module.mk (List.map_congr_left fun item listed => ?_)
  have held : item ∈ module.all := List.mem_flatMap.2 ⟨item, listed, item.mem_all_self⟩
  exact Node.rename_congr fun id found => agree id (mem_ids held found)

end Congruence

end Glean.Syntax
