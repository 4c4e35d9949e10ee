import Glean.Json
import Glean.Number.Numeral
import Glean.Syntax.Walk

/-!
# Reading trees

`Module.ofJson` reads a tree from its JSON form, in which every node is an object that names its
type. An absent field stands for null, false and the empty list. An identifier with a context
refers to a binding or makes one; one without is only a name.

Expressions, patterns and statements nest in each other, so their readers are built in layers: the
readers of one layer read what is directly inside a node with those of the layer below (`Reader`).
As many layers as the value is deep read all of it.
-/

namespace Glean.Syntax

/-- The readers of the sorts of nodes that nest in each other. -/
structure Reader where
  /-- Reads an expression. -/
  expr : Json → Expr
  /-- Reads a pattern. -/
  pattern : Json → Pattern
  /-- Reads a statement, a declaration or a part of one. -/
  node : Json → Node

namespace Reader

/-! ### Parts without nodes inside -/

/-- The name of the type of a node; there is none for what is no node. -/
def typeName (json : Json) : String := (json.field "type").text

/-- Where a node stands. -/
def span (json : Json) : Span :=
  match (json.field "span").items with
  | [start, stop] => ⟨start.natural, stop.natural⟩
  | _ => default

/-- The text of a field `value`. -/
def valueText (json : Json) : String := (json.field "value").text

/-- The binding that an identifier refers to or makes. -/
def id? (json : Json) : Option Id :=
  if typeName json = "Identifier" then
    (json.field? "ctxt").map fun context => ⟨valueText json, context.natural⟩
  else none

/-- The binding of an identifier that must have one. -/
def id (json : Json) : Id := (id? json).getD ⟨valueText json, 0⟩

/-- A number, which is written as a text. -/
def number (json : Json) : Float := (Number.parse? (valueText json)).getD Number.notANumber

/-- An operator that uses both operands. -/
def binary : String → Binary
  | "+" => .add
  | "-" => .subtract
  | "*" => .multiply
  | "/" => .divide
  | "%" => .remainder
  | "**" => .power
  | "===" => .strictEqual
  | "!==" => .strictDiffer
  | "==" => .looseEqual
  | "!=" => .looseDiffer
  | "<" => .less
  | ">" => .greater
  | "<=" => .atMost
  | ">=" => .atLeast
  | symbol => .unreduced symbol

/-- An operator that may leave its right operand alone. -/
def logical? : String → Option Logical
  | "&&" => some .and
  | "||" => some .or
  | "??" => some .coalesce
  | _ => none

/-- An operator with one operand. -/
def unary : String → Unary
  | "!" => .not
  | "-" => .negate
  | "+" => .plus
  | "~" => .complement
  | "typeof" => .typeOf
  | "void" => .void
  | _ => .delete

/-- Syntax around an expression. -/
def wrapper? : String → Option Wrapper
  | "ParenthesisExpression" => some .parentheses
  | "TsAsExpression" => some .cast
  | "TsTypeAssertion" => some .assertion
  | "TsConstAssertion" => some .constAssertion
  | "TsNonNullExpression" => some .nonNull
  | "TsSatisfiesExpression" => some .satisfies
  | "TsInstantiation" => some .instantiation
  | _ => none

/-- A literal. -/
def literal? (json : Json) : Option Literal :=
  match typeName json with
  | "StringLiteral" => some (.string (valueText json))
  | "NumericLiteral" => some (.number (number json))
  | "BooleanLiteral" => some (.boolean (json.field "value").isTrue)
  | "NullLiteral" => some .null
  | "BigIntLiteral" => some (.bigint (valueText json))
  | "RegExpLiteral" => some .regex
  | _ => none

/-- The texts of a template. -/
def quasis (json : Json) : List Quasi :=
  (json.field "quasis").items.map fun quasi =>
    ⟨(quasi.field? "cooked").map Json.text, (quasi.field "raw").text⟩

/-- The name of an element; names in it nest at most `depth` deep. -/
def tagName : Nat → Json → TagName
  | 0, json => .ident (id json)
  | depth + 1, json =>
    match typeName json with
    | "JSXMemberExpression" =>
      .member (tagName depth (json.field "object")) (valueText (json.field "property"))
    | "JSXNamespacedName" =>
      .qualified (valueText (json.field "namespace")) (valueText (json.field "name"))
    | _ => .ident (id json)

/-- One name of an import declaration. -/
def importSpecifier (json : Json) : ImportSpecifier :=
  let binding := id (json.field "local")
  match typeName json with
  | "ImportDefaultSpecifier" => .standard binding
  | "ImportNamespaceSpecifier" => .whole binding
  | _ => .named binding ((json.field? "imported").map valueText)

/-- One name of an export declaration. -/
def exportSpecifier? (json : Json) : Option ExportSpecifier :=
  match typeName json with
  | "ExportNamespaceSpecifier" => some (.whole (valueText (json.field "name")))
  | "ExportSpecifier" =>
    let source := json.field "orig"
    let name : ExportName :=
      if typeName source = "StringLiteral" then .string (valueText source) else .ident (id source)
    some (.named name ((json.field? "exported").map valueText))
  | _ => none

/-- What stands in a field of a node. -/
inductive Place where
  | expr
  | pattern
  | key
  | ident
  | node
  /-- A block or an expression. -/
  | body
deriving DecidableEq

/-- The fields of a type that hold nodes, in the order in which they are visited. -/
def layout : String → List (String × Place)
  | "ArrowFunctionExpression" => [("params", .pattern), ("body", .body)]
  | "AwaitExpression" | "YieldExpression" | "ReturnStatement" | "ThrowStatement" =>
    [("argument", .expr)]
  | "BlockStatement" => [("stmts", .node)]
  | "CatchClause" => [("param", .pattern), ("body", .node)]
  | "ClassDeclaration" => [("decorators", .node), ("body", .node), ("superClass", .expr)]
  | "ClassExpression" =>
    [("identifier", .ident), ("decorators", .node), ("body", .node), ("superClass", .expr)]
  | "ClassMethod" | "PrivateMethod" => [("key", .key), ("function", .node)]
  | "AutoAccessor" | "ClassProperty" | "PrivateProperty" =>
    [("key", .key), ("value", .expr), ("decorators", .node)]
  | "Constructor" => [("key", .key), ("params", .node), ("body", .node)]
  | "Decorator" | "JSXSpreadChild" | "JSXExpressionContainer" | "ExpressionStatement"
  | "TsExportAssignment" => [("expression", .expr)]
  | "DoWhileStatement" | "WhileStatement" => [("test", .expr), ("body", .node)]
  | "ForStatement" => [("init", .node), ("test", .expr), ("update", .expr), ("body", .node)]
  | "FunctionDeclaration" | "MethodProperty" | "" =>
    [("params", .node), ("decorators", .node), ("body", .node)]
  | "FunctionExpression" =>
    [("identifier", .ident), ("params", .node), ("decorators", .node), ("body", .node)]
  | "GetterProperty" => [("body", .node)]
  | "SetterProperty" => [("param", .pattern), ("body", .node)]
  | "IfStatement" => [("test", .expr), ("consequent", .node), ("alternate", .node)]
  | "JSXElement" => [("opening", .node), ("children", .node)]
  | "JSXFragment" => [("children", .node)]
  | "LabeledStatement" => [("label", .ident), ("body", .node)]
  | "BreakStatement" | "ContinueStatement" => [("label", .ident)]
  | "Parameter" => [("decorators", .node), ("pat", .pattern)]
  | "SequenceExpression" => [("expressions", .expr)]
  | "StaticBlock" => [("body", .node)]
  | "SuperPropExpression" => [("property", .key)]
  | "SwitchCase" => [("test", .expr), ("consequent", .node)]
  | "SwitchStatement" => [("discriminant", .expr), ("cases", .node)]
  | "TryStatement" => [("block", .node), ("handler", .node), ("finalizer", .node)]
  | "TsEnumDeclaration" => [("id", .ident), ("members", .node)]
  | "TsEnumMember" => [("id", .ident), ("init", .expr)]
  | "TsImportEqualsDeclaration" => [("id", .ident)]
  | "TsModuleBlock" => [("body", .node)]
  | "TsModuleDeclaration" | "TsNamespaceDeclaration" => [("id", .ident), ("body", .node)]
  | "TsParameterProperty" => [("decorators", .node), ("param", .pattern)]
  | "WithStatement" => [("object", .expr), ("body", .node)]
  | _ => []

/-- The types of nodes that are no expressions and have no constructor of their own. -/
def isPlain (name : String) : Bool :=
  name.endsWith "Statement" || name.endsWith "Declaration" ||
    ["AutoAccessor", "CatchClause", "ClassMethod", "ClassProperty", "Constructor", "Decorator",
      "JSXElement", "JSXExpressionContainer", "JSXFragment", "JSXSpreadChild", "JSXText",
      "Parameter", "PrivateMethod", "PrivateProperty", "StaticBlock", "SwitchCase",
      "TsEnumMember", "TsExportAssignment", "TsIndexSignature", "TsModuleBlock",
      "TsParameterProperty", ""].contains name

/-! ### Parts with nodes inside -/

section

variable (inner : Reader)

/-- An element of an array or an argument of a call. -/
def argument (json : Json) : Argument :=
  let value := inner.expr (json.field "expression")
  if (json.field "spread").isNull then .single value else .spread value

/-- The arguments of a call. -/
def arguments (json : Json) : List Argument := (json.field "arguments").items.map inner.argument

/-- The name of a member. -/
def key (json : Json) : Key :=
  match typeName json with
  | "Identifier" => .name (valueText json)
  | "StringLiteral" => .string (valueText json)
  | "NumericLiteral" => .number (number json)
  | "BigIntLiteral" => .bigint (valueText json)
  | "PrivateName" => .hidden (valueText json)
  | _ => .computed (span json) (inner.expr (json.field "expression"))

/-- The nodes in a field. -/
def placed (place : Place) (json : Json) : List Node :=
  if json.isNull then []
  else
    match place with
    | .expr => if typeName json = "JSXEmptyExpression" then [] else [.expr (inner.expr json)]
    | .pattern => [.pattern (inner.pattern json)]
    | .key => (inner.key json).parts
    | .ident => (id? json).toList.map .ident
    | .node => [inner.node json]
    | .body =>
      if typeName json = "BlockStatement" then [inner.node json] else [.expr (inner.expr json)]

/-- The nodes inside a node of which nothing else matters. -/
def parts (json : Json) : List Node :=
  (layout (typeName json)).flatMap fun (name, place) =>
    match json.field name with
    | .array values => values.flatMap (inner.placed place)
    | value => inner.placed place value

/-- A member of an object expression. -/
def member (json : Json) : Member :=
  let span := span json
  match typeName json with
  | "SpreadElement" => .spread span (inner.expr (json.field "arguments"))
  | "Identifier" => .shorthand span (id json)
  | "KeyValueProperty" =>
    .keyed span (inner.key (json.field "key")) (inner.expr (json.field "value"))
  | "AssignmentProperty" =>
    .defaulted span (id (json.field "key")) (inner.expr (json.field "value"))
  | "GetterProperty" => .accessor span .getter (inner.key (json.field "key")) (inner.parts json)
  | "SetterProperty" => .accessor span .setter (inner.key (json.field "key")) (inner.parts json)
  | _ => .accessor span .method (inner.key (json.field "key")) (inner.parts json)

/-- A property of an object pattern. -/
def patternProperty (json : Json) : PatternProperty :=
  match typeName json with
  | "KeyValuePatternProperty" =>
    .keyed (inner.key (json.field "key")) (inner.pattern (json.field "value"))
  | "RestElement" => .rest (inner.pattern (json.field "argument"))
  | _ => .shorthand (id (json.field "key")) ((json.field? "value").map inner.expr)

/-- A pattern. -/
def readPattern (json : Json) : Pattern :=
  match typeName json with
  | "Identifier" => .ident (id json)
  | "ArrayPattern" =>
    .array ((json.field "elements").items.map fun element =>
      if element.isNull then none else some (inner.pattern element))
  | "ObjectPattern" => .object ((json.field "properties").items.map inner.patternProperty)
  | "AssignmentPattern" =>
    .withDefault (inner.pattern (json.field "left")) (inner.expr (json.field "right"))
  | "RestElement" => .rest (inner.pattern (json.field "argument"))
  | "Invalid" | "" => .invalid
  | _ => .expr (inner.expr json)

/-- What is inside an optional chain, around which its parts are read. -/
def optional (span : Span) (json : Json) : Expr :=
  if typeName json = "MemberExpression" then
    .optionalMember span (inner.expr (json.field "object")) (inner.key (json.field "property"))
  else .optionalCall span (inner.expr (json.field "callee")) (inner.arguments json)

/-- The target of an assignment. -/
def target (json : Json) : Target :=
  match wrapper? (typeName json) with
  | some wrapper => .wrapped wrapper (inner.expr (json.field "expression"))
  | none =>
    match typeName json with
    | "Identifier" => .ident (id json)
    | "MemberExpression" =>
      .member (inner.expr (json.field "object")) (inner.key (json.field "property"))
    | "ArrayPattern" | "ObjectPattern" => .pattern (inner.pattern json)
    | "OptionalChainingExpression" => .other (inner.optional (span json) (json.field "base")).parts
    | _ => .other (inner.parts json)

/-- One declaration of a list. -/
def declarator (json : Json) : Declarator :=
  .mk (inner.pattern (json.field "id")) ((json.field? "init").map inner.expr)

/-- The declarations in a field. -/
def declarators (json : Json) (name : String) : List Declarator :=
  (json.field name).items.map inner.declarator

/-- The head of a loop over items. -/
def head (json : Json) : LoopHead :=
  match typeName json with
  | "VariableDeclaration" => .declarations (inner.declarators json "declarations")
  | "UsingDeclaration" => .usings (inner.declarators json "decls")
  | _ => .pattern (inner.pattern json)

/-- The value of an attribute. -/
def attributeValue (json : Json) : AttributeValue :=
  match literal? json with
  | some literal => .literal (span json) literal
  | none =>
    match typeName json with
    | "JSXExpressionContainer" =>
      let value := json.field "expression"
      if typeName value = "JSXEmptyExpression" then .empty else .expr (inner.expr value)
    | "" => .missing
    | _ => .element (inner.parts json)

/-- The name of an attribute. -/
def attributeName (json : Json) : String :=
  if typeName json = "JSXNamespacedName" then
    valueText (json.field "namespace") ++ ":" ++ valueText (json.field "name")
  else valueText json

/-- An attribute of an element. -/
def readAttribute (json : Json) : Attribute :=
  if typeName json = "SpreadElement" then
    .spread (span json) (inner.expr (json.field "arguments"))
  else
    .named (span json) (attributeName (json.field "name"))
      (inner.attributeValue (json.field "value"))

/-- The opening of an element. -/
def opening (json : Json) : Opening :=
  let name := json.field "name"
  .mk (span json) (tagName name.depth name)
    ((json.field "attributes").items.map inner.readAttribute)

/-- An expression that is neither a literal nor wrapped. -/
def form (span : Span) (json : Json) : Expr :=
  match typeName json with
  | "Identifier" => .ident span (id json)
  | "TemplateLiteral" =>
    .template span (quasis json) ((json.field "expressions").items.map inner.expr)
  | "TaggedTemplateExpression" =>
    let template := json.field "template"
    .tagged span (inner.expr (json.field "tag")) (quasis template)
      ((template.field "expressions").items.map inner.expr)
  | "ArrayExpression" =>
    .array span ((json.field "elements").items.map fun element =>
      if element.isNull then none else some (inner.argument element))
  | "ObjectExpression" => .object span ((json.field "properties").items.map inner.member)
  | "MemberExpression" =>
    .member span (inner.expr (json.field "object")) (inner.key (json.field "property"))
  | "OptionalChainingExpression" => inner.optional span (json.field "base")
  | "ConditionalExpression" =>
    .conditional span (inner.expr (json.field "test")) (inner.expr (json.field "consequent"))
      (inner.expr (json.field "alternate"))
  | "BinaryExpression" =>
    let left := inner.expr (json.field "left")
    let right := inner.expr (json.field "right")
    let symbol := (json.field "operator").text
    match logical? symbol with
    | some operator => .logical span operator left right
    | none => .binary span (binary symbol) left right
  | "UnaryExpression" =>
    .unary span (unary (json.field "operator").text) (inner.expr (json.field "argument"))
  | "CallExpression" =>
    let callee := json.field "callee"
    let named := typeName callee ≠ "Super" ∧ typeName callee ≠ "Import"
    .call span (if named then some (inner.expr callee) else none) (inner.arguments json)
  | "NewExpression" =>
    .other span "NewExpression"
      (.expr (inner.expr (json.field "callee")) :: (inner.arguments json).map Argument.node)
  | "AssignmentExpression" =>
    .assign span (inner.target (json.field "left")) (inner.expr (json.field "right"))
  | "UpdateExpression" => .update span (inner.expr (json.field "argument"))
  | "FunctionExpression" => .definition span .function (inner.parts json)
  | "ArrowFunctionExpression" => .definition span .arrow (inner.parts json)
  | "ClassExpression" => .definition span .classBody (inner.parts json)
  | name => .other span name (inner.parts json)

/-- An expression. -/
def readExpr (json : Json) : Expr :=
  let span := span json
  match literal? json, wrapper? (typeName json) with
  | some literal, _ => .literal span literal
  | none, some wrapper => .wrapped span wrapper (inner.expr (json.field "expression"))
  | none, none => inner.form span json

/-- The name of the module that a declaration imports or exports from. -/
def source (json : Json) : String := valueText (json.field "source")

/-- A statement, a declaration or a part of one. -/
def readNode (json : Json) : Node :=
  match typeName json with
  | "VariableDeclaration" => .declarations (inner.declarators json "declarations")
  | "UsingDeclaration" => .usings (inner.declarators json "decls")
  | "ForInStatement" | "ForOfStatement" =>
    .forEach (inner.head (json.field "left")) (inner.expr (json.field "right"))
      [inner.node (json.field "body")]
  | "FunctionDeclaration" =>
    .functionDeclaration (id (json.field "identifier")) (inner.parts json)
  | "ClassDeclaration" => .classDeclaration (id (json.field "identifier")) (inner.parts json)
  | "ImportDeclaration" =>
    .importFrom (source json) (json.field "typeOnly").isTrue
      ((json.field "specifiers").items.map importSpecifier)
  | "ExportDeclaration" => .exportDeclaration (inner.node (json.field "declaration"))
  | "ExportNamedDeclaration" =>
    .exportNames ((json.field? "source").map valueText) (json.field "typeOnly").isTrue
      ((json.field "specifiers").items.filterMap exportSpecifier?)
  | "ExportDefaultExpression" =>
    .exportDefault (span json) (inner.expr (json.field "expression"))
  | "ExportDefaultDeclaration" => .group (inner.parts (json.field "decl"))
  | "ExportAllDeclaration" => .exportAll (source json) (json.field "typeOnly").isTrue
  | "JSXOpeningElement" => .opening (inner.opening json)
  | name => if isPlain name then .group (inner.parts json) else .expr (inner.expr json)

end

/-- The readers that read a given number of layers; below them nothing is read. -/
def layers : Nat → Reader
  | 0 => ⟨fun _ => default, fun _ => .invalid, fun _ => .group []⟩
  | count + 1 =>
    let inner := layers count
    ⟨inner.readExpr, inner.readPattern, inner.readNode⟩

end Reader

/-- The tree of a module. A node may be read once as a statement and once more as an expression,
hence the factor. -/
def Module.ofJson (json : Json) : Module :=
  ⟨(json.field "body").items.map (Reader.layers (2 * json.depth)).node⟩

end Glean.Syntax
