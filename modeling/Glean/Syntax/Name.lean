import Glean.Syntax.Basic

/-!
# Names of expressions and elements

The dotted name of an identifier or of a chain of static members, the text of an element's name,
and the name of the type of an expression.
-/

namespace Glean.Syntax

/-- The name of the type of a literal. -/
def Literal.typeName : Literal → String
  | string _ => "StringLiteral"
  | number _ => "NumericLiteral"
  | boolean _ => "BooleanLiteral"
  | null => "NullLiteral"
  | bigint _ => "BigIntLiteral"
  | regex => "RegExpLiteral"

/-- The name of the type of a wrapper. -/
def Wrapper.typeName : Wrapper → String
  | parentheses => "ParenthesisExpression"
  | cast => "TsAsExpression"
  | assertion => "TsTypeAssertion"
  | constAssertion => "TsConstAssertion"
  | nonNull => "TsNonNullExpression"
  | satisfies => "TsSatisfiesExpression"
  | instantiation => "TsInstantiation"

/-- The name of the type of a definition. -/
def Definition.typeName : Definition → String
  | function => "FunctionExpression"
  | arrow => "ArrowFunctionExpression"
  | classBody => "ClassExpression"

/-- The name of the type of an expression. -/
def Expr.typeName : Expr → String
  | ident .. => "Identifier"
  | literal _ value => value.typeName
  | template .. => "TemplateLiteral"
  | tagged .. => "TaggedTemplateExpression"
  | array .. => "ArrayExpression"
  | object .. => "ObjectExpression"
  | member .. => "MemberExpression"
  | optionalMember .. | optionalCall .. => "OptionalChainingExpression"
  | conditional .. => "ConditionalExpression"
  | logical .. | binary .. => "BinaryExpression"
  | unary .. => "UnaryExpression"
  | call .. => "CallExpression"
  | assign .. => "AssignmentExpression"
  | update .. => "UpdateExpression"
  | wrapped _ wrapper _ => wrapper.typeName
  | definition _ kind _ => kind.typeName
  | other _ typeName _ => typeName

/-- The name of a member in a dotted name: a plain name, or a string in brackets. -/
def Key.dotted? : Key → Option String
  | name text => some text
  | computed _ (.literal _ (.string text)) => some text
  | _ => none

/-- The dotted name of an identifier or of a chain of static members. -/
def Expr.dotted? : Expr → Option String
  | ident _ id => some id.name
  | member _ base key => do
    let base ← base.dotted?
    let name ← key.dotted?
    some (base ++ "." ++ name)
  | wrapped _ _ inner => inner.dotted?
  | _ => none

/-- The text of an element's name. -/
def TagName.text : TagName → String
  | ident id => id.name
  | member base property => base.text ++ "." ++ property
  | qualified qualifier name => qualifier ++ ":" ++ name

end Glean.Syntax
