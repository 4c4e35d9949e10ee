/-!
# Syntax trees

The tree of one module after its names have been resolved: an identifier that refers to a binding
carries the context in which the binding was made, so two identifiers mean the same binding
exactly when they are equal (`Id`).

Expressions, patterns, object members and attributes are spelled out as far as a value or a
binding can depend on them. Everything else keeps only the nodes inside it, in source order, as
`parts`; types are left out.
-/

namespace Glean.Syntax

/-- A range of byte positions in the text of a module; the first byte has position one. -/
structure Span where
  /-- Position of the first byte. -/
  start : Nat
  /-- Position after the last byte. -/
  stop : Nat
deriving DecidableEq, Repr, Inhabited

/-- A binding: its name and the context that tells apart bindings of one name. -/
structure Id where
  /-- The name as written. -/
  name : String
  /-- The context in which the name was bound. -/
  context : Nat
deriving DecidableEq, Repr, Inhabited

/-- A literal as it stands in the source. -/
inductive Literal where
  | string (value : String)
  | number (value : Float)
  | boolean (value : Bool)
  | null
  | bigint (digits : String)
  | regex
deriving DecidableEq

/-- A piece of text between the interpolations of a template. -/
structure Quasi where
  /-- The text with its escapes replaced, unless one of them is malformed. -/
  cooked : Option String
  /-- The text as written. -/
  raw : String
deriving DecidableEq

/-- Syntax around an expression that does not change its value. -/
inductive Wrapper where
  | parentheses
  | cast
  | assertion
  | constAssertion
  | nonNull
  | satisfies
  | instantiation
deriving DecidableEq

/-- Operators that may leave their right operand alone. -/
inductive Logical where
  | and
  | or
  | coalesce
deriving DecidableEq

/-- Operators that use both operands. -/
inductive Binary where
  | add
  | subtract
  | multiply
  | divide
  | remainder
  | power
  | strictEqual
  | strictDiffer
  | looseEqual
  | looseDiffer
  | less
  | greater
  | atMost
  | atLeast
  /-- An operator without a static value, such as a shift. -/
  | unreduced (symbol : String)
deriving DecidableEq

/-- Operators with one operand. -/
inductive Unary where
  | not
  | negate
  | plus
  | complement
  | typeOf
  | void
  | delete
deriving DecidableEq

/-- What an expression defines when it defines code. -/
inductive Definition where
  | function
  | arrow
  | classBody
deriving DecidableEq

/-- Members of an object that hold code. -/
inductive Accessor where
  | getter
  | setter
  | method
deriving DecidableEq

/-- The name of an element: a name, a member of one, or a name inside a namespace. -/
inductive TagName where
  | ident (id : Id)
  | member (object : TagName) (property : String)
  | qualified (qualifier name : String)
deriving DecidableEq

/-- One name of an import declaration. -/
inductive ImportSpecifier where
  /-- A name, under the exported name or under another. -/
  | named (binding : Id) (imported : Option String)
  /-- The default export. -/
  | standard (binding : Id)
  /-- All exports as one object. -/
  | whole (binding : Id)
deriving DecidableEq

/-- How an export names what it exports. -/
inductive ExportName where
  | ident (id : Id)
  | string (text : String)
deriving DecidableEq

/-- One name of an export declaration. -/
inductive ExportSpecifier where
  /-- A name, under itself or under another. -/
  | named (source : ExportName) (exported : Option String)
  /-- All exports of a module as one object. -/
  | whole (exported : String)
deriving DecidableEq

mutual

/-- An expression with its span. -/
inductive Expr where
  | ident (span : Span) (id : Id)
  | literal (span : Span) (value : Literal)
  | template (span : Span) (quasis : List Quasi) (interpolations : List Expr)
  | tagged (span : Span) (tag : Expr) (quasis : List Quasi) (interpolations : List Expr)
  | array (span : Span) (elements : List (Option Argument))
  | object (span : Span) (members : List Member)
  | member (span : Span) (object : Expr) (key : Key)
  | optionalMember (span : Span) (object : Expr) (key : Key)
  | optionalCall (span : Span) (callee : Expr) (arguments : List Argument)
  | conditional (span : Span) (test whenTrue whenFalse : Expr)
  | logical (span : Span) (operator : Logical) (left right : Expr)
  | binary (span : Span) (operator : Binary) (left right : Expr)
  | unary (span : Span) (operator : Unary) (operand : Expr)
  /-- A call; calls of a base class and dynamic imports have no callee expression. -/
  | call (span : Span) (callee : Option Expr) (arguments : List Argument)
  | assign (span : Span) (target : Target) (value : Expr)
  | update (span : Span) (operand : Expr)
  | wrapped (span : Span) (wrapper : Wrapper) (inner : Expr)
  | definition (span : Span) (kind : Definition) (parts : List Node)
  /-- Any other expression, by the name of its type. -/
  | other (span : Span) (typeName : String) (parts : List Node)

/-- An element of an array or an argument of a call. -/
inductive Argument where
  | single (value : Expr)
  | spread (value : Expr)

/-- The name of a member. -/
inductive Key where
  | name (text : String)
  | string (text : String)
  | number (value : Float)
  | bigint (digits : String)
  | computed (span : Span) (value : Expr)
  | hidden (name : String)

/-- A member of an object expression. -/
inductive Member where
  | spread (span : Span) (value : Expr)
  | shorthand (span : Span) (id : Id)
  | keyed (span : Span) (key : Key) (value : Expr)
  | accessor (span : Span) (kind : Accessor) (key : Key) (parts : List Node)
  /-- A shorthand with a default, which has a meaning in patterns only. -/
  | defaulted (span : Span) (id : Id) (value : Expr)

/-- What an assignment assigns to. -/
inductive Target where
  | ident (id : Id)
  | member (object : Expr) (key : Key)
  | pattern (pattern : Pattern)
  | wrapped (wrapper : Wrapper) (inner : Expr)
  | other (parts : List Node)

/-- A pattern that takes a value apart. -/
inductive Pattern where
  | ident (id : Id)
  | array (elements : List (Option Pattern))
  | object (properties : List PatternProperty)
  | withDefault (pattern : Pattern) (value : Expr)
  | rest (pattern : Pattern)
  | expr (value : Expr)
  | invalid

/-- A property of an object pattern. -/
inductive PatternProperty where
  | keyed (key : Key) (pattern : Pattern)
  | shorthand (id : Id) (fallback : Option Expr)
  | rest (pattern : Pattern)

/-- One declaration of a list: a pattern and the value it takes apart. -/
inductive Declarator where
  | mk (pattern : Pattern) (init : Option Expr)

/-- What a loop over the items of a value sets in each round. -/
inductive LoopHead where
  | declarations (declarators : List Declarator)
  | usings (declarators : List Declarator)
  | pattern (pattern : Pattern)

/-- The value of an attribute. -/
inductive AttributeValue where
  | missing
  | literal (span : Span) (value : Literal)
  | expr (value : Expr)
  | empty
  | element (parts : List Node)

/-- An attribute of an element. -/
inductive Attribute where
  | named (span : Span) (name : String) (value : AttributeValue)
  | spread (span : Span) (value : Expr)

/-- The start of an element: its name and its attributes. -/
inductive Opening where
  | mk (span : Span) (name : TagName) (attributes : List Attribute)

/-- A node of the tree, of whatever sort. -/
inductive Node where
  | expr (value : Expr)
  | pattern (value : Pattern)
  | target (value : Target)
  | member (value : Member)
  | attr (value : Attribute)
  | opening (value : Opening)
  | head (value : LoopHead)
  /-- A name that refers to a binding or makes one, where no expression or pattern stands. -/
  | ident (id : Id)
  | declarations (declarators : List Declarator)
  | usings (declarators : List Declarator)
  | forEach (head : LoopHead) (items : Expr) (body : List Node)
  | functionDeclaration (id : Id) (parts : List Node)
  | classDeclaration (id : Id) (parts : List Node)
  | importFrom (source : String) (typeOnly : Bool) (specifiers : List ImportSpecifier)
  | exportDeclaration (declaration : Node)
  | exportNames (source : Option String) (typeOnly : Bool) (specifiers : List ExportSpecifier)
  | exportDefault (span : Span) (value : Expr)
  | exportAll (source : String) (typeOnly : Bool)
  /-- Any other node, of which only the nodes inside matter. -/
  | group (parts : List Node)

end

/-- A module: its statements and declarations in order, one node each. -/
structure Module where
  /-- The top-level items. -/
  items : List Node

/-- A call on its own. -/
structure Call where
  /-- Where the call stands. -/
  span : Span
  /-- What is called; calls of a base class and dynamic imports have no such expression. -/
  callee : Option Expr
  /-- The arguments in order. -/
  arguments : List Argument

/-- A template with a tag on its own. -/
structure TaggedTemplate where
  /-- Where the template and its tag stand. -/
  span : Span
  /-- The tag. -/
  tag : Expr
  /-- The texts between the interpolations. -/
  quasis : List Quasi
  /-- The interpolations in order. -/
  interpolations : List Expr

/-- What stands where nothing could be read. -/
instance : Inhabited Expr := ⟨.other default "Invalid" []⟩

namespace Expr

/-- Where the expression stands. -/
def span : Expr → Span
  | ident span _ | literal span _ | template span .. | tagged span .. | array span _
  | object span _ | member span .. | optionalMember span .. | optionalCall span ..
  | conditional span .. | logical span .. | binary span .. | unary span .. | call span ..
  | assign span .. | update span _ | wrapped span .. | definition span .. | other span .. => span

/-- The expression without the parentheses and types around it. -/
def unwrap : Expr → Expr
  | wrapped _ _ inner => inner.unwrap
  | expr => expr

end Expr

namespace Argument

/-- The expression of an argument. -/
def value : Argument → Expr
  | single value | spread value => value

end Argument

namespace Member

/-- Where the member stands. -/
def span : Member → Span
  | spread span _ | shorthand span _ | keyed span .. | accessor span .. | defaulted span .. => span

end Member

namespace Attribute

/-- Where the attribute stands. -/
def span : Attribute → Span
  | named span .. | spread span _ => span

end Attribute

namespace Opening

/-- Where the opening stands. -/
def span : Opening → Span
  | mk span .. => span

/-- The name of the element. -/
def name : Opening → TagName
  | mk _ name _ => name

/-- The attributes in order. -/
def attributes : Opening → List Attribute
  | mk _ _ attributes => attributes

end Opening

namespace Declarator

/-- The pattern that the declaration binds. -/
def pattern : Declarator → Pattern
  | mk pattern _ => pattern

/-- The value that is taken apart. -/
def init : Declarator → Option Expr
  | mk _ init => init

end Declarator

end Glean.Syntax
