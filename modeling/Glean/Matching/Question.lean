import Glean.Document

/-!
# Questions to matchers

Extraction asks matchers what to take. Each question carries what the matcher may look at, and
knows the name of the predicate that answers it and the node that it is about.
-/

namespace Glean

open Syntax

/-- Whether an element is taken. -/
structure TagQuestion where
  /-- The name of the element. -/
  name : String
  /-- The opening of the element. -/
  opening : Opening
  /-- Whether the element comes from the factory. -/
  isFactory : Bool

/-- Whether a property of an element is taken. -/
structure AttributeQuestion where
  /-- The name of the element. -/
  tag : String
  /-- The opening of the element. -/
  opening : Opening
  /-- The name of the property. -/
  property : String
  /-- The attribute that gives the property; spreads and defaults have none. -/
  attr : Option (Span × AttributeValue)

/-- Whether a call is taken. -/
structure CallQuestion where
  /-- The dotted name of the callee. -/
  name : String
  /-- The call. -/
  call : Call

/-- Whether an argument of a call is taken. -/
structure ArgumentQuestion where
  /-- The dotted name of the callee. -/
  name : String
  /-- The call. -/
  call : Call
  /-- The position of the argument, from zero. -/
  index : Nat
  /-- The argument as written. -/
  argument : Expr

/-- Whether a property of an object argument is taken. -/
structure PropertyQuestion where
  /-- The dotted name of the callee. -/
  name : String
  /-- The call. -/
  call : Call
  /-- The argument that the object comes from, as written. -/
  argument : Expr
  /-- The name of the property. -/
  property : String
  /-- The member that gives the property, when the argument is an object expression. -/
  member : Option Member

/-- Whether a template with a tag is taken. -/
structure TemplateQuestion where
  /-- The dotted name of the tag. -/
  name : String
  /-- The template. -/
  template : TaggedTemplate

/-- A question to a matcher. -/
inductive Question where
  | tag (question : TagQuestion)
  | attr (question : AttributeQuestion)
  | call (question : CallQuestion)
  | argument (question : ArgumentQuestion)
  | property (question : PropertyQuestion)
  | template (question : TemplateQuestion)

namespace Question

/-- The name of the predicate that answers a question. -/
def predicate : Question → String
  | tag _ => "match_tag"
  | attr _ => "match_prop"
  | call _ => "match_fn"
  | argument _ => "match_arg"
  | property _ => "match_prop"
  | template _ => "match_tagged_template"

/-- The node that a question is about. For a property without a node of its own it is the element
or the argument that the property comes from. -/
def subject (file : Path) : Question → Reference
  | tag question => ⟨file, question.opening.span, .opening⟩
  | attr question =>
    match question.attr with
    | some (span, _) => ⟨file, span, .attr⟩
    | none => ⟨file, question.opening.span, .opening⟩
  | call question => ⟨file, question.call.span, .call⟩
  | argument question => ⟨file, question.argument.span, .expr⟩
  | property question =>
    match question.member with
    | some value => ⟨file, value.span, .property⟩
    | none => ⟨file, question.argument.span, .expr⟩
  | template question => ⟨file, question.template.span, .tagged⟩

end Question

end Glean
