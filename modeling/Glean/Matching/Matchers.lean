import Glean.Matching.Question
import Glean.Primitive

/-!
# Matchers

A matcher answers the questions of one category; an answer may also be a failure, with its cause.
`NameRules` answers the questions of every category by names alone.
-/

namespace Glean

/-- An answer, or the cause why there is none. -/
abbrev Answer := Except String Bool

/-- Takes elements and their properties. -/
structure ComponentMatcher where
  /-- Whether an element is taken. -/
  tag : TagQuestion → Answer
  /-- Whether a property of a taken element is taken. -/
  property : AttributeQuestion → Answer
  /-- The values of properties that an element with a given name does not have. -/
  defaults : String → Entries String Primitive := fun _ => []

/-- Takes calls, their arguments and the properties of object arguments. -/
structure FunctionMatcher where
  /-- Whether a call is taken. -/
  call : CallQuestion → Answer
  /-- Whether an argument of a taken call is taken. -/
  argument : ArgumentQuestion → Answer
  /-- Whether a property of a taken argument is taken. -/
  property : PropertyQuestion → Answer

/-- Takes templates with a tag. -/
structure TemplateMatcher where
  /-- Whether a template is taken. -/
  template : TemplateQuestion → Answer

/-- The matchers of an extraction; what has no matcher is not taken. -/
structure Matchers where
  /-- The matcher of elements. -/
  components : Option ComponentMatcher := none
  /-- The matcher of calls. -/
  functions : Option FunctionMatcher := none
  /-- The matcher of templates with a tag. -/
  templates : Option TemplateMatcher := none
  /-- Whether an element of a given name comes from the factory. -/
  factory : Option (String → Syntax.Opening → Bool) := none

/-- A factory by its name. -/
structure Factory where
  /-- The name that its elements start with. -/
  name : String := "styled"

/-- Whether a name is that of the factory or of a member of it. -/
def Factory.makes (factory : Factory) (tag : String) : Bool :=
  tag = factory.name || tag.startsWith (factory.name ++ ".")

/-- All names or some. -/
inductive Names where
  | all
  | only (names : List String)
deriving DecidableEq, Inhabited

/-- Whether a name is among the names. -/
def Names.contains : Names → String → Bool
  | all, _ => true
  | only names, name => names.contains name

/-- Rules that go by names alone. -/
structure NameRules where
  /-- The elements, calls and templates that are taken. -/
  names : Names := .all
  /-- The properties that are taken. -/
  properties : Names := .all
  /-- The values of missing properties, by element. -/
  defaults : Entries String (Entries String Primitive) := []
deriving Inhabited

namespace NameRules

/-- Gives a property of an element a value for when it is missing. -/
def withDefault (rules : NameRules) (tag property : String) (value : Primitive) : NameRules :=
  { rules with
    defaults := Entries.update rules.defaults tag fun known =>
      Entries.insert (known.getD []) property value }

/-- Elements by the rules; those of the factory are always taken. -/
def components (rules : NameRules) : ComponentMatcher where
  tag question := pure (question.isFactory || rules.names.contains question.name)
  property question := pure (rules.properties.contains question.property)
  defaults tag := (Entries.get? rules.defaults tag).getD []

/-- Calls by the rules; every argument is taken. -/
def functions (rules : NameRules) : FunctionMatcher where
  call question := pure (rules.names.contains question.name)
  argument _ := pure true
  property question := pure (rules.properties.contains question.property)

/-- Templates by the rules. -/
def templates (rules : NameRules) : TemplateMatcher where
  template question := pure (rules.names.contains question.name)

end NameRules

end Glean
