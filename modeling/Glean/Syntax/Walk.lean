import Glean.Syntax.Basic

/-!
# Walks through a tree

`Node.children` lists the nodes directly inside a node in the order in which they are visited:
source order, except that the body of a loop follows its test. `Node.walk` lists a node and
everything inside it, each node before its children; it leaves out what is inside the nodes that
its argument refuses. Every question about a whole module is a fold over such a list.
-/

namespace Glean.Syntax

namespace Key

/-- The nodes inside a key. -/
def parts : Key → List Node
  | computed _ value => [.expr value]
  | _ => []

end Key

namespace Argument

/-- The node of an argument. -/
def node (argument : Argument) : Node := .expr argument.value

end Argument

namespace Target

/-- The nodes inside the target of an assignment. -/
def parts : Target → List Node
  | ident id => [.ident id]
  | member base key => .expr base :: key.parts
  | pattern inner => [.pattern inner]
  | wrapped _ inner => [.expr inner]
  | other parts => parts

end Target

namespace PatternProperty

/-- The nodes inside a property of a pattern. -/
def parts : PatternProperty → List Node
  | keyed key inner => key.parts ++ [.pattern inner]
  | shorthand id fallback => .ident id :: fallback.toList.map .expr
  | rest inner => [.pattern inner]

end PatternProperty

namespace Pattern

/-- The nodes inside a pattern. -/
def parts : Pattern → List Node
  | ident id => [.ident id]
  | array elements => (elements.flatMap Option.toList).map .pattern
  | object properties => properties.flatMap PatternProperty.parts
  | withDefault inner value => [.pattern inner, .expr value]
  | rest inner => [.pattern inner]
  | expr value => [.expr value]
  | invalid => []

end Pattern

namespace Declarator

/-- The nodes inside a declaration. -/
def parts : Declarator → List Node
  | mk pattern init => .pattern pattern :: init.toList.map .expr

end Declarator

namespace LoopHead

/-- The nodes inside the head of a loop. -/
def parts : LoopHead → List Node
  | declarations declarators => [.declarations declarators]
  | usings declarators => [.usings declarators]
  | pattern inner => [.pattern inner]

end LoopHead

namespace Member

/-- The nodes inside a member of an object. -/
def parts : Member → List Node
  | spread _ value => [.expr value]
  | shorthand _ id => [.ident id]
  | keyed _ key value => key.parts ++ [.expr value]
  | accessor _ _ key parts => key.parts ++ parts
  | defaulted _ id value => [.ident id, .expr value]

end Member

namespace TagName

/-- The binding that an element's name refers to: that of its first name. -/
def root? : TagName → Option Id
  | ident id => some id
  | member base _ => base.root?
  | qualified .. => none

end TagName

namespace AttributeValue

/-- The nodes inside the value of an attribute. -/
def parts : AttributeValue → List Node
  | missing | literal .. | empty => []
  | expr value => [.expr value]
  | element parts => parts

end AttributeValue

namespace Attribute

/-- The nodes inside an attribute. -/
def parts : Attribute → List Node
  | named _ _ value => value.parts
  | spread _ value => [.expr value]

end Attribute

namespace Opening

/-- The nodes inside the opening of an element. -/
def parts : Opening → List Node
  | mk _ name attributes => name.root?.toList.map .ident ++ attributes.map .attr

end Opening

namespace Expr

/-- The nodes inside an expression. -/
def parts : Expr → List Node
  | ident _ id => [.ident id]
  | literal .. => []
  | template _ _ interpolations => interpolations.map .expr
  | tagged _ tag _ interpolations => .expr tag :: interpolations.map .expr
  | array _ elements => (elements.flatMap Option.toList).map Argument.node
  | object _ members => members.map .member
  | member _ base key | optionalMember _ base key => .expr base :: key.parts
  | optionalCall _ callee arguments => .expr callee :: arguments.map Argument.node
  | conditional _ test whenTrue whenFalse => [.expr test, .expr whenTrue, .expr whenFalse]
  | logical _ _ left right | binary _ _ left right => [.expr left, .expr right]
  | unary _ _ operand | update _ operand => [.expr operand]
  | call _ callee arguments => callee.toList.map .expr ++ arguments.map Argument.node
  | assign _ target value => [.target target, .expr value]
  | wrapped _ _ inner => [.expr inner]
  | definition _ _ parts | other _ _ parts => parts

end Expr

namespace Node

/-- The nodes directly inside a node, in the order in which they are visited. -/
def children : Node → List Node
  | expr value => value.parts
  | pattern value => value.parts
  | target value => value.parts
  | member value => value.parts
  | attr value => value.parts
  | opening value => value.parts
  | head value => value.parts
  | ident _ => []
  | declarations declarators | usings declarators => declarators.flatMap Declarator.parts
  | forEach loopHead items body => .head loopHead :: .expr items :: body
  | functionDeclaration id parts | classDeclaration id parts => .ident id :: parts
  | importFrom .. | exportNames .. | exportAll .. => []
  | exportDeclaration declaration => [declaration]
  | exportDefault _ value => [.expr value]
  | group parts => parts

end Node

/-! ### Everything inside a node is smaller than the node -/

/-- What an option holds is smaller than the option. -/
theorem sizeOf_lt_of_mem_toList {α : Type} [SizeOf α] {item? : Option α} {item : α}
    (found : item ∈ item?.toList) : sizeOf item < sizeOf item? := by
  cases item? with
  | none => simp at found
  | some other =>
    obtain rfl : item = other := by simpa using found
    simp +arith

/-- An item that is present is smaller than the list it stands in. -/
theorem sizeOf_lt_of_mem_present {α : Type} [SizeOf α] {items : List (Option α)} {item : α}
    (found : item ∈ items.flatMap Option.toList) : sizeOf item < sizeOf items := by
  obtain ⟨item?, member, found⟩ := List.mem_flatMap.1 found
  exact Nat.lt_trans (sizeOf_lt_of_mem_toList found) (List.sizeOf_lt_of_mem member)

/-- Every list has a size that is not zero. -/
theorem sizeOf_list_pos {α : Type} [SizeOf α] (items : List α) : 0 < sizeOf items := by
  cases items <;> simp +arith

variable {part : Node}

/-- The parts of a key are no larger than the key. -/
theorem Key.sizeOf_parts {key : Key} (found : part ∈ key.parts) : sizeOf part ≤ sizeOf key := by
  cases key with
  | computed _ value => simp [parts] at found; subst found; simp +arith
  | _ => simp [parts] at found

/-- The node of an argument is no larger than the argument. -/
theorem Argument.sizeOf_node (argument : Argument) : sizeOf argument.node ≤ sizeOf argument := by
  cases argument <;> simp [node, value]

/-- The parts of a target are no larger than the target. -/
theorem Target.sizeOf_parts {target : Target} (found : part ∈ target.parts) :
    sizeOf part ≤ sizeOf target := by
  cases target with
  | ident id => simp [parts] at found; subst found; simp
  | member base key =>
    simp [parts] at found
    rcases found with rfl | found
    · simp +arith
    · have := Key.sizeOf_parts found; simp; omega
  | pattern inner => simp [parts] at found; subst found; simp
  | wrapped _ inner => simp [parts] at found; subst found; simp
  | other inner => have := List.sizeOf_lt_of_mem found; simp [parts] at this ⊢; omega

/-- The parts of a property in a pattern are no larger than the property. -/
theorem PatternProperty.sizeOf_parts {property : PatternProperty} (found : part ∈ property.parts) :
    sizeOf part ≤ sizeOf property := by
  cases property with
  | keyed key inner =>
    simp [parts] at found
    rcases found with found | rfl
    · have := Key.sizeOf_parts found; simp; omega
    · simp
  | shorthand id fallback =>
    simp [parts] at found
    rcases found with rfl | ⟨value, rfl, rfl⟩
    · simp +arith
    · simp
  | rest inner => simp [parts] at found; subst found; simp

/-- The parts of a pattern are no larger than the pattern. -/
theorem Pattern.sizeOf_parts {pattern : Pattern} (found : part ∈ pattern.parts) :
    sizeOf part ≤ sizeOf pattern := by
  cases pattern with
  | ident id => simp [parts] at found; subst found; simp
  | array elements =>
    obtain ⟨inner, member, rfl⟩ := List.mem_map.1 found
    have := sizeOf_lt_of_mem_present member
    simp; omega
  | object properties =>
    obtain ⟨property, member, found⟩ := List.mem_flatMap.1 found
    have := PatternProperty.sizeOf_parts found
    have := List.sizeOf_lt_of_mem member
    simp; omega
  | withDefault inner value =>
    simp [parts] at found
    rcases found with rfl | rfl <;> simp +arith
  | rest inner => simp [parts] at found; subst found; simp
  | expr value => simp [parts] at found; subst found; simp
  | invalid => simp [parts] at found

/-- The parts of a declarator are no larger than the declarator. -/
theorem Declarator.sizeOf_parts {declarator : Declarator} (found : part ∈ declarator.parts) :
    sizeOf part ≤ sizeOf declarator := by
  cases declarator with
  | mk pattern init =>
    simp [parts] at found
    rcases found with rfl | ⟨value, rfl, rfl⟩ <;> simp +arith

/-- The parts of a loop's head are no larger than the head. -/
theorem LoopHead.sizeOf_parts {head : LoopHead} (found : part ∈ head.parts) :
    sizeOf part ≤ sizeOf head := by
  cases head <;> simp [parts] at found <;> subst found <;> simp

/-- The parts of a member are no larger than the member. -/
theorem Member.sizeOf_parts {member : Member} (found : part ∈ member.parts) :
    sizeOf part ≤ sizeOf member := by
  cases member with
  | spread _ value => simp [parts] at found; subst found; simp +arith
  | shorthand _ id => simp [parts] at found; subst found; simp +arith
  | keyed _ key value =>
    simp [parts] at found
    rcases found with found | rfl
    · have := Key.sizeOf_parts found; simp; omega
    · simp +arith
  | accessor _ _ key inner =>
    simp [parts] at found
    rcases found with found | found
    · have := Key.sizeOf_parts found; simp; omega
    · have := List.sizeOf_lt_of_mem found; simp; omega
  | defaulted _ id value =>
    simp [parts] at found
    rcases found with rfl | rfl <;> simp +arith

/-- The identifier that a tag name begins with is smaller than the name. -/
theorem TagName.sizeOf_root {name : TagName} {id : Id} (found : name.root? = some id) :
    sizeOf id < sizeOf name := by
  induction name with
  | ident other => simp [root?] at found; subst found; simp +arith
  | member base _ ih => have := ih found; simp; omega
  | qualified => simp [root?] at found

/-- The parts of an attribute's value are no larger than the value. -/
theorem AttributeValue.sizeOf_parts {value : AttributeValue} (found : part ∈ value.parts) :
    sizeOf part ≤ sizeOf value := by
  cases value with
  | expr inner => simp [parts] at found; subst found; simp
  | element inner => have := List.sizeOf_lt_of_mem found; simp [parts] at this ⊢; omega
  | _ => simp [parts] at found

/-- The parts of an attribute are no larger than the attribute. -/
theorem Attribute.sizeOf_parts {attr : Attribute} (found : part ∈ attr.parts) :
    sizeOf part ≤ sizeOf attr := by
  cases attr with
  | named _ _ value => have := AttributeValue.sizeOf_parts found; simp; omega
  | spread _ value => simp [parts] at found; subst found; simp +arith

/-- The parts of an opening tag are no larger than the tag. -/
theorem Opening.sizeOf_parts {opening : Opening} (found : part ∈ opening.parts) :
    sizeOf part ≤ sizeOf opening := by
  cases opening with
  | mk _ name attributes =>
    simp [parts] at found
    rcases found with ⟨id, root, rfl⟩ | ⟨attr, member, rfl⟩
    · have := TagName.sizeOf_root root; simp; omega
    · have := List.sizeOf_lt_of_mem member; simp; omega

/-- The parts of an expression are no larger than the expression. -/
theorem Expr.sizeOf_parts {expr : Expr} (found : part ∈ expr.parts) :
    sizeOf part ≤ sizeOf expr := by
  cases expr with
  | ident _ id => simp [parts] at found; subst found; simp +arith
  | literal => simp [parts] at found
  | template _ _ interpolations =>
    obtain ⟨value, member, rfl⟩ := List.mem_map.1 found
    have := List.sizeOf_lt_of_mem member; simp; omega
  | tagged _ tag _ interpolations =>
    simp [parts] at found
    rcases found with rfl | ⟨value, member, rfl⟩
    · simp +arith
    · have := List.sizeOf_lt_of_mem member; simp; omega
  | array _ elements =>
    obtain ⟨argument, member, rfl⟩ := List.mem_map.1 found
    have := sizeOf_lt_of_mem_present member
    have := argument.sizeOf_node; simp; omega
  | object _ members =>
    obtain ⟨value, member, rfl⟩ := List.mem_map.1 found
    have := List.sizeOf_lt_of_mem member; simp; omega
  | member _ base key | optionalMember _ base key =>
    simp [parts] at found
    rcases found with rfl | found
    · simp +arith
    · have := Key.sizeOf_parts found; simp; omega
  | optionalCall _ callee arguments =>
    simp [parts] at found
    rcases found with rfl | ⟨argument, member, rfl⟩
    · simp +arith
    · have := List.sizeOf_lt_of_mem member; have := argument.sizeOf_node; simp; omega
  | conditional => simp [parts] at found; rcases found with rfl | rfl | rfl <;> simp +arith
  | logical | binary => simp [parts] at found; rcases found with rfl | rfl <;> simp +arith
  | unary | update | wrapped => simp [parts] at found; subst found; simp +arith
  | call _ callee arguments =>
    simp [parts] at found
    rcases found with ⟨value, rfl, rfl⟩ | ⟨argument, member, rfl⟩
    · simp +arith
    · have := List.sizeOf_lt_of_mem member; have := argument.sizeOf_node; simp; omega
  | assign _ target value => simp [parts] at found; rcases found with rfl | rfl <;> simp +arith
  | definition _ _ inner | other _ _ inner =>
    have := List.sizeOf_lt_of_mem found; simp [parts] at this ⊢; omega

/-- A node is larger than each of its children. -/
theorem Node.sizeOf_children {node : Node} (found : part ∈ node.children) :
    sizeOf part < sizeOf node := by
  cases node with
  | expr value => have := Expr.sizeOf_parts found; simp; omega
  | pattern value => have := Pattern.sizeOf_parts found; simp; omega
  | target value => have := Target.sizeOf_parts found; simp; omega
  | member value => have := Member.sizeOf_parts found; simp; omega
  | attr value => have := Attribute.sizeOf_parts found; simp; omega
  | opening value => have := Opening.sizeOf_parts found; simp; omega
  | head value => have := LoopHead.sizeOf_parts found; simp; omega
  | declarations declarators | usings declarators =>
    obtain ⟨declarator, member, found⟩ := List.mem_flatMap.1 found
    have := Declarator.sizeOf_parts found
    have := List.sizeOf_lt_of_mem member; simp; omega
  | forEach loopHead items body =>
    have := sizeOf_list_pos body
    simp [children] at found
    rcases found with rfl | rfl | found
    · simp; omega
    · simp; omega
    · have := List.sizeOf_lt_of_mem found; simp; omega
  | functionDeclaration id inner | classDeclaration id inner =>
    have := sizeOf_list_pos inner
    simp [children] at found
    rcases found with rfl | found
    · simp; omega
    · have := List.sizeOf_lt_of_mem found; simp; omega
  | exportDeclaration declaration => simp [children] at found; subst found; simp
  | exportDefault span value =>
    have : 0 < sizeOf span := by cases span; simp +arith
    simp [children] at found; subst found; simp; omega
  | group inner => have := List.sizeOf_lt_of_mem found; simp [children] at this ⊢; omega
  | _ => simp [children] at found

/-- A node and everything inside it, each node before its children; what is inside the nodes that
`enter` refuses is left out. -/
def Node.walk (enter : Node → Bool) (node : Node) : List Node :=
  node :: if enter node then node.children.attach.flatMap fun ⟨part, _⟩ => part.walk enter else []
termination_by sizeOf node
decreasing_by exact Node.sizeOf_children (by assumption)

/-- A walk passes the node and then, where the node is entered, walks its children in order. -/
theorem Node.walk_eq (enter : Node → Bool) (node : Node) :
    node.walk enter =
      node :: if enter node then node.children.flatMap (Node.walk enter) else [] := by
  rw [walk]
  simp [List.flatMap_subtype, List.unattach_attach]

/-- Every node of a module, each before its children; what is inside the nodes that `enter`
refuses is left out. -/
def Module.walk (enter : Node → Bool) (module : Module) : List Node :=
  module.items.flatMap (Node.walk enter)

/-- A node and everything inside it. -/
def Node.all (node : Node) : List Node := node.walk fun _ => true

/-- Every node of a module. -/
def Module.all (module : Module) : List Node := module.walk fun _ => true

end Glean.Syntax
