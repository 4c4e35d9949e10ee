import Glean.Syntax.Walk
import Mathlib.Data.List.Perm.Basic

/-!
# What is inside a tree

`Node.all` lists a node and everything inside it. What is inside a child, or inside a node that a
walk visits, is inside the node, and it has fewer nodes. The size of an expression counts the nodes
inside it, so every part of an expression is smaller than the expression.
-/

namespace Glean.Syntax

/-- What is inside one item is no longer than what is inside all of them. -/
theorem length_le_length_flatMap {α β : Type} {items : List α} {item : α} (found : item ∈ items)
    (inside : α → List β) : (inside item).length ≤ (items.flatMap inside).length := by
  obtain ⟨before, after, rfl⟩ := List.mem_iff_append.1 found
  simp only [List.flatMap_append, List.flatMap_cons, List.length_append]
  omega

/-- A node holds itself and what its children hold. -/
theorem Node.all_eq (node : Node) : node.all = node :: node.children.flatMap Node.all := by
  rw [all, walk_eq]
  rfl

/-- A node has more nodes inside than each of its children. -/
theorem Node.length_all_lt {node part : Node} (found : part ∈ node.children) :
    part.all.length < node.all.length := by
  have inside := length_le_length_flatMap found Node.all
  rw [node.all_eq, List.length_cons]
  omega

/-- A node holds itself. -/
theorem Node.mem_all_self (node : Node) : node ∈ node.all := by
  rw [all_eq]
  exact List.mem_cons_self ..

/-- What is inside a child is inside the node. -/
theorem Node.mem_all_of_child {node part inner : Node} (child : part ∈ node.children)
    (found : inner ∈ part.all) : inner ∈ node.all := by
  rw [all_eq]
  exact List.mem_cons_of_mem _ (List.mem_flatMap.2 ⟨part, child, found⟩)

/-- What is inside a node that a walk visits is inside the node from which the walk starts. -/
theorem Node.mem_all_of_mem_walk {enter : Node → Bool} {node part inner : Node}
    (visited : part ∈ node.walk enter) (found : inner ∈ part.all) : inner ∈ node.all := by
  rw [walk_eq] at visited
  rcases List.mem_cons.1 visited with rfl | visited
  · exact found
  · split at visited
    · obtain ⟨child, listed, visited⟩ := List.mem_flatMap.1 visited
      exact mem_all_of_child listed (mem_all_of_mem_walk visited found)
    · simp at visited
termination_by sizeOf node
decreasing_by exact Node.sizeOf_children listed

/-- What is inside a node that a walk visits is inside the module. -/
theorem Module.mem_all_of_mem_walk {enter : Node → Bool} {module : Module} {part inner : Node}
    (visited : part ∈ module.walk enter) (found : inner ∈ part.all) : inner ∈ module.all := by
  obtain ⟨item, listed, visited⟩ := List.mem_flatMap.1 visited
  exact List.mem_flatMap.2 ⟨item, listed, Node.mem_all_of_mem_walk visited found⟩

/-- What a walk leaves out: everything inside the nodes that it refuses. -/
def refused (enter : Node → Bool) (visited : List Node) : List Node :=
  (visited.filter fun node => !enter node).flatMap fun node => node.children.flatMap Node.all

/-- What nodes hold is visited by a walk or refused by it, when this is so of each of the nodes. -/
theorem flatMap_all_perm {enter : Node → Bool} {nodes : List Node}
    (each : ∀ node ∈ nodes, node.all.Perm (node.walk enter ++ refused enter (node.walk enter))) :
    (nodes.flatMap Node.all).Perm
      (nodes.flatMap (Node.walk enter) ++ refused enter (nodes.flatMap (Node.walk enter))) := by
  have apart : refused enter (nodes.flatMap (Node.walk enter)) =
      nodes.flatMap fun node => refused enter (node.walk enter) := by
    simp only [refused, List.filter_flatMap, List.flatMap_assoc]
  rw [apart]
  exact (List.Perm.flatMap_left _ each).trans (List.flatMap_append_perm ..).symm

/-- A node and everything inside it are what a walk visits and what it leaves out. -/
theorem Node.all_perm (enter : Node → Bool) (node : Node) :
    node.all.Perm (node.walk enter ++ refused enter (node.walk enter)) := by
  rw [all_eq, walk_eq]
  cases entered : enter node with
  | false => simp [refused, entered]
  | true =>
    have inside := flatMap_all_perm fun part (_ : part ∈ node.children) => part.all_perm enter
    simpa [refused, entered] using inside
termination_by sizeOf node
decreasing_by exact Node.sizeOf_children (by assumption)

/-- The nodes of a module are those that a walk visits and those that it leaves out. -/
theorem Module.all_perm (enter : Node → Bool) (module : Module) :
    module.all.Perm (module.walk enter ++ refused enter (module.walk enter)) :=
  flatMap_all_perm fun item _ => item.all_perm enter

/-- A walk visits the children of the nodes that it visits and does not refuse. -/
theorem Node.mem_walk_of_child {enter : Node → Bool} {node part child : Node}
    (visited : part ∈ node.walk enter) (entered : enter part = true) (found : child ∈ part.children) :
    child ∈ node.walk enter := by
  rw [walk_eq] at visited ⊢
  rcases List.mem_cons.1 visited with rfl | visited
  · rw [if_pos entered]
    refine List.mem_cons_of_mem _ (List.mem_flatMap.2 ⟨child, found, ?_⟩)
    rw [walk_eq]
    exact List.mem_cons_self ..
  · split at visited
    · rename_i entering
      obtain ⟨between, listed, visited⟩ := List.mem_flatMap.1 visited
      rw [if_pos entering]
      exact List.mem_cons_of_mem _
        (List.mem_flatMap.2 ⟨between, listed, mem_walk_of_child visited entered found⟩)
    · simp at visited
termination_by sizeOf node
decreasing_by exact Node.sizeOf_children listed

/-- A walk that enters a node visits its children. -/
theorem Module.mem_walk_of_child {enter : Node → Bool} {module : Module} {part child : Node}
    (visited : part ∈ module.walk enter) (entered : enter part = true)
    (found : child ∈ part.children) : child ∈ module.walk enter := by
  obtain ⟨item, listed, visited⟩ := List.mem_flatMap.1 visited
  exact List.mem_flatMap.2 ⟨item, listed, Node.mem_walk_of_child visited entered found⟩

/-- Nothing inside a node has more nodes than the node. -/
theorem Node.length_all_le {node part : Node} (found : part ∈ node.all) :
    part.all.length ≤ node.all.length := by
  rw [all_eq] at found
  rcases List.mem_cons.1 found with rfl | found
  · exact Nat.le_refl _
  · obtain ⟨child, listed, found⟩ := List.mem_flatMap.1 found
    exact Nat.le_trans (length_all_le found) (Nat.le_of_lt (length_all_lt listed))
termination_by sizeOf node
decreasing_by exact Node.sizeOf_children listed

/-- Nothing inside a module has more nodes than the module. -/
theorem Module.length_all_le {module : Module} {part : Node} (found : part ∈ module.all) :
    part.all.length ≤ module.all.length := by
  obtain ⟨item, listed, found⟩ := List.mem_flatMap.1 found
  exact Nat.le_trans (Node.length_all_le found) (length_le_length_flatMap listed Node.all)

namespace Expr

/-- How many nodes an expression has, itself among them. -/
def size (expr : Expr) : Nat := (Node.expr expr).all.length

variable {part expr : Expr} {span : Span}

/-- An expression is larger than the expressions in it. -/
theorem size_lt_of_mem_parts (found : .expr part ∈ expr.parts) : part.size < expr.size :=
  Node.length_all_lt (show Node.expr part ∈ (Node.expr expr).children from found)

/-- Parentheses and types are taken off at once. -/
@[simp]
theorem unwrap_unwrap (expr : Expr) : expr.unwrap.unwrap = expr.unwrap := by
  fun_induction unwrap expr with
  | case1 _ _ _ ih => exact ih
  | case2 expr bare =>
    cases expr with
    | wrapped span wrapper inner => exact absurd rfl (bare span wrapper inner)
    | _ => rfl

/-- Taking off parentheses and types makes nothing larger. -/
theorem size_unwrap_le (expr : Expr) : expr.unwrap.size ≤ expr.size := by
  fun_induction unwrap expr with
  | case1 _ _ inner ih =>
    exact Nat.le_trans ih (Nat.le_of_lt (size_lt_of_mem_parts (by simp [parts])))
  | case2 => exact Nat.le_refl _

/-- An element of an array is smaller than the array. -/
theorem size_element_lt {items : List (Option Argument)} {argument : Argument}
    (found : some argument ∈ items) : argument.value.size < (array span items).size := by
  refine size_lt_of_mem_parts ?_
  refine List.mem_map.2 ⟨argument, List.mem_flatMap.2 ⟨_, found, by simp⟩, rfl⟩

/-- An expression inside a member is smaller than the object. -/
theorem size_member_lt {members : List Member} {member : Member} (found : member ∈ members)
    (inside : .expr part ∈ member.parts) : part.size < (object span members).size := by
  have listed : Node.member member ∈ (Node.expr (object span members)).children :=
    List.mem_map.2 ⟨member, found, rfl⟩
  have outer := Node.length_all_lt listed
  have inner := Node.length_all_lt (show Node.expr part ∈ (Node.member member).children from inside)
  exact Nat.lt_trans inner outer

/-- The name that a shorthand stands for is smaller than the object. -/
theorem size_shorthand_lt {members : List Member} {place : Span} {id : Id}
    (found : .shorthand place id ∈ members) :
    (ident place id).size < (object span members).size := by
  have listed : Node.member (.shorthand place id) ∈ (Node.expr (object span members)).children :=
    List.mem_map.2 ⟨_, found, rfl⟩
  have inner : (ident place id).size = (Node.member (.shorthand place id)).all.length := by
    simp [size, Node.all_eq, Node.children, parts, Member.parts]
  rw [inner]
  exact Node.length_all_lt listed

end Expr

end Glean.Syntax
