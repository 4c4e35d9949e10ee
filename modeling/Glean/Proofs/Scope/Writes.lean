import Glean.Proofs.Scope.Sources

/-!
# Writes

A module writes a name where it gives the name, or a member of its value, a new value: in a
declaration with a value, in the head of a loop over items, in an assignment and in an increment. A
name that is collected as a constant is written once, by its declaration (`Scope.written_once`), if
it is declared once and no write is hidden. The collector looks through parentheses only, and only
around the objects of members, and it does not look into the heads of loops; what it misses for that
is hidden (`Node.hides`).
-/

namespace Glean

namespace Syntax

/-- The name that an expression is or that its chain of members starts from, without parentheses and
types at every level. -/
def Expr.base? : Expr → Option Id
  | .ident _ id => some id
  | .member _ inner _ | .optionalMember _ inner _ => inner.base?
  | .wrapped _ _ inner => inner.base?
  | _ => none

mutual

/-- The names that a pattern assigns to, or to a member of whose values it assigns. -/
def Pattern.assigned : Pattern → List Id
  | .ident id => [id]
  | .array elements => assignedElements elements
  | .object properties => assignedProperties properties
  | .withDefault inner _ | .rest inner => inner.assigned
  | .expr value => value.base?.toList
  | .invalid => []

/-- The names that the elements of an array pattern assign to. -/
def assignedElements : List (Option Pattern) → List Id
  | [] => []
  | none :: rest => assignedElements rest
  | some inner :: rest => inner.assigned ++ assignedElements rest

/-- The names that the properties of an object pattern assign to. -/
def assignedProperties : List PatternProperty → List Id
  | [] => []
  | .keyed _ inner :: rest | .rest inner :: rest => inner.assigned ++ assignedProperties rest
  | .shorthand id _ :: rest => id :: assignedProperties rest

end

/-- The names that the target of an assignment assigns to. -/
def Target.assigned : Target → List Id
  | .ident id => [id]
  | .member base _ => base.base?.toList
  | .pattern inner => inner.assigned
  | .wrapped _ inner => inner.base?.toList
  | .other _ => []

/-- The names that the head of a loop binds or assigns to. -/
def LoopHead.assigned : LoopHead → List Id
  | .declarations declarators | .usings declarators =>
    declarators.flatMap fun declarator => declarator.pattern.bound
  | .pattern inner => inner.assigned

/-- A place where a module gives a new value to a name or to a member of its value. -/
inductive Write where
  /-- A declaration with a value. -/
  | declares (declarator : Declarator)
  /-- The head of a loop over items. -/
  | loops (head : LoopHead)
  /-- An assignment. -/
  | assigns (target : Target)
  /-- An increment or a decrement. -/
  | updates (operand : Expr)

/-- The write of a declaration, if it has a value. -/
def Declarator.write? (declarator : Declarator) : Option Write :=
  declarator.init.map fun _ => .declares declarator

namespace Node

variable (id : Id)

/-- The declarations at a node that bind a name. -/
def declarators : Node → List Declarator
  | .declarations declarators | .usings declarators =>
    declarators.filter fun declarator => id ∈ declarator.pattern.bound
  | _ => []

/-- The writes of a name at a node that are no declarations. -/
def changes : Node → List Write
  | .forEach loopHead _ _ => if id ∈ loopHead.assigned then [.loops loopHead] else []
  | .expr (.assign _ place _) => if id ∈ place.assigned then [.assigns place] else []
  | .expr (.update _ operand) => if operand.base? = some id then [.updates operand] else []
  | _ => []

/-- The writes of a name at a node, apart from the nodes inside it. -/
def writes (node : Node) : List Write :=
  (node.declarators id).filterMap Declarator.write? ++ node.changes id

/-- Whether a write of a name at a node is not noticed: its target is wrapped as a whole, or has
types or an optional member on the way to the name, or the write is inside the head of a loop. -/
def hides : Node → Bool
  | .expr (.assign _ (.wrapped _ inner) _) => inner.base? = some id
  | .expr (.assign _ (.member base _) _) | .expr (.update _ base) =>
    base.base? = some id && base.root?.isNone
  | .head loopHead => (Node.head loopHead).all.any fun inner => !(inner.changes id).isEmpty
  | _ => false

end Node

/-- The declarations of a module that bind a name, wherever they stand. -/
def Module.declarators (module : Module) (id : Id) : List Declarator :=
  module.all.flatMap (Node.declarators id)

/-- The writes of a name in a module, wherever they stand. -/
def Module.writes (module : Module) (id : Id) : List Write := module.all.flatMap (Node.writes id)

/-! ### The names in a pattern -/

/-- The base of a chain of members is a name inside it. -/
theorem Expr.mem_all_of_base? {expr : Expr} {id : Id} (based : expr.base? = some id) :
    .ident id ∈ (Node.expr expr).all := by
  fun_induction Expr.base? expr with
  | case1 _ other =>
    obtain rfl := Option.some_inj.1 based
    exact Node.mem_all_of_child (List.mem_singleton.2 rfl) (Node.mem_all_self _)
  | case2 _ object _ ih | case3 _ object _ ih =>
    exact Node.mem_all_of_child (List.mem_cons_self ..) (ih based)
  | case4 _ _ inner ih => exact Node.mem_all_of_child (List.mem_singleton.2 rfl) (ih based)
  | case5 => cases based

/-- The collector finds no other name at the root of a chain of members than its base. -/
theorem Expr.root?_eq {expr : Expr} (rooted : expr.root? ≠ none) : expr.root? = expr.base? := by
  fun_induction Expr.root? expr with
  | case1 => rfl
  | case2 _ _ _ ih | case3 _ _ ih => exact ih rooted
  | case4 => exact absurd rfl rooted

mutual

/-- What a pattern assigns to are names inside it. -/
theorem Pattern.mem_all_of_assigned {id : Id} :
    ∀ pattern : Pattern, id ∈ pattern.assigned → .ident id ∈ (Node.pattern pattern).all
  | .ident other, found => by
    obtain rfl := List.mem_singleton.1 found
    exact Node.mem_all_of_child (List.mem_singleton.2 rfl) (Node.mem_all_self _)
  | .array elements, found => by
    rw [Pattern.assigned] at found
    obtain ⟨part, listed, inside⟩ := mem_all_of_assignedElements elements found
    exact Node.mem_all_of_child listed inside
  | .object properties, found => by
    rw [Pattern.assigned] at found
    obtain ⟨part, listed, inside⟩ := mem_all_of_assignedProperties properties found
    exact Node.mem_all_of_child listed inside
  | .withDefault inner _, found => by
    rw [Pattern.assigned] at found
    exact Node.mem_all_of_child (List.mem_cons_self ..) (Pattern.mem_all_of_assigned inner found)
  | .rest inner, found => by
    rw [Pattern.assigned] at found
    exact Node.mem_all_of_child (List.mem_cons_self ..) (Pattern.mem_all_of_assigned inner found)
  | .expr value, found => by
    have based : value.base? = some id := Option.mem_toList.1 found
    exact Node.mem_all_of_child (List.mem_singleton.2 rfl) (Expr.mem_all_of_base? based)
  | .invalid, found => by simp [Pattern.assigned] at found

/-- What the elements of an array pattern assign to are names inside them. -/
theorem mem_all_of_assignedElements {id : Id} :
    ∀ elements : List (Option Pattern), id ∈ assignedElements elements →
      ∃ part ∈ (Pattern.array elements).parts, .ident id ∈ part.all
  | [], found => by simp [assignedElements] at found
  | none :: rest, found => by
    rw [assignedElements] at found
    exact mem_all_of_assignedElements rest found
  | some inner :: rest, found => by
    rw [assignedElements] at found
    rcases List.mem_append.1 found with found | found
    · exact ⟨.pattern inner, by simp [Pattern.parts], Pattern.mem_all_of_assigned inner found⟩
    · obtain ⟨part, listed, inside⟩ := mem_all_of_assignedElements rest found
      refine ⟨part, ?_, inside⟩
      rw [Pattern.parts, List.flatMap_cons, List.map_append]
      exact List.mem_append_right _ listed

/-- What the properties of an object pattern assign to are names inside them. -/
theorem mem_all_of_assignedProperties {id : Id} :
    ∀ properties : List PatternProperty, id ∈ assignedProperties properties →
      ∃ part ∈ (Pattern.object properties).parts, .ident id ∈ part.all
  | [], found => by simp [assignedProperties] at found
  | .keyed key inner :: rest, found => by
    rw [assignedProperties] at found
    rcases List.mem_append.1 found with found | found
    · refine ⟨.pattern inner, ?_, Pattern.mem_all_of_assigned inner found⟩
      simp [Pattern.parts, PatternProperty.parts]
    · obtain ⟨part, listed, inside⟩ := mem_all_of_assignedProperties rest found
      exact ⟨part, List.mem_append_right _ listed, inside⟩
  | .rest inner :: rest, found => by
    rw [assignedProperties] at found
    rcases List.mem_append.1 found with found | found
    · refine ⟨.pattern inner, ?_, Pattern.mem_all_of_assigned inner found⟩
      simp [Pattern.parts, PatternProperty.parts]
    · obtain ⟨part, listed, inside⟩ := mem_all_of_assignedProperties rest found
      exact ⟨part, List.mem_append_right _ listed, inside⟩
  | .shorthand other fallback :: rest, found => by
    rw [assignedProperties] at found
    rcases List.mem_cons.1 found with rfl | found
    · exact ⟨.ident id, List.mem_cons_self .., Node.mem_all_self _⟩
    · obtain ⟨part, listed, inside⟩ := mem_all_of_assignedProperties rest found
      exact ⟨part, List.mem_append_right _ listed, inside⟩

end

/-- The names that a pattern assigns to are among the identifiers in it. -/
theorem Pattern.mem_idents_of_assigned {pattern : Pattern} {id : Id}
    (found : id ∈ pattern.assigned) : id ∈ (Node.pattern pattern).idents :=
  List.mem_filterMap.2 ⟨.ident id, pattern.mem_all_of_assigned found, rfl⟩

end Syntax

open Syntax

namespace Finding

variable {id : Id} {value : Variable} {init : Option Expr}

mutual

/-- A pattern makes variables of the names that it binds and of the value that it takes apart. -/
theorem bound_of_mem_ofPattern :
    ∀ (pattern : Pattern) (path : List Step) (fallback : Option Expr),
      binds id (.variable value) ∈ ofPattern init path fallback pattern →
      id ∈ pattern.bound ∧ value.init = init
  | .ident other, path, fallback, found => by
    obtain ⟨rfl, same⟩ : id = other ∧ value = ⟨init, path, fallback⟩ := by
      simpa [ofPattern] using found
    exact ⟨List.mem_singleton.2 rfl, same ▸ rfl⟩
  | .object properties, path, _, found => by
    rw [ofPattern] at found
    exact bound_of_mem_ofProperties properties path found
  | .array elements, path, _, found => by
    rw [ofPattern] at found
    exact bound_of_mem_ofElements elements path 0 found
  | .withDefault inner other, path, _, found => by
    rw [ofPattern] at found
    exact bound_of_mem_ofPattern inner path (some other) found
  | .rest inner, _, _, found => by simp [ofPattern, ofSealed] at found
  | .expr _, _, _, found => by simp [ofPattern] at found
  | .invalid, _, _, found => by simp [ofPattern] at found

/-- So do the properties of an object pattern. -/
theorem bound_of_mem_ofProperties :
    ∀ (properties : List PatternProperty) (path : List Step),
      binds id (.variable value) ∈ ofProperties init path properties →
      id ∈ boundProperties properties ∧ value.init = init
  | [], _, found => by simp [ofProperties] at found
  | .keyed key inner :: rest, path, found => by
    rw [ofProperties] at found
    rcases List.mem_append.1 found with found | found
    · split at found
      · obtain ⟨bound, same⟩ := bound_of_mem_ofPattern inner _ none found
        exact ⟨List.mem_append_left _ bound, same⟩
      · simp [ofSealed] at found
    · obtain ⟨bound, same⟩ := bound_of_mem_ofProperties rest path found
      exact ⟨List.mem_append_right _ bound, same⟩
  | .shorthand other fallback :: rest, path, found => by
    rw [ofProperties] at found
    rcases List.mem_cons.1 found with found | found
    · obtain ⟨rfl, same⟩ : id = other ∧ value = ⟨init, path ++ [.key other.name], fallback⟩ := by
        simpa using found
      exact ⟨List.mem_cons_self .., same ▸ rfl⟩
    · obtain ⟨bound, same⟩ := bound_of_mem_ofProperties rest path found
      exact ⟨List.mem_cons_of_mem _ bound, same⟩
  | .rest inner :: rest, path, found => by
    rw [ofProperties] at found
    rcases List.mem_append.1 found with found | found
    · simp [ofSealed] at found
    · obtain ⟨bound, same⟩ := bound_of_mem_ofProperties rest path found
      exact ⟨List.mem_append_right _ bound, same⟩

/-- So do the elements of an array pattern. -/
theorem bound_of_mem_ofElements :
    ∀ (elements : List (Option Pattern)) (path : List Step) (position : Nat),
      binds id (.variable value) ∈ ofElements init path position elements →
      id ∈ boundElements elements ∧ value.init = init
  | [], _, _, found => by simp [ofElements] at found
  | none :: rest, path, position, found => by
    rw [ofElements] at found
    exact bound_of_mem_ofElements rest path (position + 1) found
  | some inner :: rest, path, position, found => by
    rw [ofElements] at found
    rcases List.mem_append.1 found with found | found
    · obtain ⟨bound, same⟩ := bound_of_mem_ofPattern inner _ none found
      exact ⟨List.mem_append_left _ bound, same⟩
    · obtain ⟨bound, same⟩ := bound_of_mem_ofElements rest path (position + 1) found
      exact ⟨List.mem_append_right _ bound, same⟩

end

/-- A variable is made by a declaration outside the heads of loops, from its value. -/
theorem declares_of_mem_ofNode {node : Node} (found : binds id (.variable value) ∈ ofNode node) :
    ∃ declarator ∈ node.declarators id, value.init = declarator.init := by
  cases node with
  | declarations declarators =>
    obtain ⟨declarator, listed, found⟩ := List.mem_flatMap.1 found
    rw [ofDeclarator] at found
    split at found
    · simp [ofSealed] at found
    · obtain ⟨bound, same⟩ := bound_of_mem_ofPattern _ _ _ found
      exact ⟨declarator, List.mem_filter.2 ⟨listed, by simpa using bound⟩, same⟩
  | forEach head => cases head <;> simp [ofNode, ofHead, ofSealed] at found
  | importFrom source typeOnly specifiers =>
    cases typeOnly with
    | true => simp [ofNode] at found
    | false =>
      obtain ⟨specifier, _, same⟩ := List.mem_map.1 found
      cases specifier <;> cases same
  | expr expr =>
    cases expr with
    | assign _ target => cases target <;> simp [ofNode, ofTarget] at found
    | _ => simp [ofNode] at found
  | _ => simp [ofNode] at found

/-- A write that is no declaration is noticed, unless it is hidden or the head of a loop that
declares the name. -/
theorem noticed_of_changes {node : Node} (changes : node.changes id ≠ [])
    (seen : node.hides id = false) :
    reassigns id ∈ ofNode node ∨
      ∃ head, .head head ∈ node.children ∧ ∃ part ∈ head.parts, part.declarators id ≠ [] := by
  have reached : ∀ {base : Expr}, base.base? = some id →
      (base.base? = some id && base.root?.isNone) = false →
      reassigns id ∈ base.root?.toList.map reassigns := by
    intro base based seen
    have present : base.root? ≠ none := Option.isSome_iff_ne_none.1 (by simpa [based] using seen)
    have rooted : base.root? = some id := (Expr.root?_eq present).trans based
    exact List.mem_map.2 ⟨id, Option.mem_toList.2 rooted, rfl⟩
  have named : ∀ {pattern : Pattern}, id ∈ pattern.assigned →
      reassigns id ∈ (Node.pattern pattern).idents.map reassigns :=
    fun found => List.mem_map.2 ⟨id, Pattern.mem_idents_of_assigned found, rfl⟩
  -- Only loops, assignments and updates change a name without declaring it.
  cases node with
  | forEach head =>
    have found : id ∈ head.assigned := by simpa [Node.changes] using changes
    cases head with
    | declarations declarators | usings declarators =>
      obtain ⟨declarator, listed, bound⟩ := List.mem_flatMap.1 found
      refine .inr ⟨_, List.mem_cons_self .., _, List.mem_cons_self .., ?_⟩
      exact List.ne_nil_of_mem (List.mem_filter.2 ⟨listed, by simpa using bound⟩)
    | pattern => exact .inl (named found)
  | expr value =>
    cases value with
    | assign _ target _ =>
      have found : id ∈ target.assigned := by simpa [Node.changes] using changes
      cases target with
      | ident other =>
        obtain rfl := List.mem_singleton.1 found
        exact .inl (List.mem_singleton.2 rfl)
      | member base => exact .inl (reached (Option.mem_toList.1 found) seen)
      | pattern => exact .inl (named found)
      | wrapped _ inner =>
        have based : inner.base? = some id := Option.mem_toList.1 found
        simp [Node.hides, based] at seen
      | other => simp [Target.assigned] at found
    | update _ operand =>
      have based : operand.base? = some id := by simpa [Node.changes] using changes
      exact .inl (reached based seen)
    | _ => simp [Node.changes] at changes
  | _ => simp [Node.changes] at changes

/-- The walk of the collector enters everything but the heads of loops. -/
def enters : Node → Bool
  | .head _ => false
  | _ => true

/-- What is found in a module is found at a node that the walk visits. -/
theorem mem_ofModule {module : Module} {finding : Finding} :
    finding ∈ ofModule module ↔ ∃ node ∈ module.walk enters, finding ∈ ofNode node := by
  have same : ofModule module = (module.walk enters).flatMap ofNode := by
    rw [ofModule]
    congr 2
  rw [same, List.mem_flatMap]

end Finding

open Finding

namespace Scope

variable {file : Path} {module : Module} {id : Id} {value : Variable}

/-- A head of a loop whose node the collector visits keeps what is inside it from the collector. -/
theorem mem_refused_of_head {head : LoopHead} (visited : .head head ∈ module.walk enters)
    {part : Node} (inside : part ∈ head.parts) : part ∈ refused enters (module.walk enters) := by
  refine List.mem_flatMap.2 ⟨.head head, List.mem_filter.2 ⟨visited, rfl⟩, ?_⟩
  exact List.mem_flatMap.2 ⟨part, inside, Node.mem_all_self part⟩

/-- A name that is collected as a variable and declared once is declared outside the heads of loops.
-/
theorem declarators_eq_of_variable
    (bound : (collect file module).binding? id = some (.variable value))
    (single : (module.declarators id).length ≤ 1) :
    ∃ declarator, module.declarators id = [declarator] ∧ value.init = declarator.init ∧
      ∀ part ∈ refused enters (module.walk enters), part.declarators id = [] := by
  obtain ⟨finding, found, made⟩ := List.mem_filterMap.1 (Entries.mem_of_get?_ofList bound)
  cases finding with
  | reassigns => cases made
  | binds other binding =>
    obtain ⟨rfl, rfl⟩ := Prod.mk.inj (Option.some_inj.1 made)
    obtain ⟨node, visited, found⟩ := mem_ofModule.1 found
    obtain ⟨declarator, declares, same⟩ := declares_of_mem_ofNode found
    -- The declaration is among those that are visited, so none is left for what is refused.
    have parts : (module.declarators other).Perm
        ((module.walk enters).flatMap (Node.declarators other) ++
          (refused enters (module.walk enters)).flatMap (Node.declarators other)) := by
      rw [← List.flatMap_append]
      exact (module.all_perm enters).flatMap_right _
    have first : declarator ∈ (module.walk enters).flatMap (Node.declarators other) :=
      List.mem_flatMap.2 ⟨node, visited, declares⟩
    have lengths := parts.length_eq
    rw [List.length_append] at lengths
    have some' := List.length_pos_of_mem first
    have rest : (refused enters (module.walk enters)).flatMap (Node.declarators other) = [] :=
      List.eq_nil_of_length_eq_zero (by omega)
    have single : (module.declarators other).length = 1 := by omega
    obtain ⟨only, whole⟩ := List.length_eq_one_iff.1 single
    have listed : declarator ∈ module.declarators other :=
      parts.mem_iff.2 (List.mem_append_left _ first)
    rw [whole] at listed
    obtain rfl := List.mem_singleton.1 listed
    exact ⟨declarator, whole, same, List.flatMap_eq_nil_iff.1 rest⟩

/-- A constant that is not declared inside the head of a loop is written by declarations only, if no
write is hidden. -/
theorem changes_eq_nil (constant : (collect file module).isReassigned id = false)
    (outside : ∀ part ∈ refused enters (module.walk enters), part.declarators id = [])
    (seen : ∀ node ∈ module.all, node.hides id = false) :
    ∀ node ∈ module.all, node.changes id = [] := by
  have unchanged : reassigns id ∉ ofModule module := by
    intro found
    have changed : id ∈ (collect file module).reassigned := List.mem_filterMap.2 ⟨_, found, rfl⟩
    simp [isReassigned, changed] at constant
  intro node inside
  by_contra changes
  rcases List.mem_append.1 ((module.all_perm enters).mem_iff.1 inside) with visited | left
  · rcases noticed_of_changes changes (seen node inside) with
      found | ⟨head, child, part, listed, more⟩
    · exact unchanged (mem_ofModule.2 ⟨node, visited, found⟩)
    · have entered : enters node = true := by
        cases node with
        | head => exact absurd rfl changes
        | _ => rfl
      have visited := Module.mem_walk_of_child visited entered child
      exact more (outside part (mem_refused_of_head visited listed))
  · obtain ⟨other, closed, found⟩ := List.mem_flatMap.1 left
    obtain ⟨visited, closed⟩ := List.mem_filter.1 closed
    have listed := (module.all_perm enters).mem_iff.2 (List.mem_append_left _ visited)
    have within : node ∈ other.all := other.all_eq ▸ List.mem_cons_of_mem _ found
    cases other with
    | head head =>
      have quiet := seen _ listed
      simp only [Node.hides, List.any_eq_false, Bool.not_eq_true', Bool.not_eq_false,
        List.isEmpty_iff] at quiet
      exact changes (quiet node within)
    | _ => cases closed

/-- A name that is collected as a constant, declared once and nowhere written in a hidden way is
written by its declaration only, and not at all if that gives it no value. -/
theorem written_once (file : Path) (module : Module) (id : Id) (value : Variable)
    (bound : (collect file module).binding? id = some (.variable value))
    (constant : (collect file module).isReassigned id = false)
    (single : (module.declarators id).length ≤ 1)
    (seen : ∀ node ∈ module.all, node.hides id = false) :
    match value.init with
    | some init => ∃ declarator, module.writes id = [.declares declarator] ∧
        id ∈ declarator.pattern.bound ∧ declarator.init = some init
    | none => module.writes id = [] := by
  obtain ⟨declarator, declared, same, outside⟩ := declarators_eq_of_variable bound single
  have quiet := changes_eq_nil constant outside seen
  have writes : module.writes id = (module.declarators id).filterMap Declarator.write? := by
    rw [Module.writes, Module.declarators, List.filterMap_flatMap]
    refine List.flatMap_congr fun node inside => ?_
    rw [Node.writes, quiet node inside, List.append_nil]
  have binds : id ∈ declarator.pattern.bound := by
    have listed : declarator ∈ module.declarators id := declared ▸ List.mem_singleton.2 rfl
    obtain ⟨node, _, found⟩ := List.mem_flatMap.1 listed
    cases node <;> simp [Node.declarators] at found <;> exact found.2
  rw [declared] at writes
  cases init : value.init with
  | none => simpa [Declarator.write?, ← same, init] using writes
  | some expr =>
    refine ⟨declarator, ?_, binds, same.symm.trans init⟩
    simpa [Declarator.write?, ← same, init] using writes

/-- `let x = "a"; (x) = "b"` -/
def wrappedWriteModule : Module :=
  ⟨[.declarations [.mk (.ident ⟨"x", 0⟩) (some (.literal ⟨9, 12⟩ (.string "a")))],
    .group [.expr (.assign ⟨14, 23⟩ (.wrapped .parentheses (.ident ⟨15, 16⟩ ⟨"x", 0⟩))
      (.literal ⟨20, 23⟩ (.string "b")))]]⟩

/-- A name that is assigned to in parentheses is collected as a constant, although it is written
twice. -/
theorem not_written_once_in_parentheses :
    let file : Path := ⟨"/a.ts"⟩
    let x : Id := ⟨"x", 0⟩
    ∃ value init, (collect file wrappedWriteModule).binding? x = some (.variable value) ∧
      value.init = some init ∧ (collect file wrappedWriteModule).isReassigned x = false ∧
      ¬∃ declarator, wrappedWriteModule.writes x = [.declares declarator] := by
  intro file x
  let written : Declarator := .mk (.ident ⟨"x", 0⟩) (some (.literal ⟨9, 12⟩ (.string "a")))
  have bound : (collect file wrappedWriteModule).binding? x =
      some (.variable ⟨written.init, [], none⟩) := by with_unfolding_all rfl
  have constant : (collect file wrappedWriteModule).isReassigned x = false := by decide +kernel
  have writes : wrappedWriteModule.writes x = [.declares written,
      .assigns (.wrapped .parentheses (.ident ⟨15, 16⟩ ⟨"x", 0⟩))] := by with_unfolding_all rfl
  refine ⟨_, _, bound, rfl, constant, ?_⟩
  rintro ⟨declarator, single⟩
  simp [writes] at single

/-- `let x = "a"; y.z = x` -/
def singleWriteModule : Module :=
  ⟨[.declarations [.mk (.ident ⟨"x", 0⟩) (some (.literal ⟨9, 12⟩ (.string "a")))],
    .group [.expr (.assign ⟨14, 21⟩ (.member (.ident ⟨14, 15⟩ ⟨"y", 0⟩) (.name "z"))
      (.ident ⟨20, 21⟩ ⟨"x", 0⟩))]]⟩

/-- A name whose value is only read after its declaration is written once. -/
theorem written_once_read :
    let file : Path := ⟨"/a.ts"⟩
    let x : Id := ⟨"x", 0⟩
    ∃ value init, (collect file singleWriteModule).binding? x = some (.variable value) ∧
      (collect file singleWriteModule).isReassigned x = false ∧
      (singleWriteModule.declarators x).length ≤ 1 ∧
      (∀ node ∈ singleWriteModule.all, node.hides x = false) ∧
      value.init = some init ∧ ∃ declarator, singleWriteModule.writes x = [.declares declarator] ∧
        x ∈ declarator.pattern.bound ∧ declarator.init = some init := by
  intro file x
  let text : Expr := .literal ⟨9, 12⟩ (.string "a")
  have bound : (collect file singleWriteModule).binding? x =
      some (.variable ⟨some text, [], none⟩) := by with_unfolding_all rfl
  have constant : (collect file singleWriteModule).isReassigned x = false := by decide +kernel
  have single : (singleWriteModule.declarators x).length ≤ 1 := by decide +kernel
  have seen : ∀ node ∈ singleWriteModule.all, node.hides x = false := by
    have none : (singleWriteModule.all.any fun node => node.hides x) = false := by decide +kernel
    simpa using none
  exact ⟨_, text, bound, constant, single, seen, rfl,
    written_once file singleWriteModule x _ bound constant single seen⟩

end Scope

end Glean
