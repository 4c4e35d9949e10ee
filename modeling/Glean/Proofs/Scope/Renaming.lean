import Glean.Document
import Glean.Proofs.Scope.Sources
import Glean.Proofs.Syntax.Renaming

/-!
# Scopes of renamed trees

The scope of a renamed module is that of the module itself, renamed (`Scope.collect_rename`), for
every injective renaming that keeps the names that are spelled: those that say what a member, a part
of a value, an import or an export is called.
-/

namespace Glean

namespace Syntax

/-- The binding of an import that is named like what it imports. -/
def ImportSpecifier.spelled : ImportSpecifier → List Id
  | named binding none => [binding]
  | named _ (some _) | standard _ | whole _ => []

/-- The binding of a property that is named like the part that it binds. -/
def PatternProperty.spelled : PatternProperty → List Id
  | shorthand id _ => [id]
  | keyed .. | rest _ => []

/-- The identifiers whose names say at a node what a member, a part or an import is called. -/
def Node.spelled : Node → List Id
  | member (.shorthand _ id) => [id]
  | pattern (.object properties) => properties.flatMap PatternProperty.spelled
  | importFrom _ false specifiers => specifiers.flatMap ImportSpecifier.spelled
  | _ => []

/-- The identifier whose name says what is exported, or what is imported to be exported. -/
def ExportSpecifier.spelled (source : Option String) : ExportSpecifier → List Id
  | named (.ident id) exported => if exported.isSome && source.isNone then [] else [id]
  | named (.string _) _ | whole _ => []

/-- The identifiers whose names a top-level item exports. -/
def Node.exported : Node → List Id
  | exportDeclaration (declarations declarators) =>
    declarators.flatMap fun declarator => declarator.pattern.bound
  | exportDeclaration (functionDeclaration id _) | exportDeclaration (classDeclaration id _) => [id]
  | exportNames source false specifiers => specifiers.flatMap (ExportSpecifier.spelled source)
  | _ => []

/-- The identifiers of a module whose names matter. -/
def Module.spelled (module : Module) : List Id :=
  module.all.flatMap Node.spelled ++ module.items.flatMap Node.exported

/-! ### What is spelled is in the module -/

mutual

/-- The names that a pattern binds are in the pattern. -/
theorem Pattern.mem_ids_of_bound :
    ∀ pattern : Pattern, ∀ id ∈ pattern.bound, id ∈ (Node.pattern pattern).ids
  | .ident own, id, bound => by
    obtain rfl := List.mem_singleton.1 bound
    exact Node.mem_ids_of_child (List.mem_singleton_self (Node.ident id)) (Node.mem_ids_ident id)
  | .array elements, id, bound => by
    obtain ⟨inner, listed, found⟩ := exists_mem_ids_of_boundElements elements id bound
    have child : Node.pattern inner ∈ (Node.pattern (.array elements)).children :=
      List.mem_map.2 ⟨inner, List.mem_flatMap.2 ⟨_, listed, by simp⟩, rfl⟩
    exact Node.mem_ids_of_child child found
  | .object properties, id, bound => by
    obtain ⟨property, listed, part, held, found⟩ :=
      exists_mem_ids_of_boundProperties properties id bound
    have child : part ∈ (Node.pattern (.object properties)).children :=
      List.mem_flatMap.2 ⟨property, listed, held⟩
    exact Node.mem_ids_of_child child found
  | .withDefault inner _, id, bound =>
    Node.mem_ids_of_child (List.mem_cons_self ..) (inner.mem_ids_of_bound id bound)
  | .rest inner, id, bound =>
    Node.mem_ids_of_child (List.mem_singleton_self _) (inner.mem_ids_of_bound id bound)

/-- The names that the elements of a pattern bind are in one of them. -/
theorem exists_mem_ids_of_boundElements : ∀ elements : List (Option Pattern),
    ∀ id ∈ boundElements elements, ∃ inner, some inner ∈ elements ∧ id ∈ (Node.pattern inner).ids
  | none :: rest, id, bound => by
    obtain ⟨inner, listed, found⟩ := exists_mem_ids_of_boundElements rest id bound
    exact ⟨inner, List.mem_cons_of_mem _ listed, found⟩
  | some first :: rest, id, bound => by
    rcases List.mem_append.1 bound with bound | bound
    · exact ⟨first, List.mem_cons_self .., first.mem_ids_of_bound id bound⟩
    · obtain ⟨inner, listed, found⟩ := exists_mem_ids_of_boundElements rest id bound
      exact ⟨inner, List.mem_cons_of_mem _ listed, found⟩

/-- The names that the properties of a pattern bind are in a part of one of them. -/
theorem exists_mem_ids_of_boundProperties : ∀ properties : List PatternProperty,
    ∀ id ∈ boundProperties properties,
      ∃ property ∈ properties, ∃ part ∈ property.parts, id ∈ part.ids
  | .keyed key inner :: rest, id, bound => by
    rcases List.mem_append.1 bound with bound | bound
    · exact ⟨_, List.mem_cons_self .., .pattern inner, by simp [PatternProperty.parts],
        inner.mem_ids_of_bound id bound⟩
    · obtain ⟨property, listed, found⟩ := exists_mem_ids_of_boundProperties rest id bound
      exact ⟨property, List.mem_cons_of_mem _ listed, found⟩
  | .shorthand own fallback :: rest, id, bound => by
    rcases List.mem_cons.1 bound with rfl | bound
    · exact ⟨_, List.mem_cons_self .., .ident id, List.mem_cons_self .., Node.mem_ids_ident id⟩
    · obtain ⟨property, listed, found⟩ := exists_mem_ids_of_boundProperties rest id bound
      exact ⟨property, List.mem_cons_of_mem _ listed, found⟩
  | .rest inner :: rest, id, bound => by
    rcases List.mem_append.1 bound with bound | bound
    · exact ⟨_, List.mem_cons_self .., .pattern inner, by simp [PatternProperty.parts],
        inner.mem_ids_of_bound id bound⟩
    · obtain ⟨property, listed, found⟩ := exists_mem_ids_of_boundProperties rest id bound
      exact ⟨property, List.mem_cons_of_mem _ listed, found⟩

end

/-- The names that a node spells are in the node. -/
theorem Node.mem_ids_of_spelled {node : Node} {id : Id} (found : id ∈ node.spelled) :
    id ∈ node.ids := by
  cases node with
  | member value =>
    cases value with
    | shorthand _ own =>
      obtain rfl := List.mem_singleton.1 found
      exact mem_ids_of_child (List.mem_singleton_self (Node.ident id)) (mem_ids_ident id)
    | _ => cases found
  | pattern value =>
    cases value with
    | object properties =>
      obtain ⟨property, listed, found⟩ := List.mem_flatMap.1 found
      cases property with
      | shorthand own fallback =>
        obtain rfl := List.mem_singleton.1 found
        have child : Node.ident id ∈ (Node.pattern (.object properties)).children :=
          List.mem_flatMap.2 ⟨_, listed, List.mem_cons_self ..⟩
        exact mem_ids_of_child child (mem_ids_ident id)
      | _ => cases found
    | _ => cases found
  | importFrom source typeOnly specifiers =>
    cases typeOnly with
    | true => cases found
    | false =>
      obtain ⟨specifier, listed, found⟩ := List.mem_flatMap.1 found
      have same : id = specifier.binding := by
        cases specifier with
        | named binding imported =>
          cases imported with
          | none => exact List.mem_singleton.1 found
          | some => cases found
        | _ => cases found
      exact mem_ids_of_mentions (List.mem_map.2 ⟨specifier, listed, same.symm⟩)
  | _ => cases found

/-- The names that an item exports are in the item. -/
theorem Node.mem_ids_of_exported {item : Node} {id : Id} (found : id ∈ item.exported) :
    id ∈ item.ids := by
  cases item with
  | exportDeclaration declaration =>
    refine mem_ids_of_child (List.mem_singleton_self declaration) ?_
    cases declaration with
    | declarations declarators =>
      obtain ⟨declarator, listed, found⟩ := List.mem_flatMap.1 found
      obtain ⟨pattern, init⟩ := declarator
      have child : Node.pattern pattern ∈ (Node.declarations declarators).children :=
        List.mem_flatMap.2 ⟨_, listed, List.mem_cons_self ..⟩
      exact mem_ids_of_child child (pattern.mem_ids_of_bound id found)
    | functionDeclaration own | classDeclaration own =>
      obtain rfl := List.mem_singleton.1 found
      exact mem_ids_of_child (List.mem_cons_self ..) (mem_ids_ident id)
    | _ => cases found
  | exportNames source typeOnly specifiers =>
    cases typeOnly with
    | true => cases found
    | false =>
      obtain ⟨specifier, listed, found⟩ := List.mem_flatMap.1 found
      refine mem_ids_of_mentions (List.mem_flatMap.2 ⟨specifier, listed, ?_⟩)
      cases specifier with
      | named name exported =>
        cases name with
        | ident own =>
          simp only [ExportSpecifier.spelled] at found
          split at found
          · cases found
          · exact found
        | string => cases found
      | whole => cases found
  | _ => cases found

/-- What is spelled in a module is one of its identifiers. -/
theorem Module.mem_ids_of_spelled {module : Module} {id : Id} (found : id ∈ module.spelled) :
    id ∈ module.ids := by
  rcases List.mem_append.1 found with found | found
  · obtain ⟨node, held, found⟩ := List.mem_flatMap.1 found
    exact mem_ids held (Node.mem_ids_of_spelled found)
  · obtain ⟨item, listed, found⟩ := List.mem_flatMap.1 found
    have held : item ∈ module.all := List.mem_flatMap.2 ⟨item, listed, item.mem_all_self⟩
    exact mem_ids held (Node.mem_ids_of_exported found)

variable {change : Id → Id}

/-- The renaming keeps the names that are spelled inside the node. -/
def Node.Keeps (change : Id → Id) (node : Node) : Prop :=
  ∀ part ∈ node.all, ∀ id ∈ part.spelled, (change id).name = id.name

namespace Node.Keeps

variable {node part : Node} (keeps : node.Keeps change)

include keeps

/-- A renaming that keeps a node keeps the names that the node spells itself. -/
theorem own : ∀ id ∈ node.spelled, (change id).name = id.name :=
  keeps node (mem_all_self node)

/-- A renaming that keeps a node keeps its children. -/
theorem child (child : part ∈ node.children) : part.Keeps change :=
  fun inner held => keeps inner (mem_all_of_child child held)

omit keeps in
/-- A renaming that keeps an expression keeps what is in its wrappers. -/
theorem unwrap {expr : Expr} (keeps : (Node.expr expr).Keeps change) :
    (Node.expr expr.unwrap).Keeps change := by
  fun_induction Expr.unwrap expr with
  | case1 _ _ inner ih => exact ih (keeps.child (List.mem_singleton_self _))
  | case2 => exact keeps

end Node.Keeps

/-! ### What is read off a renamed tree -/

/-- A renamed key is written like the key. -/
theorem Key.written?_rename (key : Key) : (key.rename change).written? = key.written? := by
  cases key <;> rfl

/-- A renamed expression is a definition when the expression is. -/
theorem Expr.isDefinition_rename (expr : Expr) :
    (expr.rename change).isDefinition = expr.isDefinition := by
  cases expr <;> rfl

/-- The name that a renamed chain starts from is the renamed one. -/
theorem Expr.root?_rename (expr : Expr) : (expr.rename change).root? = expr.root?.map change := by
  cases expr with
  | member _ base _ => exact base.root?_rename
  | wrapped _ wrapper inner =>
    cases wrapper with
    | parentheses => exact inner.root?_rename
    | _ => rfl
  | _ => rfl
termination_by sizeOf expr

/-- The identifiers in a renamed node are those in the node, renamed. -/
theorem Node.idents_rename (node : Node) :
    (node.rename change).idents = node.idents.map change := by
  rw [idents, idents, node.all_rename, List.filterMap_map, List.map_filterMap]
  refine List.filterMap_congr fun part _ => ?_
  cases part <;> rfl

mutual

/-- A renamed pattern binds the renamed names. -/
theorem Pattern.bound_rename :
    ∀ pattern : Pattern, (pattern.rename change).bound = pattern.bound.map change
  | .ident _ => rfl
  | .array elements => boundElements_rename elements
  | .object properties => boundProperties_rename properties
  | .withDefault inner _ => inner.bound_rename
  | .rest inner => inner.bound_rename
  | .expr _ => rfl
  | .invalid => rfl

/-- The elements of a renamed array pattern bind the renamed names. -/
theorem boundElements_rename : ∀ elements : List (Option Pattern),
    boundElements (renamePatterns change elements) = (boundElements elements).map change
  | [] => rfl
  | none :: rest => boundElements_rename rest
  | some inner :: rest => by
    rw [renamePatterns, boundElements, boundElements, inner.bound_rename, boundElements_rename rest,
      List.map_append]

/-- The properties of a renamed object pattern bind the renamed names. -/
theorem boundProperties_rename : ∀ properties : List PatternProperty,
    boundProperties (renameProperties change properties) = (boundProperties properties).map change
  | [] => rfl
  | .keyed _ inner :: rest | .rest inner :: rest => by
    rw [renameProperties, PatternProperty.rename, boundProperties, boundProperties,
      inner.bound_rename, boundProperties_rename rest, List.map_append]
  | .shorthand id _ :: rest => by
    rw [renameProperties, PatternProperty.rename, boundProperties, boundProperties,
      boundProperties_rename rest, List.map_cons]

end

end Syntax

open Syntax

section

variable (change : Id → Id)

/-- The variable with the identifiers in its expressions renamed. -/
def Variable.rename (value : Variable) : Variable :=
  { init := value.init.map (Expr.rename change)
    path := value.path
    fallback := value.fallback.map (Expr.rename change) }

/-- The binding with the identifiers in its expressions renamed. -/
def Binding.rename : Binding → Binding
  | .variable value => .variable (value.rename change)
  | .imported source name => .imported source name
  | .sealed => .sealed

/-- The finding with its identifiers renamed. -/
def Finding.rename : Finding → Finding
  | .binds id binding => .binds (change id) (binding.rename change)
  | .reassigns id => .reassigns (change id)

/-- The export with its identifiers renamed. -/
def Export.rename : Export → Export
  | .binding id => .binding (change id)
  | .forward source name => .forward source name
  | .value expr => .value (expr.rename change)

/-- The scope with its identifiers renamed. -/
def Scope.rename (scope : Scope) : Scope :=
  { file := scope.file
    bindings := Entries.translate change (Binding.rename change) scope.bindings
    reassigned := scope.reassigned.map change
    exports := Entries.mapValues (Export.rename change) scope.exports
    stars := scope.stars }

end

variable {change : Id → Id}

namespace Finding

/-- What a pattern binds without values is found in the renamed pattern, renamed. -/
theorem ofSealed_rename (pattern : Pattern) :
    ofSealed (pattern.rename change) = (ofSealed pattern).map (rename change) := by
  rw [ofSealed, ofSealed, pattern.bound_rename, List.map_map, List.map_map]
  rfl

mutual

/-- What a pattern binds is found in the renamed pattern, renamed, if the names that it spells are
kept. -/
theorem ofPattern_rename (init : Option Expr) : ∀ (pattern : Pattern) (path : List Step)
    (fallback : Option Expr), (Node.pattern pattern).Keeps change →
    ofPattern (init.map (Expr.rename change)) path (fallback.map (Expr.rename change))
      (pattern.rename change) = (ofPattern init path fallback pattern).map (rename change)
  | .ident _, _, _, _ => rfl
  | .object properties, path, _, keeps =>
    ofProperties_rename init properties path
      (fun id spelled => keeps.own id spelled) fun property listed part held =>
        keeps.child (List.mem_flatMap.2 ⟨property, listed, held⟩)
  | .array elements, path, _, keeps =>
    ofElements_rename init elements path 0 fun inner listed =>
      keeps.child (List.mem_map.2 ⟨inner, List.mem_flatMap.2 ⟨_, listed, by simp⟩, rfl⟩)
  | .withDefault inner value, path, _, keeps =>
    ofPattern_rename init inner path (some value) (keeps.child (List.mem_cons_self ..))
  | .rest inner, _, _, _ => ofSealed_rename inner
  | .expr _, _, _, _ => rfl
  | .invalid, _, _, _ => rfl

/-- What the properties of a pattern bind is found in the renamed ones, renamed, if the names that
they spell are kept. -/
theorem ofProperties_rename (init : Option Expr) : ∀ (properties : List PatternProperty)
    (path : List Step),
    (∀ id ∈ properties.flatMap PatternProperty.spelled, (change id).name = id.name) →
    (∀ property ∈ properties, ∀ part ∈ property.parts, part.Keeps change) →
    ofProperties (init.map (Expr.rename change)) path (renameProperties change properties) =
      (ofProperties init path properties).map (rename change)
  | [], _, _, _ => rfl
  | .keyed key inner :: rest, path, spelled, keeps => by
    have inside : (Node.pattern inner).Keeps change :=
      keeps _ (List.mem_cons_self ..) _ (by simp [PatternProperty.parts])
    have others := ofProperties_rename init rest path
      (fun id found => spelled id (List.mem_append_right _ found))
      fun property listed => keeps property (List.mem_cons_of_mem _ listed)
    rw [renameProperties, PatternProperty.rename, ofProperties, ofProperties, key.written?_rename,
      others, List.map_append]
    cases key.written? with
    | none => exact congrArg (· ++ _) (ofSealed_rename inner)
    | some name => exact congrArg (· ++ _) (ofPattern_rename init inner _ none inside)
  | .shorthand id fallback :: rest, path, spelled, keeps => by
    have name : (change id).name = id.name := spelled id (List.mem_cons_self ..)
    have others := ofProperties_rename init rest path
      (fun id found => spelled id (List.mem_append_right _ found))
      fun property listed => keeps property (List.mem_cons_of_mem _ listed)
    rw [renameProperties, PatternProperty.rename, ofProperties, ofProperties, others, name,
      renameExpr?_eq]
    rfl
  | .rest inner :: rest, path, spelled, keeps => by
    have others := ofProperties_rename init rest path
      (fun id found => spelled id (List.mem_append_right _ found))
      fun property listed => keeps property (List.mem_cons_of_mem _ listed)
    rw [renameProperties, PatternProperty.rename, ofProperties, ofProperties, others,
      ofSealed_rename, List.map_append]

/-- What the elements of a pattern bind is found in the renamed ones, renamed, if the names that
they spell are kept. -/
theorem ofElements_rename (init : Option Expr) : ∀ (elements : List (Option Pattern))
    (path : List Step) (position : Nat),
    (∀ inner, some inner ∈ elements → (Node.pattern inner).Keeps change) →
    ofElements (init.map (Expr.rename change)) path position (renamePatterns change elements) =
      (ofElements init path position elements).map (rename change)
  | [], _, _, _ => rfl
  | none :: rest, path, position, keeps =>
    ofElements_rename init rest path (position + 1) fun inner listed =>
      keeps inner (List.mem_cons_of_mem _ listed)
  | some inner :: rest, path, position, keeps => by
    have others := ofElements_rename init rest path (position + 1) fun inner listed =>
      keeps inner (List.mem_cons_of_mem _ listed)
    rw [renamePatterns, ofElements, ofElements, others, List.map_append]
    exact congrArg (· ++ _)
      (ofPattern_rename init inner _ none (keeps inner (List.mem_cons_self ..)))

end

/-- What a declaration binds is found in the renamed one, renamed. -/
theorem ofDeclarator_rename (declarator : Declarator)
    (keeps : (Node.pattern declarator.pattern).Keeps change) :
    ofDeclarator (declarator.rename change) = (ofDeclarator declarator).map (rename change) := by
  obtain ⟨pattern, init⟩ := declarator
  have defines : (init.map (Expr.rename change)).any Expr.isDefinition =
      init.any Expr.isDefinition := by
    cases init with
    | none => rfl
    | some init => exact init.isDefinition_rename
  rw [Declarator.rename, renameExpr?_eq, ofDeclarator_mk, ofDeclarator_mk, defines]
  split
  · exact ofSealed_rename pattern
  · exact ofPattern_rename init pattern [] none keeps

/-- What the head of a loop changes is found in the renamed one, renamed. -/
theorem ofHead_rename (head : LoopHead) :
    ofHead (head.rename change) = (ofHead head).map (rename change) := by
  have patterns : ∀ declarators : List Declarator,
      ((declarators.map (Declarator.rename change)).flatMap fun declarator =>
        ofSealed declarator.pattern) =
      (declarators.flatMap fun declarator => ofSealed declarator.pattern).map (rename change) := by
    intro declarators
    rw [List.flatMap_map, List.map_flatMap]
    refine List.flatMap_congr fun declarator _ => ?_
    obtain ⟨pattern, init⟩ := declarator
    exact ofSealed_rename pattern
  cases head with
  | declarations declarators | usings declarators =>
    rw [LoopHead.rename, renameDeclarators_eq]
    exact patterns declarators
  | pattern inner =>
    have idents := @Node.idents_rename change (.pattern inner)
    rw [Node.rename] at idents
    rw [LoopHead.rename, ofHead, ofHead, idents, List.map_map, List.map_map]
    rfl

/-- What an assignment changes is found in the renamed one, renamed. -/
theorem ofTarget_rename (target : Target) :
    ofTarget (target.rename change) = (ofTarget target).map (rename change) := by
  cases target with
  | member base key =>
    rw [Target.rename, ofTarget, ofTarget, base.root?_rename]
    cases base.root? <;> rfl
  | pattern inner =>
    have idents := @Node.idents_rename change (.pattern inner)
    rw [Node.rename] at idents
    rw [Target.rename, ofTarget, ofTarget, idents, List.map_map, List.map_map]
    rfl
  | _ => rfl

/-- A renamed node does the same to renamed bindings. -/
theorem ofNode_rename {node : Node} (keeps : node.Keeps change) :
    ofNode (node.rename change) = (ofNode node).map (rename change) := by
  cases node with
  | expr value =>
    cases value with
    | assign _ target _ => exact ofTarget_rename target
    | update _ operand =>
      rw [Node.rename, Expr.rename, ofNode, ofNode, operand.root?_rename]
      cases operand.root? <;> rfl
    | _ => rfl
  | declarations declarators =>
    rw [Node.rename, ofNode, ofNode, renameDeclarators_eq, List.flatMap_map, List.map_flatMap]
    refine List.flatMap_congr fun declarator listed => ofDeclarator_rename declarator ?_
    obtain ⟨pattern, init⟩ := declarator
    exact keeps.child (List.mem_flatMap.2 ⟨_, listed, List.mem_cons_self ..⟩)
  | forEach head _ _ => exact ofHead_rename head
  | importFrom source typeOnly specifiers =>
    cases typeOnly with
    | true => rfl
    | false =>
      rw [Node.rename, ofNode, ofNode, List.map_map, List.map_map]
      refine List.map_congr_left fun specifier listed => ?_
      cases specifier with
      | named id imported =>
        cases imported with
        | some => rfl
        | none =>
          have name : (change id).name = id.name :=
            keeps.own id (List.mem_flatMap.2 ⟨_, listed, List.mem_singleton_self _⟩)
          simp [ofImport, rename, Binding.rename, name]
      | _ => rfl
  | _ => rfl

/-- A renamed module does the same to renamed bindings. -/
theorem ofModule_rename {module : Module} (keeps : ∀ node ∈ module.all, node.Keeps change) :
    ofModule (module.rename change) = (ofModule module).map (rename change) := by
  rw [ofModule, ofModule, Module.walk_rename, List.flatMap_map, List.map_flatMap]
  · exact List.flatMap_congr fun node visited =>
      ofNode_rename (keeps node (Module.mem_all_of_mem_walk visited node.mem_all_self))
  · -- the walk looks at the sort of a node only
    intro node
    cases node <;> rfl

end Finding

namespace Export

/-- A renamed item exports the same names. -/
theorem ofItem_rename {item : Node} (kept : ∀ id ∈ item.exported, (change id).name = id.name) :
    ofItem (item.rename change) = Entries.mapValues (rename change) (ofItem item) := by
  cases item with
  | exportDeclaration declaration =>
    cases declaration with
    | declarations declarators =>
      simp only [Node.rename, ofItem, renameDeclarators_eq, List.flatMap_map, Entries.mapValues,
        List.map_flatMap]
      refine List.flatMap_congr fun declarator listed => ?_
      obtain ⟨pattern, init⟩ := declarator
      rw [Declarator.rename, Declarator.pattern, Declarator.pattern, pattern.bound_rename,
        List.map_map, List.map_map]
      refine List.map_congr_left fun id bound => ?_
      have name := kept id (List.mem_flatMap.2 ⟨_, listed, bound⟩)
      simp [rename, name]
    | functionDeclaration id | classDeclaration id =>
      have name := kept id (List.mem_singleton_self _)
      simp [ofItem, Entries.mapValues, rename, name]
    | _ => rfl
  | exportNames source typeOnly specifiers =>
    cases typeOnly with
    | true => rfl
    | false =>
      rw [Node.rename, ofItem, ofItem, Entries.mapValues, List.map_filterMap, List.filterMap_map]
      refine List.filterMap_congr fun specifier listed => ?_
      have names : ∀ id ∈ specifier.spelled source, (change id).name = id.name :=
        fun id found => kept id (List.mem_flatMap.2 ⟨specifier, listed, found⟩)
      cases specifier with
      | named name exported =>
        cases name with
        | ident id =>
          cases source <;> cases exported <;>
            simp_all [ofSpecifier?, nameText, rename, ExportSpecifier.spelled]
        | string => cases source <;> rfl
      | whole => cases source <;> rfl
  | exportDefault span value => cases value <;> rfl
  | _ => rfl

/-- A renamed item takes over the exports of the same module. -/
theorem star?_rename (item : Node) : star? (item.rename change) = star? item := by
  cases item <;> rfl

end Export

namespace Syntax.Module

/-- The renaming keeps the names that are spelled in the module. -/
def Keeps (change : Id → Id) (module : Module) : Prop :=
  ∀ id ∈ module.spelled, (change id).name = id.name

variable {module : Module} (keeps : module.Keeps change)

include keeps

/-- A renaming that keeps a module keeps every node in it. -/
theorem Keeps.node {node : Node} (held : node ∈ module.all) : node.Keeps change :=
  fun part within id spelled => keeps id <| List.mem_append_left _ <| List.mem_flatMap.2
    ⟨part, mem_all_of_mem_walk held within, spelled⟩

/-- A renaming that keeps a module keeps the names that its items export. -/
theorem Keeps.item {item : Node} (listed : item ∈ module.items) :
    ∀ id ∈ item.exported, (change id).name = id.name :=
  fun id found => keeps id <| List.mem_append_right _ <| List.mem_flatMap.2 ⟨item, listed, found⟩

end Syntax.Module

namespace Scope

/-- The scope of a renamed module is the renamed scope of the module. -/
theorem collect_rename {module : Module} (injective : Function.Injective change)
    (keeps : module.Keeps change) (file : Path) :
    collect file (module.rename change) = (collect file module).rename change := by
  have made : ∀ findings : List Finding,
      (findings.map (Finding.rename change)).filterMap Finding.made? =
        Entries.translate change (Binding.rename change) (findings.filterMap Finding.made?) := by
    intro findings
    rw [List.filterMap_map, Entries.translate, List.map_filterMap]
    refine List.filterMap_congr fun finding _ => ?_
    cases finding <;> rfl
  have changed : ∀ findings : List Finding,
      (findings.map (Finding.rename change)).filterMap Finding.changed? =
        (findings.filterMap Finding.changed?).map change := by
    intro findings
    rw [List.filterMap_map, List.map_filterMap]
    refine List.filterMap_congr fun finding _ => ?_
    cases finding <;> rfl
  have bound : ∀ pairs : Entries Id Binding,
      Entries.ofList (Entries.translate change (Binding.rename change) pairs) =
        Entries.translate change (Binding.rename change) (Entries.ofList pairs) :=
    fun pairs => Entries.insertAll_translate injective [] pairs
  have exported : (module.rename change).items.flatMap Export.ofItem =
      Entries.mapValues (Export.rename change) (module.items.flatMap Export.ofItem) := by
    rw [Module.rename, List.flatMap_map, Entries.mapValues, List.map_flatMap]
    exact List.flatMap_congr fun item listed => Export.ofItem_rename (keeps.item listed)
  have listed : ∀ pairs : Entries String Export,
      Entries.ofList (Entries.mapValues (Export.rename change) pairs) =
        Entries.mapValues (Export.rename change) (Entries.ofList pairs) :=
    fun pairs => Entries.insertAll_mapValues _ [] pairs
  have stars : (module.rename change).items.filterMap Export.star? =
      module.items.filterMap Export.star? := by
    rw [Module.rename, List.filterMap_map]
    exact List.filterMap_congr fun item _ => Export.star?_rename item
  simp only [collect, rename, Finding.ofModule_rename fun node held => keeps.node held, made,
    changed, bound, exported, listed, stars]

variable (injective : Function.Injective change) (scope : Scope)

include injective

/-- A renamed name has the binding of the name, renamed. -/
theorem binding?_rename (id : Id) :
    (scope.rename change).binding? (change id) = (scope.binding? id).map (Binding.rename change) :=
  Entries.get?_translate injective scope.bindings id

/-- A renamed name is reassigned when the name is. -/
theorem isReassigned_rename (id : Id) :
    (scope.rename change).isReassigned (change id) = scope.isReassigned id := by
  simp [isReassigned, rename, injective.eq_iff]

omit injective in
/-- Under an exported name stands the export of that name, renamed. -/
theorem export?_rename (name : String) :
    (scope.rename change).export? name = (scope.export? name).map (Export.rename change) :=
  Entries.get?_mapValues ..

end Scope

namespace Document

/-- The file with another tree; path and text stay as they are. -/
def withModule (file : Document) (module : Module) : Document :=
  let scope := Scope.collect file.path module
  { path := file.path, text := file.text, module, scope
    weight := module.all.length + scope.weight, scope_eq := rfl, weight_eq := rfl }

/-- The file with the identifiers of its tree renamed. -/
def rename (change : Id → Id) (file : Document) : Document :=
  file.withModule (file.module.rename change)

variable {file : Document}

/-- A file whose identifiers are renamed to themselves is the file itself. -/
theorem rename_id (file : Document) : file.rename id = file := by
  rw [rename, Module.rename_id]
  obtain ⟨path, text, module, _, _, rfl, rfl⟩ := file
  rfl

/-- Renamings that agree on the identifiers in a file rename it alike. -/
theorem rename_congr {other : Id → Id} (agree : ∀ id ∈ file.module.ids, change id = other id) :
    file.rename change = file.rename other := by
  rw [rename, rename, Module.rename_congr agree]

/-- The scope of a renamed file is the scope of the file, renamed. -/
theorem scope_rename (injective : Function.Injective change) (keeps : file.module.Keeps change) :
    (file.rename change).scope = file.scope.rename change := by
  rw [file.scope_eq]
  exact Scope.collect_rename injective keeps file.path

end Document

end Glean
