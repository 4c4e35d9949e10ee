import Glean.Proofs.Scope.Destructuring

/-!
# Names of patterns

What a pattern lists as its names is what it makes bindings of, in the same order and whatever stands
at the keys that it reads (`made_ofPattern`). So an exported declaration exports names that the module
binds (`patterns_bind_names`).
-/

namespace Glean

open Syntax

namespace Finding

/-- The names of which findings make bindings, in order. -/
def made (findings : List Finding) : List Id := Entries.keys (findings.filterMap made?)

variable {init : Option Expr}

/-- Nothing found makes no name. -/
@[simp]
theorem made_nil : made [] = [] := rfl

/-- A binding makes its name. -/
@[simp]
theorem made_binds (id : Id) (binding : Binding) (rest : List Finding) :
    made (.binds id binding :: rest) = id :: made rest := rfl

/-- Findings make the names of the first and then those of the others. -/
@[simp]
theorem made_append (first second : List Finding) :
    made (first ++ second) = made first ++ made second := by
  simp [made, Entries.keys]

/-- A binding that is found makes its name. -/
theorem mem_made_of_mem {findings : List Finding} {id : Id} {binding : Binding}
    (found : .binds id binding ∈ findings) : id ∈ made findings :=
  List.mem_map.2 ⟨(id, binding), List.mem_filterMap.2 ⟨_, found, rfl⟩, rfl⟩

/-- A name that is made has a binding among the findings. -/
theorem exists_binds_of_mem_made {findings : List Finding} {id : Id} (named : id ∈ made findings) :
    ∃ binding, .binds id binding ∈ findings := by
  obtain ⟨⟨_, binding⟩, listed, rfl⟩ := List.mem_map.1 named
  obtain ⟨finding, found, same⟩ := List.mem_filterMap.1 listed
  cases finding with
  | reassigns => cases same
  | binds =>
    cases same
    exact ⟨binding, found⟩

/-- A pattern without values makes the names that it binds. -/
@[simp]
theorem made_ofSealed (pattern : Pattern) : made (ofSealed pattern) = pattern.bound := by
  rw [ofSealed]
  induction pattern.bound with
  | nil => rfl
  | cons id rest ih => rw [List.map_cons, made_binds, ih]

mutual

/-- A pattern makes bindings of the names that it lists. -/
theorem made_ofPattern : ∀ (pattern : Pattern) (path : List Step) (fallback : Option Expr),
    made (ofPattern init path fallback pattern) = pattern.bound
  | .ident _, _, _ => by rw [ofPattern, made_binds, made_nil, Pattern.bound]
  | .object properties, path, _ => by
    rw [ofPattern, made_ofProperties properties path, Pattern.bound]
  | .array elements, path, _ => by
    rw [ofPattern, made_ofElements elements path 0, Pattern.bound]
  | .withDefault inner value, path, _ => by
    rw [ofPattern, made_ofPattern inner path (some value), Pattern.bound]
  | .rest inner, _, _ => by rw [ofPattern, made_ofSealed, Pattern.bound]
  | .expr _, _, _ => by rw [ofPattern, made_nil, Pattern.bound]
  | .invalid, _, _ => by rw [ofPattern, made_nil, Pattern.bound]

/-- So do the properties of an object pattern, also those at keys that are not written out. -/
theorem made_ofProperties : ∀ (properties : List PatternProperty) (path : List Step),
    made (ofProperties init path properties) = boundProperties properties
  | [], _ => by rw [ofProperties, made_nil, boundProperties]
  | .keyed key inner :: rest, path => by
    rw [ofProperties, made_append, made_ofProperties rest path, boundProperties]
    cases key.written? with
    | none => rw [made_ofSealed]
    | some name => rw [made_ofPattern inner]
  | .shorthand _ _ :: rest, path => by
    rw [ofProperties, made_binds, made_ofProperties rest path, boundProperties]
  | .rest inner :: rest, path => by
    rw [ofProperties, made_append, made_ofSealed, made_ofProperties rest path, boundProperties]

/-- So do the elements of an array pattern. -/
theorem made_ofElements : ∀ (elements : List (Option Pattern)) (path : List Step) (position : Nat),
    made (ofElements init path position elements) = boundElements elements
  | [], _, _ => by rw [ofElements, made_nil, boundElements]
  | none :: rest, path, position => by
    rw [ofElements, made_ofElements rest path (position + 1), boundElements]
  | some inner :: rest, path, position => by
    rw [ofElements, made_append, made_ofPattern inner, made_ofElements rest path (position + 1),
      boundElements]

end

/-- A declaration makes bindings of the names in its pattern, whatever value it has. -/
theorem made_ofDeclarator (declarator : Declarator) :
    made (ofDeclarator declarator) = declarator.pattern.bound := by
  rw [ofDeclarator]
  split
  · exact made_ofSealed _
  · exact made_ofPattern _ _ _

/-- The table of what a pattern binds holds exactly the names that it lists. -/
theorem contains_ofPattern (path : List Step) (fallback : Option Expr) (pattern : Pattern)
    (id : Id) :
    Entries.contains (Entries.ofList ((ofPattern init path fallback pattern).filterMap made?)) id =
      true ↔ id ∈ pattern.bound := by
  rw [Entries.contains_ofList, Entries.contains_iff, ← made_ofPattern pattern path fallback, made]

end Finding

open Finding

namespace Scope

variable {file : Path} {module : Module} {id : Id}

/-- A module has a binding for every name that it declares, and for no other. -/
theorem isSome_binding?_iff :
    ((collect file module).binding? id).isSome = true ↔ id ∈ module.declared := by
  change Entries.contains (Entries.ofList ((ofModule module).filterMap made?)) id = true ↔ _
  rw [Entries.contains_ofList, Entries.contains_iff, Module.declared]

/-- The names of a declaration that is exported have bindings: the walk that collects them goes
through the items of the module and what these export. -/
theorem isSome_binding?_of_exported {declarators : List Declarator} {declarator : Declarator}
    (exported : .exportDeclaration (.declarations declarators) ∈ module.items)
    (declared : declarator ∈ declarators) (bound : id ∈ declarator.pattern.bound) :
    ((collect file module).binding? id).isSome = true := by
  rw [isSome_binding?_iff]
  rw [← made_ofDeclarator declarator] at bound
  obtain ⟨binding, found⟩ := exists_binds_of_mem_made bound
  have item : .exportDeclaration (.declarations declarators) ∈ module.walk enters :=
    List.mem_flatMap.2 ⟨_, exported, by
      rw [Node.walk_eq]
      exact List.mem_cons_self ..⟩
  have visited : .declarations declarators ∈ module.walk enters :=
    Module.mem_walk_of_child item rfl (List.mem_singleton_self _)
  exact mem_made_of_mem
    (mem_ofModule.2 ⟨_, visited, List.mem_flatMap.2 ⟨declarator, declared, found⟩⟩)

end Scope

/-- A pattern makes bindings of the names that it lists, and of no others. What a module exports by
declaring it is a name each time, under that name, and the module has a binding for it. -/
theorem patterns_bind_names :
    (∀ (init : Option Expr) (path : List Step) (fallback : Option Expr) (pattern : Pattern)
        (id : Id),
      Entries.contains
          (Entries.ofList ((ofPattern init path fallback pattern).filterMap made?)) id = true ↔
        id ∈ pattern.bound) ∧
      ∀ (file : Path) (module : Module) (declarators : List Declarator),
        .exportDeclaration (.declarations declarators) ∈ module.items →
        ∀ exported ∈ Export.ofItem (.exportDeclaration (.declarations declarators)),
          ∃ id binding, exported = (id.name, .binding id) ∧
            (Scope.collect file module).binding? id = some binding := by
  refine ⟨fun init => contains_ofPattern, fun file module declarators item exported found => ?_⟩
  obtain ⟨declarator, declared, found⟩ := List.mem_flatMap.1 found
  obtain ⟨id, bound, rfl⟩ := List.mem_map.1 found
  have made : ((Scope.collect file module).binding? id).isSome = true :=
    Scope.isSome_binding?_of_exported item declared bound
  obtain ⟨binding, stands⟩ := Option.isSome_iff_exists.1 made
  exact ⟨id, binding, rfl, stands⟩

end Glean
