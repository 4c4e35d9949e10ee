import Glean.Proofs.Entries
import Glean.Proofs.Syntax.Inside
import Glean.Scope.Collect

/-!
# Where the values of names come from

The value of a name comes from the expression that its declaration takes apart and from a default.
Both are nodes of the module that declares the name, and so is every exported expression.
-/

namespace Glean

open Syntax

namespace Variable

/-- The expressions that give a name its value: what is taken apart, and the default. -/
def sources (value : Variable) : List Expr := value.init.toList ++ value.fallback.toList

end Variable

namespace Finding

/-- Every expression from which the finding draws a value is one of the nodes. -/
def DrawsOn (nodes : List Node) : Finding → Prop
  | binds _ (.variable value) => ∀ expr ∈ value.sources, .expr expr ∈ nodes
  | _ => True

variable {nodes : List Node} {init : Option Expr}

/-- A binding without a value draws on nothing. -/
theorem drawsOn_ofSealed (pattern : Pattern) {finding : Finding}
    (found : finding ∈ ofSealed pattern) : finding.DrawsOn nodes := by
  obtain ⟨id, _, rfl⟩ := List.mem_map.1 found
  trivial

/-- A binding draws on nodes that hold what it takes apart and its default. -/
theorem drawsOn_variable {id : Id} {path : List Step} {fallback : Option Expr}
    (whole : ∀ expr ∈ init, .expr expr ∈ nodes) (default : ∀ expr ∈ fallback, .expr expr ∈ nodes) :
    (binds id (.variable ⟨init, path, fallback⟩)).DrawsOn nodes := by
  intro expr listed
  simp only [Variable.sources, List.mem_append, Option.mem_toList] at listed
  exact listed.elim (whole expr) (default expr)

mutual

/-- A pattern draws on the value taken apart, on a default before it and on those inside it. -/
theorem drawsOn_ofPattern (whole : ∀ expr ∈ init, .expr expr ∈ nodes) :
    ∀ (pattern : Pattern) (path : List Step) (fallback : Option Expr),
      (∀ expr ∈ fallback, .expr expr ∈ nodes) → (∀ part ∈ (Node.pattern pattern).all, part ∈ nodes) →
      ∀ finding ∈ ofPattern init path fallback pattern, finding.DrawsOn nodes
  | .ident id, path, fallback, default, _, finding, found => by
    obtain rfl : finding = .binds id (.variable ⟨init, path, fallback⟩) := by
      simpa [ofPattern] using found
    exact drawsOn_variable whole default
  | .object properties, path, fallback, _, inside, finding, found => by
    rw [ofPattern] at found
    refine drawsOn_ofProperties whole properties path (fun entry listed part child inner held => ?_)
      finding found
    exact inside inner (Node.mem_all_of_child (List.mem_flatMap.2 ⟨entry, listed, child⟩) held)
  | .array elements, path, fallback, _, inside, finding, found => by
    rw [ofPattern] at found
    refine drawsOn_ofElements whole elements path 0 (fun element listed inner held => ?_)
      finding found
    refine inside inner (Node.mem_all_of_child (List.mem_map.2 ⟨element, ?_, rfl⟩) held)
    exact List.mem_flatMap.2 ⟨some element, listed, by simp⟩
  | .withDefault pattern value, path, fallback, _, inside, finding, found => by
    rw [ofPattern] at found
    have child : ∀ part ∈ [Node.pattern pattern, .expr value], ∀ inner ∈ part.all, inner ∈ nodes :=
      fun part listed inner held => inside inner (Node.mem_all_of_child listed held)
    refine drawsOn_ofPattern whole pattern path (some value) (fun expr chosen => ?_)
      (child _ (by simp)) finding found
    obtain rfl : value = expr := by simpa using chosen
    exact child _ (by simp) _ (Node.mem_all_self _)
  | .rest pattern, _, _, _, _, finding, found =>
    drawsOn_ofSealed pattern (by simpa [ofPattern] using found)
  | .expr _, _, _, _, _, finding, found => by simp [ofPattern] at found
  | .invalid, _, _, _, _, finding, found => by simp [ofPattern] at found

/-- The properties of an object pattern draw on the value taken apart and on what is inside. -/
theorem drawsOn_ofProperties (whole : ∀ expr ∈ init, .expr expr ∈ nodes) :
    ∀ (properties : List PatternProperty) (path : List Step),
      (∀ entry ∈ properties, ∀ part ∈ entry.parts, ∀ inner ∈ part.all, inner ∈ nodes) →
      ∀ finding ∈ ofProperties init path properties, finding.DrawsOn nodes
  | [], _, _, finding, found => by simp [ofProperties] at found
  | .keyed key pattern :: rest, path, inside, finding, found => by
    rw [ofProperties] at found
    rcases List.mem_append.1 found with found | found
    · split at found
      · refine drawsOn_ofPattern whole pattern _ none (by simp) ?_ finding found
        exact inside _ (List.mem_cons_self ..) _ (by simp [PatternProperty.parts])
      · exact drawsOn_ofSealed pattern found
    · exact drawsOn_ofProperties whole rest path
        (fun entry listed => inside entry (List.mem_cons_of_mem _ listed)) finding found
  | .shorthand id fallback :: rest, path, inside, finding, found => by
    rw [ofProperties] at found
    rcases List.mem_cons.1 found with rfl | found
    · refine drawsOn_variable whole fun expr chosen => ?_
      refine inside _ (List.mem_cons_self ..) (.expr expr) ?_ _ (Node.mem_all_self _)
      exact List.mem_cons_of_mem _ (List.mem_map.2 ⟨expr, Option.mem_toList.2 chosen, rfl⟩)
    · exact drawsOn_ofProperties whole rest path
        (fun entry listed => inside entry (List.mem_cons_of_mem _ listed)) finding found
  | .rest pattern :: rest, path, inside, finding, found => by
    rw [ofProperties] at found
    rcases List.mem_append.1 found with found | found
    · exact drawsOn_ofSealed pattern found
    · exact drawsOn_ofProperties whole rest path
        (fun entry listed => inside entry (List.mem_cons_of_mem _ listed)) finding found

/-- The elements of an array pattern draw on the value taken apart and on what is inside. -/
theorem drawsOn_ofElements (whole : ∀ expr ∈ init, .expr expr ∈ nodes) :
    ∀ (elements : List (Option Pattern)) (path : List Step) (position : Nat),
      (∀ element, some element ∈ elements →
        ∀ inner ∈ (Node.pattern element).all, inner ∈ nodes) →
      ∀ finding ∈ ofElements init path position elements, finding.DrawsOn nodes
  | [], _, _, _, finding, found => by simp [ofElements] at found
  | none :: rest, path, position, inside, finding, found => by
    rw [ofElements] at found
    exact drawsOn_ofElements whole rest path (position + 1)
      (fun element listed => inside element (List.mem_cons_of_mem _ listed)) finding found
  | some element :: rest, path, position, inside, finding, found => by
    rw [ofElements] at found
    rcases List.mem_append.1 found with found | found
    · exact drawsOn_ofPattern whole element _ none (by simp)
        (inside element (List.mem_cons_self ..)) finding found
    · exact drawsOn_ofElements whole rest path (position + 1)
        (fun element listed => inside element (List.mem_cons_of_mem _ listed)) finding found

end

/-- A declaration of a definition binds names without values; any other takes its value apart. -/
theorem ofDeclarator_mk (pattern : Pattern) (init : Option Expr) :
    ofDeclarator (.mk pattern init) =
      if init.any Expr.isDefinition then ofSealed pattern else ofPattern init [] none pattern :=
  rfl

/-- A declaration draws on nodes inside it. -/
theorem drawsOn_ofDeclarator (declarator : Declarator)
    (inside : ∀ part ∈ declarator.parts, ∀ inner ∈ part.all, inner ∈ nodes) :
    ∀ finding ∈ ofDeclarator declarator, finding.DrawsOn nodes := by
  intro finding found
  rw [ofDeclarator] at found
  split at found
  · exact drawsOn_ofSealed _ found
  · obtain ⟨pattern, init⟩ := declarator
    refine drawsOn_ofPattern (fun expr chosen => ?_) pattern [] none (by simp) ?_ finding found
    · refine inside (.expr expr) ?_ _ (Node.mem_all_self _)
      exact List.mem_cons_of_mem _ (List.mem_map.2 ⟨expr, Option.mem_toList.2 chosen, rfl⟩)
    · exact inside (.pattern pattern) (List.mem_cons_self ..)

/-- What a node does to bindings draws on nodes inside it. -/
theorem drawsOn_ofNode (node : Node) (inside : ∀ inner ∈ node.all, inner ∈ nodes) :
    ∀ finding ∈ ofNode node, finding.DrawsOn nodes := by
  intro finding found
  have changes : ∀ {ids : List Id}, finding ∈ ids.map reassigns → finding.DrawsOn nodes := by
    intro ids listed
    obtain ⟨id, _, rfl⟩ := List.mem_map.1 listed
    trivial
  cases node with
  | declarations declarators =>
    obtain ⟨declarator, listed, found⟩ := List.mem_flatMap.1 found
    refine drawsOn_ofDeclarator declarator (fun part child inner held => ?_) finding found
    exact inside inner (Node.mem_all_of_child (List.mem_flatMap.2 ⟨declarator, listed, child⟩) held)
  | forEach head _ _ =>
    cases head with
    | declarations declarators | usings declarators =>
      obtain ⟨declarator, _, found⟩ := List.mem_flatMap.1 found
      exact drawsOn_ofSealed _ found
    | pattern => exact changes found
  | importFrom source typeOnly specifiers =>
    cases typeOnly with
    | true => simp [ofNode] at found
    | false =>
      obtain ⟨specifier, _, rfl⟩ := List.mem_map.1 found
      cases specifier <;> trivial
  | functionDeclaration | classDeclaration =>
    obtain rfl : finding = _ := by simpa [ofNode] using found
    trivial
  | expr value =>
    cases value with
    | assign _ target _ =>
      cases target with
      | ident id => exact changes (show finding ∈ [id].map reassigns from found)
      | member | pattern => exact changes found
      | _ => simp [ofNode, ofTarget] at found
    | update => exact changes found
    | _ => simp [ofNode] at found
  | _ => simp [ofNode] at found

/-- What a module does to bindings draws on nodes of the module. -/
theorem drawsOn_ofModule (module : Module) :
    ∀ finding ∈ ofModule module, finding.DrawsOn module.all := by
  intro finding found
  obtain ⟨node, visited, found⟩ := List.mem_flatMap.1 found
  exact drawsOn_ofNode node (fun inner held => Module.mem_all_of_mem_walk visited held) finding found

end Finding

/-- The expression that an item exports is inside the item. -/
theorem Export.mem_all_of_ofItem {item : Node} {name : String} {expr : Expr}
    (found : (name, .value expr) ∈ ofItem item) : .expr expr ∈ item.all := by
  cases item with
  | exportDeclaration declaration => cases declaration <;> simp [ofItem] at found
  | exportNames source typeOnly specifiers =>
    cases typeOnly with
    | true => simp [ofItem] at found
    | false =>
      obtain ⟨specifier, _, named⟩ := List.mem_filterMap.1 found
      cases specifier with
      | named original _ => cases source <;> cases original <;> simp [ofSpecifier?] at named
      | whole => cases source <;> simp [ofSpecifier?] at named
  | exportDefault span value =>
    have same : expr = value := by
      cases value <;> simp_all [ofItem]
    subst same
    exact Node.mem_all_of_child (List.mem_singleton.2 rfl) (Node.mem_all_self _)
  | _ => simp [ofItem] at found

namespace Scope

/-- A name of a module gets its value from expressions of the module. -/
theorem mem_all_of_source {file : Path} {module : Module} {id : Id} {value : Variable}
    (bound : (collect file module).binding? id = some (.variable value)) {expr : Expr}
    (source : expr ∈ value.sources) : .expr expr ∈ module.all := by
  have listed := Entries.mem_of_get?_ofList bound
  obtain ⟨finding, found, made⟩ := List.mem_filterMap.1 listed
  have draws := Finding.drawsOn_ofModule module finding found
  cases finding with
  | reassigns => simp [Finding.made?] at made
  | binds other binding =>
    obtain ⟨rfl, rfl⟩ : other = id ∧ binding = .variable value := by
      simpa [Finding.made?] using made
    exact draws expr source

/-- An exported expression is one of the module. -/
theorem mem_all_of_export {file : Path} {module : Module} {name : String} {expr : Expr}
    (stated : (collect file module).export? name = some (.value expr)) :
    .expr expr ∈ module.all := by
  obtain ⟨item, listed, found⟩ := List.mem_flatMap.1 (Entries.mem_of_get?_ofList stated)
  exact List.mem_flatMap.2 ⟨item, listed, Export.mem_all_of_ofItem found⟩

end Scope

end Glean
