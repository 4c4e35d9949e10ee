import Glean.Evaluation.Evaluate
import Glean.Proofs.Scope.Sources
import Mathlib.Algebra.GroupWithZero.Nat

/-!
# Files and scopes of a project

A file is found by every way to write its path, and an import leads to a file of the project only.
Whatever a scope of the project holds was counted in the project's weight.
-/

namespace Glean

open Syntax

/-- The scope of a file names the file. -/
theorem Document.scope_file (file : Document) : file.scope.file = file.path := by
  rw [file.scope_eq]
  rfl

namespace Project

variable {project : Project} {path other : Path} {file : Document}

/-- Without files there is none under another path. -/
theorem keyed_nil : ∀ entry ∈ ([] : Entries Path Document), (entry.2.path == entry.1) = true := nofun

/-- A file that is found stands under its own path. -/
theorem path_of_file? (found : project.file? path = some file) :
    (file.path == path) = true ∧ ∃ key, (key, file) ∈ project.files := by
  obtain ⟨key, same, listed⟩ := Entries.exists_mem_of_get? found
  exact ⟨BEq.trans (project.keyed _ listed) same, key, listed⟩

/-- Two ways to write a path find the same file. -/
theorem file?_congr (project : Project) (same : (path == other) = true) :
    project.file? path = project.file? other :=
  Entries.get?_congr _ same

/-- The scope of a file is collected from its module. -/
theorem scope_of_file? (found : project.file? path = some file) :
    project.scope path = Scope.collect file.path file.module := by
  rw [scope, found]
  exact file.scope_eq

/-- The scope of a path stands for the same file as the path. -/
theorem components_scope (project : Project) (path : Path) :
    (project.scope path).file.components = path.components := by
  cases found : project.file? path with
  | none => rw [scope, found, Scope.empty]
  | some file =>
    rw [scope_of_file? found]
    exact Path.beq_iff.1 (path_of_file? found).1

/-- Paths of files with the same components have the same scope. -/
theorem scope_congr (found : (project.file? path).isSome)
    (same : path.components = other.components) : project.scope path = project.scope other := by
  have files := file?_congr project (Path.beq_iff.2 same)
  obtain ⟨file, found⟩ := Option.isSome_iff_exists.1 found
  rw [scope, found, scope, ← files, found]

/-- A scope is that of the file that it names. -/
theorem scope_scope (project : Project) (path : Path) :
    project.scope (project.scope path).file = project.scope path := by
  have same : (project.scope path).file.components = path.components :=
    project.components_scope path
  cases found : project.file? path with
  | some file => exact (scope_congr (by simp [found]) same.symm).symm
  | none =>
    have empty : project.scope path = .empty path := by rw [scope, found]
    rw [empty]
    exact empty

/-- A file that was put into a project is found. -/
theorem file?_insert (project : Project) (file : Document) :
    (project.insert file).file? file.path = some file :=
  Entries.get?_insert_self project.files file.path file

/-- A file that is put under another path changes nothing for a path. -/
theorem file?_insert_of_ne (project : Project) (file : Document)
    (different : (file.path == path) = false) :
    (project.insert file).file? path = project.file? path :=
  Entries.get?_insert_of_ne project.files different file

/-- In a project of one file that binds nothing no name is bound. -/
theorem binding?_of_unbound (unbound : file.scope.bindings = []) (path : Path) (id : Id) :
    ((insert {} file).scope path).binding? id = none := by
  simp only [scope, file?, insert, Entries.insert, Entries.update, Entries.get?]
  by_cases same : file.path == path
  · simp [same, Scope.binding?, unbound, Entries.get?]
  · simp [same, Scope.binding?, Scope.empty, Entries.get?]

/-- What specifiers name depends on where files are, and not on what they hold. -/
theorem resolve?_congr {twin : Project} (aliases : twin.aliases = project.aliases)
    (holds : ∀ path, (twin.file? path).isSome = (project.file? path).isSome) (importer : Path)
    (specifier : String) :
    twin.resolve? importer specifier = project.resolve? importer specifier := by
  have contains : ∀ path, Entries.contains twin.files path = Entries.contains project.files path :=
    holds
  simp only [resolve?, place?, probe?, aliases, contains]

/-- An import that resolves leads to a file of the project. -/
theorem isSome_file?_of_resolve? {importer : Path} {specifier : String}
    (resolved : project.resolve? importer specifier = some path) :
    (project.file? path).isSome := by
  obtain ⟨place, _, probed⟩ := Option.bind_eq_some_iff.1 resolved
  have held : Entries.contains project.files path = true := List.find?_some probed
  exact held

/-- A module that binds or exports anything is a file. -/
theorem isSome_file?_of_bound {id : Id} {binding : Binding}
    (bound : (project.scope path).binding? id = some binding) : (project.file? path).isSome := by
  cases found : project.file? path with
  | none => simp [scope, found, Scope.empty, Scope.binding?, Entries.get?] at bound
  | some file => rfl

/-- A file that states an export is a file of the project. -/
theorem isSome_file?_of_stated {name : String} {stated : Export}
    (found : (project.scope path).export? name = some stated) : (project.file? path).isSome := by
  cases missing : project.file? path with
  | none => simp [scope, missing, Scope.empty, Scope.export?, Entries.get?] at found
  | some file => rfl

/-- A name that one file alone exports is exported at the paths of that file. -/
theorem components_of_stated {name : String} {components : List Component}
    (alone : ∀ entry ∈ project.files, (entry.2.scope.export? name).isSome →
      entry.2.path.components = components)
    (stated : ((project.scope path).export? name).isSome) : path.components = components := by
  obtain ⟨_, exports⟩ := Option.isSome_iff_exists.1 stated
  obtain ⟨file, found⟩ := Option.isSome_iff_exists.1 (isSome_file?_of_stated exports)
  obtain ⟨same, key, listed⟩ := path_of_file? found
  rw [scope, found] at stated
  exact (Path.beq_iff.1 same).symm.trans (alone _ listed stated)

/-! ### Weights -/

/-- The weight of a project is the sum of the weights of its files. -/
theorem weight_eq (project : Project) :
    project.weight = (project.files.map fun entry => entry.2.weight).sum := by
  unfold weight
  induction project.files with
  | nil => rfl
  | cons entry rest ih =>
    rw [List.foldr_cons, ih]
    rfl

/-- No file weighs more than the whole project. -/
theorem weight_le_of_mem {key : Path} (listed : (key, file) ∈ project.files) :
    file.weight ≤ project.weight := by
  obtain ⟨before, after, split⟩ := List.mem_iff_append.1 listed
  simp only [weight_eq, split, List.map_append, List.map_cons, List.sum_append, List.sum_cons]
  omega

/-- Every file weighs something. -/
theorem length_files_le (project : Project) : project.files.length ≤ project.weight := by
  rw [weight_eq]
  induction project.files with
  | nil => simp
  | cons entry rest ih =>
    have positive : 0 < entry.2.weight := by
      rw [entry.2.weight_eq, Scope.weight]
      omega
    simp only [List.length_cons, List.map_cons, List.sum_cons]
    omega

/-- No expression of a file has more nodes than the project weighs. -/
theorem size_le_weight (found : project.file? path = some file) {expr : Expr}
    (inside : .expr expr ∈ file.module.all) : expr.size ≤ project.weight := by
  obtain ⟨_, key, listed⟩ := path_of_file? found
  have size : expr.size ≤ file.module.all.length := Module.length_all_le inside
  have weight := weight_le_of_mem listed
  rw [file.weight_eq] at weight
  omega

/-- The value of a name has no more nodes than the project weighs. -/
theorem size_source_le {id : Id} {value : Variable} {expr : Expr}
    (bound : (project.scope path).binding? id = some (.variable value))
    (source : expr ∈ value.sources) : expr.size ≤ project.weight := by
  obtain ⟨file, found⟩ := Option.isSome_iff_exists.1 (isSome_file?_of_bound bound)
  rw [scope_of_file? found] at bound
  exact size_le_weight found (Scope.mem_all_of_source bound source)

/-- The value of an export has no more nodes than the project weighs. -/
theorem size_export_le {name : String} {expr : Expr}
    (stated : (project.scope path).export? name = some (.value expr)) :
    expr.size ≤ project.weight := by
  obtain ⟨file, found⟩ := Option.isSome_iff_exists.1 (isSome_file?_of_stated stated)
  rw [scope_of_file? found] at stated
  exact size_le_weight found (Scope.mem_all_of_export stated)

end Project

/-- An import that leads anywhere leads to a file. -/
theorem Setting.isSome_file?_of_target? {setting : Setting} {scope : Scope} {source : String}
    {path : Path} (target : setting.target? scope source = some path) :
    (setting.project.file? path).isSome := by
  unfold Setting.target? at target
  split at target
  · cases target
  · exact Project.isSome_file?_of_resolve? target

end Glean
