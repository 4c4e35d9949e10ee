import Glean.Evaluation.Evaluate
import Glean.Proofs.Box.Nodes
import Glean.Proofs.Scope.Sources

/-!
# What a step of evaluation asks for

A task may have a goal (`Task.goal?`), and then one step guards what it does otherwise
(`Evaluation.step_eq`). What a step evaluates on the way are its parts (`Setting.Calls`): smaller
expressions of the same module, what a name or export stands for, and exports of other files.
-/

namespace Glean

open Syntax

namespace Task

/-- The goal that a task stands for; expressions and names without a value of their own have
none. -/
def goal? (setting : Setting) : Task → Option Goal
  | expr .. => none
  | binding scope id _ =>
    match scope.binding? id with
    | some (.variable _) =>
      if scope.isReassigned id then none else some (.binding scope.file.components id)
    | _ => none
  | exported path name _ => some (.exported (setting.project.scope path).file.components name)
  | whole path _ => some (.whole (setting.project.scope path).file.components)

/-- The node at which a task is asked for. -/
def node : Task → Reference
  | .expr scope value => scope.refer value.span
  | .binding _ _ node | .exported _ _ node | .whole _ node => node

/-- Two tasks ask for the same at nodes that look the same. -/
inductive Alike (setting : Setting) (view : View) : Task → Task → Prop where
  | expr (scope : Scope) (expr : Expr) : Alike setting view (.expr scope expr) (.expr scope expr)
  | binding (scope : Scope) (id : Id) {node other : Reference} (nodes : view.Agree node other) :
    Alike setting view (.binding scope id node) (.binding scope id other)
  | exported {path place : Path} (scopes : setting.project.scope path = setting.project.scope place)
    (name : String) {node other : Reference} (nodes : view.Agree node other) :
    Alike setting view (.exported path name node) (.exported place name other)
  | whole {path place : Path} (scopes : setting.project.scope path = setting.project.scope place)
    {node other : Reference} (nodes : view.Agree node other) :
    Alike setting view (.whole path node) (.whole place other)

variable {setting : Setting} {view : View} {task other : Task}

/-- A task is like itself. -/
theorem Alike.refl (task : Task) : Alike setting view task task := by
  cases task with
  | expr => exact .expr ..
  | binding => exact .binding _ _ rfl
  | exported => exact .exported rfl _ rfl
  | whole => exact .whole rfl rfl

/-- Tasks that ask for the same have the same goal. -/
theorem Alike.goal? (alike : Alike setting view task other) :
    task.goal? setting = other.goal? setting := by
  cases alike with
  | expr | binding => rfl
  | exported scopes | whole scopes => simp only [Task.goal?, scopes]

/-- Tasks that ask for the same are at nodes that the view takes as one. -/
theorem Alike.node (alike : Alike setting view task other) : view.Agree task.node other.node := by
  cases alike with
  | expr => rfl
  | binding _ _ nodes | exported _ _ nodes | whole _ nodes => exact nodes

/-- A name has a goal when it is declared and does not change. -/
theorem goal?_binding {scope : Scope} {id : Id} {node : Reference} {goal : Goal}
    (asked : (binding scope id node).goal? setting = some goal) :
    ∃ value, scope.binding? id = some (.variable value) ∧ ¬scope.isReassigned id ∧
      goal = .binding scope.file.components id := by
  simp only [Task.goal?] at asked
  split at asked
  · rename_i value bound
    split at asked
    · cases asked
    · rename_i constant
      exact ⟨value, bound, constant, (Option.some_inj.1 asked).symm⟩
  · cases asked

end Task

namespace Evaluation

/-- A step of a task with a goal is guarded, and is otherwise what it is without a guard. -/
theorem step_eq (setting : Setting) (guard : Guard) (next : Task → Eval Box) (task : Task) :
    step setting guard next task =
      match task.goal? setting with
      | none => step setting Guard.plain next task
      | some goal => guard goal task.node (step setting Guard.plain next task) := by
  cases task with
  | expr | exported | whole => rfl
  | binding scope id node =>
    simp only [step, binding, Task.goal?, Task.node, Guard.plain]
    split
    · split <;> simp_all
    · simp_all
    · simp_all
    · simp_all

/-- A task with a goal is worked out under the guard. -/
theorem run_of_goal {setting : Setting} {guard : Guard} {fuel : Nat} {task : Task} {goal : Goal}
    (asked : task.goal? setting = some goal) :
    run setting guard (fuel + 1) task =
      guard goal task.node (step setting Guard.plain (run setting guard fuel) task) := by
  rw [run, step_eq, asked]

end Evaluation

namespace Setting

/-- What one step of a task may evaluate. -/
inductive Calls (setting : Setting) : Task → Task → Prop where
  /-- A smaller expression of the same module. -/
  | inner {scope : Scope} {expr part : Expr} (smaller : part.size < expr.size) :
    Calls setting (.expr scope expr) (.expr scope part)
  /-- What a name stands for. -/
  | name {scope : Scope} {expr : Expr} {id : Id} {node : Reference}
    (bound : (scope.binding? id).isSome) :
    Calls setting (.expr scope expr) (.binding scope id node)
  /-- An export read from the object of all exports. -/
  | field {scope : Scope} {expr : Expr} {source : String} {path : Path} {name : String}
    {node : Reference} (target : setting.target? scope source = some path) :
    Calls setting (.expr scope expr) (.exported path name node)
  /-- The value that a declaration takes apart, or the default for a part of it. -/
  | value {scope : Scope} {id : Id} {node : Reference} {value : Variable} {expr : Expr}
    (bound : scope.binding? id = some (.variable value)) (constant : ¬scope.isReassigned id)
    (source : expr ∈ value.sources) :
    Calls setting (.binding scope id node) (.expr scope expr)
  /-- An imported export. -/
  | imported {scope : Scope} {id : Id} {node : Reference} {source : String} {which : Imported}
    {path : Path} {name : String} (bound : scope.binding? id = some (.imported source which))
    (target : setting.target? scope source = some path) :
    Calls setting (.binding scope id node) (.exported path name node)
  /-- The imported object of all exports. -/
  | importedWhole {scope : Scope} {id : Id} {node : Reference} {source : String}
    {which : Imported} {path : Path} (bound : scope.binding? id = some (.imported source which))
    (target : setting.target? scope source = some path) :
    Calls setting (.binding scope id node) (.whole path node)
  /-- An exported binding. -/
  | exportedName {path : Path} {name : String} {node : Reference} {id : Id}
    (stated : (setting.project.scope path).export? name = some (.binding id)) :
    Calls setting (.exported path name node) (.binding (setting.project.scope path) id node)
  /-- An exported expression. -/
  | exportedValue {path : Path} {name : String} {node : Reference} {expr : Expr}
    (stated : (setting.project.scope path).export? name = some (.value expr)) :
    Calls setting (.exported path name node) (.expr (setting.project.scope path) expr)
  /-- An export of another module that is exported on. -/
  | forwarded {path place : Path} {name original : String} {node : Reference} {source : String}
    {which : Imported}
    (stated : (setting.project.scope path).export? name = some (.forward source which))
    (target : setting.target? (setting.project.scope path) source = some place) :
    Calls setting (.exported path name node) (.exported place original node)
  /-- All exports of another module that are exported on under one name. -/
  | forwardedWhole {path place : Path} {name : String} {node : Reference} {source : String}
    {which : Imported}
    (stated : (setting.project.scope path).export? name = some (.forward source which))
    (target : setting.target? (setting.project.scope path) source = some place) :
    Calls setting (.exported path name node) (.whole place node)
  /-- The same name in a module whose exports are exported as well. -/
  | star {path place : Path} {name : String} {node : Reference} {source : String}
    (unstated : (setting.project.scope path).export? name = none)
    (listed : source ∈ (setting.project.scope path).stars)
    (target : setting.target? (setting.project.scope path) source = some place) :
    Calls setting (.exported path name node) (.exported place name node)
  /-- One of all exports. -/
  | entry {path : Path} {name : String} {node : Reference}
    (listed : name ∈ Entries.keys (setting.project.scope path).exports) :
    Calls setting (.whole path node) (.exported (setting.project.scope path).file name node)

end Setting

end Glean
