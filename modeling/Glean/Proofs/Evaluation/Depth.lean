import Glean.Proofs.Evaluation.Calls
import Glean.Proofs.Project

/-!
# How deep evaluation can nest

Goals in progress are not worked out again, so of every chain of nested tasks only finitely many
enter a new goal that the project states: a binding, an export or all exports of a file. Between two
such goals, expressions get smaller, and a name that no file exports is looked for in every file at
most once along star exports, whatever name it is.

`Setting.depth` puts these three facts into one number that goes down from a task to each of its
parts, and `Setting.depth_le_fuel` bounds it by the fuel of an evaluation.
-/

namespace Glean

open Syntax

/-- The goals that a file states. -/
def Document.goals (file : Document) : List Goal :=
  .whole file.path.components ::
    ((Entries.keys file.scope.bindings).map (.binding file.path.components) ++
      (Entries.keys file.scope.exports).map (.exported file.path.components))

/-- Of things with goals, one whose goal gets in progress no longer counts, and no other starts to
count. -/
theorem countP_notMem_cons_lt {α : Type} {items : List α} {item : α} (listed : item ∈ items)
    (goal : α → Goal) {inProgress : List Goal} (fresh : goal item ∉ inProgress) :
    (items.countP fun other => goal other ∉ goal item :: inProgress) <
      items.countP fun other => goal other ∉ inProgress := by
  have fewer : ∀ list : List α, (list.countP fun other => goal other ∉ goal item :: inProgress) ≤
      list.countP fun other => goal other ∉ inProgress := by
    intro list
    refine List.countP_mono_left fun other _ away => ?_
    simp only [List.mem_cons, not_or, decide_eq_true_eq] at away ⊢
    exact away.2
  obtain ⟨before, after, rfl⟩ := List.mem_iff_append.1 listed
  have first := fewer before
  have second := fewer after
  simp only [List.countP_append, List.countP_cons, List.mem_cons, true_or, not_true, decide_false,
    fresh, not_false_eq_true, decide_true, if_true] at first second ⊢
  simp only [Bool.false_eq_true, if_false]
  omega

namespace Project

/-- The goals that the files of a project state. -/
def goals (project : Project) : List Goal := project.files.flatMap fun entry => entry.2.goals

/-- How many of the stated goals are not in progress. -/
def remaining (project : Project) (inProgress : List Goal) : Nat :=
  project.goals.countP fun goal => goal ∉ inProgress

/-- In how many files a name is not being looked for. -/
def unsearched (project : Project) (inProgress : List Goal) (name : String) : Nat :=
  project.files.countP fun entry => .exported entry.2.path.components name ∉ inProgress

variable {project : Project} {path : Path} {file : Document} {goal : Goal}
  {inProgress : List Goal}

/-- No more goals are left than the project weighs. -/
theorem remaining_le_weight (project : Project) (inProgress : List Goal) :
    project.remaining inProgress ≤ project.weight := by
  refine Nat.le_trans List.countP_le_length ?_
  rw [goals, weight_eq]
  induction project.files with
  | nil => simp
  | cons entry rest ih =>
    have stated : entry.2.goals.length ≤ entry.2.weight := by
      simp only [Document.goals, entry.2.weight_eq, Scope.weight, List.length_cons,
        List.length_append, List.length_map, Entries.keys]
      omega
    simp only [List.flatMap_cons, List.length_append, List.map_cons, List.sum_cons]
    omega

/-- A name is looked for in no more files than the project weighs. -/
theorem unsearched_le_weight (project : Project) (inProgress : List Goal) (name : String) :
    project.unsearched inProgress name ≤ project.weight :=
  Nat.le_trans List.countP_le_length project.length_files_le

/-- Whichever goal gets in progress, no more of them remain. -/
theorem remaining_cons_le (project : Project) (goal : Goal) (inProgress : List Goal) :
    project.remaining (goal :: inProgress) ≤ project.remaining inProgress := by
  refine List.countP_mono_left fun other _ away => ?_
  simp only [List.mem_cons, not_or, decide_eq_true_eq] at away ⊢
  exact away.2

/-- A stated goal that gets in progress is one less. -/
theorem remaining_cons_lt (stated : goal ∈ project.goals) (fresh : goal ∉ inProgress) :
    project.remaining (goal :: inProgress) < project.remaining inProgress :=
  countP_notMem_cons_lt stated id fresh

/-- A name that is looked for in a file is looked for in one file less from there on. -/
theorem unsearched_cons_lt {name : String} (found : (project.file? path).isSome)
    (fresh : .exported (project.scope path).file.components name ∉ inProgress) :
    project.unsearched (.exported (project.scope path).file.components name :: inProgress) name <
      project.unsearched inProgress name := by
  obtain ⟨file, found⟩ := Option.isSome_iff_exists.1 found
  obtain ⟨same, key, listed⟩ := path_of_file? found
  rw [components_scope, ← Path.beq_iff.1 same] at fresh ⊢
  exact countP_notMem_cons_lt listed (fun entry => .exported entry.2.path.components name) fresh

/-! ### Stated goals -/

/-- A goal that a file states is one of the project. -/
theorem mem_goals_of_file? (found : project.file? path = some file) (stated : goal ∈ file.goals) :
    goal ∈ project.goals := by
  obtain ⟨_, key, listed⟩ := path_of_file? found
  exact List.mem_flatMap.2 ⟨_, listed, stated⟩

/-- The file at a path, whose scope and components are those of the path. -/
theorem exists_file_of_isSome (found : (project.file? path).isSome) :
    ∃ file, project.file? path = some file ∧ project.scope path = file.scope ∧
      file.path.components = (project.scope path).file.components := by
  obtain ⟨file, found⟩ := Option.isSome_iff_exists.1 found
  refine ⟨file, found, by rw [scope, found], ?_⟩
  rw [components_scope]
  exact Path.beq_iff.1 (path_of_file? found).1

/-- A bound name is a goal of the project. -/
theorem binding_mem_goals {id : Id} {binding : Binding}
    (bound : (project.scope path).binding? id = some binding) :
    .binding (project.scope path).file.components id ∈ project.goals := by
  obtain ⟨file, found, scope, components⟩ := exists_file_of_isSome (isSome_file?_of_bound bound)
  refine mem_goals_of_file? found (List.mem_cons_of_mem _ (List.mem_append_left _ ?_))
  rw [scope] at bound
  exact components ▸ List.mem_map.2 ⟨id, Entries.mem_keys_of_get? bound, rfl⟩

/-- A stated export is a goal of the project. -/
theorem exported_mem_goals {name : String} {stated : Export}
    (named : (project.scope path).export? name = some stated) :
    .exported (project.scope path).file.components name ∈ project.goals := by
  obtain ⟨file, found, scope, components⟩ := exists_file_of_isSome (isSome_file?_of_stated named)
  refine mem_goals_of_file? found (List.mem_cons_of_mem _ (List.mem_append_right _ ?_))
  rw [scope] at named
  exact components ▸ List.mem_map.2 ⟨name, Entries.mem_keys_of_get? named, rfl⟩

/-- All exports of a file are a goal of the project. -/
theorem whole_mem_goals (found : (project.file? path).isSome) :
    .whole (project.scope path).file.components ∈ project.goals := by
  obtain ⟨file, found, _, components⟩ := exists_file_of_isSome found
  exact mem_goals_of_file? found (components ▸ List.mem_cons_self ..)

end Project

namespace Task

/-- The task is about modules of the project: its scope is one of theirs, or its file exists. -/
def Within (project : Project) : Task → Prop
  | expr scope _ | binding scope _ _ => ∃ path, scope = project.scope path
  | exported path _ _ | whole path _ => (project.file? path).isSome

end Task

variable {setting : Setting} {task part : Task}

/-- The parts of a task of the project are tasks of the project. -/
theorem Setting.Calls.within (calls : setting.Calls task part)
    (within : task.Within setting.project) : part.Within setting.project := by
  cases calls with
  | inner | name | value => exact within
  | field target | imported _ target | importedWhole _ target | forwarded _ target
  | forwardedWhole _ target | star _ _ target => exact isSome_file?_of_target? target
  | exportedName | exportedValue => exact ⟨_, rfl⟩
  | @entry path name node listed =>
    have same : (setting.project.scope path).file.components = path.components :=
      Project.components_scope ..
    have within : (setting.project.file? path).isSome := within
    rwa [Task.Within, Project.file?_congr _ (Path.beq_iff.2 same)]

namespace Setting

/-- How deep the evaluation of a task can nest while goals are in progress. -/
def depth (setting : Setting) (inProgress : List Goal) (task : Task) : Nat :=
  let weight := setting.project.weight
  setting.project.remaining inProgress * (2 * weight + 5) +
    match task with
    | .expr _ expr => weight + 4 + expr.size
    | .binding .. => weight + 3
    | .exported _ name _ => setting.project.unsearched inProgress name + 1
    | .whole .. => 1

/-- Every task nests to some depth. -/
theorem depth_pos (setting : Setting) (inProgress : List Goal) (task : Task) :
    0 < setting.depth inProgress task := by
  unfold depth
  cases task <;> simp only <;> omega

/-- The fuel of an evaluation covers its depth. -/
theorem depth_le_fuel (setting : Setting) (scope : Scope) (expr : Expr) (inProgress : List Goal) :
    setting.depth inProgress (.expr scope expr) ≤ setting.fuel expr := by
  simp only [depth, fuel, Expr.size]
  generalize (Node.expr expr).all.length = size
  have remaining := setting.project.remaining_le_weight inProgress
  generalize setting.project.weight = weight at remaining ⊢
  have goals := Nat.mul_le_mul_right (2 * weight + 5) remaining
  have layers : weight * (2 * weight + 5) ≤ weight * (2 * weight + size + 8) :=
    Nat.mul_le_mul_left weight (by omega)
  rw [Nat.add_mul weight 2]
  omega

/-- A task without a goal nests deeper than its parts. -/
theorem depth_lt_of_calls (calls : setting.Calls task part) (goalless : task.goal? setting = none)
    (inProgress : List Goal) :
    setting.depth inProgress part < setting.depth inProgress task := by
  have searches := setting.project.unsearched_le_weight inProgress
  cases calls with
  | inner smaller => simp only [depth]; omega
  | name => simp only [depth]; omega
  | @field _ _ _ _ name => have := searches name; simp only [depth]; omega
  | value bound constant => simp [Task.goal?, bound, constant] at goalless
  | @imported _ _ _ _ _ _ name => have := searches name; simp only [depth]; omega
  | importedWhole => simp only [depth]; omega
  | _ => cases goalless

/-- One goal less leaves room for what a goal needs. -/
theorem layer_add_lt {fewer more : Nat} (less : fewer < more) {needs layer : Nat}
    (fits : needs < layer) : fewer * layer + needs < more * layer := by
  have whole := Nat.mul_le_mul_right layer (Nat.succ_le_of_lt less)
  rw [Nat.succ_mul] at whole
  omega

/-- A task with a goal nests deeper than its parts when the goal is new. -/
theorem depth_lt_of_calls_goal (calls : setting.Calls task part)
    (within : task.Within setting.project) {goal : Goal} (asked : task.goal? setting = some goal)
    {inProgress : List Goal} (fresh : goal ∉ inProgress) :
    setting.depth (goal :: inProgress) part < setting.depth inProgress task := by
  have searches := setting.project.unsearched_le_weight (goal :: inProgress)
  have enter : goal ∈ setting.project.goals → ∀ needs : Nat,
      needs < 2 * setting.project.weight + 5 →
      setting.project.remaining (goal :: inProgress) * (2 * setting.project.weight + 5) + needs <
        setting.project.remaining inProgress * (2 * setting.project.weight + 5) :=
    fun stated _ fits => layer_add_lt (Project.remaining_cons_lt stated fresh) fits
  cases calls with
  | inner | name | field => cases asked
  | imported bound | importedWhole bound => simp [Task.goal?, bound] at asked
  | @value scope id node value expr bound constant source =>
    obtain ⟨path, rfl⟩ := within
    simp only [Task.goal?, bound, constant, Bool.false_eq_true, if_false, Option.some.injEq] at asked
    have size := Project.size_source_le bound source
    have room := enter (asked ▸ Project.binding_mem_goals bound)
      (setting.project.weight + 4 + expr.size)
    simp only [depth]
    omega
  | @exportedName path name node id stated =>
    obtain rfl := Option.some_inj.1 asked
    have room := enter (Project.exported_mem_goals stated) (setting.project.weight + 3)
    simp only [depth]
    omega
  | @exportedValue path name node expr stated =>
    obtain rfl := Option.some_inj.1 asked
    have size := Project.size_export_le stated
    have room := enter (Project.exported_mem_goals stated)
      (setting.project.weight + 4 + expr.size)
    simp only [depth]
    omega
  | @forwarded path place name original node source which stated target =>
    obtain rfl := Option.some_inj.1 asked
    have files := searches original
    have room := enter (Project.exported_mem_goals stated)
      (setting.project.unsearched
        (.exported (setting.project.scope path).file.components name :: inProgress) original + 1)
    simp only [depth]
    omega
  | @forwardedWhole path place name node source which stated target =>
    obtain rfl := Option.some_inj.1 asked
    have room := enter (Project.exported_mem_goals stated) 1
    simp only [depth]
    omega
  | @star path place name node source unstated listed target =>
    -- The name need not be a stated goal; the file is one in which it is not looked for again.
    obtain rfl := Option.some_inj.1 asked
    have fewer := Project.unsearched_cons_lt within fresh
    have same := Nat.mul_le_mul_right (2 * setting.project.weight + 5)
      (setting.project.remaining_cons_le
        (.exported (setting.project.scope path).file.components name) inProgress)
    simp only [depth]
    omega
  | @entry path name node listed =>
    obtain rfl := Option.some_inj.1 asked
    have files := searches name
    have room := enter (Project.whole_mem_goals within)
      (setting.project.unsearched
        (.whole (setting.project.scope path).file.components :: inProgress) name + 1)
    simp only [depth]
    omega

end Setting

end Glean
