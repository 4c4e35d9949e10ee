import Glean.Proofs.Evaluation.Simulation
import Glean.Proofs.Project
import Glean.Proofs.Scope.Renaming

/-!
# Evaluation of renamed trees

When the identifiers of files are renamed, each file by a renaming of its own, the same evaluation
takes place under other identifiers. A computation carries over when it comes to the same value from
the renamed state and leaves the renamed state (`Eval.Carries`), and every evaluation does
(`Evaluation.run_rename`). A policy that does not look at nodes is needed for it, because gates and
overrides see names.
-/

namespace Glean

open Syntax Box

/-- A renaming for the identifiers of each file. Files go by the components of their paths. -/
abbrev Renaming := List Component → Id → Id

/-- The renaming of the identifiers in a scope. -/
abbrev Renaming.of (names : Renaming) (scope : Scope) : Id → Id := names scope.file.components

/-- The scope with its identifiers renamed like those of its file. -/
def Scope.under (names : Renaming) (scope : Scope) : Scope := scope.rename (names.of scope)

/-- The goal with its identifier renamed. -/
def Goal.rename (names : Renaming) : Goal → Goal
  | .binding file id => .binding file (names file id)
  | .exported file name => .exported file name
  | .whole file => .whole file

/-- The state with the goals of what is known and in progress renamed. -/
def Run.rename (names : Renaming) (run : Run) : Run :=
  { run with
    known := run.known.map fun entry => (entry.1.rename names, entry.2)
    inProgress := run.inProgress.map (Goal.rename names) }

/-- The same task, asked in the renamed files. -/
def Task.rename (names : Renaming) : Task → Task
  | .expr scope value => .expr (scope.under names) (value.rename (names.of scope))
  | .binding scope id node => .binding (scope.under names) (names.of scope id) node
  | .exported path name node => .exported path name node
  | .whole path node => .whole path node

/-- The second project holds the files of the first one, with their identifiers renamed. Different
identifiers stay different, names that are spelled are kept, and so are the names that have a value
without a binding. -/
structure Project.Renames (names : Renaming) (project other : Project) : Prop where
  aliases : other.aliases = project.aliases
  files : ∀ path, other.file? path =
    (project.file? path).map fun file => file.rename (names file.path.components)
  injective : ∀ file, Function.Injective (names file)
  keeps : ∀ path file, project.file? path = some file →
    file.module.Keeps (names file.path.components)
  values : ∀ file id, builtin? (names file id).name = builtin? id.name

variable {names : Renaming}

/-- Renamed goals are apart where the goals are. -/
theorem Goal.rename_injective (injective : ∀ file, Function.Injective (names file)) :
    Function.Injective (Goal.rename names) := by
  intro goal other same
  cases goal with
  | binding file id =>
    cases other with
    | binding =>
      obtain ⟨rfl, ids⟩ := Goal.binding.inj same
      exact congrArg _ (injective file ids)
    | _ => cases same
  | exported => cases other <;> cases same; rfl
  | whole => cases other <;> cases same; rfl

section

variable (injective : ∀ file, Function.Injective (names file))

include injective

/-- A renamed goal is known as the goal was. -/
theorem Run.lookup_rename (run : Run) (goal : Goal) :
    (run.rename names).known.lookup (goal.rename names) = run.known.lookup goal := by
  have apart := Goal.rename_injective injective
  simp only [Run.rename]
  generalize run.known = known
  induction known with
  | nil => rfl
  | cons entry rest ih =>
    obtain ⟨asked, box⟩ := entry
    rw [List.map_cons, List.lookup_cons, List.lookup_cons, ih]
    by_cases same : goal = asked
    · rw [same, beq_self_eq_true, beq_self_eq_true]
    · have other : goal.rename names ≠ asked.rename names := fun equal => same (apart equal)
      rw [beq_eq_false_iff_ne.2 same, beq_eq_false_iff_ne.2 other]

/-- A renamed goal is in progress when the goal is. -/
theorem Run.mem_inProgress_rename (run : Run) (goal : Goal) :
    goal.rename names ∈ (run.rename names).inProgress ↔ goal ∈ run.inProgress :=
  List.mem_map_of_injective (Goal.rename_injective injective)

/-- A goal is finished under its new name. -/
theorem Run.finish_rename (run : Run) (goal : Goal) (value : Box) (kept : Bool) :
    (run.rename names).finish (goal.rename names) value kept =
      (run.finish goal value kept).rename names := by
  have erased := List.map_erase (Goal.rename_injective injective) run.inProgress (a := goal)
  simp only [Run.finish, Run.rename, erased]
  cases kept <;> rfl

end

/-- Without overrides, the second computation comes to the same value from the renamed state and
leaves the renamed state. -/
def Eval.Carries {α : Type} (names : Renaming) (left right : Eval α) : Prop :=
  ∀ run : Run, run.overrides = [] →
    (right (run.rename names) =
      (left run).map fun (value, after) => (value, after.rename names)) ∧
    ∀ value after, left run = some (value, after) → after.overrides = []

namespace Eval.Carries

variable {α β : Type}

/-- A value alone is carried over. -/
theorem pure (value : α) : Carries names (Pure.pure value) (Pure.pure value) := by
  intro run free
  refine ⟨rfl, fun _ _ ended => ?_⟩
  obtain ⟨rfl, rfl⟩ := Prod.mk.inj (Option.some_inj.1 ended)
  exact free

/-- Running out of fuel is carried over. -/
theorem failure : Carries names (failure : Eval α) failure :=
  fun _ _ => ⟨rfl, fun _ _ ended => by cases ended⟩

/-- Computations that are carried over follow one another. -/
theorem bind {left right : Eval α} {leftNext rightNext : α → Eval β}
    (first : Carries names left right)
    (rest : ∀ value, Carries names (leftNext value) (rightNext value)) :
    Carries names (left >>= leftNext) (right >>= rightNext) := by
  intro run free
  obtain ⟨start, freeNext⟩ := first run free
  rw [bind_apply, bind_apply, start]
  cases ended : left run with
  | none => exact ⟨rfl, fun _ _ ended => by cases ended⟩
  | some result =>
    obtain ⟨value, middle⟩ := result
    exact rest value middle (freeNext value middle ended)

/-- What finds nothing unless names are overridden finds nothing on either side. -/
theorem bind_of_free {left right : Eval (Option α)} {leftNext rightNext : Option α → Eval β}
    (nothing : ∀ run : Run, run.overrides = [] → left run = some (none, run))
    (nothingNext : ∀ run : Run, run.overrides = [] → right run = some (none, run))
    (rest : Carries names (leftNext none) (rightNext none)) :
    Carries names (left >>= leftNext) (right >>= rightNext) := by
  intro run free
  have freeNext : (run.rename names).overrides = [] := free
  rw [bind_apply, bind_apply, nothing run free, nothingNext _ freeNext]
  exact rest run free

/-- Under a policy that does not look at nodes it makes no difference which expression is entered. -/
theorem inside {policy : Policy} (calm : policy.isStackSensitive = false) {left right : Eval Box}
    (inner : Carries names left right) (expr twin : Expr) (node : Reference) :
    Carries names (Eval.inside policy expr node left) (Eval.inside policy twin node right) := by
  intro run free
  obtain ⟨within, freeNext⟩ := inner (run.enter node none) free
  rw [inside_apply, inside_apply, Run.Corresponds.overridesFor_eq_none calm,
    Run.Corresponds.overridesFor_eq_none calm]
  have entered : (run.rename names).enter node none = (run.enter node none).rename names := rfl
  rw [entered, within]
  cases ended : left (run.enter node none) with
  | none => exact ⟨rfl, fun _ _ ended => by cases ended⟩
  | some result =>
    obtain ⟨value, middle⟩ := result
    refine ⟨rfl, fun _ _ left => ?_⟩
    obtain ⟨rfl, rfl⟩ := Prod.mk.inj (Option.some_inj.1 left)
    exact freeNext value middle ended

/-- A goal is remembered under its new name. -/
theorem remembering (injective : ∀ file, Function.Injective (names file)) {left right : Eval Box}
    (inner : Carries names left right) (keep : Bool) (goal : Goal) (node : Reference) :
    Carries names (Guard.remembering keep goal node left)
      (Guard.remembering keep (goal.rename names) node right) := by
  intro run free
  obtain ⟨within, freeNext⟩ := inner (run.begin goal) free
  have begun : (run.rename names).begin (goal.rename names) = (run.begin goal).rename names := rfl
  rw [remembering_apply, remembering_apply, Run.lookup_rename injective, begun, within]
  simp only [Run.mem_inProgress_rename injective]
  cases run.known.lookup goal with
  | some value =>
    refine ⟨rfl, fun _ _ ended => ?_⟩
    obtain ⟨rfl, rfl⟩ := Prod.mk.inj (Option.some_inj.1 ended)
    exact free
  | none =>
    by_cases entered : goal ∈ run.inProgress
    · simp only [if_pos entered]
      refine ⟨rfl, fun _ _ ended => ?_⟩
      obtain ⟨rfl, rfl⟩ := Prod.mk.inj (Option.some_inj.1 ended)
      exact free
    · simp only [if_neg entered]
      cases ended : left (run.begin goal) with
      | none => exact ⟨rfl, fun _ _ ended => by cases ended⟩
      | some result =>
        obtain ⟨value, middle⟩ := result
        refine ⟨?_, fun _ _ left => ?_⟩
        · exact congrArg (fun after => some (value, after))
            (Run.finish_rename injective middle goal value _)
        · obtain ⟨rfl, rfl⟩ := Prod.mk.inj (Option.some_inj.1 left)
          exact freeNext value middle ended

end Eval.Carries

/-! ### Files -/

variable {project other : Project} {policy : Policy}

namespace Project.Renames

variable (renames : project.Renames names other)

include renames

/-- The scope of a renamed file is the renamed scope of the file. -/
theorem scope_under (path : Path) : other.scope path = (project.scope path).under names := by
  rw [Project.scope, Project.scope, renames.files]
  cases found : project.file? path with
  | none => rfl
  | some file =>
    simp only [Option.map_some, Scope.under, Renaming.of, file.scope_file]
    exact file.scope_rename (renames.injective _) (renames.keeps path file found)

/-- Renamed files import from the same places. -/
theorem target?_under (scope : Scope) (source : String) :
    Setting.target? { project := other, policy } (scope.under names) source =
      Setting.target? { project, policy } scope source := by
  have resolves := Project.resolve?_congr renames.aliases fun path => by
    rw [renames.files, Option.isSome_map]
  exact congrArg (if policy.flags.skipFiles then none else ·) (resolves scope.file source)

/-- The source text of a span stays. -/
theorem snippet?_under (scope : Scope) (span : Span) :
    Setting.snippet? { project := other, policy } (scope.under names) span =
      Setting.snippet? { project, policy } scope span := by
  change (other.file? scope.file).bind _ = (project.file? scope.file).bind _
  rw [renames.files]
  cases project.file? scope.file <;> rfl

/-- The text that a computed key is stored under stays. -/
theorem sourceOfKey_under (scope : Scope) (span : Span) :
    Setting.sourceOfKey { project := other, policy } (scope.under names) span =
      Setting.sourceOfKey { project, policy } scope span := by
  rw [Setting.sourceOfKey, Setting.sourceOfKey, renames.snippet?_under]

/-- The text that a spread is stored under stays. -/
theorem sourceOfSpread_under (scope : Scope) (span : Span) :
    Setting.sourceOfSpread { project := other, policy } (scope.under names) span =
      Setting.sourceOfSpread { project, policy } scope span := by
  rw [Setting.sourceOfSpread, Setting.sourceOfSpread, renames.snippet?_under]

variable {scope : Scope}

/-- A renamed name has the binding of the name, renamed. -/
theorem binding?_under (scope : Scope) (id : Id) :
    (scope.under names).binding? (names.of scope id) =
      (scope.binding? id).map (Binding.rename (names.of scope)) :=
  Scope.binding?_rename (renames.injective _) scope id

/-- A renamed name is reassigned when the name is. -/
theorem isReassigned_under (scope : Scope) (id : Id) :
    (scope.under names).isReassigned (names.of scope id) = scope.isReassigned id :=
  Scope.isReassigned_rename (renames.injective _) scope id

/-- The names that are spelled in the expressions of a file are kept. -/
theorem keeps_of_mem {path : Path} {file : Document} (found : project.file? path = some file)
    {node : Node} (inside : node ∈ file.module.all) :
    node.Keeps (names.of (project.scope path)) := by
  have same : (project.scope path).file = file.path := by
    rw [Project.scope_of_file? found]
    rfl
  rw [Renaming.of, same]
  exact (renames.keeps path file found).node inside

variable (held : project.scope scope.file = scope)

include held

/-- The names that the expressions of a binding spell are kept. -/
theorem keeps_source {id : Id} {value : Variable}
    (bound : scope.binding? id = some (.variable value)) {expr : Expr}
    (source : expr ∈ value.sources) : (Node.expr expr).Keeps (names.of scope) := by
  rw [← held] at bound ⊢
  cases found : project.file? scope.file with
  | none =>
    rw [Project.scope, found] at bound
    cases bound
  | some file =>
    rw [Project.scope_of_file? found] at bound
    exact renames.keeps_of_mem found (Scope.mem_all_of_source bound source)

/-- The names that an exported expression spells are kept. -/
theorem keeps_export {name : String} {expr : Expr}
    (stated : scope.export? name = some (.value expr)) :
    (Node.expr expr).Keeps (names.of scope) := by
  rw [← held] at stated ⊢
  cases found : project.file? scope.file with
  | none =>
    rw [Project.scope, found] at stated
    cases stated
  | some file =>
    rw [Project.scope_of_file? found] at stated
    exact renames.keeps_of_mem found (Scope.mem_all_of_export stated)

end Project.Renames

/-- The scope is one of the project, and the names that are spelled in the expression are kept. -/
def Task.Keeps (names : Renaming) (project : Project) : Task → Prop
  | .expr scope value =>
    project.scope scope.file = scope ∧ (Node.expr value).Keeps (names.of scope)
  | .binding scope _ _ => project.scope scope.file = scope
  | .exported .. | .whole .. => True

/-! ### One step -/

namespace Renaming

open Eval (Carries)

section

variable {scope : Scope} {next nextTwin : Task → Eval Box}
  (parts : ∀ task : Task, task.Keeps names project →
    Carries names (next task) (nextTwin (task.rename names)))
  (held : project.scope scope.file = scope) (node : Reference)

include parts held

/-- An expression of the scope is carried over when all tasks are. -/
theorem part_carries {expr : Expr} (keeps : (Node.expr expr).Keeps (names.of scope)) :
    Carries names (next (.expr scope expr))
      (nextTwin (.expr (scope.under names) (expr.rename (names.of scope)))) :=
  parts (.expr scope expr) ⟨held, keeps⟩

/-- Templates are carried over. -/
theorem template_carries {interpolations : List Expr}
    (keeps : ∀ expr ∈ interpolations, (Node.expr expr).Keeps (names.of scope)) (done : String)
    (quasis : List Quasi) :
    Carries names (Evaluation.template next scope node done quasis interpolations)
      (Evaluation.template nextTwin (scope.under names) node done quasis
        (interpolations.map (Expr.rename (names.of scope)))) := by
  induction quasis generalizing done interpolations with
  | nil => exact .pure _
  | cons quasi rest ih =>
    cases interpolations with
    | nil => exact ih (List.forall_mem_nil _) _
    | cons first others =>
      refine .bind (part_carries parts held (keeps first (List.mem_cons_self ..))) fun value => ?_
      cases value with
      | literal => exact ih (fun expr listed => keeps expr (List.mem_cons_of_mem _ listed)) _
      | _ => exact .pure _

/-- The elements of an array are carried over. -/
theorem elements_carries {items : List (Option Argument)}
    (keeps : ∀ argument, some argument ∈ items →
      (Node.expr argument.value).Keeps (names.of scope)) :
    Carries names (Evaluation.elements next scope node items)
      (Evaluation.elements nextTwin (scope.under names) node
        (items.map (Option.map (Argument.rename (names.of scope))))) := by
  induction items with
  | nil => exact .pure _
  | cons item rest ih =>
    have others := ih fun argument listed => keeps argument (List.mem_cons_of_mem _ listed)
    cases item with
    | none => exact .bind others fun _ => .pure _
    | some argument =>
      have first := part_carries parts held (keeps argument (List.mem_cons_self ..))
      cases argument with
      | single value => exact .bind first fun _ => .bind others fun _ => .pure _
      | spread value =>
        refine .bind first fun box => .bind others fun _ => ?_
        rw [value.span_rename]
        exact .pure _

variable (renames : project.Renames names other)

section Objects

include renames

/-- The texts of a key are carried over. -/
theorem keyText_carries {key : Key} (keeps : ∀ part ∈ key.parts, part.Keeps (names.of scope)) :
    Carries names (Evaluation.keyText { project, policy } next scope key)
      (Evaluation.keyText { project := other, policy } nextTwin (scope.under names)
        (key.rename (names.of scope))) := by
  cases key with
  | computed span value =>
    refine .bind (part_carries parts held (keeps _ (List.mem_singleton_self _))) fun box => ?_
    rw [renames.sourceOfKey_under]
    cases box <;> exact .pure _
  | _ => exact .pure _

/-- A member of an object is carried over. -/
theorem member_carries {member : Member} (keeps : (Node.member member).Keeps (names.of scope))
    (entries : Entries String Box) :
    Carries names (Evaluation.member { project, policy } next scope node entries member)
      (Evaluation.member { project := other, policy } nextTwin (scope.under names) node entries
        (member.rename (names.of scope))) := by
  cases member with
  | spread span value =>
    refine .bind (part_carries parts held (keeps.child (List.mem_singleton_self _))) fun box => ?_
    rw [renames.sourceOfSpread_under]
    exact .pure _
  | shorthand span id =>
    have name : (names.of scope id).name = id.name := keeps.own id (List.mem_singleton_self _)
    have plain : (Node.expr (.ident span id)).Keeps (names.of scope) := by
      intro part inside
      simp only [Node.all_eq, Node.children, Expr.parts, List.flatMap_cons, List.flatMap_nil,
        List.append_nil, List.mem_cons, List.not_mem_nil, or_false] at inside
      rcases inside with rfl | rfl <;> exact fun _ spelled => absurd spelled List.not_mem_nil
    refine .bind (part_carries parts held plain) fun box => ?_
    rw [name]
    exact .pure _
  | keyed span key value =>
    have keys : ∀ part ∈ key.parts, part.Keeps (names.of scope) :=
      fun part listed => keeps.child (List.mem_append_left _ listed)
    have stored := part_carries parts held
      (keeps.child (List.mem_append_right _ (List.mem_singleton_self _)))
    refine .bind (keyText_carries parts held renames keys) ?_
    rintro ⟨text, box⟩
    cases box with
    | none => exact .bind stored fun _ => .pure _
    | some => exact .pure _
  | accessor span kind key inner =>
    have keys : ∀ part ∈ key.parts, part.Keeps (names.of scope) :=
      fun part listed => keeps.child (List.mem_append_left _ listed)
    exact .bind (keyText_carries parts held renames keys) fun _ => .pure _
  | defaulted => exact .pure _

/-- The members of an object are carried over one after the other. -/
theorem members_carries {list : List Member}
    (keeps : ∀ member ∈ list, (Node.member member).Keeps (names.of scope))
    (entries : Entries String Box) :
    Carries names (Evaluation.members { project, policy } next scope node entries list)
      (Evaluation.members { project := other, policy } nextTwin (scope.under names) node entries
        (list.map (Member.rename (names.of scope)))) := by
  induction list generalizing entries with
  | nil => exact .pure _
  | cons first rest ih =>
    have keepsFirst := keeps first (List.mem_cons_self ..)
    refine .bind (member_carries parts held node renames keepsFirst entries) ?_
    exact fun entries =>
      ih (fun member listed => keeps member (List.mem_cons_of_mem _ listed)) entries

end Objects

section Names

include renames

/-- Names are carried over. -/
theorem name_carries (id : Id) :
    Carries names (Evaluation.name next scope id node)
      (Evaluation.name nextTwin (scope.under names) (names.of scope id) node) := by
  refine .bind_of_free (fun _ => Eval.override?_of_free _) (fun _ => Eval.override?_of_free _) ?_
  rw [renames.binding?_under, Option.isSome_map, renames.values]
  dsimp only
  split
  · exact parts (.binding scope id node) held
  · cases builtin? id.name <;> exact .pure _

omit parts held in
/-- Looking for an import of everything is carried over. -/
theorem wholeImport?_carries (scope : Scope) (expr : Expr) :
    Carries names (Evaluation.wholeImport? scope expr)
      (Evaluation.wholeImport? (scope.under names) (expr.rename (names.of scope))) := by
  cases expr with
  | ident span id =>
    refine .bind_of_free (fun _ => Eval.override?_of_free _) (fun _ => Eval.override?_of_free _) ?_
    rw [renames.binding?_under]
    cases scope.binding? id with
    | none => exact .pure _
    | some binding =>
      cases binding with
      | imported source imported => cases imported <;> exact .pure _
      | _ => exact .pure _
  | _ => exact .pure _

/-- Reading a member is carried over. -/
theorem read_carries {base : Expr} (keeps : (Node.expr base).Keeps (names.of scope))
    (key : Primitive) :
    Carries names (Evaluation.read { project, policy } next scope base key node)
      (Evaluation.read { project := other, policy } nextTwin (scope.under names)
        (base.rename (names.of scope)) key node) := by
  rw [Evaluation.read, Evaluation.read, base.unwrap_rename]
  refine .bind (wholeImport?_carries renames scope base.unwrap) fun source => ?_
  cases source with
  | none => exact .bind (part_carries parts held keeps) fun _ => .pure _
  | some source =>
    simp only [renames.target?_under]
    split
    · exact parts (.exported ..) trivial
    · exact .pure _

/-- Accesses are carried over. -/
theorem access_carries {base : Expr} {key : Key} (keeps : (Node.expr base).Keeps (names.of scope))
    (keys : ∀ part ∈ key.parts, part.Keeps (names.of scope)) :
    Carries names (Evaluation.access { project, policy } next scope base key node)
      (Evaluation.access { project := other, policy } nextTwin (scope.under names)
        (base.rename (names.of scope)) (key.rename (names.of scope)) node) := by
  cases key with
  | computed span value =>
    refine .bind (part_carries parts held (keys _ (List.mem_singleton_self _))) fun box => ?_
    cases box with
    | literal value => exact read_carries parts held node renames keeps value
    | _ => exact .pure _
  | name | string | number => exact read_carries parts held node renames keeps _
  | bigint | hidden => exact .pure _

end Names

/-- Conditionals are carried over. -/
theorem conditional_carries {test whenTrue whenFalse : Expr}
    (tests : (Node.expr test).Keeps (names.of scope))
    (yes : (Node.expr whenTrue).Keeps (names.of scope))
    (no : (Node.expr whenFalse).Keeps (names.of scope)) :
    Carries names
      (Evaluation.conditional { project, policy } next scope test whenTrue whenFalse node)
      (Evaluation.conditional { project := other, policy } nextTwin (scope.under names)
        (test.rename (names.of scope)) (whenTrue.rename (names.of scope))
        (whenFalse.rename (names.of scope)) node) := by
  refine .bind (part_carries parts held tests) fun decision => ?_
  rw [test.span_rename]
  split
  · exact part_carries parts held yes
  · exact part_carries parts held no
  · dsimp only
    split
    · exact .pure _
    · exact .bind (part_carries parts held yes) fun _ =>
        .bind (part_carries parts held no) fun _ => .pure _

/-- Logical operators are carried over. -/
theorem logical_carries (operator : Logical) {left right : Expr}
    (lefts : (Node.expr left).Keeps (names.of scope))
    (rights : (Node.expr right).Keeps (names.of scope)) :
    Carries names (Evaluation.logical { project, policy } next scope operator left right node)
      (Evaluation.logical { project := other, policy } nextTwin (scope.under names) operator
        (left.rename (names.of scope)) (right.rename (names.of scope)) node) := by
  refine .bind (part_carries parts held lefts) fun first => ?_
  rw [left.span_rename]
  split
  · exact .pure _
  · exact part_carries parts held rights
  · dsimp only
    split
    · exact .pure _
    · refine .bind (part_carries parts held rights) fun second => ?_
      cases operator <;> exact .pure _

omit parts held in
/-- Without overrides no call is folded. -/
theorem call_carries (scope scopeTwin : Scope) (callee calleeTwin : Option Expr)
    (arguments argumentsTwin : List Argument) :
    Carries names (Evaluation.call next scope callee arguments node)
      (Evaluation.call nextTwin scopeTwin calleeTwin argumentsTwin node) :=
  .bind_of_free (fun _ => Evaluation.helper?_of_free _) (fun _ => Evaluation.helper?_of_free _)
    (.pure _)

section Steps

include renames

/-- What an expression is reduced to is carried over. -/
theorem reduce_carries {expr : Expr} (keeps : (Node.expr expr).Keeps (names.of scope)) :
    Carries names (Evaluation.reduce { project, policy } next scope expr node)
      (Evaluation.reduce { project := other, policy } nextTwin (scope.under names)
        (expr.rename (names.of scope)) node) := by
  have inside : ∀ part ∈ expr.parts, part.Keeps (names.of scope) := fun part => keeps.child
  cases expr with
  | ident _ id => exact name_carries parts held node renames id
  | literal => exact .pure _
  | template _ quasis interpolations =>
    have each : ∀ expr ∈ interpolations, (Node.expr expr).Keeps (names.of scope) :=
      fun expr listed => inside _ (List.mem_map.2 ⟨expr, listed, rfl⟩)
    rw [Expr.rename, renameExprs_eq]
    exact template_carries parts held node each "" quasis
  | tagged _ tag quasis interpolations =>
    have each : ∀ expr ∈ interpolations, (Node.expr expr).Keeps (names.of scope) :=
      fun expr listed => inside _ (List.mem_cons_of_mem _ (List.mem_map.2 ⟨expr, listed, rfl⟩))
    rw [Expr.rename, renameExprs_eq]
    exact template_carries parts held node each "" quasis
  | array _ items =>
    have each : ∀ argument, some argument ∈ items →
        (Node.expr argument.value).Keeps (names.of scope) := fun argument listed =>
      inside _ (List.mem_map.2 ⟨argument, List.mem_flatMap.2 ⟨_, listed, by simp⟩, rfl⟩)
    rw [Expr.rename, renameElements_eq]
    exact .bind (elements_carries parts held node each) fun _ => .pure _
  | object _ list =>
    have each : ∀ member ∈ list, (Node.member member).Keeps (names.of scope) :=
      fun member listed => inside _ (List.mem_map.2 ⟨member, listed, rfl⟩)
    rw [Expr.rename, renameMembers_eq]
    exact .bind (members_carries parts held node renames each []) fun _ => .pure _
  | member _ base key | optionalMember _ base key =>
    exact access_carries parts held node renames (inside _ (List.mem_cons_self ..))
      fun part listed => inside part (List.mem_cons_of_mem _ listed)
  | conditional =>
    simp only [Expr.parts, List.forall_mem_cons] at inside
    exact conditional_carries parts held node inside.1 inside.2.1 inside.2.2.1
  | logical _ operator =>
    simp only [Expr.parts, List.forall_mem_cons] at inside
    exact logical_carries parts held node operator inside.1 inside.2.1
  | binary _ operator =>
    simp only [Expr.parts, List.forall_mem_cons] at inside
    exact .bind (part_carries parts held inside.1) fun _ =>
      .bind (part_carries parts held inside.2.1) fun _ => .pure _
  | unary _ operator =>
    have operand := part_carries parts held (inside _ (List.mem_singleton_self _))
    cases operator with
    | void => exact .pure _
    | _ => exact .bind operand fun _ => .pure _
  | call => exact call_carries node _ _ _ _ _ _
  | optionalCall | assign | update | wrapped | definition | other => exact .pure _

omit node in
/-- Expressions are carried over, flags included, under a policy that does not look at nodes. -/
theorem expression_carries (calm : policy.isStackSensitive = false) {expr : Expr}
    (keeps : (Node.expr expr).Keeps (names.of scope)) :
    Carries names (Evaluation.expression { project, policy } next scope expr)
      (Evaluation.expression { project := other, policy } nextTwin (scope.under names)
        (expr.rename (names.of scope))) := by
  have ungatedHere : (Setting.mk project policy).policy.gate = none := Policy.gate_eq_none calm
  have ungatedThere : (Setting.mk other policy).policy.gate = none := Policy.gate_eq_none calm
  rw [Evaluation.expression_eq ungatedHere, Evaluation.expression_eq ungatedThere,
    expr.unwrap_rename, Expr.span_rename]
  split
  · exact .pure _
  · exact .inside calm (reduce_carries parts held _ renames keeps.unwrap) _ _ _

/-! ### What names stand for -/

/-- Declared names are carried over. -/
theorem declared_carries {id : Id} {value : Variable}
    (bound : scope.binding? id = some (.variable value)) :
    Carries names (Evaluation.declared next scope value node)
      (Evaluation.declared nextTwin (scope.under names) (value.rename (names.of scope)) node) := by
  have each : ∀ expr ∈ value.sources, Carries names (next (.expr scope expr))
      (nextTwin (.expr (scope.under names) (expr.rename (names.of scope)))) :=
    fun expr source => part_carries parts held (renames.keeps_source held bound source)
  obtain ⟨init, path, fallback⟩ := value
  simp only [Variable.sources, List.forall_mem_append, Option.mem_toList] at each
  have whole : Carries names (Evaluation.initial next scope ⟨init, path, fallback⟩ node)
      (Evaluation.initial nextTwin (scope.under names)
        (Variable.rename (names.of scope) ⟨init, path, fallback⟩) node) := by
    cases init with
    | none => exact .pure _
    | some init => exact each.1 init rfl
  refine .bind whole fun box => ?_
  have same : (Variable.rename (names.of scope) ⟨init, path, fallback⟩).part node box =
      Variable.part ⟨init, path, fallback⟩ node box := rfl
  rw [same]
  generalize Variable.part _ node box = chosen
  cases fallback with
  | none => exact .pure _
  | some fallback =>
    cases chosen with
    | literal value =>
      cases value with
      | undefined => exact each.2 fallback rfl
      | _ => exact .pure _
    | _ => exact .pure _

omit held in
/-- What is imported from a module is carried over. -/
theorem forward_carries (scope : Scope) (source : String) (imported : Imported) :
    Carries names (Evaluation.forward { project, policy } next scope source imported node)
      (Evaluation.forward { project := other, policy } nextTwin (scope.under names) source imported
        node) := by
  simp only [Evaluation.forward, renames.target?_under]
  split
  · exact .pure _
  · split
    · exact parts (.exported ..) trivial
    · exact parts (.whole ..) trivial

omit held in
/-- Searches are carried over. -/
theorem search_carries (scope : Scope) (name : String) (sources : List String) :
    Carries names (Evaluation.search { project, policy } next scope name node sources)
      (Evaluation.search { project := other, policy } nextTwin (scope.under names) name node
        sources) := by
  induction sources with
  | nil => exact .pure _
  | cons source rest ih =>
    simp only [Evaluation.search, renames.target?_under]
    split
    · exact ih
    · refine .bind (parts (.exported ..) trivial) fun box => ?_
      split
      · exact ih
      · exact .pure _

/-- Bindings are carried over. -/
theorem binding_carries (keep : Bool) (id : Id) :
    Carries names
      (Evaluation.binding { project, policy } (.remembering keep) next scope id node)
      (Evaluation.binding { project := other, policy } (.remembering keep) nextTwin
        (scope.under names) (names.of scope id) node) := by
  rw [Evaluation.binding, Evaluation.binding, renames.binding?_under, renames.isReassigned_under]
  cases bound : scope.binding? id with
  | none => exact .pure _
  | some binding =>
    cases binding with
    | imported source imported => exact forward_carries parts node renames scope source imported
    | «sealed» => exact .pure _
    | «variable» value =>
      simp only [Option.map_some, Binding.rename]
      split
      · exact .pure _
      · exact (declared_carries parts held node renames bound).remembering renames.injective keep
          (.binding scope.file.components id) node

omit held in
/-- Exports are carried over. -/
theorem exported_carries (keep : Bool) (path : Path) (name : String) :
    Carries names
      (Evaluation.exported { project, policy } (.remembering keep) next path name node)
      (Evaluation.exported { project := other, policy } (.remembering keep) nextTwin path name
        node) := by
  have held := project.scope_scope path
  simp only [Evaluation.exported, renames.scope_under path]
  refine .remembering renames.injective ?_ keep (.exported (project.scope path).file.components name)
    node
  have exports : ((project.scope path).under names).export? name =
      ((project.scope path).export? name).map (Export.rename (names.of (project.scope path))) :=
    Scope.export?_rename ..
  rw [exports]
  cases stated : (project.scope path).export? name with
  | none =>
    dsimp only [Option.map_none]
    split
    · exact .pure _
    · exact search_carries parts node renames (project.scope path) name (project.scope path).stars
  | some value =>
    cases value with
    | binding id => exact parts (.binding (project.scope path) id node) held
    | forward source imported =>
      exact forward_carries parts node renames (project.scope path) source imported
    | value expr => exact part_carries parts held (renames.keeps_export held stated)

omit held renames in
/-- All exports of a module are carried over, under the names that they have. -/
theorem exports_carries (path : Path) (list : List String) :
    Carries names (Evaluation.exports next path node list)
      (Evaluation.exports nextTwin path node list) := by
  induction list with
  | nil => exact .pure _
  | cons name rest ih =>
    exact .bind (parts (.exported path name node) trivial) fun _ => .bind ih fun _ => .pure _

omit held in
/-- Modules as a whole are carried over. -/
theorem whole_carries (keep : Bool) (path : Path) :
    Carries names (Evaluation.whole { project, policy } (.remembering keep) next path node)
      (Evaluation.whole { project := other, policy } (.remembering keep) nextTwin path node) := by
  simp only [Evaluation.whole, renames.scope_under path]
  refine .remembering renames.injective ?_ keep (.whole (project.scope path).file.components) node
  have keys : Entries.keys ((project.scope path).under names).exports =
      Entries.keys (project.scope path).exports := Entries.keys_mapValues ..
  rw [keys]
  exact .bind (exports_carries parts node _ _) fun _ => .pure _

end Steps

end

end Renaming

/-- Renamed files are evaluated like the files themselves: the run of the renamed task from the
renamed state comes to the same box, node references included, and leaves the renamed state. -/
theorem Evaluation.run_rename (calm : policy.isStackSensitive = false)
    (renames : project.Renames names other) (keep : Bool) (fuel : Nat) {task : Task}
    (keeps : task.Keeps names project) :
    Eval.Carries names (run { project, policy } (.remembering keep) fuel task)
      (run { project := other, policy } (.remembering keep) fuel (task.rename names)) := by
  induction fuel generalizing task with
  | zero => exact .failure
  | succ fuel ih =>
    cases task with
    | expr scope value =>
      obtain ⟨held, keeps⟩ := keeps
      exact Renaming.expression_carries (fun _ => ih) held renames calm keeps
    | binding scope id node =>
      exact Renaming.binding_carries (fun _ => ih) keeps node renames keep id
    | exported path name node =>
      exact Renaming.exported_carries (fun _ => ih) node renames keep path name
    | whole path node => exact Renaming.whole_carries (fun _ => ih) node renames keep path

end Glean
