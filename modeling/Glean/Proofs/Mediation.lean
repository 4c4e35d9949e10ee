import Glean.Proofs.Evaluation.Operands
import Glean.Proofs.WholeImports

/-!
# Objects that the gate refuses

A gate is asked about every expression before it is evaluated, with the nodes around it. So it also
decides about the object of a member: where it lets the member through and refuses the object, the
member is unknown for that reason (`evaluate_mediates`).

The one object that it is not asked about is a name of all exports of a module, of which a member is
read without the object.
-/

namespace Glean

open Syntax Box

/-- The object of an access under a fixed name. -/
def Syntax.Expr.object? : Expr → Option Expr
  | .member _ base (.name _) | .optionalMember _ base (.name _) => some base
  | _ => none

/-- The expression is a name that an import gives to all exports of a module. -/
def Scope.NamesWhole (scope : Scope) (expr : Expr) : Prop :=
  ∃ span id source, expr.unwrap = .ident span id ∧
    scope.binding? id = some (.imported source .whole)

namespace Evaluation

variable {setting : Setting} {next : Task → Eval Box} {scope : Scope} {expr base : Expr}
  {gate : Gate} {run : Run}

section Gated

variable (next scope) (gated : setting.policy.gate = some gate)
  (evaluates : setting.policy.flags.skipEvaluate = false)

include gated evaluates

/-- An expression that the gate refuses is unknown, and nothing inside it is evaluated. -/
theorem expression_of_refused (refused : gate expr.unwrap run.stack = false) :
    ∃ after, expression setting next scope expr run =
      some (.unknown .denied (scope.refer expr.unwrap.span), after) := by
  have excluded : ¬ setting.Permits expr run := fun permitted =>
    Bool.false_ne_true (refused.symm.trans (permitted.2 gate gated))
  have ended := expression_of_not_permitted next scope excluded
  rwa [evaluates] at ended

/-- An expression that the gate lets through is evaluated by its form, within its node. -/
theorem expression_of_allowed (free : setting.policy.overrides = none)
    (allowed : gate expr.unwrap run.stack = true) :
    ∃ middle : Run, middle.stack = scope.refer expr.unwrap.span :: run.stack ∧
      middle.overrides = run.overrides ∧
      expression setting next scope expr run =
        (reduce setting next scope expr.unwrap (scope.refer expr.unwrap.span) middle).map
          fun (box, after) => (box, after.leave none) := by
  have permitted : setting.Permits expr run := by
    refine ⟨evaluates, fun other given => ?_⟩
    cases gated.symm.trans given
    exact allowed
  have brings : setting.policy.overridesFor expr.unwrap run.stack = none := by
    rw [Policy.overridesFor, free]
    rfl
  have ended := expression_of_permitted next scope permitted
  rw [brings] at ended
  exact ⟨_, by simp [Run.enter], by simp [Run.enter], ended⟩

end Gated

/-- Only of a name of all exports is a member read without the object. -/
theorem read_of_not_namesWhole (ordinary : ¬ scope.NamesWhole base) (free : run.overrides = [])
    (key : Primitive) (node : Reference) :
    read setting next scope base key node run =
      (next (.expr scope base) run).map fun (box, after) => (box.read key node, after) := by
  have own : wholeImport? scope base.unwrap run = some (none, run) := by
    cases form : base.unwrap with
    | ident span id =>
      refine wholeImport?_of_ordinary (Eval.override?_of_free _ free) fun source bound => ?_
      exact ordinary ⟨span, id, source, form, bound⟩
    | _ => rfl
  exact read_of_value own key node

/-- A member is read of the object that the access names. -/
theorem reduce_of_object (setting : Setting) (next : Task → Eval Box) (scope : Scope)
    (reads : expr.object? = some base) (node : Reference) :
    ∃ key, reduce setting next scope expr node = read setting next scope base key node := by
  unfold Syntax.Expr.object? at reads
  split at reads
  · obtain rfl := Option.some_inj.1 reads
    exact ⟨_, rfl⟩
  · obtain rfl := Option.some_inj.1 reads
    exact ⟨_, rfl⟩
  · cases reads

/-- A member is unknown when the gate lets it through and refuses its object. -/
theorem run_of_refused_object (gated : setting.policy.gate = some gate)
    (free : setting.policy.overrides = none)
    (evaluates : setting.policy.flags.skipEvaluate = false) (plain : run.overrides = [])
    (reads : expr.unwrap.object? = some base) (allowed : gate expr.unwrap run.stack = true)
    (refused : gate base.unwrap (scope.refer expr.unwrap.span :: run.stack) = false)
    (ordinary : ¬ scope.NamesWhole base) (guard : Guard) (fuel : Nat) :
    ∃ after, Evaluation.run setting guard (fuel + 2) (.expr scope expr) run =
      some (.unknown .denied (scope.refer base.unwrap.span), after) := by
  let inner : Task → Eval Box := Evaluation.run setting guard fuel
  let outer : Task → Eval Box := Evaluation.run setting guard (fuel + 1)
  obtain ⟨middle, stack, overrides, entered⟩ :=
    expression_of_allowed outer scope gated evaluates free allowed
  obtain ⟨key, reduced⟩ := reduce_of_object setting outer scope reads
    (scope.refer expr.unwrap.span)
  obtain ⟨after, object⟩ :=
    expression_of_refused inner scope gated evaluates (stack ▸ refused)
  have read : reduce setting outer scope expr.unwrap (scope.refer expr.unwrap.span) middle =
      some (.unknown .denied (scope.refer base.unwrap.span), after) := by
    rw [reduced, read_of_not_namesWhole ordinary (overrides.trans plain)]
    change (expression setting inner scope base middle).map _ = _
    rw [object]
    rfl
  rw [read] at entered
  exact ⟨_, entered⟩

end Evaluation

/-- A member whose object the gate refuses is unknown for that reason, wherever it stands and
whatever the object means, unless the object is a name of all exports of a module. -/
theorem evaluate_mediates (setting : Setting) (gate : Gate) (access base : Expr) (scope : Scope)
    (run : Run) (gated : setting.policy.gate = some gate) (free : setting.policy.overrides = none)
    (evaluates : setting.policy.flags.skipEvaluate = false) (plain : run.overrides = [])
    (reads : access.unwrap.object? = some base)
    (allowed : gate access.unwrap run.stack = true)
    (refused : gate base.unwrap (scope.refer access.unwrap.span :: run.stack) = false)
    (ordinary : ¬ scope.NamesWhole base) :
    let denied := Box.unknown .denied (scope.refer base.unwrap.span)
    (∀ guard fuel, ∃ after,
      Evaluation.run setting guard (fuel + 2) (.expr scope access) run = some (denied, after)) ∧
    ∀ path, ((setting.scopeAt path).run run).1 = scope →
      ((setting.evaluate path access).run run).1 = denied := by
  intro denied
  refine ⟨Evaluation.run_of_refused_object gated free evaluates plain reads allowed refused ordinary,
    fun path here => ?_⟩
  obtain ⟨place, strangers, box, after, _, located, evaluated, _, ends⟩ :=
    setting.evaluate_spec path run access
  obtain rfl : setting.project.scope place = scope := by rw [← here, located]
  have started : ({ run with strangers } : Run).overrides = [] := plain
  obtain ⟨last, ended⟩ := Evaluation.run_of_refused_object gated free evaluates started reads
    allowed refused ordinary setting.guard (setting.fuel access)
  have enough := ends (setting.fuel access + 2) (Nat.le_add_right _ 2)
  obtain ⟨rfl, _⟩ := Prod.mk.inj (Option.some_inj.1 (enough.symm.trans ended))
  rw [evaluated]

/-- A gate that refuses one name and lets everything else through. -/
def refusing (name : String) : Gate := fun expr _ =>
  match expr with
  | .ident _ id => id.name ≠ name
  | _ => true

/-- `const o = object;` -/
def constantModule (object : Expr) : Module :=
  ⟨[.declarations [.mk (.ident ⟨"o", 1⟩) (some object)]]⟩

/-- A refused constant is not read, in parentheses either. -/
theorem evaluate_mediates_constant :
    let object : Expr :=
      .object ⟨11, 21⟩ [.keyed ⟨13, 19⟩ (.name "n") (.literal ⟨16, 19⟩ (.string "x"))]
    let file := Document.make ⟨"/a.ts"⟩ "" (constantModule object)
    let gate := refusing "o"
    let setting : Setting := { project := Project.insert {} file, policy := { gate := some gate } }
    let base : Expr := .wrapped ⟨23, 26⟩ .parentheses (.ident ⟨24, 25⟩ ⟨"o", 1⟩)
    let access : Expr := .member ⟨23, 28⟩ base (.name "n")
    gate access [] = true ∧ gate base.unwrap [file.scope.refer access.span] = false ∧
      file.scope.binding? ⟨"o", 1⟩ = some (.variable ⟨some object, [], none⟩) ∧
      ¬ file.scope.NamesWhole base ∧
      ((setting.evaluate file.path access).run {}).1 =
        .unknown .denied (file.scope.refer ⟨24, 25⟩) := by
  intro object file gate setting base access
  have bound : file.scope.binding? ⟨"o", 1⟩ = some (.variable ⟨some object, [], none⟩) := by cbv
  have allowed : gate access [] = true := rfl
  have refused : gate base.unwrap [file.scope.refer access.span] = false := by decide +kernel
  have found : setting.project.file? file.path = some file := Project.file?_insert {} file
  have here : ((setting.scopeAt file.path).run {}).1 = file.scope := by
    rw [Setting.scopeAt, found]
    rfl
  have ordinary : ¬ file.scope.NamesWhole base := by
    rintro ⟨span, id, source, form, whole⟩
    obtain ⟨_, rfl⟩ := Expr.ident.inj form
    cases bound.symm.trans whole
  exact ⟨allowed, refused, bound, ordinary,
    (evaluate_mediates setting gate access base file.scope {} rfl rfl rfl rfl rfl allowed refused
      ordinary).2 file.path here⟩

/-- A refused name of all exports is read nevertheless. -/
theorem not_evaluate_mediates_whole :
    let gate := refusing "all"
    let setting : Setting :=
      { project := wholeProject statingModule, policy := { gate := some gate } }
    let path : Path := ⟨"/a.ts"⟩
    let scope := setting.project.scope path
    let base : Expr := .ident ⟨44, 47⟩ ⟨"all", 1⟩
    let access : Expr := .member ⟨44, 49⟩ base (.name "n")
    gate access [] = true ∧ gate base [scope.refer access.span] = false ∧
      (((setting.evaluate path access).run {}).1 == .text "x" none) = true := by
  intro gate setting path scope base access
  exact ⟨rfl, by decide +kernel, by decide +kernel⟩

end Glean
