import Glean.Proofs.Evaluation.Following
import Glean.Proofs.Evaluation.Termination

/-!
# Names that change

A scope marks the bindings that are assigned to, updated, or have members assigned. Nothing is known
of a marked name, nor of what is read from it under fixed keys, unless the name is an import
(`evaluate_reassigned`).

The mark of an import is not looked at: the name stands for the export of the other module, whatever
its own module does to it.
-/

namespace Glean

open Syntax Box

namespace Syntax

/-- The value that a key has in every scope. -/
def Key.fixed? : Key → Option Primitive
  | .name text | .string text => some (.string text)
  | .number value => some (.number value)
  | .computed _ value =>
    match value.unwrap with
    | .literal _ written => written.toPrimitive?
    | _ => none
  | .bigint _ | .hidden _ => none

/-- The expression is the name `id` at `span`, or is read from that name under fixed keys. -/
inductive Expr.ReadsFrom (id : Id) (span : Span) : Expr → Prop where
  | name {expr : Expr} (form : expr.unwrap = .ident span id) : ReadsFrom id span expr
  | member {expr base : Expr} {key : Key} {value : Primitive} {whole : Span}
    (form : expr.unwrap = .member whole base key ∨ expr.unwrap = .optionalMember whole base key)
    (fixed : key.fixed? = some value) (inner : ReadsFrom id span base) : ReadsFrom id span expr

end Syntax

/-- No overrides in force give the name a box. -/
def Run.Spares (run : Run) (name : String) : Prop :=
  ∀ overrides ∈ run.overrides, Entries.get? overrides.environment name = none

/-- No expression brings along overrides that give the name a box. -/
def Policy.Spares (policy : Policy) (name : String) : Prop :=
  ∀ expr stack overrides, policy.overridesFor expr stack = some overrides →
    Entries.get? overrides.environment name = none

namespace Evaluation

variable {setting : Setting} {guard : Guard} {scope : Scope} {id : Id} {binding : Binding}
  {span : Span} {expr base : Expr} {key : Key} {value : Primitive} {run : Run}

/-- A name that the state spares is not overridden. -/
theorem override?_of_spares {name : String} (free : run.Spares name) :
    Eval.override? name run = some (none, run) := by
  rw [Eval.override?_apply, List.findSome?_eq_none_iff.2 free]

/-- A name that the policy and the state spare is spared inside a node. -/
theorem spares_enter {name : String} (spares : setting.policy.Spares name) (free : run.Spares name)
    (expr : Expr) (node : Reference) :
    (run.enter node (setting.policy.overridesFor expr run.stack)).Spares name := by
  intro overrides listed
  rcases List.mem_append.1 listed with brought | around
  · exact spares expr run.stack overrides (Option.mem_toList.1 brought)
  · exact free overrides around

/-- A binding that changes has no constant value, unless it is an import. -/
theorem binding_of_reassigned (bound : scope.binding? id = some binding)
    (own : ∀ source imported, binding ≠ .imported source imported)
    (changes : scope.isReassigned id = true) (next : Task → Eval Box) (node : Reference) :
    Evaluation.binding setting guard next scope id node = pure (.unknown .unbound node) := by
  cases binding with
  | imported source imported => exact absurd rfl (own source imported)
  | _ => simp [Evaluation.binding, bound, changes]

section Reading

variable (ungated : setting.policy.gate = none)
  (evaluates : setting.policy.flags.skipEvaluate = false)

include ungated evaluates

/-- A fixed key reads the member that it names in every scope. -/
theorem access_of_fixed (guard : Guard) (scope : Scope) (base : Expr)
    (fixed : key.fixed? = some value) (fuel : Nat) (node : Reference) (run : Run) :
    ∃ middle : Run, middle.overrides = run.overrides ∧
      access setting (Evaluation.run setting guard (fuel + 1)) scope base key node run =
        read setting (Evaluation.run setting guard (fuel + 1)) scope base value node middle := by
  cases key with
  | name text | string text | number number =>
    obtain rfl := Option.some_inj.1 fixed
    exact ⟨run, rfl, rfl⟩
  | bigint | hidden => cases fixed
  | computed whole inner =>
    cases form : inner.unwrap with
    | literal place written =>
      have known : written.toPrimitive? = some value := by simpa [Key.fixed?, form] using fixed
      let brought := setting.policy.overridesFor inner.unwrap run.stack
      let middle := (run.enter (scope.refer inner.unwrap.span) brought).leave brought
      have ended : Evaluation.run setting guard (fuel + 1) (.expr scope inner) run =
          some (.literal value (some (scope.refer inner.unwrap.span)), middle) := by
        rw [run_expr ungated evaluates]
        simp only [middle, brought, form, reduce, known]
        rfl
      refine ⟨middle, by simp [middle, Run.leave, Run.enter], ?_⟩
      simp only [access, Eval.bind_apply, ended, Option.bind_some]
    | _ => simp [Key.fixed?, form] at fixed

/-- Nothing is known of what is read under fixed keys from a name that changes. -/
theorem run_of_reassigned (guard : Guard) (bound : scope.binding? id = some binding)
    (own : ∀ source imported, binding ≠ .imported source imported)
    (changes : scope.isReassigned id = true) (spares : setting.policy.Spares id.name)
    (reads : expr.ReadsFrom id span) :
    ∃ enough, ∀ fuel, enough ≤ fuel → ∀ run : Run, run.Spares id.name → ∃ after,
      Evaluation.run setting guard fuel (.expr scope expr) run =
        some (.unknown .unbound (scope.refer span), after) := by
  -- By induction on the chain of members; only the name at its start is looked up.
  induction reads with
  | @name expr form =>
    refine ⟨2, fun fuel enough run free => ?_⟩
    obtain ⟨fuel, rfl⟩ := Nat.exists_eq_add_of_le' enough
    have named := spares_enter spares free expr.unwrap (scope.refer expr.unwrap.span)
    rw [run_expr ungated evaluates]
    generalize run.enter _ _ = inside at named ⊢
    rw [form, reduce]
    simp only [name, Eval.bind_apply, override?_of_spares named, Option.bind_some, bound,
      Option.isSome_some, if_true]
    change ∃ after, (Evaluation.binding setting guard _ scope id _ inside).map _ = _
    rw [binding_of_reassigned bound own changes]
    exact ⟨_, rfl⟩
  | @member expr base key value whole form fixed inner ih =>
    obtain ⟨enough, ends⟩ := ih
    refine ⟨enough + 2, fun fuel more run free => ?_⟩
    obtain ⟨fuel, rfl⟩ := Nat.exists_eq_add_of_le' (Nat.le_of_add_left_le more : 2 ≤ fuel)
    have around := spares_enter spares free expr.unwrap (scope.refer expr.unwrap.span)
    rw [run_expr ungated evaluates]
    generalize run.enter _ _ = inside at around ⊢
    obtain ⟨middle, kept, accessed⟩ := access_of_fixed ungated evaluates guard scope base
      fixed fuel (scope.refer expr.unwrap.span) inside
    have freeMiddle : middle.Spares id.name :=
      fun overrides listed => around overrides (kept ▸ listed)
    -- The base is no import of everything, so the member is read from its value.
    have ordinary : wholeImport? scope base.unwrap middle = some (none, middle) := by
      cases inner with
      | name formBase =>
        rw [formBase]
        refine wholeImport?_of_ordinary (override?_of_spares freeMiddle) fun source whole => ?_
        exact own source .whole (Option.some_inj.1 (bound.symm.trans whole))
      | member formBase =>
        rcases formBase with formBase | formBase <;> rw [formBase] <;> rfl
    obtain ⟨after, known⟩ := ends (fuel + 1) (by omega) middle freeMiddle
    have reduced : reduce setting (Evaluation.run setting guard (fuel + 1)) scope expr.unwrap
        (scope.refer expr.unwrap.span) inside =
          some (.unknown .unbound (scope.refer span), after) := by
      calc _ = access setting (Evaluation.run setting guard (fuel + 1)) scope base key
            (scope.refer expr.unwrap.span) inside := by
              rcases form with form | form <;> rw [form] <;> rfl
        _ = _ := accessed
        _ = _ := by
          rw [read_of_value ordinary, known]
          rfl
    rw [reduced]
    exact ⟨_, rfl⟩

end Reading

end Evaluation

/-- Nothing is known of a name that changes, nor of what is read from it under fixed keys, whatever
was evaluated before. The binding may be of any sort but an import. -/
theorem evaluate_reassigned (setting : Setting) (path : Path) (file : Document) (id : Id)
    (binding : Binding) (span : Span) (expr : Expr) (run : Run)
    (ungated : setting.policy.gate = none) (evaluates : setting.policy.flags.skipEvaluate = false)
    (found : setting.project.file? path = some file) (bound : file.scope.binding? id = some binding)
    (own : ∀ source imported, binding ≠ .imported source imported)
    (changes : file.scope.isReassigned id = true) (spares : setting.policy.Spares id.name)
    (free : run.Spares id.name) (reads : expr.ReadsFrom id span) :
    ((setting.evaluate path expr).run run).1 = .unknown .unbound (file.scope.refer span) := by
  obtain ⟨box, after, evaluated, _, ends⟩ := Setting.evaluate_of_found run found expr
  obtain ⟨enough, known⟩ := Evaluation.run_of_reassigned ungated evaluates setting.guard
    bound own changes spares reads
  obtain ⟨last, ended⟩ := known _ (Nat.le_max_left enough (setting.fuel expr)) run free
  rw [ends _ (Nat.le_max_right ..)] at ended
  rw [evaluated]
  exact (Prod.mk.inj (Option.some_inj.1 ended)).1

/-- `x.k = "b";` after an item that binds `x`. -/
def mutatingModule (item : Node) : Module :=
  ⟨[item,
    .group [.expr (.assign ⟨26, 35⟩ (.member (.ident ⟨26, 27⟩ ⟨"x", 2⟩) (.name "k"))
      (.literal ⟨32, 35⟩ (.string "b")))]]⟩

/-- `{ k: "a" }` -/
def keyedObject : Expr :=
  .object ⟨18, 28⟩ [.keyed ⟨20, 26⟩ (.name "k") (.literal ⟨23, 26⟩ (.string "a"))]

/-- A declared name is unknown after a member of it is assigned. -/
theorem evaluate_reassigned_member :
    let item : Node := .declarations [.mk (.ident ⟨"x", 2⟩) (some keyedObject)]
    let file := Document.make ⟨"/a.ts"⟩ "" (mutatingModule item)
    let setting : Setting := { project := Project.insert {} file }
    let binding : Binding := .variable ⟨some keyedObject, [], none⟩
    let access : Expr := .member ⟨52, 55⟩ (.ident ⟨52, 53⟩ ⟨"x", 2⟩) (.name "k")
    (setting.project.file? file.path = some file ∧
      file.scope.binding? ⟨"x", 2⟩ = some binding ∧
      file.scope.isReassigned ⟨"x", 2⟩ = true ∧ setting.policy.Spares "x" ∧
      Run.Spares {} "x" ∧ access.ReadsFrom ⟨"x", 2⟩ ⟨52, 53⟩) ∧
    ((setting.evaluate file.path access).run {}).1 =
      .unknown .unbound (file.scope.refer ⟨52, 53⟩) := by
  intro item file setting binding access
  have found : setting.project.file? file.path = some file := Project.file?_insert {} file
  have bound : file.scope.binding? ⟨"x", 2⟩ = some binding := by cbv
  have changes : file.scope.isReassigned ⟨"x", 2⟩ = true := by cbv
  have spares : setting.policy.Spares "x" := fun _ _ _ brought => by cases brought
  have free : Run.Spares {} "x" := fun _ listed => by cases listed
  have own : ∀ source imported, binding ≠ .imported source imported :=
    fun _ _ same => Binding.noConfusion same
  have reads : access.ReadsFrom ⟨"x", 2⟩ ⟨52, 53⟩ := .member (.inl rfl) rfl (.name rfl)
  exact ⟨⟨found, bound, changes, spares, free, reads⟩,
    evaluate_reassigned setting file.path file ⟨"x", 2⟩ binding ⟨52, 53⟩ access {} rfl rfl found bound
      own changes spares free reads⟩

/-- An imported name keeps the exported value, although a member of it is assigned. -/
theorem not_evaluate_reassigned_import :
    let item : Node := .importFrom "./t" false [.named ⟨"x", 2⟩ none]
    let exporting : Module :=
      ⟨[.exportDeclaration (.declarations [.mk (.ident ⟨"x", 2⟩) (some keyedObject)])]⟩
    let setting : Setting :=
      { project := (Project.insert {} (Document.make ⟨"/a.ts"⟩ "" (mutatingModule item))).insert
          (Document.make ⟨"/t.ts"⟩ "" exporting) }
    let path : Path := ⟨"/a.ts"⟩
    let scope := setting.project.scope path
    let access : Expr := .member ⟨52, 55⟩ (.ident ⟨52, 53⟩ ⟨"x", 2⟩) (.name "k")
    (scope.binding? ⟨"x", 2⟩).isSome ∧ scope.isReassigned ⟨"x", 2⟩ = true ∧
      access.ReadsFrom ⟨"x", 2⟩ ⟨52, 53⟩ ∧
      (((setting.evaluate path access).run {}).1 == .text "a" none) = true ∧
      (((setting.evaluate path access).run {}).1 == .unresolvable .unbound none) = false := by
  intro item exporting setting path scope access
  exact ⟨by decide +kernel, by decide +kernel, .member (.inl rfl) rfl (.name rfl),
    by decide +kernel, by decide +kernel⟩

end Glean
