import Glean.Proofs.Evaluation.Reachable
import Glean.Proofs.Scope.Destructuring
import Glean.Proofs.WholeImports

/-!
# Names that declarations bind by taking a value apart

A name that a declaration binds comes to the part that the pattern gives it, where every default is
taken as a whole by a name or not at all (`evaluate_destructured`). A default before a pattern with a
pattern inside is dropped, and a default for a value of which one alternative is undefined is left
out, because a scope records one path and one default for a name.
-/

namespace Glean

open Syntax Box

variable {setting : Setting}

namespace Evaluation

variable {start : Run} {scope : Scope} {id : Id} {init : Expr} {steps : List Step}
  {fallback : Option Expr} {node : Reference}

/-- A declared name comes to its part of the declared value, or to its default. -/
theorem comesFrom_declared {next : Task → Eval Box} {value : Expr → Box}
    (parts : ∀ expr ∈ Variable.sources ⟨some init, steps, fallback⟩,
      Eval.ComesFrom start (next (.expr scope expr)) (value expr)) (node : Reference) :
    Eval.ComesFrom start (declared next scope ⟨some init, steps, fallback⟩ node)
      (((value init).readAll node steps).chosen value fallback) := by
  refine .bind (parts init (by simp [Variable.sources])) ?_
  simp only [Variable.part_eq]
  cases fallback with
  | none => exact .pure _
  | some fallback =>
    have default := parts fallback (by simp [Variable.sources])
    cases (value init).readAll node steps with
    | literal part origin =>
      cases part with
      | undefined => exact default
      | _ => exact .pure _
    | _ => exact .pure _

/-- Under a policy that sees no nodes and leaves nothing out, a reference to a bound name comes to
what the task of the name comes to within the reference. -/
theorem comesFrom_reference {next : Task → Eval Box} {ref : Expr} {span : Span} {box : Box}
    (calm : setting.policy.isStackSensitive = false)
    (evaluates : setting.policy.flags.skipEvaluate = false) (named : (scope.binding? id).isSome)
    (form : ref.unwrap = .ident span id) (free : start.overrides = [])
    (task : Eval.ComesFrom (start.enter (scope.refer span) none)
      (next (.binding scope id (scope.refer span))) box) :
    Eval.ComesFrom start (expression setting next scope ref) box := by
  have ungated : ∀ gate, setting.policy.gate = some gate →
      gate (.ident span id) start.stack = true := by
    intro gate gated
    rw [Policy.gate_eq_none calm] at gated
    cases gated
  have brings := Run.Corresponds.overridesFor_eq_none calm (.ident span id) start.stack
  have freeInside : (start.enter (scope.refer span) none).overrides = [] := free
  unfold expression
  simp only [form, evaluates]
  refine .bind (.allowed ungated) (.inside ?_)
  rw [brings, reduce, name]
  refine Eval.ComesFrom.bind (.override? freeInside id.name) ?_
  simp only [named, if_true]
  exact task

/-- A reference to a declared name comes to what the name is given while it is worked out. -/
theorem boxFrom_reference (start : Run) {ref : Expr} {span : Span}
    (calm : setting.policy.isStackSensitive = false)
    (evaluates : setting.policy.flags.skipEvaluate = false)
    (within : (Task.expr scope ref).Within setting.project)
    (bound : scope.binding? id = some (.variable ⟨some init, steps, fallback⟩))
    (constant : scope.isReassigned id = false) (form : ref.unwrap = .ident span id)
    (unknown : start.known = []) (free : start.overrides = []) (idle : start.inProgress = []) :
    let value := setting.boxFrom { inProgress := [.binding scope.file.components id] } scope
    setting.boxFrom start scope ref =
      ((value init).readAll (scope.refer span) steps).chosen value fallback := by
  intro value
  let node := scope.refer span
  let goal := Goal.binding scope.file.components id
  let inside := (start.enter node none).begin goal
  have named : (scope.binding? id).isSome := by rw [bound]; rfl
  have asked : (Task.binding scope id node).goal? setting = some goal := by
    simp [Task.goal?, bound, constant, goal]
  have nested : setting.depth [] (.binding scope id node) < setting.depth [] (.expr scope ref) :=
    Setting.depth_lt_of_calls (.name named) rfl []
  -- fuel for the reference and for its name, and enough for what the name is given
  obtain ⟨fuel, depth⟩ := Nat.exists_eq_add_of_le' (Nat.succ_le_of_lt
    (Nat.lt_of_le_of_lt (setting.depth_pos [] (.binding scope id node)) nested))
  have parts : ∀ expr ∈ Variable.sources ⟨some init, steps, fallback⟩,
      Eval.ComesFrom inside
        (Evaluation.run setting (.remembering false) fuel (.expr scope expr)) (value expr) := by
    intro expr source
    have less : setting.depth [goal] (.expr scope expr) < setting.depth [] (.binding scope id node) :=
      Setting.depth_lt_of_calls_goal (.value bound (by simp [constant]) source) within asked
        List.not_mem_nil
    have goals : inside.inProgress = [goal] := congrArg (goal :: ·) idle
    have comes : Eval.ComesFrom inside
        (Evaluation.run setting (.remembering false) fuel (.expr scope expr))
        (setting.boxFrom inside scope expr) :=
      Setting.comesFrom_boxFrom unknown (fun _ => free) within (by rw [goals]; omega)
    have apart : setting.policy.isStackSensitive = true →
        inside.stack = ({ inProgress := [goal] } : Run).stack :=
      fun sensitive => absurd (calm.symm.trans sensitive) Bool.false_ne_true
    have same : setting.boxFrom inside scope expr = value expr :=
      Setting.boxFrom_congr inside { inProgress := [goal] } unknown rfl goals apart free
        (fun _ => free) within
    exact same ▸ comes
  have worked : Eval.ComesFrom (start.enter node none)
      (Evaluation.run setting (.remembering false) (fuel + 1) (.binding scope id node))
      (((value init).readAll node steps).chosen value fallback) := by
    rw [Evaluation.run, Evaluation.step, Evaluation.binding, bound]
    simp only [constant, Bool.false_eq_true, if_false]
    have fresh : goal ∉ (start.enter node none).inProgress := by simp [Run.enter, idle]
    exact .remembering fresh (comesFrom_declared parts node)
  refine Setting.boxFrom_eq unknown ?_
  rw [idle, depth]
  exact comesFrom_reference calm evaluates named form free worked

end Evaluation

namespace Setting

variable {scope : Scope} {id : Id} {init : Expr} {steps : List Step} {fallback : Option Expr}
  {node : Reference} {box : Box}

/-- Without a memory a declared name comes to its part of what the declared value comes to, or to
what its default comes to. -/
theorem ComesTo.declared (calm : setting.policy.isStackSensitive = false)
    (comes : setting.ComesTo (.binding scope id node) box)
    (bound : scope.binding? id = some (.variable ⟨some init, steps, fallback⟩))
    (constant : scope.isReassigned id = false) {value : Expr → Box}
    (values : ∀ expr other, setting.ComesTo (.expr scope expr) other →
      Alike .blind other (value expr)) :
    Alike .blind box (((value init).readAll node steps).chosen value fallback) := by
  obtain ⟨fuel, settled, ⟨after, ended⟩, alike⟩ := comes
  refine alike.symm.trans ?_
  cases fuel with
  | zero => cases ended
  | succ fuel =>
    simp only [Evaluation.run, Evaluation.step, Evaluation.binding, bound, constant, Guard.plain,
      Bool.false_eq_true, if_false, Evaluation.declared, Evaluation.initial] at ended
    obtain ⟨⟨whole, middle⟩, first, ended⟩ := Option.bind_eq_some_iff.1 ended
    have freeAfter : middle.overrides = [] :=
      (settles_of_plain calm (Nat.le_refl fuel) (.refl _) rfl first).1
    have parts : Alike .blind (whole.readAll node steps) ((value init).readAll node steps) :=
      (values init whole (comesTo_of_plain calm rfl first)).readAll rfl steps
    simp only [Variable.part_eq] at ended
    cases fallback with
    | none =>
      obtain ⟨rfl, _⟩ := Prod.mk.inj (Option.some_inj.1 ended)
      exact parts
    | some fallback =>
      generalize whole.readAll node steps = part at parts ended
      generalize (value init).readAll node steps = twin at parts ⊢
      cases parts.kindred with
      | literal primitive =>
        cases primitive with
        | undefined => exact values fallback settled (comesTo_of_plain calm freeAfter ended)
        | _ =>
          obtain ⟨rfl, _⟩ := Prod.mk.inj (Option.some_inj.1 ended)
          exact parts
      | _ =>
        obtain ⟨rfl, _⟩ := Prod.mk.inj (Option.some_inj.1 ended)
        exact parts

end Setting

/-- What is around an expression makes no difference to what it comes to. -/
theorem Setting.comesTo_unwrap {scope : Scope} {expr : Expr} {box : Box} :
    setting.ComesTo (.expr scope expr.unwrap) box ↔ setting.ComesTo (.expr scope expr) box := by
  simp only [Setting.ComesTo, Setting.Settles, Evaluation.run_unwrap]

/-- The binding that a declarator makes for a name that is declared once, where the pattern takes each
default as a whole. -/
theorem Document.exists_binding_of_gives {file : Document} {declarators : List Declarator}
    {pattern : Pattern} {init : Expr} {id : Id} {value : Expr → Box} {node : Reference}
    {box part : Box} (declares : .declarations declarators ∈ file.module.walk Finding.enters)
    (listed : .mk pattern (some init) ∈ declarators) (valued : init.isDefinition = false)
    (single : file.module.declared.count id ≤ 1)
    (gives : pattern.Gives value node Pattern.TakesWhole box id part) :
    ∃ steps fallback,
      file.scope.binding? id = some (.variable ⟨some init, steps, fallback⟩) ∧
        (box.readAll node steps).chosen value fallback = part := by
  obtain ⟨steps, fallback, found, same⟩ :=
    Finding.exists_binds_of_gives (some init) gives [] none rfl
  have made : .binds id (.variable ⟨some init, steps, fallback⟩) ∈ Finding.ofModule file.module := by
    refine Finding.mem_ofModule.2 ⟨_, declares, List.mem_flatMap.2 ⟨_, listed, ?_⟩⟩
    simpa [Finding.ofDeclarator, Declarator.init, Declarator.pattern, valued] using found
  refine ⟨steps, fallback, ?_, same⟩
  rw [file.scope_eq]
  exact Scope.binding?_of_single made single

/-- A name that a declaration binds by taking a value apart comes to the part that the pattern gives
it, if it is declared once and never changed, and every default on the way is taken as a whole by a
name or not at all. The value is that of the initializer while the name is being worked out; where no
cycle is met, the value that the initializer has by itself. -/
theorem evaluate_destructured (setting : Setting) (before : Run) (path : Path) (file : Document)
    (declarators : List Declarator) (pattern : Pattern) (init ref : Expr) (span : Span) (id : Id)
    (part : Box) (reachable : setting.Reachable before)
    (calm : setting.policy.isStackSensitive = false)
    (evaluates : setting.policy.flags.skipEvaluate = false)
    (found : setting.project.file? path = some file)
    (declares : .declarations declarators ∈ file.module.walk Finding.enters)
    (listed : .mk pattern (some init) ∈ declarators) (valued : init.isDefinition = false)
    (single : file.module.declared.count id ≤ 1) (constant : file.scope.isReassigned id = false)
    (form : ref.unwrap = .ident span id) :
    let node := file.scope.refer span
    let amid := setting.boxFrom { inProgress := [.binding file.scope.file.components id] } file.scope
    let alone := fun expr => ((setting.evaluate path expr).run {}).1
    let box := ((setting.evaluate path ref).run before).1
    (pattern.Gives amid node Pattern.TakesWhole (amid init) id part → (box == part) = true) ∧
      (setting.Acyclic path ref {} →
        pattern.Gives alone node Pattern.TakesWhole (alone init) id part → (box == part) = true) := by
  intro node amid alone box
  have held : (setting.project.file? path).isSome := by rw [found]; rfl
  have own : setting.project.scope path = file.scope := by rw [Project.scope, found]
  obtain ⟨place, strangers, same, _, alike, _⟩ := reachable.quiet.evaluate path ref
  rw [← Project.scope_congr held same.symm, own] at alike
  have within : (Task.expr file.scope ref).Within setting.project := ⟨path, own.symm⟩
  refine ⟨fun gives => ?_, fun acyclic gives => ?_⟩
  · obtain ⟨steps, fallback, bound, rfl⟩ :=
      Document.exists_binding_of_gives declares listed valued single gives
    rw [Evaluation.boxFrom_reference { stack := before.stack } calm evaluates within bound constant
      form rfl rfl rfl] at alike
    exact alike.symm.beq
  · obtain ⟨steps, fallback, bound, rfl⟩ :=
      Document.exists_binding_of_gives declares listed valued single gives
    have idle := setting.idle_start []
    -- Without a cycle the initializer comes to one box, whether or not the name is worked out.
    have comes : setting.ComesTo (.expr file.scope (.ident span id)) box := by
      rw [← form, ← own, Setting.comesTo_unwrap]
      exact (idle.comesTo_of_acyclic calm held acyclic).congr
        (Setting.Reachable.start.quiet.evaluate_alike reachable.quiet calm held ref)
    have named : (file.scope.binding? id).isSome := by rw [bound]; rfl
    have worked := ((Setting.follows_name calm evaluates named span).comesTo calm).1 comes
    refine (worked.declared calm bound constant fun expr other value => ?_).beq
    exact idle.evaluate_of_comesTo calm held (own ▸ value)

/-- `const { a: inner } = init;` -/
def nestedModule (inner : Pattern) (init : Expr) : Module :=
  ⟨[.declarations [.mk (.object [.keyed (.name "a") inner]) (some init)]]⟩

/-- A default of a name inside a nested pattern is taken. -/
theorem evaluate_destructured_nested :
    let fallback : Expr := .literal ⟨18, 21⟩ (.string "x")
    let inner : Pattern := .object [.shorthand ⟨"b", 2⟩ (some fallback)]
    let pattern : Pattern := .object [.keyed (.name "a") inner]
    let init : Expr := .object ⟨28, 37⟩ [.keyed ⟨30, 35⟩ (.name "a") (.object ⟨33, 35⟩ [])]
    let file := Document.make ⟨"/a.ts"⟩ "" (nestedModule inner init)
    let setting : Setting := { project := Project.insert {} file }
    let ref : Expr := .ident ⟨54, 55⟩ ⟨"b", 2⟩
    let node := file.scope.refer ⟨54, 55⟩
    let alone := fun expr => ((setting.evaluate file.path expr).run {}).1
    let part := (((alone init).read (.string "a") node).read (.string "b") node).orDefault
      (alone fallback)
    (.declarations [.mk pattern (some init)] ∈ file.module.walk Finding.enters ∧
      file.module.declared.count ⟨"b", 2⟩ ≤ 1 ∧ file.scope.isReassigned ⟨"b", 2⟩ = false ∧
      setting.Acyclic file.path ref {} ∧
      pattern.Gives alone node Pattern.TakesWhole (alone init) ⟨"b", 2⟩ part) ∧
    (((setting.evaluate file.path ref).run {}).1 == part) = true ∧
      (part == .text "x" none) = true := by
  intro fallback inner pattern init file setting ref node alone part
  have found : setting.project.file? file.path = some file := Project.file?_insert {} file
  have declares : .declarations [.mk pattern (some init)] ∈ file.module.walk Finding.enters := by
    refine List.mem_flatMap.2 ⟨_, List.mem_singleton.2 rfl, ?_⟩
    rw [Node.walk_eq]
    exact List.mem_cons_self ..
  have single : file.module.declared.count ⟨"b", 2⟩ ≤ 1 := by decide +kernel
  have constant : file.scope.isReassigned ⟨"b", 2⟩ = false := by decide +kernel
  have acyclic : setting.Acyclic file.path ref {} := by
    rw [Setting.Acyclic]
    decide +kernel
  have undefined : (((alone init).read (.string "a") node).read (.string "b") node).literal? =
      some .undefined := by decide +kernel
  have gives : pattern.Gives alone node Pattern.TakesWhole (alone init) ⟨"b", 2⟩ part :=
    .keyed (List.mem_singleton.2 rfl) rfl
      (.shorthandDefault (List.mem_singleton.2 rfl) (.inr ⟨⟨_, rfl⟩, undefined⟩))
  exact ⟨⟨declares, single, constant, acyclic, gives⟩,
    (evaluate_destructured setting {} file.path file [.mk pattern (some init)] pattern init ref ⟨54, 55⟩
      ⟨"b", 2⟩ part .start rfl rfl found declares (List.mem_singleton.2 rfl) rfl single constant
      rfl).2 acyclic gives, by decide +kernel⟩

/-- A default before a nested pattern is dropped. -/
theorem not_evaluate_destructured_default :
    let fallback : Expr :=
      .object ⟨20, 30⟩ [.keyed ⟨22, 28⟩ (.name "b") (.literal ⟨25, 28⟩ (.string "x"))]
    let inner : Pattern := .withDefault (.object [.shorthand ⟨"b", 2⟩ none]) fallback
    let pattern : Pattern := .object [.keyed (.name "a") inner]
    let init : Expr := .object ⟨35, 37⟩ []
    let file := Document.make ⟨"/a.ts"⟩ "" (nestedModule inner init)
    let setting : Setting := { project := Project.insert {} file }
    let ref : Expr := .ident ⟨54, 55⟩ ⟨"b", 2⟩
    let node := file.scope.refer ⟨54, 55⟩
    let alone := fun expr => ((setting.evaluate file.path expr).run {}).1
    let box := ((setting.evaluate file.path ref).run {}).1
    .declarations [.mk pattern (some init)] ∈ file.module.items ∧
      file.module.declared.count ⟨"b", 2⟩ = 1 ∧ file.scope.isReassigned ⟨"b", 2⟩ = false ∧
      setting.Acyclic file.path ref {} ∧
      ∃ part, pattern.Gives alone node (fun _ _ => True) (alone init) ⟨"b", 2⟩ part ∧
        (part == .text "x" none) = true ∧ (box == .missing) = true ∧ (box == part) = false := by
  intro fallback inner pattern init file setting ref node alone box
  have acyclic : setting.Acyclic file.path ref {} := by
    rw [Setting.Acyclic]
    decide +kernel
  refine ⟨List.mem_singleton.2 rfl, by decide +kernel, by decide +kernel, acyclic, _,
    .keyed (List.mem_singleton.2 rfl) rfl
      (.withDefault trivial (.shorthand (List.mem_singleton.2 rfl))), ?_⟩
  exact ⟨by decide +kernel, by decide +kernel, by decide +kernel⟩

end Glean
