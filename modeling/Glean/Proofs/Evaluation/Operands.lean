import Glean.Proofs.Evaluation.Termination

/-!
# Operands

An expression that flags and gate permit (`Setting.Permits`) is evaluated by its form. Its parts are
evaluated one after the other, the first from the state within its node (`Setting.entered`) and each
further one from the state that the one before leaves, and each comes to what it comes to when it is
evaluated there alone (`run_at`). So the box of an operator is put together from the boxes of its
operands (`evaluate_binary`, `evaluate_logical`).
-/

namespace Glean

open Syntax Box

/-- The state after the gate is asked about an expression. -/
def Run.asked (run : Run) (policy : Policy) (expr : Expr) : Run :=
  match policy.gate with
  | none => run
  | some gate => { run with events := .gate expr run.stack (gate expr run.stack) :: run.events }

/-- Asking the gate leaves the nodes around as they are. -/
@[simp]
theorem Run.asked_stack (run : Run) (policy : Policy) (expr : Expr) :
    (run.asked policy expr).stack = run.stack := by
  unfold Run.asked
  split <;> rfl

/-- Asking the gate leaves the overrides in force as they are. -/
@[simp]
theorem Run.asked_overrides (run : Run) (policy : Policy) (expr : Expr) :
    (run.asked policy expr).overrides = run.overrides := by
  unfold Run.asked
  split <;> rfl

/-- Asking the gate leaves the strangers as they are. -/
@[simp]
theorem Run.asked_strangers (run : Run) (policy : Policy) (expr : Expr) :
    (run.asked policy expr).strangers = run.strangers := by
  unfold Run.asked
  split <;> rfl

/-- What a logical operator gives for both operands, where a condition decides between them if
nothing else does. -/
def Box.logical (operator : Logical) (condition node : Reference) (left right : Box) : Box :=
  match Evaluation.shortCircuits? operator left with
  | some true => left
  | some false => right
  | none =>
    match operator with
    | .and => .conditional right .missing (some condition) (some node)
    | .or | .coalesce => .conditional left right (some condition) (some node)

namespace Setting

variable (setting : Setting) (path : Path) (expr : Expr) (run : Run)

/-- Flags and gate let an expression be evaluated. -/
def Permits : Prop :=
  setting.policy.flags.skipEvaluate = false ∧
    ∀ gate, setting.policy.gate = some gate → gate expr.unwrap run.stack = true

/-- The reference to an expression that is evaluated at a path. -/
def refer (span : Span) : Reference := ((setting.scopeAt path).run run).1.refer span

/-- The state in which the first part of an expression is evaluated. -/
def entered : Run :=
  let started := ((setting.scopeAt path).run run).2
  (started.asked setting.policy expr.unwrap).enter (setting.refer path run expr.unwrap.span)
    (setting.policy.overridesFor expr.unwrap started.stack)

end Setting

namespace Evaluation

variable {setting : Setting} {expr : Expr} {run : Run}

/-- An expression is allowed when the gate, if there is one, accepts it. -/
theorem allowed_eq (policy : Policy) (expr : Expr) (run : Run) :
    ∃ answer, Eval.allowed policy expr run = some (answer, run.asked policy expr) ∧
      (answer = true ↔ ∀ gate, policy.gate = some gate → gate expr run.stack = true) := by
  rw [Eval.allowed_apply, Run.asked]
  cases policy.gate with
  | none => exact ⟨true, rfl, by simp⟩
  | some gate => exact ⟨gate expr run.stack, rfl, by simp⟩

/-- A permitted expression is evaluated by its form, within its node. -/
theorem expression_of_permitted (next : Task → Eval Box) (scope : Scope)
    (permitted : setting.Permits expr run) :
    let node := scope.refer expr.unwrap.span
    let overrides := setting.policy.overridesFor expr.unwrap run.stack
    expression setting next scope expr run =
      (reduce setting next scope expr.unwrap node
        ((run.asked setting.policy expr.unwrap).enter node overrides)).map
          fun (box, after) => (box, after.leave overrides) := by
  intro node overrides
  obtain ⟨evaluates, admits⟩ := permitted
  obtain ⟨answer, asked, positive⟩ := allowed_eq setting.policy expr.unwrap run
  obtain rfl := positive.2 admits
  calc expression setting next scope expr run
    _ = Eval.inside setting.policy expr.unwrap node
          (reduce setting next scope expr.unwrap node) (run.asked setting.policy expr.unwrap) := by
        simp only [expression, evaluates, Bool.false_eq_true, if_false, Eval.bind_apply, asked,
          Option.bind_some, if_true]
        rfl
    _ = _ := by rw [Eval.inside_apply, Run.asked_stack]

/-- Of an expression that is not permitted nothing is known. -/
theorem expression_of_not_permitted (next : Task → Eval Box) (scope : Scope)
    (refused : ¬ setting.Permits expr run) :
    let reason := if setting.policy.flags.skipEvaluate then .notEvaluated else .denied
    ∃ after, expression setting next scope expr run =
      some (.unknown reason (scope.refer expr.unwrap.span), after) := by
  cases skips : setting.policy.flags.skipEvaluate with
  | true =>
    refine ⟨run, ?_⟩
    simp only [expression, skips, if_true, Eval.pure_apply]
  | false =>
    obtain ⟨answer, asked, positive⟩ := allowed_eq setting.policy expr.unwrap run
    obtain rfl : answer = false :=
      Bool.eq_false_iff.2 fun given => refused ⟨skips, positive.1 given⟩
    refine ⟨run.asked setting.policy expr.unwrap, ?_⟩
    simp only [expression, skips, Bool.false_eq_true, if_false, Eval.bind_apply, asked,
      Option.bind_some, Eval.pure_apply]

end Evaluation

namespace Setting

variable {setting : Setting} {path : Path} {expr : Expr} {run : Run}

/-- The scope of a path stays what it is. -/
theorem scopeAt_again {here : Run}
    (same : here.strangers = ((setting.scopeAt path).run run).2.strangers) :
    (setting.scopeAt path).run here = (((setting.scopeAt path).run run).1, here) := by
  rw [scopeAt_eq] at same ⊢
  rw [scopeAt_eq]
  cases found : setting.project.file? path with
  | some file => rfl
  | none =>
    rw [found] at same
    cases known : run.strangers.find? (· == path) with
    | some stranger =>
      rw [known] at same
      rw [show here.strangers = run.strangers from same, known]
    | none =>
      rw [known] at same
      have first : (path :: run.strangers).find? (· == path) = some path :=
        List.find?_cons_of_pos (Path.beq_iff.2 rfl)
      rw [show here.strangers = path :: run.strangers from same, first]

/-- Once the scope of a path is found, expressions at the path are evaluated in it. -/
theorem run_at {here : Run} {part : Expr} {fuel : Nat}
    (same : here.strangers = ((setting.scopeAt path).run run).2.strangers)
    (enough : setting.fuel part ≤ fuel) :
    Evaluation.run setting setting.guard fuel (.expr ((setting.scopeAt path).run run).1 part) here =
        some ((setting.evaluate path part).run here) ∧
      here.Returns ((setting.evaluate path part).run here).2 := by
  obtain ⟨place, strangers, box, after, _, located, evaluated, returns, ends⟩ :=
    setting.evaluate_spec path here part
  obtain ⟨scope, state⟩ := Prod.mk.inj ((scopeAt_again same).symm.trans located)
  rw [evaluated, scope]
  rw [← state] at returns ends
  exact ⟨ends fuel enough, returns⟩

/-- An expression that is not permitted comes to a box of which nothing is known. -/
theorem evaluate_of_not_permitted (path : Path) (refused : ¬ setting.Permits expr run) :
    ((setting.evaluate path expr).run run).1 =
      .unknown (if setting.policy.flags.skipEvaluate then .notEvaluated else .denied)
        (setting.refer path run expr.unwrap.span) := by
  obtain ⟨place, strangers, box, after, _, located, evaluated, _, ends⟩ :=
    setting.evaluate_spec path run expr
  have refusedHere : ¬ setting.Permits expr { run with strangers } := refused
  obtain ⟨last, excluded⟩ := Evaluation.expression_of_not_permitted
    (Evaluation.run setting setting.guard (setting.fuel expr)) (setting.project.scope place)
    refusedHere
  have ended := ends (setting.fuel expr + 1) (Nat.le_succ _)
  obtain ⟨rfl, _⟩ := Prod.mk.inj (Option.some_inj.1 (ended.symm.trans excluded))
  rw [evaluated, refer, located]

/-- Where nothing is evaluated, that is all that is known of an expression. -/
theorem evaluate_of_skips (skips : setting.policy.flags.skipEvaluate = true) (path : Path)
    (expr : Expr) (run : Run) :
    ((setting.evaluate path expr).run run).1 =
      .unknown .notEvaluated (setting.refer path run expr.unwrap.span) := by
  have refused : ¬ setting.Permits expr run := fun permitted =>
    Bool.false_ne_true (permitted.1.symm.trans skips)
  rw [evaluate_of_not_permitted path refused, if_pos skips]

/-- The box of a permitted expression is what its form comes to within its node. -/
theorem evaluate_of_reduced (permitted : setting.Permits expr run) {fuel : Nat}
    (enough : setting.fuel expr ≤ fuel) {box : Box}
    (reduced : (Evaluation.reduce setting (Evaluation.run setting setting.guard fuel)
      ((setting.scopeAt path).run run).1 expr.unwrap (setting.refer path run expr.unwrap.span)
      (setting.entered path expr run)).map Prod.fst = some box) :
    ((setting.evaluate path expr).run run).1 = box := by
  obtain ⟨place, strangers, value, final, _, located, evaluated, _, ends⟩ :=
    setting.evaluate_spec path run expr
  rw [entered, refer, located] at reduced
  obtain ⟨⟨result, after⟩, comes, same⟩ := Option.map_eq_some_iff.1 reduced
  obtain rfl : result = box := same
  have permittedHere : setting.Permits expr { run with strangers } := permitted
  have entering := Evaluation.expression_of_permitted (Evaluation.run setting setting.guard fuel)
    (setting.project.scope place) permittedHere
  dsimp only at entering comes
  rw [comes] at entering
  have ended := ends (fuel + 1) (Nat.le_succ_of_le enough)
  rw [evaluated]
  exact (Prod.mk.inj (Option.some_inj.1 (ended.symm.trans entering))).1

section Operators

variable {span : Span} {left right : Expr}

/-- Fuel for an expression and two parts of it. -/
def fuelFor (setting : Setting) (expr left right : Expr) : Nat :=
  setting.fuel expr + (setting.fuel left + setting.fuel right)

/-- Operands that are evaluated one after the other come to what they come to alone. -/
theorem run_operands (setting : Setting) (path : Path) (expr left right : Expr) (run : Run) :
    let next := Evaluation.run setting setting.guard (setting.fuelFor expr left right)
    let scope := ((setting.scopeAt path).run run).1
    let first := (setting.evaluate path left).run (setting.entered path expr run)
    next (.expr scope left) (setting.entered path expr run) = some first ∧
      next (.expr scope right) first.2 = some ((setting.evaluate path right).run first.2) := by
  have here : (setting.entered path expr run).strangers =
      ((setting.scopeAt path).run run).2.strangers := Run.asked_strangers ..
  obtain ⟨ended, returns⟩ := run_at here
    (show setting.fuel left ≤ setting.fuelFor expr left right by unfold fuelFor; omega)
  exact ⟨ended, (run_at (returns.strangers.trans here) (by unfold fuelFor; omega)).1⟩

/-- Both operands of a binary operator are evaluated. -/
theorem evaluate_binary {operator : Binary} (form : expr.unwrap = .binary span operator left right)
    (permitted : setting.Permits expr run) :
    let first := (setting.evaluate path left).run (setting.entered path expr run)
    let second := (setting.evaluate path right).run first.2
    ((setting.evaluate path expr).run run).1 =
      Box.binary operator (setting.refer path run span) first.1 second.1 := by
  intro first second
  obtain ⟨leftEnds, rightEnds⟩ := run_operands setting path expr left right run
  refine evaluate_of_reduced permitted
    (show setting.fuel expr ≤ setting.fuelFor expr left right from Nat.le_add_right ..) ?_
  rw [form]
  simp only [Evaluation.reduce, Eval.bind_apply, leftEnds, Option.bind_some, rightEnds,
    Eval.pure_apply]
  rfl

/-- Where no conditions are skipped, the box of a logical operator is put together from those of
both operands. -/
theorem evaluate_logical {operator : Logical}
    (form : expr.unwrap = .logical span operator left right) (permitted : setting.Permits expr run)
    (both : setting.policy.flags.skipConditions = false) :
    let first := (setting.evaluate path left).run (setting.entered path expr run)
    let second := (setting.evaluate path right).run first.2
    ((setting.evaluate path expr).run run).1 =
      Box.logical operator (setting.refer path run left.span) (setting.refer path run span)
        first.1 second.1 := by
  intro first second
  obtain ⟨leftEnds, rightEnds⟩ := run_operands setting path expr left right run
  refine evaluate_of_reduced permitted
    (show setting.fuel expr ≤ setting.fuelFor expr left right from Nat.le_add_right ..) ?_
  rw [form]
  simp only [Evaluation.reduce, Evaluation.logical, Eval.bind_apply, leftEnds, Option.bind_some]
  cases decided : Evaluation.shortCircuits? operator first.1 with
  | none =>
    simp only [Box.logical, decided, both, Bool.false_eq_true, if_false, Eval.bind_apply, rightEnds,
      Option.bind_some]
    cases operator <;> rfl
  | some kept =>
    -- The right operand is left alone where the left one is the result.
    cases kept with
    | true =>
      simp only [Box.logical, decided]
      rfl
    | false =>
      simp only [Box.logical, decided, rightEnds]
      rfl

end Operators

section Files

/-- Evaluates the expressions of a file as if each stood alone. -/
def alone (setting : Setting) (file : Document) : Task → Eval Box
  | .expr _ expr => fun run => some ((setting.evaluate file.path expr).run run)
  | _ => failure

variable {file : Document} {part : Expr}

/-- A smaller expression needs no more fuel. -/
theorem fuel_mono (setting : Setting) (smaller : part.size ≤ expr.size) :
    setting.fuel part ≤ setting.fuel expr := by
  have sizes : (Node.expr part).all.length ≤ (Node.expr expr).all.length := smaller
  refine Nat.mul_le_mul_left _ ?_
  omega

/-- With enough fuel, an expression of the file comes to what it comes to alone. -/
theorem run_eq_alone (found : setting.project.file? file.path = some file) {fuel : Nat}
    (enough : setting.fuel part ≤ fuel) :
    Evaluation.run setting setting.guard fuel (.expr file.scope part) =
      setting.alone file (.expr file.scope part) := by
  funext run
  obtain ⟨box, after, evaluated, _, ends⟩ := evaluate_of_found run found part
  rw [ends fuel enough]
  exact congrArg some evaluated.symm

/-- So does each smaller expression in the course of an expression of the file. -/
theorem run_eq_alone_of_lt (found : setting.project.file? file.path = some file)
    (smaller : part.size < expr.unwrap.size) :
    Evaluation.run setting setting.guard (setting.fuel expr) (.expr file.scope part) =
      setting.alone file (.expr file.scope part) := by
  have inside : part.size < expr.size := Nat.lt_of_lt_of_le smaller (Expr.size_unwrap_le expr)
  exact run_eq_alone found (setting.fuel_mono (Nat.le_of_lt inside))

/-- Where a test does not decide and no conditions are skipped, a conditional expression comes to a
conditional box of what the test leads to. -/
theorem evaluate_conditional (found : setting.project.file? file.path = some file) {span : Span}
    {test whenTrue whenFalse : Expr} (form : expr.unwrap = .conditional span test whenTrue whenFalse)
    (permitted : setting.Permits expr run) (both : setting.policy.flags.skipConditions = false) :
    let tested := (setting.evaluate file.path test).run (setting.entered file.path expr run)
    let yes := (setting.evaluate file.path whenTrue).run tested.2
    let no := (setting.evaluate file.path whenFalse).run yes.2
    tested.1.truthy? = none → ((setting.evaluate file.path expr).run run).1 =
      .conditional yes.1 no.1 (some (file.scope.refer test.span)) (some (file.scope.refer span)) := by
  intro tested yes no undecided
  have alone : ∀ part, .expr part ∈ expr.unwrap.parts →
      ∀ here, Evaluation.run setting setting.guard (setting.fuel expr) (.expr file.scope part) here =
        some ((setting.evaluate file.path part).run here) := fun part inside =>
    congrFun (run_eq_alone_of_lt found (Expr.size_lt_of_mem_parts inside))
  rw [form] at alone
  have testEnds := alone test (by simp [Expr.parts])
  have yesEnds := alone whenTrue (by simp [Expr.parts])
  have noEnds := alone whenFalse (by simp [Expr.parts])
  refine evaluate_of_reduced permitted (Nat.le_refl _) ?_
  rw [refer, scopeAt_of_found run found, form]
  have first : setting.evaluate file.path test (setting.entered file.path expr run) = tested := rfl
  simp only [Evaluation.reduce, Evaluation.conditional, Eval.bind_apply, testEnds, Option.bind_some,
    StateT.run, first, undecided, both, Bool.false_eq_true, if_false, yesEnds, noEnds,
    Eval.pure_apply, Option.map_some, Expr.span]
  rfl

end Files

end Setting

end Glean
