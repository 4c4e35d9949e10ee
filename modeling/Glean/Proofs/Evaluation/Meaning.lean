import Glean.Proofs.Box.Inlining
import Glean.Proofs.Evaluation.Search
import Glean.Proofs.Evaluation.Transparency

/-!
# What an expression means

Under a policy that does not see the nodes around an expression, its box is the same from every
state in which nothing is under way, apart from nodes. `Setting.meaning` is that box, worked out
with nothing known, and every evaluation from a ready state comes to it (`Ready.evaluate`). While
nothing is known a computation comes to its value from all these states (`Eval.Comes`), so the
meaning of an expression is put together from the meanings of its parts (`meaning_members`).
-/

namespace Glean

open Syntax Box

/-- While nothing is known, under way or in force, the computation ends with the value. -/
def Eval.Comes {α : Type} (computation : Eval α) (value : α) : Prop :=
  ∀ run : Run, run.known = [] → run.inProgress = [] → run.overrides = [] →
    ∃ after, computation run = some (value, after) ∧ run.Resumes after

namespace Eval.Comes

variable {α β : Type}

/-- A value alone comes to itself. -/
theorem pure (value : α) : Comes (Pure.pure value) value := fun run _ _ _ => ⟨run, rfl, .refl run⟩

/-- What comes to a value hands it to the next computation. -/
theorem bind {computation : Eval α} {next : α → Eval β} {value : α} {result : β}
    (first : Comes computation value) (rest : Comes (next value) result) :
    Comes (computation >>= next) result := by
  intro run known inProgress overrides
  obtain ⟨middle, started, ⟨returns, kept⟩⟩ := first run known inProgress overrides
  obtain ⟨after, ended, resumes⟩ := rest middle (kept.trans known)
    (returns.inProgress.trans inProgress) (returns.overrides.trans overrides)
  exact ⟨after, by rw [bind_apply, started]; exact ended, .trans ⟨returns, kept⟩ resumes⟩

/-- A computation comes to the same box inside a node, under a policy that does not look at nodes.
-/
theorem inside {policy : Policy} {computation : Eval Box} {box : Box}
    (calm : policy.isStackSensitive = false) (comes : Comes computation box) (expr : Expr)
    (node : Reference) : Comes (Eval.inside policy expr node computation) box := by
  intro run known inProgress overrides
  obtain ⟨after, ended, returns, kept⟩ := comes (run.enter node none) known inProgress overrides
  refine ⟨after.leave none, ?_, returns.leave, kept⟩
  rw [inside_apply, Run.Corresponds.overridesFor_eq_none calm, ended]
  rfl

/-- Without a gate every expression may be evaluated. -/
theorem allowed {policy : Policy} (calm : policy.isStackSensitive = false) (expr : Expr) :
    Comes (Eval.allowed policy expr) true := by
  intro run _ _ _
  have ungated : policy.gate = none := Policy.gate_eq_none calm
  exact ⟨run, by rw [allowed_apply, ungated], .refl run⟩

end Eval.Comes

/-- A member whose key is a text, or a spread member. -/
def Syntax.Member.Plain : Member → Prop
  | .keyed _ (.string _) _ | .spread .. => True
  | _ => False

namespace Setting

variable {setting : Setting} {scope : Scope}

/-- The box of an expression, with nothing known before and nothing kept. -/
def meaning (setting : Setting) (scope : Scope) (expr : Expr) : Box :=
  let task := Task.expr scope expr
  ((Evaluation.run setting (.remembering false) (setting.depth [] task) task {}).map Prod.fst).getD
    (.unknown .cycle (scope.refer expr.span))

/-- With enough fuel a run from the first state ends with the meaning of the expression. -/
theorem meaning_spec {expr : Expr} (within : (Task.expr scope expr).Within setting.project) :
    ∃ after, ∀ fuel, setting.depth [] (.expr scope expr) ≤ fuel →
      Evaluation.run setting (.remembering false) fuel (.expr scope expr) {} =
        some (setting.meaning scope expr, after) := by
  obtain ⟨box, after, _, ends⟩ := Evaluation.run_ends false within {}
  have same : setting.meaning scope expr = box := by
    rw [meaning, ends _ (Nat.le_refl _)]
    rfl
  exact ⟨after, same ▸ ends⟩

/-- What is around an expression does not change what it means. -/
theorem meaning_unwrap {expr : Expr} (within : (Task.expr scope expr).Within setting.project) :
    setting.meaning scope expr = setting.meaning scope expr.unwrap := by
  obtain ⟨_, ends⟩ := meaning_spec within
  obtain ⟨_, endsUnwrapped⟩ :=
    meaning_spec (show (Task.expr scope expr.unwrap).Within setting.project from within)
  let fuel := setting.depth [] (.expr scope expr) + setting.depth [] (.expr scope expr.unwrap)
  have ended := ends fuel (Nat.le_add_right ..)
  have endedUnwrapped := endsUnwrapped fuel (Nat.le_add_left ..)
  rw [Evaluation.run_unwrap, ended] at endedUnwrapped
  exact (Prod.mk.inj (Option.some_inj.1 endedUnwrapped)).1

section Calm

variable (calm : setting.policy.isStackSensitive = false)

include calm

/-- While nothing is known, an expression comes to its meaning. -/
theorem comes_meaning {expr : Expr} {fuel : Nat}
    (within : (Task.expr scope expr).Within setting.project)
    (enough : setting.depth [] (.expr scope expr) ≤ fuel) :
    Eval.Comes (Evaluation.run setting (.remembering false) fuel (.expr scope expr))
      (setting.meaning scope expr) := by
  intro run known inProgress overrides
  obtain ⟨after, ends⟩ := meaning_spec within
  have corresponds : Run.Corresponds setting.policy Evaluation.Forgetful {} run :=
    .of_calm calm rfl overrides ⟨inProgress.symm, rfl, known⟩
  obtain ⟨box, final, ended, _, alike⟩ :=
    (Evaluation.uncached_of_uncached (.refl _)).elim corresponds (ends fuel enough)
  obtain rfl := alike_full.1 alike
  exact ⟨final, ended, Evaluation.resumes ended⟩

/-- From a ready state an evaluation comes to the meaning of the expression, and it leaves one. -/
theorem Ready.evaluate {run : Run} (ready : setting.Ready run) {path : Path}
    (found : (setting.project.file? path).isSome) (expr : Expr) :
    Alike .blind (setting.meaning (setting.project.scope path) expr)
        ((setting.evaluate path expr).run run).1 ∧
      setting.Ready ((setting.evaluate path expr).run run).2 := by
  obtain ⟨place, strangers, value, final, same, _, evaluated, returns, ends⟩ :=
    setting.evaluate_spec path run expr
  rw [(Project.scope_congr found same.symm).symm] at ends
  have within : (Task.expr (setting.project.scope path) expr).Within setting.project := ⟨path, rfl⟩
  obtain ⟨after, uncached⟩ := meaning_spec within
  have enough := setting.depth_le_fuel (setting.project.scope path) expr []
  have started : setting.Ready { run with strangers } :=
    ⟨ready.inProgress, ready.overrides, ready.sound⟩
  obtain ⟨alike, sound⟩ :=
    started.run calm within (uncached _ enough) (ends _ (Nat.le_refl _))
  rw [evaluated]
  exact ⟨alike, returns.inProgress.trans ready.inProgress, returns.overrides.trans ready.overrides,
    sound⟩

end Calm

/-- What the key of a member means: its text, and the box that is stored there in place of the
member's value when it has no static value. -/
def keyOf (setting : Setting) (scope : Scope) : Key → String × Option Box
  | .name text | .string text => (text, none)
  | .number value => (Number.text value, none)
  | .bigint digits => (digits, none)
  | .hidden name => (name, none)
  | .computed span value =>
    match setting.meaning scope value with
    | .literal value _ => (value.toText, none)
    | .unresolvable reason origin =>
      (setting.sourceOfKey scope span, some (.unresolvable reason origin))
    | _ => (setting.sourceOfKey scope span, some (.unknown .unsupported (scope.refer span)))

/-- What a member of an object expression adds to the members before it: a value that is spread,
with the key for it when nothing is known about it. A member that is no spread is one of an object
with nothing else. -/
def addition (setting : Setting) (scope : Scope) : Member → String × Box
  | .spread span value => (setting.sourceOfSpread scope span, setting.meaning scope value)
  | .shorthand span id => ("", .map [(id.name, setting.meaning scope (.ident span id))] none)
  | .keyed _ key value =>
    let known := setting.keyOf scope key
    ("", .map [(known.1, known.2.getD (setting.meaning scope value))] none)
  | .accessor span _ key _ =>
    ("", .map [((setting.keyOf scope key).1, .unknown .unsupported (scope.refer span))] none)
  | .defaulted .. => ("", .map [] none)

section Members

variable {next : Task → Eval Box} {node : Reference} {entries : Entries String Box}

/-- A key comes to its text, and to its value where the key is doubtful, when its parts come to
their meanings. -/
theorem comes_keyText {key : Key}
    (parts : ∀ part, .expr part ∈ key.parts →
      Eval.Comes (next (.expr scope part)) (setting.meaning scope part)) :
    Eval.Comes (Evaluation.keyText setting next scope key) (setting.keyOf scope key) := by
  cases key with
  | computed span value =>
    refine .bind (parts value (List.mem_singleton.2 rfl)) ?_
    simp only [keyOf]
    cases setting.meaning scope value <;> exact .pure _
  | _ => exact .pure _

/-- A member adds what it means. -/
theorem comes_member {member : Member}
    (parts : ∀ part, .expr part ∈ member.parts →
      Eval.Comes (next (.expr scope part)) (setting.meaning scope part))
    (named : ∀ span id, member = .shorthand span id →
      Eval.Comes (next (.expr scope (.ident span id))) (setting.meaning scope (.ident span id))) :
    Eval.Comes (Evaluation.member setting next scope node entries member)
      (spreadAll node entries [setting.addition scope member]) := by
  cases member with
  | spread span value => exact .bind (parts value (List.mem_singleton.2 rfl)) (.pure _)
  | shorthand span id => exact .bind (named span id rfl) (.pure _)
  | keyed span key value =>
    have text : Eval.Comes (Evaluation.keyText setting next scope key) (setting.keyOf scope key) :=
      comes_keyText fun part inside => parts part (by simp [Member.parts, inside])
    have inside := parts value (by simp [Member.parts])
    simp only [addition]
    generalize setting.keyOf scope key = known at text
    refine .bind text ?_
    obtain ⟨name, _ | unknown⟩ := known
    · exact .bind inside (.pure _)
    · exact .pure _
  | accessor span kind key body =>
    have text : Eval.Comes (Evaluation.keyText setting next scope key) (setting.keyOf scope key) :=
      comes_keyText fun part inside => parts part (by simp [Member.parts, inside])
    exact .bind text (.pure _)
  | defaulted => exact .pure _

/-- The members of an object come to the spread of what each of them adds. -/
theorem comes_members {list : List Member}
    (parts : ∀ member ∈ list, ∀ part, .expr part ∈ member.parts →
      Eval.Comes (next (.expr scope part)) (setting.meaning scope part))
    (named : ∀ span id, .shorthand span id ∈ list →
      Eval.Comes (next (.expr scope (.ident span id))) (setting.meaning scope (.ident span id))) :
    Eval.Comes (Evaluation.members setting next scope node entries list)
      (spreadAll node entries (list.map (setting.addition scope))) := by
  induction list generalizing entries with
  | nil => exact .pure _
  | cons first rest ih =>
    have added : Eval.Comes (Evaluation.member setting next scope node entries first)
        (spreadAll node entries [setting.addition scope first]) :=
      comes_member (parts first (List.mem_cons_self ..))
        fun span id same => named span id (same ▸ List.mem_cons_self ..)
    exact .bind added (ih (fun member listed => parts member (List.mem_cons_of_mem _ listed))
      fun span id listed => named span id (List.mem_cons_of_mem _ listed))

end Members

/-- Without parentheses and types around it, an expression means what it is reduced to when its parts
come to what they mean. -/
theorem meaning_of_reduce (calm : setting.policy.isStackSensitive = false)
    (evaluates : setting.policy.flags.skipEvaluate = false) {expr : Expr} {box : Box}
    (within : (Task.expr scope expr).Within setting.project) (bare : expr.unwrap = expr)
    (reduces : ∀ next : Task → Eval Box, (∀ part : Expr, part.size < expr.size →
        Eval.Comes (next (.expr scope part)) (setting.meaning scope part)) →
      Eval.Comes (Evaluation.reduce setting next scope expr (scope.refer expr.span)) box) :
    setting.meaning scope expr = box := by
  obtain ⟨after, ends⟩ := meaning_spec within
  obtain ⟨fuel, depth⟩ : ∃ fuel, setting.depth [] (.expr scope expr) = fuel + 1 :=
    Nat.exists_eq_add_one.2 (setting.depth_pos ..)
  have parts : ∀ part : Expr, part.size < expr.size →
      Eval.Comes (Evaluation.run setting (.remembering false) fuel (.expr scope part))
        (setting.meaning scope part) := by
    intro part size
    have less : setting.depth [] (.expr scope part) < setting.depth [] (.expr scope expr) :=
      Setting.depth_lt_of_calls (.inner size) rfl []
    exact comes_meaning calm within (by omega)
  have comes : Eval.Comes (Evaluation.expression setting
      (Evaluation.run setting (.remembering false) fuel) scope expr) box := by
    unfold Evaluation.expression
    simp only [bare, evaluates]
    exact .bind (.allowed calm _) (.inside calm (reduces _ parts) expr (scope.refer expr.span))
  obtain ⟨final, ended, _⟩ := comes {} rfl rfl rfl
  have same := (ends _ (Nat.le_of_eq depth)).symm.trans ended
  exact (Prod.mk.inj (Option.some_inj.1 same)).1

/-- An object expression means the object of what its members mean. -/
theorem meaning_members (calm : setting.policy.isStackSensitive = false)
    (evaluates : setting.policy.flags.skipEvaluate = false) (path : Path) (span : Span)
    (list : List Member) :
    let scope := setting.project.scope path
    let node := scope.refer span
    setting.meaning scope (.object span list) =
      .map (spreadAll node [] (list.map (setting.addition scope))) (some node) :=
  meaning_of_reduce calm evaluates ⟨path, rfl⟩ rfl fun _ parts =>
    .bind (comes_members
      (fun _ listed part inside => parts part (Expr.size_member_lt listed inside))
      fun _ _ listed => parts _ (Expr.size_shorthand_lt listed)) (.pure _)

/-- The entries of an object expression after a member with a known key or a spread member. -/
def put (setting : Setting) (scope : Scope) (node : Reference) (entries : Entries String Box) :
    Member → Entries String Box
  | .keyed _ (.string name) value => Entries.insert entries name (setting.meaning scope value)
  | .spread span value =>
    (setting.meaning scope value).spread (setting.sourceOfSpread scope span) node entries
  | _ => entries

/-- Plain members are put in one after the other. -/
theorem spreadAll_addition_of_plain (node : Reference) (entries : Entries String Box)
    {list : List Member} (plain : ∀ member ∈ list, member.Plain) :
    spreadAll node entries (list.map (setting.addition scope)) =
      list.foldl (setting.put scope node) entries := by
  induction list generalizing entries with
  | nil => rfl
  | cons first rest ih =>
    obtain ⟨here, later⟩ := List.forall_mem_cons.1 plain
    have same : spreadAll node entries [setting.addition scope first] =
        setting.put scope node entries first := by
      cases first with
      | spread => rfl
      | keyed span key value =>
        cases key with
        | string => rfl
        | _ => exact here.elim
      | _ => exact here.elim
    rw [List.map_cons, List.foldl_cons, ← same]
    exact ih _ later

/-- An object expression whose members are plain means the object of what they put. -/
theorem meaning_object (calm : setting.policy.isStackSensitive = false)
    (evaluates : setting.policy.flags.skipEvaluate = false) (path : Path) (span : Span)
    {list : List Member} (plain : ∀ member ∈ list, member.Plain) :
    let scope := setting.project.scope path
    let node := scope.refer span
    setting.meaning scope (.object span list) =
      .map (list.foldl (setting.put scope node) []) (some node) := by
  intro scope node
  rw [meaning_members calm evaluates path span list, spreadAll_addition_of_plain _ _ plain]

/-- The items that an element of an array expression means; a hole is undefined. -/
def itemsOf (setting : Setting) (scope : Scope) (node : Reference) : Option Argument → List Box
  | none => [.undefinedAt node]
  | some (.single value) => [setting.meaning scope value]
  | some (.spread value) => (setting.meaning scope value).spreadItems (scope.refer value.span)

/-- The elements of an array come to the items that each of them adds. -/
theorem comes_elements {next : Task → Eval Box} {node : Reference} {list : List (Option Argument)}
    (parts : ∀ argument, some argument ∈ list →
      Eval.Comes (next (.expr scope argument.value)) (setting.meaning scope argument.value)) :
    Eval.Comes (Evaluation.elements next scope node list)
      (list.flatMap (setting.itemsOf scope node)) := by
  induction list with
  | nil => exact .pure _
  | cons first rest ih =>
    have others := ih fun argument listed => parts argument (List.mem_cons_of_mem _ listed)
    cases first with
    | none => exact .bind others (.pure _)
    | some argument =>
      have first := parts argument (List.mem_cons_self ..)
      cases argument with
      | single value => exact .bind first (.bind others (.pure _))
      | spread value => exact .bind first (.bind others (.pure _))

/-- An array expression means the list of what its elements mean. -/
theorem meaning_array (calm : setting.policy.isStackSensitive = false)
    (evaluates : setting.policy.flags.skipEvaluate = false) (path : Path) (span : Span)
    (list : List (Option Argument)) :
    let scope := setting.project.scope path
    let node := scope.refer span
    setting.meaning scope (.array span list) =
      .list (list.flatMap (setting.itemsOf scope node)) (some node) :=
  meaning_of_reduce calm evaluates ⟨path, rfl⟩ rfl fun _ parts =>
    .bind (comes_elements fun _ listed => parts _ (Expr.size_element_lt listed)) (.pure _)

end Setting

end Glean
