import Glean.Proofs.Evaluation.Calls
import Glean.Proofs.Evaluation.Run

/-!
# Comparing evaluations

A `Comparison` relates computations over the working state: it is closed under sequencing and under
the few things that evaluation asks of the state. `Comparison.step_related` is then proved once for all
comparisons, by following the code: when the parts of two tasks that ask for the same are related,
so is one unguarded step of them.

What a comparison says about goals is left to its guard.
-/

namespace Glean

open Syntax Box

/-- The part of a box at the end of steps, read at a node. -/
def Box.readAll (node : Reference) (steps : List Step) (box : Box) : Box :=
  steps.foldl (fun box step => box.read step.toKey node) box

/-- The part that a name is bound to is read along its path. -/
theorem Variable.part_eq (binding : Variable) (node : Reference) (whole : Box) :
    binding.part node whole = whole.readAll node binding.path := rfl

/-- Parts of boxes that look alike look alike. -/
theorem Box.Alike.readAll {view : View} {node other : Reference} {left right : Box}
    (alike : Alike view left right) (nodes : view.Agree node other) (steps : List Step) :
    Alike view (left.readAll node steps) (right.readAll other steps) := by
  induction steps generalizing left right with
  | nil => exact alike
  | cons step rest ih => exact ih (alike.read nodes step.toKey)

/-- Without a gate, an expression is left out by its flag or evaluated within its node. -/
theorem Evaluation.expression_eq {setting : Setting} {next : Task → Eval Box} {scope : Scope}
    {expr : Expr} (ungated : setting.policy.gate = none) :
    expression setting next scope expr =
      if setting.policy.flags.skipEvaluate then
        pure (.unknown .notEvaluated (scope.refer expr.unwrap.span))
      else Eval.inside setting.policy expr.unwrap (scope.refer expr.unwrap.span)
        (reduce setting next scope expr.unwrap (scope.refer expr.unwrap.span)) := by
  have allowed : Eval.allowed setting.policy expr.unwrap = pure true := by
    unfold Eval.allowed
    rw [ungated]
  unfold expression
  dsimp only
  rw [allowed]
  rfl

/-- Without overrides no call has a helper. -/
theorem Evaluation.helper?_of_free (callee : Option Expr) {run : Run} (free : run.overrides = []) :
    helper? callee run = some (none, run) := by
  unfold helper?
  cases callee.bind Expr.dotted? with
  | none => rfl
  | some name => exact Eval.helper?_of_free name free

namespace Evaluation

variable {setting : Setting} {guard : Guard} {next : Task → Eval Box} {scope : Scope}
  {base expr : Expr} {run : Run}

/-- Without a gate an expression is evaluated by its form, within its node. -/
theorem run_expr (ungated : setting.policy.gate = none)
    (evaluates : setting.policy.flags.skipEvaluate = false) (fuel : Nat) (run : Run) :
    Evaluation.run setting guard (fuel + 1) (.expr scope expr) run =
      (reduce setting (Evaluation.run setting guard fuel) scope expr.unwrap
        (scope.refer expr.unwrap.span)
        (run.enter (scope.refer expr.unwrap.span)
          (setting.policy.overridesFor expr.unwrap run.stack))).map
        fun (box, after) =>
          (box, after.leave (setting.policy.overridesFor expr.unwrap run.stack)) := by
  change expression setting _ scope expr run = _
  rw [expression_eq ungated, if_neg (by simp [evaluates]), Eval.inside_apply]

/-- What is around an expression makes no difference to its evaluation. -/
theorem run_unwrap (setting : Setting) (guard : Guard) (fuel : Nat) (scope : Scope) (expr : Expr) :
    Evaluation.run setting guard fuel (.expr scope expr.unwrap) =
      Evaluation.run setting guard fuel (.expr scope expr) := by
  cases fuel with
  | zero => rfl
  | succ fuel =>
    change expression setting _ scope expr.unwrap = expression setting _ scope expr
    simp only [expression, Expr.unwrap_unwrap]

/-- A name that is neither overridden nor an import of everything names no module. -/
theorem wholeImport?_of_ordinary {span : Span} {id : Id}
    (unnamed : Eval.override? id.name run = some (none, run))
    (ordinary : ∀ source, scope.binding? id ≠ some (.imported source .whole)) :
    wholeImport? scope (.ident span id) run = some (none, run) := by
  simp only [wholeImport?, Eval.bind_apply, unnamed, Option.bind_some]
  cases bound : scope.binding? id with
  | none => rfl
  | some binding =>
    cases binding with
    | imported source imported =>
      cases imported with
      | whole => exact absurd bound (ordinary source)
      | _ => rfl
    | _ => rfl

/-- Unless the object names all exports of a module, a member is read of its value. -/
theorem read_of_value (ordinary : wholeImport? scope base.unwrap run = some (none, run))
    (key : Primitive) (node : Reference) :
    read setting next scope base key node run =
      (next (.expr scope base) run).map fun (box, after) => (box.read key node, after) := by
  simp only [read, Eval.bind_apply, ordinary, Option.bind_some]
  cases next (.expr scope base) run <;> rfl

end Evaluation

/-- A relation between computations that evaluation under a policy preserves. -/
structure Comparison (policy : Policy) where
  /-- What is looked at of the nodes of boxes. -/
  view : View
  /-- Two computations are related, and related values come out of them. -/
  Holds : {α β : Type} → (α → β → Prop) → Eval α → Eval β → Prop
  /-- Values on their own. -/
  value : ∀ {α β : Type} {related : α → β → Prop} {a : α} {b : β}, related a b →
    Holds related (pure a) (pure b)
  /-- One computation after the other. -/
  bind : ∀ {α β γ δ : Type} {related : α → β → Prop} {after : γ → δ → Prop} {left : Eval α}
    {right : Eval β} {leftNext : α → Eval γ} {rightNext : β → Eval δ}, Holds related left right →
    (∀ a b, related a b → Holds after (leftNext a) (rightNext b)) →
    Holds after (left >>= leftNext) (right >>= rightNext)
  /-- Overrides of names. -/
  override? : ∀ name, Holds Eq (Eval.override? name) (Eval.override? name)
  /-- Helpers. -/
  helper? : ∀ name, Holds Eq (Eval.helper? name) (Eval.helper? name)
  /-- The gate. -/
  allowed : ∀ expr, Holds Eq (Eval.allowed policy expr) (Eval.allowed policy expr)
  /-- Evaluation within a node. -/
  inside : ∀ expr node {left right : Eval Box}, Holds (Alike view) left right →
    Holds (Alike view) (Eval.inside policy expr node left) (Eval.inside policy expr node right)

namespace Comparison

variable {setting : Setting} (c : Comparison setting.policy) {next other : Task → Eval Box}

/-- The boxes of two computations are alike. -/
abbrev Gives (left right : Eval Box) : Prop := c.Holds (Alike c.view) left right

/-- A box alone is related to itself. -/
theorem pure_related (box : Box) : c.Gives (pure box) (pure box) :=
  c.value (Alike.refl box)

section Expressions

variable (scope : Scope) (node : Reference)

/-- Templates are related when their expressions are. -/
theorem template_related {quasis : List Quasi} {interpolations : List Expr} (done : String)
    (parts : ∀ part ∈ interpolations, c.Gives (next (.expr scope part)) (other (.expr scope part))) :
    c.Gives (Evaluation.template next scope node done quasis interpolations)
      (Evaluation.template other scope node done quasis interpolations) := by
  induction quasis generalizing done interpolations with
  | nil => exact c.pure_related _
  | cons quasi quasis ih =>
    cases interpolations with
    | nil => exact ih _ (by simp)
    | cons part rest =>
      refine c.bind (parts part (List.mem_cons_self ..)) fun a b alike => ?_
      cases alike.kindred with
      | literal value =>
        exact ih _ fun part found => parts part (List.mem_cons_of_mem _ found)
      | unresolvable => exact c.value alike
      | _ => exact c.pure_related _

/-- The elements of arrays are related when their expressions are. -/
theorem elements_related {items : List (Option Argument)}
    (parts : ∀ argument, some argument ∈ items →
      c.Gives (next (.expr scope argument.value)) (other (.expr scope argument.value))) :
    c.Holds (AlikeItems c.view) (Evaluation.elements next scope node items)
      (Evaluation.elements other scope node items) := by
  induction items with
  | nil => exact c.value rfl
  | cons item rest ih =>
    have others := ih fun argument found => parts argument (List.mem_cons_of_mem _ found)
    cases item with
    | none => exact c.bind others fun _ _ alike => c.value (.cons (.refl _) alike)
    | some argument =>
      have first := parts argument (List.mem_cons_self ..)
      cases argument with
      | single value =>
        exact c.bind first fun _ _ item => c.bind others fun _ _ alike => c.value (.cons item alike)
      | spread value =>
        refine c.bind first fun _ _ box => c.bind others fun _ _ alike => c.value ?_
        exact (box.spreadItems _).append alike

/-- Two keys are the same text, with alike boxes in place of the member's value. -/
def AlikeKeys (view : View) (left right : String × Option Box) : Prop :=
  left.1 = right.1 ∧ left.2.map (seen view) = right.2.map (seen view)

/-- The texts of a key are related when its expressions are. -/
theorem keyText_related {key : Key} (parts : ∀ part, .expr part ∈ key.parts →
      c.Gives (next (.expr scope part)) (other (.expr scope part))) :
    c.Holds (AlikeKeys c.view) (Evaluation.keyText setting next scope key)
      (Evaluation.keyText setting other scope key) := by
  cases key with
  | computed span value =>
    refine c.bind (parts value (List.mem_singleton.2 rfl)) fun a b alike => ?_
    cases alike.kindred with
    | unresolvable => exact c.value ⟨rfl, congrArg some alike⟩
    | _ => exact c.value ⟨rfl, rfl⟩
  | _ => exact c.value ⟨rfl, rfl⟩

/-- Members added to entries that look alike are related when their expressions are. -/
theorem member_related {entries others : Entries String Box} {member : Member}
    (before : AlikeEntries c.view entries others)
    (parts : ∀ part, .expr part ∈ member.parts →
      c.Gives (next (.expr scope part)) (other (.expr scope part)))
    (named : ∀ span id, member = .shorthand span id →
      c.Gives (next (.expr scope (.ident span id))) (other (.expr scope (.ident span id)))) :
    c.Holds (AlikeEntries c.view) (Evaluation.member setting next scope node entries member)
      (Evaluation.member setting other scope node others member) := by
  cases member with
  | spread span value =>
    refine c.bind (parts value (List.mem_singleton.2 rfl)) fun a b alike => c.value ?_
    exact alike.spread _ node before
  | shorthand span id =>
    exact c.bind (named span id rfl) fun a b alike => c.value (before.insert id.name alike)
  | keyed span key value =>
    have text := c.keyText_related scope fun part found => parts part (List.mem_append_left _ found)
    have stored := parts value (List.mem_append_right _ (List.mem_singleton.2 rfl))
    refine c.bind text fun ⟨first, box⟩ ⟨second, another⟩ ⟨texts, boxes⟩ => ?_
    obtain rfl : first = second := texts
    cases box <;> cases another <;> simp only [Option.map_some, Option.map_none, reduceCtorEq,
      Option.some.injEq] at boxes
    · exact c.bind stored fun a b alike => c.value (before.insert first alike)
    · exact c.value (before.insert first boxes)
  | accessor span kind key inner =>
    have text := c.keyText_related scope fun part found => parts part (List.mem_append_left _ found)
    refine c.bind text fun ⟨first, _⟩ ⟨second, _⟩ ⟨texts, _⟩ => ?_
    obtain rfl : first = second := texts
    exact c.value (before.insert first (.refl _))
  | defaulted => exact c.value before

/-- Members of a list are related one after the other. -/
theorem members_related {entries others : Entries String Box} {list : List Member}
    (before : AlikeEntries c.view entries others)
    (parts : ∀ member ∈ list, ∀ part, .expr part ∈ member.parts →
      c.Gives (next (.expr scope part)) (other (.expr scope part)))
    (named : ∀ span id, .shorthand span id ∈ list →
      c.Gives (next (.expr scope (.ident span id))) (other (.expr scope (.ident span id)))) :
    c.Holds (AlikeEntries c.view) (Evaluation.members setting next scope node entries list)
      (Evaluation.members setting other scope node others list) := by
  induction list generalizing entries others with
  | nil => exact c.value before
  | cons first rest ih =>
    have added := c.member_related scope node before (parts first (List.mem_cons_self ..))
      fun span id same => named span id (same ▸ List.mem_cons_self ..)
    refine c.bind added fun _ _ before => ih before ?_ ?_
    · exact fun member found => parts member (List.mem_cons_of_mem _ found)
    · exact fun span id found => named span id (List.mem_cons_of_mem _ found)

/-- A name is related to itself when its binding is. -/
theorem name_related {id : Id} (bound : (scope.binding? id).isSome →
      c.Gives (next (.binding scope id node)) (other (.binding scope id node))) :
    c.Gives (Evaluation.name next scope id node) (Evaluation.name other scope id node) := by
  refine c.bind (c.override? id.name) fun override _ same => ?_
  subst same
  cases override with
  | some box => exact c.pure_related box
  | none =>
    dsimp only
    split
    · rename_i found
      exact bound found
    · split <;> exact c.pure_related _

/-- Looking for an import of everything is related to itself. -/
theorem wholeImport?_related (expr : Expr) :
    c.Holds Eq (Evaluation.wholeImport? scope expr) (Evaluation.wholeImport? scope expr) := by
  cases expr with
  | ident span id =>
    refine c.bind (c.override? id.name) fun override _ same => ?_
    subst same
    split <;> exact c.value rfl
  | _ => exact c.value rfl

/-- What evaluation may ask for inside an expression: smaller expressions of the module, the
bindings of its names and the exports of the files that it imports. -/
structure Parts (next other : Task → Eval Box) (size : Nat) : Prop where
  inner : ∀ part : Expr, part.size < size →
    c.Gives (next (.expr scope part)) (other (.expr scope part))
  name : ∀ id node, (scope.binding? id).isSome →
    c.Gives (next (.binding scope id node)) (other (.binding scope id node))
  field : ∀ source path name node, setting.target? scope source = some path →
    c.Gives (next (.exported path name node)) (other (.exported path name node))

variable {size : Nat} (parts : c.Parts scope next other size)

include parts

/-- Reading a member is related when the smaller expressions are. -/
theorem read_related {base : Expr} (smaller : base.size < size) (key : Primitive) :
    c.Gives (Evaluation.read setting next scope base key node)
      (Evaluation.read setting other scope base key node) := by
  refine c.bind (c.wholeImport?_related scope base.unwrap) fun source _ same => ?_
  subst same
  cases source with
  | none => exact c.bind (parts.inner base smaller) fun _ _ alike => c.value (alike.read rfl key)
  | some source =>
    dsimp only
    split
    · rename_i path target
      exact parts.field source path _ node target
    · exact c.pure_related _

/-- Accesses are related when the smaller expressions are. -/
theorem access_related {base : Expr} {key : Key} (smaller : base.size < size)
    (keys : ∀ part, .expr part ∈ key.parts → part.size < size) :
    c.Gives (Evaluation.access setting next scope base key node)
      (Evaluation.access setting other scope base key node) := by
  cases key with
  | name text | string text => exact c.read_related scope node parts smaller (.string text)
  | number value => exact c.read_related scope node parts smaller (.number value)
  | bigint | hidden => exact c.pure_related _
  | computed span value =>
    refine c.bind (parts.inner value (keys value (List.mem_singleton.2 rfl))) fun a b alike => ?_
    cases alike.kindred with
    | literal value => exact c.read_related scope node parts smaller value
    | unresolvable => exact c.value alike
    | _ => exact c.pure_related _

/-- Conditionals are related when the smaller expressions are. -/
theorem conditional_related {test whenTrue whenFalse : Expr} (tests : test.size < size)
    (first : whenTrue.size < size) (second : whenFalse.size < size) :
    c.Gives (Evaluation.conditional setting next scope test whenTrue whenFalse node)
      (Evaluation.conditional setting other scope test whenTrue whenFalse node) := by
  refine c.bind (parts.inner test tests) fun a b alike => ?_
  rw [show a.truthy? = b.truthy? from alike.truthy?]
  split
  · exact parts.inner whenTrue first
  · exact parts.inner whenFalse second
  · split
    · exact c.pure_related _
    · refine c.bind (parts.inner whenTrue first) fun _ _ yes => ?_
      exact c.bind (parts.inner whenFalse second) fun _ _ no =>
        c.value (alike_conditional rfl yes no)

/-- Logical operators are related when the smaller expressions are. -/
theorem logical_related {operator : Logical} {left right : Expr} (first : left.size < size)
    (second : right.size < size) :
    c.Gives (Evaluation.logical setting next scope operator left right node)
      (Evaluation.logical setting other scope operator left right node) := by
  refine c.bind (parts.inner left first) fun a b alike => ?_
  have decision : Evaluation.shortCircuits? operator a = Evaluation.shortCircuits? operator b := by
    cases operator <;> simp only [Evaluation.shortCircuits?, alike.truthy?, alike.nullish?]
  rw [decision]
  split
  · exact c.value alike
  · exact parts.inner right second
  · split
    · exact c.pure_related _
    · refine c.bind (parts.inner right second) fun _ _ next => ?_
      cases operator with
      | and => exact c.value (alike_conditional rfl next (.refl _))
      | or | coalesce => exact c.value (alike_conditional rfl alike next)

/-- The literals of arguments are related when the smaller expressions are. -/
theorem literals?_related {arguments : List Argument}
    (smaller : ∀ argument ∈ arguments, argument.value.size < size) :
    c.Holds Eq (Evaluation.literals? next scope arguments)
      (Evaluation.literals? other scope arguments) := by
  induction arguments with
  | nil => exact c.value rfl
  | cons argument rest ih =>
    cases argument with
    | spread => exact c.value rfl
    | single value =>
      have first := parts.inner value (smaller _ (List.mem_cons_self ..))
      refine c.bind first fun a b alike => ?_
      cases alike.kindred with
      | literal value =>
        refine c.bind (ih fun argument found => smaller argument (List.mem_cons_of_mem _ found))
          fun _ _ same => ?_
        exact c.value (congrArg _ same)
      | _ => exact c.value rfl

/-- Calls are related when the smaller expressions are. -/
theorem call_related {callee : Option Expr} {arguments : List Argument}
    (smaller : ∀ argument ∈ arguments, argument.value.size < size) :
    c.Gives (Evaluation.call next scope callee arguments node)
      (Evaluation.call other scope callee arguments node) := by
  have helpers : c.Holds Eq (Evaluation.helper? callee) (Evaluation.helper? callee) := by
    unfold Evaluation.helper?
    split
    · exact c.helper? _
    · exact c.value rfl
  refine c.bind helpers fun helper _ same => ?_
  subst same
  cases helper with
  | none => exact c.pure_related _
  | some helper =>
    refine c.bind (c.literals?_related scope parts smaller) fun values _ same => ?_
    subst same
    split <;> exact c.pure_related _

end Expressions

/-- The reduction of an expression is related when the smaller expressions are. -/
theorem reduce_related (scope : Scope) (node : Reference) {expr : Expr}
    (parts : c.Parts scope next other expr.size) :
    c.Gives (Evaluation.reduce setting next scope expr node)
      (Evaluation.reduce setting other scope expr node) := by
  have inner : ∀ part, .expr part ∈ expr.parts →
      c.Gives (next (.expr scope part)) (other (.expr scope part)) :=
    fun part found => parts.inner part (Expr.size_lt_of_mem_parts found)
  have smaller : ∀ part, .expr part ∈ expr.parts → part.size < expr.size :=
    fun part found => Expr.size_lt_of_mem_parts found
  cases expr with
  | literal | optionalCall | assign | update | wrapped | definition | other =>
    exact c.pure_related _
  | ident span id => exact c.name_related scope node (parts.name id node)
  | template span quasis interpolations =>
    refine c.template_related scope node "" fun part found => inner part ?_
    simpa [Expr.parts] using found
  | tagged span tag quasis interpolations =>
    refine c.template_related scope node "" fun part found => inner part ?_
    simpa [Expr.parts] using .inr found
  | array span items =>
    refine c.bind (c.elements_related scope node fun argument found => ?_) fun _ _ alike =>
      c.value (alike_list rfl alike)
    exact parts.inner _ (Expr.size_element_lt found)
  | object span members =>
    refine c.bind (c.members_related scope node rfl (fun member found part inside => ?_)
      fun span id found => ?_) fun _ _ alike => c.value (alike_map rfl alike)
    · exact parts.inner part (Expr.size_member_lt found inside)
    · exact parts.inner _ (Expr.size_shorthand_lt found)
  | member span base key | optionalMember span base key =>
    refine c.access_related scope node parts (smaller base (by simp [Expr.parts]))
      fun part found => ?_
    exact smaller part (List.mem_cons_of_mem _ found)
  | conditional span test whenTrue whenFalse =>
    exact c.conditional_related scope node parts (smaller test (by simp [Expr.parts]))
      (smaller whenTrue (by simp [Expr.parts])) (smaller whenFalse (by simp [Expr.parts]))
  | logical span operator left right =>
    exact c.logical_related scope node parts (smaller left (by simp [Expr.parts]))
      (smaller right (by simp [Expr.parts]))
  | binary span operator left right =>
    refine c.bind (inner left (by simp [Expr.parts])) fun _ _ first => ?_
    exact c.bind (inner right (by simp [Expr.parts])) fun _ _ second =>
      c.value (first.binary second rfl operator)
  | unary span operator operand =>
    have operand := inner operand (by simp [Expr.parts])
    cases operator with
    | void => exact c.pure_related _
    | _ => exact c.bind operand fun _ _ alike => c.value (alike.unary rfl _)
  | call span callee arguments =>
    refine c.call_related scope node parts fun argument found => smaller _ ?_
    exact List.mem_append_right _ (List.mem_map.2 ⟨argument, found, rfl⟩)

/-- An expression is related, gate and flags included, when the smaller expressions are. -/
theorem expression_related (scope : Scope) {expr : Expr}
    (parts : c.Parts scope next other expr.size) :
    c.Gives (Evaluation.expression setting next scope expr)
      (Evaluation.expression setting other scope expr) := by
  have unwrapped : c.Parts scope next other expr.unwrap.size :=
    { parts with
      inner := fun part smaller =>
        parts.inner part (Nat.lt_of_lt_of_le smaller (Expr.size_unwrap_le expr)) }
  unfold Evaluation.expression
  dsimp only
  split
  · exact c.pure_related _
  · refine c.bind (c.allowed expr.unwrap) fun answer _ same => ?_
    subst same
    split
    · exact c.inside expr.unwrap _ (c.reduce_related scope _ unwrapped)
    · exact c.pure_related _

section Names

variable {node otherNode : Reference} (nodes : c.view.Agree node otherNode)

include nodes

/-- What is not known is related at nodes that the view takes as one. -/
theorem unknown_related (reason : Reason) :
    c.Gives (pure (.unknown reason node)) (pure (.unknown reason otherNode)) :=
  c.value (alike_unresolvable nodes reason)

/-- Parts of boxes that look alike look alike. -/
theorem alike_part (binding : Variable) {left right : Box} (alike : Alike c.view left right) :
    Alike c.view (binding.part node left) (binding.part otherNode right) := by
  rw [binding.part_eq, binding.part_eq]
  exact alike.readAll nodes binding.path

/-- A declared name is related when its expressions are. -/
theorem declared_related (scope : Scope) (binding : Variable)
    (parts : ∀ expr ∈ binding.sources, c.Gives (next (.expr scope expr)) (other (.expr scope expr))) :
    c.Gives (Evaluation.declared next scope binding node)
      (Evaluation.declared other scope binding otherNode) := by
  have whole : c.Gives (Evaluation.initial next scope binding node)
      (Evaluation.initial other scope binding otherNode) := by
    unfold Evaluation.initial
    split
    · rename_i init stated
      exact parts init (by simp [Variable.sources, stated])
    · exact c.value (alike_literal nodes .undefined)
  refine c.bind whole fun left right alike => ?_
  have part := c.alike_part nodes binding alike
  dsimp only
  generalize binding.part node left = first at part ⊢
  generalize binding.part otherNode right = second at part ⊢
  cases stated : binding.fallback with
  | none => exact c.value part
  | some fallback =>
    cases part.kindred with
    | literal value =>
      cases value with
      | undefined => exact parts fallback (by simp [Variable.sources, stated])
      | _ => exact c.value part
    | _ => exact c.value part

/-- What is imported from a module is related when its exports are. -/
theorem forward_related (scope : Scope) (source : String) (imported : Imported)
    (one : ∀ path name, setting.target? scope source = some path →
      c.Gives (next (.exported path name node)) (other (.exported path name otherNode)))
    (all : ∀ path, setting.target? scope source = some path →
      c.Gives (next (.whole path node)) (other (.whole path otherNode))) :
    c.Gives (Evaluation.forward setting next scope source imported node)
      (Evaluation.forward setting other scope source imported otherNode) := by
  unfold Evaluation.forward
  split
  · exact c.unknown_related nodes .unbound
  · rename_i path target
    split
    · exact one path _ target
    · exact all path target

/-- A binding is related when the tasks that it calls are. -/
theorem binding_related (scope : Scope) (id : Id)
    (parts : ∀ part part', setting.Calls (.binding scope id node) part →
      part.Alike setting c.view part' → c.Gives (next part) (other part')) :
    c.Gives (Evaluation.binding setting Guard.plain next scope id node)
      (Evaluation.binding setting Guard.plain other scope id otherNode) := by
  unfold Evaluation.binding
  split
  · rename_i value bound
    split
    · exact c.unknown_related nodes .unbound
    · rename_i constant
      exact c.declared_related nodes scope value fun expr source =>
        parts _ _ (.value bound constant source) (.expr scope expr)
  · rename_i source imported bound
    refine c.forward_related nodes scope source imported (fun path name target => ?_)
      fun path target => ?_
    · exact parts _ _ (.imported bound target) (.exported rfl name nodes)
    · exact parts _ _ (.importedWhole bound target) (.whole rfl nodes)
  · exact c.unknown_related nodes .unbound
  · exact c.unknown_related nodes .unbound

/-- A search is related when the exports that it asks for are. -/
theorem search_related (scope : Scope) (name : String) {sources : List String}
    (one : ∀ source ∈ sources, ∀ path, setting.target? scope source = some path →
      c.Gives (next (.exported path name node)) (other (.exported path name otherNode))) :
    c.Gives (Evaluation.search setting next scope name node sources)
      (Evaluation.search setting other scope name otherNode sources) := by
  induction sources with
  | nil => exact c.unknown_related nodes .unbound
  | cons source rest ih =>
    have others := ih fun source found => one source (List.mem_cons_of_mem _ found)
    unfold Evaluation.search
    split
    · exact others
    · rename_i path target
      refine c.bind (one source (List.mem_cons_self ..) path target) fun a b alike => ?_
      rw [show a.reason? = b.reason? from alike.reason?]
      split
      · exact others
      · exact c.value alike

end Names

/-- All exports of a module are related when each of them is. -/
theorem exports_related (path : Path) {node otherNode : Reference} {names : List String}
    (one : ∀ name ∈ names,
      c.Gives (next (.exported path name node)) (other (.exported path name otherNode))) :
    c.Holds (AlikeEntries c.view) (Evaluation.exports next path node names)
      (Evaluation.exports other path otherNode names) := by
  induction names with
  | nil => exact c.value rfl
  | cons name rest ih =>
    refine c.bind (one name (List.mem_cons_self ..)) fun _ _ first => ?_
    exact c.bind (ih fun name found => one name (List.mem_cons_of_mem _ found)) fun _ _ alike =>
      c.value (.cons name first alike)

/-- One unguarded step of two tasks that ask for the same is related when all their parts are. -/
theorem step_related {task twin : Task} (alike : task.Alike setting c.view twin)
    (parts : ∀ part part', setting.Calls task part → part.Alike setting c.view part' →
      c.Gives (next part) (other part')) :
    c.Gives (Evaluation.step setting Guard.plain next task)
      (Evaluation.step setting Guard.plain other twin) := by
  cases alike with
  | expr scope expr =>
    exact c.expression_related scope
      { inner := fun part smaller => parts _ _ (.inner smaller) (.refl _)
        name := fun id node bound => parts _ _ (.name bound) (.refl _)
        field := fun source path name node target => parts _ _ (.field target) (.refl _) }
  | binding scope id nodes => exact c.binding_related nodes scope id parts
  | @exported path place scopes name node otherNode nodes =>
    simp only [Evaluation.step, Evaluation.exported, Guard.plain, ← scopes]
    split
    · rename_i id stated
      exact parts _ _ (.exportedName stated) (.binding _ id nodes)
    · rename_i source imported stated
      refine c.forward_related nodes _ source imported (fun path name target => ?_)
        fun path target => ?_
      · exact parts _ _ (.forwarded stated target) (.exported rfl name nodes)
      · exact parts _ _ (.forwardedWhole stated target) (.whole rfl nodes)
    · rename_i expr stated
      exact parts _ _ (.exportedValue stated) (.refl _)
    · rename_i unstated
      split
      · exact c.unknown_related nodes .unbound
      · refine c.search_related nodes _ name fun source listed path target => ?_
        exact parts _ _ (.star unstated listed target) (.exported rfl name nodes)
  | @whole path place scopes node otherNode nodes =>
    simp only [Evaluation.step, Evaluation.whole, Guard.plain, ← scopes]
    refine c.bind (c.exports_related _ fun name listed => ?_) fun _ _ alike =>
      c.value (alike_map nodes alike)
    exact parts _ _ (.entry listed) (.exported rfl name nodes)

end Comparison

end Glean
