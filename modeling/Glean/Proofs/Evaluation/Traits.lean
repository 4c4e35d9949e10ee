import Glean.Proofs.Box.Traits
import Glean.Proofs.Evaluation.Termination
import Glean.Proofs.Syntax.Spans

/-!
# Traits of evaluated boxes

A trait that admits what evaluation itself puts into boxes (`Setting.Houses`) is kept by evaluation:
from a state whose boxes have the trait, an evaluation that ends leaves one and comes to a box with
the trait. The walk through the evaluation functions is done once for all traits; `step_yields`
leaves the parts of a task and the guard to its users.

A trait may admit only some of the nodes of a module: those of the expression that is evaluated and
of the values that names and exports have (`Box.Trait.Covers`). Where it admits all nodes of the
modules that are led to (`Setting.Admits`), nothing need be said of expressions.
-/

namespace Glean

open Syntax Box

/-- The boxes of a working state have a trait: those that are known and those in force. -/
structure Run.Has (trait : Trait) (run : Run) : Prop where
  known : ∀ entry ∈ run.known, Box.Has trait entry.2
  overrides : ∀ overrides ∈ run.overrides, EntriesHave trait overrides.environment

/-- Where the computation ends from a state with the trait, it leaves one, and its value is as
expected. -/
structure Eval.Yields (trait : Trait) {α : Type} (expected : α → Prop) (computation : Eval α) :
    Prop where
  ends : ∀ {run after : Run} {value : α}, run.Has trait → computation run = some (value, after) →
    after.Has trait ∧ expected value

namespace Eval.Yields

variable {trait : Trait} {α β : Type} {expected : α → Prop}

/-- A value alone yields what holds of it. -/
theorem pure {value : α} (holds : expected value) : Yields trait expected (Pure.pure value) := by
  refine ⟨fun has ended => ?_⟩
  obtain ⟨rfl, rfl⟩ := Prod.mk.inj (Option.some_inj.1 ended)
  exact ⟨has, holds⟩

/-- A computation yields what the next one does with what it yields itself. -/
theorem bind {computation : Eval α} {rest : α → Eval β} {after : β → Prop}
    (first : Yields trait expected computation)
    (others : ∀ value, expected value → Yields trait after (rest value)) :
    Yields trait after (computation >>= rest) := by
  refine ⟨fun has ended => ?_⟩
  obtain ⟨⟨middle, state⟩, started, ended⟩ := Option.bind_eq_some_iff.1 ended
  obtain ⟨has, holds⟩ := first.ends has started
  exact (others middle holds).ends has ended

/-- A computation that only reads the state. -/
theorem read {computation : Eval α} {value : Run → α}
    (reads : ∀ run, computation run = some (value run, run))
    (holds : ∀ run, run.Has trait → expected (value run)) : Yields trait expected computation := by
  refine ⟨fun {run _ _} has ended => ?_⟩
  rw [reads] at ended
  obtain ⟨rfl, rfl⟩ := Prod.mk.inj (Option.some_inj.1 ended)
  exact ⟨has, holds run has⟩

/-- An override has the trait that the environments in force have. -/
theorem override? (name : String) :
    Yields trait (fun box => ∀ value, box = some value → Has trait value)
      (Eval.override? name) := by
  refine read (Eval.override?_apply · name) fun run has value found => ?_
  obtain ⟨overrides, listed, found⟩ := List.exists_of_findSome?_eq_some found
  exact (has.overrides overrides listed).get? found

/-- Asking whether an expression is allowed brings no box. -/
theorem allowed (policy : Policy) (expr : Expr) :
    Yields trait (fun _ => True) (Eval.allowed policy expr) := by
  refine ⟨fun has ended => ?_⟩
  rw [Eval.allowed_apply] at ended
  split at ended <;> obtain ⟨rfl, rfl⟩ := Prod.mk.inj (Option.some_inj.1 ended)
  · exact ⟨has, trivial⟩
  · exact ⟨⟨has.known, has.overrides⟩, trivial⟩

/-- A computation yields the same inside a node, if the overrides of the policy have the trait. -/
theorem inside {policy : Policy} {computation : Eval Box} {expected : Box → Prop}
    (inner : Yields trait expected computation)
    (brings : ∀ expr stack overrides, policy.overridesFor expr stack = some overrides →
      EntriesHave trait overrides.environment)
    (expr : Expr) (node : Reference) :
    Yields trait expected (Eval.inside policy expr node computation) := by
  refine ⟨fun {run _ _} has ended => ?_⟩
  rw [Eval.inside_apply] at ended
  obtain ⟨⟨_, middle⟩, started, ended⟩ := Option.map_eq_some_iff.1 ended
  obtain ⟨rfl, rfl⟩ := Prod.mk.inj ended
  have entered : (run.enter node (policy.overridesFor expr run.stack)).Has trait := by
    refine ⟨has.known, fun overrides listed => ?_⟩
    rcases List.mem_append.1 listed with listed | listed
    · exact brings expr run.stack overrides (Option.mem_toList.1 listed)
    · exact has.overrides overrides listed
  obtain ⟨left, holds⟩ := inner.ends entered started
  refine ⟨⟨left.known, fun overrides listed => ?_⟩, holds⟩
  exact left.overrides overrides (List.mem_of_mem_drop listed)

/-- A known value has the trait, and so has the place of a cycle. -/
theorem remembering {computation : Eval Box} (inner : Yields trait (Box.Has trait) computation)
    (cycles : trait.Reasons .cycle) {node : Reference} (place : trait.Nodes node) (keep : Bool)
    (goal : Goal) : Yields trait (Box.Has trait) (Guard.remembering keep goal node computation) := by
  refine ⟨fun {run _ _} has ended => ?_⟩
  rcases Eval.remembering_cases ended with ⟨known, rfl⟩ | ⟨_, _, rfl, rfl⟩ |
    ⟨_, _, middle, started, rfl⟩
  · obtain ⟨before, rest, listed, _⟩ := List.lookup_eq_some_iff.1 known
    exact ⟨has, has.known (goal, _) (listed ▸ List.mem_append_right _ (List.mem_cons_self ..))⟩
  · exact ⟨⟨has.known, has.overrides⟩, .unresolvable cycles (.here place)⟩
  · have begun : (run.begin goal).Has trait := ⟨has.known, has.overrides⟩
    obtain ⟨left, valueHas⟩ := inner.ends begun started
    refine ⟨⟨fun entry listed => ?_, left.overrides⟩, valueHas⟩
    simp only [Run.finish] at listed
    split at listed
    · rcases List.mem_cons.1 listed with rfl | listed
      · exact valueHas
      · exact left.known entry listed
    · exact left.known entry listed

end Eval.Yields

/-- The nodes of a module are admitted. -/
def Box.Trait.Refers (trait : Trait) (scope : Scope) : Prop := ∀ span, trait.Nodes (scope.refer span)

/-- What is referred to inside a node as an expression is admitted. -/
def Box.Trait.Covers (trait : Trait) (scope : Scope) (node : Node) : Prop :=
  ∀ inner ∈ node.all, ∀ span ∈ inner.cited, trait.Nodes (scope.refer span)

namespace Box.Trait

variable {trait : Trait} {scope : Scope} {node part : Node} {expr : Expr}

/-- A trait that refers to a module admits every node in it. -/
theorem Refers.covers (refers : trait.Refers scope) (node : Node) : trait.Covers scope node :=
  fun _ _ span _ => refers span

/-- A trait that admits what is in a node admits what the node cites. -/
theorem Covers.cited (covers : trait.Covers scope node) :
    ∀ span ∈ node.cited, trait.Nodes (scope.refer span) :=
  covers node (Node.mem_all_self node)

/-- A trait that admits what is in an expression admits the place where it stands. -/
theorem Covers.place (covers : trait.Covers scope (.expr expr)) :
    trait.Nodes (scope.refer expr.span) :=
  covers.cited expr.span (List.mem_cons_self ..)

/-- A trait that admits what is in a node admits what is in every node that it holds. -/
theorem Covers.inside (covers : trait.Covers scope node) (held : part ∈ node.all) :
    trait.Covers scope part :=
  fun inner inside => covers inner (Node.mem_all_trans held inside)

/-- A trait that admits what is in a node admits what is in its children. -/
theorem Covers.child (covers : trait.Covers scope node) (listed : part ∈ node.children) :
    trait.Covers scope part :=
  covers.inside (Node.mem_all_of_child listed (Node.mem_all_self part))

/-- A trait that admits what is in an expression admits what is in its wrappers. -/
theorem Covers.unwrap (covers : trait.Covers scope (.expr expr)) :
    trait.Covers scope (.expr expr.unwrap) :=
  covers.inside expr.mem_all_unwrap

/-- The name that a shorthand stands for is evaluated as an expression at the shorthand's place. -/
theorem Covers.shorthand {span : Span} {id : Id}
    (covers : trait.Covers scope (.member (.shorthand span id))) :
    trait.Covers scope (.expr (.ident span id)) := by
  have place : trait.Nodes (scope.refer span) := covers.cited span (List.mem_cons_self ..)
  intro inner held other cited
  rw [Node.all_eq] at held
  rcases List.mem_cons.1 held with rfl | held
  · obtain rfl := List.mem_singleton.1 cited
    exact place
  · obtain rfl : inner = .ident id := by
      simpa [Node.children, Expr.parts, Node.all_eq] using held
    cases cited

end Box.Trait

/-- The nodes that a step of a task puts into boxes are admitted. -/
def Task.Sits (setting : Setting) (trait : Trait) : Task → Prop
  | .expr scope _ => trait.Refers scope
  | .binding scope _ node => trait.Refers scope ∧ trait.Nodes node
  | .exported path _ node | .whole path node =>
    trait.Refers (setting.project.scope path) ∧ trait.Nodes node

/-- The task is one of a scope of a kind, and what it refers to itself is admitted. -/
def Task.Housed (setting : Setting) (trait : Trait) (Scopes : Scope → Prop) : Task → Prop
  | .expr scope value => Scopes scope ∧ trait.Covers scope (.expr value)
  | .binding scope _ node => Scopes scope ∧ trait.Nodes node
  | .exported path _ node | .whole path node =>
    Scopes (setting.project.scope path) ∧ trait.Nodes node

/-- The node of a task that is housed is admitted. -/
theorem Task.Housed.node {setting : Setting} {trait : Trait} {Scopes : Scope → Prop} {task : Task}
    (housed : task.Housed setting trait Scopes) : trait.Nodes task.node := by
  cases task with
  | expr scope expr => exact housed.2.place
  | binding | exported | whole => exact housed.2

/-- Where all nodes are admitted, nothing is said of single expressions. -/
theorem Task.housed_iff_sits {setting : Setting} {trait : Trait} {task : Task} :
    task.Housed setting trait trait.Refers ↔ task.Sits setting trait := by
  cases task with
  | expr scope expr => exact ⟨fun housed => housed.1, fun refers => ⟨refers, refers.covers _⟩⟩
  | binding | exported | whole => exact Iff.rfl

/-- From the scopes of a kind only such scopes are led to, and a trait admits all that evaluation of
their names and exports puts into boxes of its own, except that nothing is said of cycles. -/
structure Setting.Houses (setting : Setting) (trait : Trait) (Scopes : Scope → Prop) : Prop where
  reasons : ∀ reason, reason ≠ .cycle → trait.Reasons reason
  splits : setting.policy.flags.skipConditions = false → trait.Splits
  overrides : ∀ expr stack overrides, setting.policy.overridesFor expr stack = some overrides →
    EntriesHave trait overrides.environment
  sources : ∀ {scope id value}, Scopes scope → scope.binding? id = some (.variable value) →
    ∀ expr ∈ value.sources, trait.Covers scope (.expr expr)
  exported : ∀ {path name expr}, Scopes (setting.project.scope path) →
    (setting.project.scope path).export? name = some (.value expr) →
      trait.Covers (setting.project.scope path) (.expr expr)
  targets : ∀ {scope source path}, Scopes scope → setting.target? scope source = some path →
    Scopes (setting.project.scope path)

/-- A trait admits all that evaluation puts into boxes of its own, except that nothing is said of
cycles. -/
structure Setting.Admits (setting : Setting) (trait : Trait) : Prop where
  reasons : ∀ reason, reason ≠ .cycle → trait.Reasons reason
  splits : setting.policy.flags.skipConditions = false → trait.Splits
  overrides : ∀ expr stack overrides, setting.policy.overridesFor expr stack = some overrides →
    EntriesHave trait overrides.environment
  targets : ∀ {scope source path}, trait.Refers scope → setting.target? scope source = some path →
    trait.Refers (setting.project.scope path)

/-- A setting that admits a trait houses the modules that the trait refers to. -/
theorem Setting.Admits.houses {setting : Setting} {trait : Trait} (admits : setting.Admits trait) :
    setting.Houses trait trait.Refers where
  reasons := admits.reasons
  splits := admits.splits
  overrides := admits.overrides
  sources refers _ expr _ := refers.covers (.expr expr)
  exported refers _ := refers.covers _
  targets := admits.targets

namespace Evaluation

variable {setting : Setting} {trait : Trait} {Scopes : Scope → Prop}
  (houses : setting.Houses trait Scopes) {next : Task → Eval Box}
  (parts : ∀ part, part.Housed setting trait Scopes → (next part).Yields trait (Has trait))
  {scope : Scope} {node : Reference} (sits : Scopes scope) (place : trait.Nodes node)

include houses in
/-- What is not known, other than for a cycle, has the trait at an admitted node. -/
theorem yields_unknown (place : trait.Nodes node) {reason : Reason} (other : reason ≠ .cycle) :
    (pure (.unknown reason node) : Eval Box).Yields trait (Has trait) :=
  .pure (.unresolvable (houses.reasons reason other) (.here place))

section Expressions

include parts sits

/-- The boxes of an expression in the module have the trait. -/
theorem inner_yields {expr : Expr} (covers : trait.Covers scope (.expr expr)) :
    (next (.expr scope expr)).Yields trait (Has trait) := by
  have housed : (Task.expr scope expr).Housed setting trait Scopes := ⟨sits, covers⟩
  exact parts _ housed

include houses place

/-- Templates have the trait when their expressions have it. -/
theorem template_yields (done : String) (quasis : List Quasi) {interpolations : List Expr}
    (covers : ∀ part ∈ interpolations, trait.Covers scope (.expr part)) :
    (template next scope node done quasis interpolations).Yields trait (Has trait) := by
  induction quasis generalizing done interpolations with
  | nil => exact .pure (.literal _ (.here place))
  | cons quasi quasis ih =>
    cases interpolations with
    | nil => exact ih _ nofun
    | cons part rest =>
      obtain ⟨first, others⟩ := List.forall_mem_cons.1 covers
      refine (inner_yields parts sits first).bind fun box has => ?_
      cases has with
      | literal => exact ih _ others
      | unresolvable admitted origin => exact .pure (.unresolvable admitted origin)
      | _ => exact yields_unknown houses place (by decide)

/-- The elements of an array have the trait when their expressions have it. -/
theorem elements_yields {items : List (Option Argument)}
    (covers : ∀ argument, some argument ∈ items → trait.Covers scope (.expr argument.value)) :
    (elements next scope node items).Yields trait (ItemsHave trait) := by
  induction items with
  | nil => exact .pure nofun
  | cons item rest ih =>
    have others := ih fun argument listed => covers argument (List.mem_cons_of_mem _ listed)
    have cons : ∀ {box : Box}, Has trait box →
        ((elements next scope node rest) >>= fun others => pure (box :: others)).Yields trait
          (ItemsHave trait) := by
      intro box has
      refine others.bind fun others values => .pure fun item found => ?_
      rcases List.mem_cons.1 found with rfl | found
      · exact has
      · exact values item found
    cases item with
    | none => exact cons (.literal _ (.here place))
    | some argument =>
      have inside := covers argument (List.mem_cons_self ..)
      have unsupported := houses.reasons .unsupported (by decide)
      cases argument with
      | single value => exact (inner_yields parts sits inside).bind fun _ has => cons has
      | spread value =>
        refine (inner_yields parts sits inside).bind fun box has =>
          others.bind fun others values => .pure fun item found => ?_
        rcases List.mem_append.1 found with found | found
        · exact has.spreadItems inside.place unsupported item found
        · exact values item found

omit place in
/-- The box that stands in place of a member with a doubtful key has the trait. -/
theorem keyText_yields {key : Key} (covers : ∀ part ∈ key.parts, trait.Covers scope part)
    (cited : ∀ span ∈ key.cited, trait.Nodes (scope.refer span)) :
    (keyText setting next scope key).Yields trait
      fun text => ∀ box, text.2 = some box → Has trait box := by
  cases key with
  | computed span value =>
    have inside : trait.Covers scope (.expr value) := covers _ (List.mem_cons_self ..)
    refine (inner_yields parts sits inside).bind fun box has => ?_
    cases has with
    | literal => exact .pure nofun
    | unresolvable admitted origin =>
      refine .pure fun _ found => ?_
      obtain rfl := Option.some_inj.1 found
      exact .unresolvable admitted origin
    | _ =>
      refine .pure fun _ found => ?_
      obtain rfl := Option.some_inj.1 found
      have origin := cited span (List.mem_cons_self ..)
      exact .unresolvable (houses.reasons .unsupported (by decide)) (.here origin)
  | _ => exact .pure nofun

/-- A member preserves that all values have the trait. -/
theorem member_yields {entries : Entries String Box} (values : EntriesHave trait entries)
    {member : Member} (covers : trait.Covers scope (.member member)) :
    (Evaluation.member setting next scope node entries member).Yields trait (EntriesHave trait) := by
  cases member with
  | spread span value =>
    have inside : trait.Covers scope (.expr value) := covers.child (List.mem_cons_self ..)
    exact (inner_yields parts sits inside).bind fun box has => .pure (has.spread place values _)
  | shorthand span id =>
    exact (inner_yields parts sits covers.shorthand).bind fun box has =>
      .pure (values.insert _ has)
  | keyed span key value =>
    have inside : trait.Covers scope (.expr value) :=
      covers.child (List.mem_append_right _ (List.mem_cons_self ..))
    have keyed := keyText_yields houses parts sits
      (fun part listed => covers.child (List.mem_append_left _ listed)) covers.cited
    refine keyed.bind fun ⟨text, stored⟩ has => ?_
    cases stored with
    | none => exact (inner_yields parts sits inside).bind fun box has => .pure (values.insert _ has)
    | some box => exact .pure (values.insert _ (has box rfl))
  | accessor span kind key inner =>
    have cited := List.forall_mem_cons.1 covers.cited
    have keyed := keyText_yields houses parts sits
      (fun part listed => covers.child (List.mem_append_left _ listed)) cited.2
    refine keyed.bind fun _ _ => .pure (values.insert _ ?_)
    exact .unresolvable (houses.reasons .unsupported (by decide)) (.here cited.1)
  | defaulted => exact .pure values

/-- The members of a list preserve that all values have the trait. -/
theorem members_yields {entries : Entries String Box} (values : EntriesHave trait entries)
    {list : List Member} (covers : ∀ member ∈ list, trait.Covers scope (.member member)) :
    (members setting next scope node entries list).Yields trait (EntriesHave trait) := by
  induction list generalizing entries with
  | nil => exact .pure values
  | cons first rest ih =>
    obtain ⟨here, others⟩ := List.forall_mem_cons.1 covers
    exact (member_yields houses parts sits place values here).bind fun _ values => ih values others

/-- Names have the trait. -/
theorem name_yields (id : Id) : (name next scope id node).Yields trait (Has trait) := by
  refine (Eval.Yields.override? id.name).bind fun override has => ?_
  cases override with
  | some box => exact .pure (has box rfl)
  | none =>
    dsimp only
    split
    · exact parts (.binding scope id node) ⟨sits, place⟩
    · split
      · exact .pure (.literal _ (.here place))
      · exact yields_unknown houses place (by decide)

/-- Members that are read have the trait. -/
theorem read_yields {base : Expr} (covers : trait.Covers scope (.expr base)) (key : Primitive) :
    (read setting next scope base key node).Yields trait (Has trait) := by
  have which : (wholeImport? scope base.unwrap).Yields trait fun _ => True := by
    unfold wholeImport?
    split
    · refine (Eval.Yields.override? _).bind fun _ _ => ?_
      split <;> exact .pure trivial
    · exact .pure trivial
  refine which.bind fun source _ => ?_
  cases source with
  | none => exact (inner_yields parts sits covers).bind fun box has => .pure (has.read place key)
  | some source =>
    dsimp only
    split
    · rename_i path target
      exact parts (.exported path _ node) ⟨houses.targets sits target, place⟩
    · exact yields_unknown houses place (by decide)

/-- Accesses have the trait. -/
theorem access_yields {base : Expr} {key : Key} (covers : trait.Covers scope (.expr base))
    (inside : ∀ part ∈ key.parts, trait.Covers scope part) :
    (access setting next scope base key node).Yields trait (Has trait) := by
  cases key with
  | name | string | number => exact read_yields houses parts sits place covers _
  | bigint | hidden => exact yields_unknown houses place (by decide)
  | computed span value =>
    have worked : trait.Covers scope (.expr value) := inside _ (List.mem_cons_self ..)
    refine (inner_yields parts sits worked).bind fun box has => ?_
    cases has with
    | literal value => exact read_yields houses parts sits place covers value
    | unresolvable admitted origin => exact .pure (.unresolvable admitted origin)
    | _ => exact yields_unknown houses place (by decide)

omit parts sits in
/-- Where a condition is not decided, either the trait admits both outcomes or they are left out. -/
theorem undecided_yields {computation : Eval Box}
    (both : trait.Splits → computation.Yields trait (Has trait)) :
    (if setting.policy.flags.skipConditions then pure (.unknown .notEvaluated node)
      else computation).Yields trait (Has trait) := by
  split
  · exact yields_unknown houses place (by decide)
  · rename_i looked
    exact both (houses.splits (by simpa using looked))

/-- Conditionals have the trait when their parts have it. -/
theorem conditional_yields {test whenTrue whenFalse : Expr}
    (asked : trait.Covers scope (.expr test)) (yes : trait.Covers scope (.expr whenTrue))
    (no : trait.Covers scope (.expr whenFalse)) :
    (conditional setting next scope test whenTrue whenFalse node).Yields trait (Has trait) := by
  refine (inner_yields parts sits asked).bind fun decision _ => ?_
  have yesYields := inner_yields parts sits yes
  have noYields := inner_yields parts sits no
  split
  · exact yesYields
  · exact noYields
  · refine undecided_yields houses place fun splits => ?_
    exact yesYields.bind fun _ first => noYields.bind fun _ second =>
      .pure (.conditional splits first second (.here asked.place) (.here place))

/-- Logical operators have the trait when their operands have it. -/
theorem logical_yields (operator : Logical) {left right : Expr}
    (covers : trait.Covers scope (.expr left)) (others : trait.Covers scope (.expr right)) :
    (logical setting next scope operator left right node).Yields trait (Has trait) := by
  refine (inner_yields parts sits covers).bind fun first has => ?_
  split
  · exact .pure has
  · exact inner_yields parts sits others
  · refine undecided_yields houses place fun splits =>
      (inner_yields parts sits others).bind fun second hasNext => ?_
    have asked : trait.Origin (some (scope.refer left.span)) := .here covers.place
    cases operator with
    | and => exact .pure (.conditional splits hasNext (.literal _ .nowhere) asked (.here place))
    | or | coalesce => exact .pure (.conditional splits has hasNext asked (.here place))

omit houses place in
/-- The literals of arguments are found without leaving the trait. -/
theorem literals?_yields {arguments : List Argument}
    (covers : ∀ argument ∈ arguments, trait.Covers scope (.expr argument.value)) :
    (literals? next scope arguments).Yields trait fun _ => True := by
  induction arguments with
  | nil => exact .pure trivial
  | cons argument rest ih =>
    obtain ⟨first, others⟩ := List.forall_mem_cons.1 covers
    cases argument with
    | spread => exact .pure trivial
    | single value =>
      refine (inner_yields parts sits first).bind fun box has => ?_
      cases has with
      | literal => exact (ih others).bind fun _ _ => .pure trivial
      | _ => exact .pure trivial

/-- Calls have the trait. -/
theorem call_yields (callee : Option Expr) {arguments : List Argument}
    (covers : ∀ argument ∈ arguments, trait.Covers scope (.expr argument.value)) :
    (call next scope callee arguments node).Yields trait (Has trait) := by
  have helper : (helper? callee).Yields trait fun _ => True := by
    unfold helper?
    split
    · exact .read (Eval.helper?_apply · _) fun _ _ => trivial
    · exact .pure trivial
  refine helper.bind fun helper _ => ?_
  cases helper with
  | none => exact yields_unknown houses place (by decide)
  | some helper =>
    refine (literals?_yields parts sits covers).bind fun values _ => ?_
    split
    · exact .pure (.literal _ (.here place))
    · exact yields_unknown houses place (by decide)

/-- What an expression is reduced to has the trait. -/
theorem reduce_yields {expr : Expr} (covers : trait.Covers scope (.expr expr)) :
    (reduce setting next scope expr node).Yields trait (Has trait) := by
  have unsupported := houses.reasons .unsupported (by decide)
  have here := Trait.Origin.here place
  have inside : ∀ part ∈ expr.parts, trait.Covers scope part := fun part listed =>
    covers.child (show part ∈ (Node.expr expr).children from listed)
  cases expr with
  | literal => exact .pure (has_ofResult place unsupported _)
  | template span quasis list =>
    exact template_yields houses parts sits place "" quasis fun part listed =>
      inside _ (List.mem_map.2 ⟨part, listed, rfl⟩)
  | tagged span tag quasis list =>
    exact template_yields houses parts sits place "" quasis fun part listed =>
      inside _ (List.mem_cons_of_mem _ (List.mem_map.2 ⟨part, listed, rfl⟩))
  | array span items =>
    have each : ∀ argument, some argument ∈ items → trait.Covers scope (.expr argument.value) :=
      fun argument listed => inside _
        (List.mem_map.2 ⟨argument, List.mem_flatMap.2 ⟨_, listed, by simp⟩, rfl⟩)
    exact (elements_yields houses parts sits place each).bind fun _ each => .pure (.list each here)
  | object span list =>
    have none : EntriesHave trait [] := nofun
    have each : ∀ member ∈ list, trait.Covers scope (.member member) :=
      fun member listed => inside _ (List.mem_map.2 ⟨member, listed, rfl⟩)
    exact (members_yields houses parts sits place none each).bind fun _ each =>
      .pure (.map each here)
  | ident => exact name_yields houses parts sits place _
  | member span base key | optionalMember span base key =>
    obtain ⟨first, others⟩ := List.forall_mem_cons.1 inside
    exact access_yields houses parts sits place first others
  | conditional span test whenTrue whenFalse =>
    exact conditional_yields houses parts sits place (inside _ (by simp [Expr.parts]))
      (inside _ (by simp [Expr.parts])) (inside _ (by simp [Expr.parts]))
  | logical span operator left right =>
    exact logical_yields houses parts sits place operator (inside _ (by simp [Expr.parts]))
      (inside _ (by simp [Expr.parts]))
  | binary span operator left right =>
    have first := inner_yields parts sits (inside (.expr left) (by simp [Expr.parts]))
    have second := inner_yields parts sits (inside (.expr right) (by simp [Expr.parts]))
    exact first.bind fun _ has => second.bind fun _ hasNext =>
      .pure (has.binary place unsupported hasNext operator)
  | unary span operator operand =>
    have inner := inner_yields parts sits (inside (.expr operand) (by simp [Expr.parts]))
    cases operator with
    | void => exact .pure (.literal _ here)
    | _ => exact inner.bind fun _ has => .pure (has.unary place unsupported _)
  | call span callee arguments =>
    refine call_yields houses parts sits place callee fun argument listed => inside _ ?_
    exact List.mem_append_right _ (List.mem_map.2 ⟨argument, listed, rfl⟩)
  | optionalCall | assign | update | wrapped | definition | other =>
    exact yields_unknown houses place (by decide)

omit place in
/-- Expressions have the trait, the gate and the flags included. -/
theorem expression_yields {expr : Expr} (covers : trait.Covers scope (.expr expr)) :
    (expression setting next scope expr).Yields trait (Has trait) := by
  have bare := covers.unwrap
  unfold expression
  dsimp only
  split
  · exact yields_unknown houses bare.place (by decide)
  · refine (Eval.Yields.allowed setting.policy expr.unwrap).bind fun answer _ => ?_
    split
    · have reduced := reduce_yields houses parts sits bare.place bare
      exact reduced.inside houses.overrides expr.unwrap _
    · exact yields_unknown houses bare.place (by decide)

end Expressions

section Names

include houses parts sits place

omit houses parts sits in
/-- The part that a name is bound to has the trait of the whole. -/
theorem has_part {box : Box} (has : Has trait box) (binding : Variable) :
    Has trait (binding.part node box) := by
  unfold Variable.part
  induction binding.path generalizing box with
  | nil => exact has
  | cons step rest ih => exact ih (has.read place step.toKey)

omit houses in
/-- Declared names have the trait. -/
theorem declared_yields {binding : Variable}
    (covers : ∀ expr ∈ binding.sources, trait.Covers scope (.expr expr)) :
    (declared next scope binding node).Yields trait (Has trait) := by
  have whole : (initial next scope binding node).Yields trait (Has trait) := by
    unfold initial
    split
    · rename_i init stated
      exact inner_yields parts sits (covers init (by simp [Variable.sources, stated]))
    · exact .pure (.literal _ (.here place))
  refine whole.bind fun box has => ?_
  dsimp only
  split
  · rename_i fallback _ stated _
    exact inner_yields parts sits (covers fallback (by simp [Variable.sources, stated]))
  · exact .pure (has_part place has binding)

/-- What is imported from a module has the trait. -/
theorem forward_yields (source : String) (imported : Imported) :
    (forward setting next scope source imported node).Yields trait (Has trait) := by
  unfold forward
  split
  · exact yields_unknown houses place (by decide)
  · rename_i path target
    have led := houses.targets sits target
    split
    · exact parts (.exported path _ node) ⟨led, place⟩
    · exact parts (.whole path node) ⟨led, place⟩

/-- What a search finds has the trait. -/
theorem search_yields (name : String) (sources : List String) :
    (search setting next scope name node sources).Yields trait (Has trait) := by
  induction sources with
  | nil => exact yields_unknown houses place (by decide)
  | cons source rest ih =>
    unfold search
    split
    · exact ih
    · rename_i path target
      refine (parts (.exported ..) ⟨houses.targets sits target, place⟩).bind fun box has => ?_
      split
      · exact ih
      · exact .pure has

omit houses sits in
/-- All exports of a module have the trait. -/
theorem exports_yields {path : Path} (sits : Scopes (setting.project.scope path))
    (names : List String) : (exports next path node names).Yields trait (EntriesHave trait) := by
  induction names with
  | nil => exact .pure nofun
  | cons name rest ih =>
    refine (parts (.exported ..) ⟨sits, place⟩).bind fun value has =>
      ih.bind fun others values => .pure fun entry found => ?_
    rcases List.mem_cons.1 found with rfl | found
    · exact has
    · exact values entry found

end Names

include houses parts

/-- One unguarded step keeps the trait when its parts do. -/
theorem step_yields (task : Task) (housed : task.Housed setting trait Scopes) :
    (step setting Guard.plain next task).Yields trait (Has trait) := by
  cases task with
  | expr scope expr => exact expression_yields houses parts housed.1 housed.2
  | binding scope id node =>
    obtain ⟨sits, place⟩ := housed
    simp only [step, binding, Guard.plain]
    split
    · rename_i value bound
      split
      · exact yields_unknown houses place (by decide)
      · exact declared_yields parts sits place (houses.sources sits bound)
    · exact forward_yields houses parts sits place _ _
    · exact yields_unknown houses place (by decide)
    · exact yields_unknown houses place (by decide)
  | exported path name node =>
    obtain ⟨sits, place⟩ := housed
    simp only [step, exported, Guard.plain]
    split
    · exact parts _ ⟨sits, place⟩
    · exact forward_yields houses parts sits place _ _
    · rename_i expr stated
      exact inner_yields parts sits (houses.exported sits stated)
    · split
      · exact yields_unknown houses place (by decide)
      · exact search_yields houses parts sits place name _
  | whole path node =>
    obtain ⟨sits, place⟩ := housed
    have same : setting.project.scope (setting.project.scope path).file =
        setting.project.scope path := setting.project.scope_scope path
    simp only [step, whole, Guard.plain]
    have sitsAgain : Scopes (setting.project.scope (setting.project.scope path).file) := by
      rw [same]
      exact sits
    exact (exports_yields parts place sitsAgain _).bind fun _ values =>
      .pure (.map values (.here place))

omit houses parts in
/-- Without a memory every task keeps the trait. -/
theorem plain_yields (admits : setting.Admits trait) (fuel : Nat) (task : Task)
    (sits : task.Sits setting trait) : (run setting Guard.plain fuel task).Yields trait (Has trait) := by
  induction fuel generalizing task with
  | zero => exact ⟨fun _ ended => nomatch ended⟩
  | succ fuel ih =>
    have parts : ∀ part, Task.Housed setting trait trait.Refers part →
        (run setting Guard.plain fuel part).Yields trait (Has trait) :=
      fun part housed => ih part (Task.housed_iff_sits.1 housed)
    exact step_yields admits.houses parts task (Task.housed_iff_sits.2 sits)

omit parts in
/-- With a memory it does as well, when the trait admits cycles. -/
theorem remembering_yields (cycles : trait.Reasons .cycle) (keep : Bool) (fuel : Nat) (task : Task)
    (housed : task.Housed setting trait Scopes) :
    (run setting (.remembering keep) fuel task).Yields trait (Has trait) := by
  induction fuel generalizing task with
  | zero => exact ⟨fun _ ended => nomatch ended⟩
  | succ fuel ih =>
    have body := step_yields houses ih task housed
    rw [run, step_eq]
    cases task.goal? setting with
    | none => exact body
    | some goal => exact body.remembering cycles housed.node keep goal

end Evaluation

/-- From a state with a trait, an expression of a file comes to a box with the trait and leaves such
a state. -/
theorem Setting.evaluate_yields {setting : Setting} {trait : Trait} {Scopes : Scope → Prop}
    (houses : setting.Houses trait Scopes) (cycles : trait.Reasons .cycle) {path : Path}
    {file : Document} (found : setting.project.file? path = some file) (sits : Scopes file.scope)
    {expr : Expr} (covers : trait.Covers file.scope (.expr expr)) {run : Run}
    (has : run.Has trait) :
    Box.Has trait ((setting.evaluate path expr).run run).1 ∧
      ((setting.evaluate path expr).run run).2.Has trait := by
  obtain ⟨box, after, evaluated, _, ends⟩ := evaluate_of_found run found expr
  have housed : (Task.expr file.scope expr).Housed setting trait Scopes := ⟨sits, covers⟩
  have yields := Evaluation.remembering_yields houses cycles (!setting.policy.isStackSensitive)
    (setting.fuel expr) _ housed
  obtain ⟨left, boxHas⟩ := yields.ends has (ends _ (Nat.le_refl _))
  rw [evaluated]
  exact ⟨boxHas, left⟩

end Glean
