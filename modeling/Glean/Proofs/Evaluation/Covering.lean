import Glean.Proofs.Evaluation.Sharpening

/-!
# Cautious evaluation covers what is known better

Whatever the cautious evaluation of a task under the coarse policy of a sharpening comes to, it covers
what the evaluation under the fine policy comes to (`cautious_approximates`). The proof follows the
code of one step: each function is approximated when its parts are, because cautious evaluation goes
no further with a part that could mislead it.
-/

namespace Glean

open Syntax Box

namespace Sharpening

variable {s : Sharpening} {next other : Task → Eval Box}

/-- What is known of the parts of an expression in a scope of the project: they are approximated, and
those that decide which items or keys there are, or guard an operand, are known well enough. -/
structure Parts (s : Sharpening) (scope : Scope) (outer : Expr) (next other : Task → Eval Box) :
    Prop where
  steady : ∀ part, (next part).Steady
  steadyFine : ∀ part, (other part).Steady
  placed : ∃ path, scope = s.project.scope path
  inner : ∀ part, s.Approximates s.Covers (next (.expr scope part)) (other (.expr scope part))
  shape : ∀ part : Expr, part.span ∈ outer.shapes →
    s.Approximates (fun known value => s.Covers known value ∧ known.isDefinite = true)
      (next (.expr scope part)) (other (.expr scope part))
  guarding : ∀ part : Expr, part.span ∈ outer.guarding →
    s.Approximates (fun known value => s.Covers known value ∧
      (s.coarse.flags.skipConditions = true ∨ known.truthy?.isSome = true))
      (next (.expr scope part)) (other (.expr scope part))
  name : ∀ id node, s.Approximates s.Covers (next (.binding scope id node))
    (other (.binding scope id node))
  field : ∀ path name node, s.Approximates s.Covers (next (.exported path name node))
    (other (.exported path name node))

section Expressions

variable {scope : Scope} {outer : Expr} {node : Reference} (parts : s.Parts scope outer next other)

include parts

/-- Templates are approximated when their expressions are. -/
theorem template_approximates {quasis : List Quasi} {interpolations : List Expr} (done : String) :
    s.Approximates s.Covers (Evaluation.template next scope node done quasis interpolations)
      (Evaluation.template other scope node done quasis interpolations) := by
  induction quasis generalizing done interpolations with
  | nil => exact .pure (.literal ..)
  | cons quasi quasis ih =>
    cases interpolations with
    | nil => exact ih _
    | cons part rest =>
      have whole := Evaluation.template_steady s.sharp parts.steadyFine scope node done
        (quasi :: quasis) (part :: rest)
      refine (parts.inner part).bind_or (parts.steadyFine _) whole fun known value covers => ?_
      cases covers with
      | literal => exact .inr (ih _)
      | _ => exact .inl ⟨_, rfl, fun _ => .unknown ..⟩

/-- The elements of an array are approximated when it is known which ones a spread adds. -/
theorem elements_approximates {items : List (Option Argument)}
    (spreads : ∀ value, some (.spread value) ∈ items → value.span ∈ outer.shapes) :
    s.Approximates (CoversItems !s.coarse.flags.skipConditions)
      (Evaluation.elements next scope node items) (Evaluation.elements other scope node items) := by
  induction items with
  | nil => exact .pure .nil
  | cons item rest ih =>
    have others := ih fun value found => spreads value (List.mem_cons_of_mem _ found)
    cases item with
    | none => exact others.bind fun _ _ covers => .pure (.cons (.literal ..) covers)
    | some argument =>
      cases argument with
      | single value =>
        exact (parts.inner value).bind fun _ _ item => others.bind fun _ _ covers =>
          .pure (.cons item covers)
      | spread value =>
        refine (parts.shape value (spreads value (List.mem_cons_self ..))).bind
          fun _ _ ⟨covers, definite⟩ => others.bind fun _ _ items => .pure ?_
        exact List.rel_append (covers.spreadItems definite _) items

/-- Two keys are the same text, and what stands in place of the member's value is covered. -/
def CoversKeys (s : Sharpening) (left right : String × Option Box) : Prop :=
  left.1 = right.1 ∧ Option.Rel s.Covers left.2 right.2

/-- The texts of a key are approximated when it is known which key it is. -/
theorem keyText_approximates (key : Key) (shapes : ∀ span ∈ key.shape?, span ∈ outer.shapes) :
    s.Approximates s.CoversKeys (Evaluation.keyText s.blunt next scope key)
      (Evaluation.keyText s.sharp other scope key) := by
  cases key with
  | computed span value =>
    refine (parts.shape value (shapes _ rfl)).bind fun known box ⟨covers, definite⟩ => ?_
    cases covers with
    | literal => exact .pure ⟨rfl, .none⟩
    | list | map => exact .pure ⟨rfl, .some (.unknown ..)⟩
    | _ => cases definite
  | _ => exact .pure ⟨rfl, .none⟩

/-- A member added to entries is approximated when it is known which keys it adds. -/
theorem member_approximates {entries others : Entries String Box} (node : Reference)
    (member : Member) (before : CoversEntries (!s.coarse.flags.skipConditions) entries others)
    (shapes : ∀ span ∈ member.shape?, span ∈ outer.shapes) :
    s.Approximates (CoversEntries !s.coarse.flags.skipConditions)
      (Evaluation.member s.blunt next scope node entries member)
      (Evaluation.member s.sharp other scope node others member) := by
  cases member with
  | spread span value =>
    refine (parts.shape value (shapes _ rfl)).bind fun _ _ ⟨covers, definite⟩ => .pure ?_
    exact covers.spread definite before _ node
  | shorthand span id =>
    exact (parts.inner _).bind fun _ _ covers => .pure (before.insert id.name covers)
  | keyed span key value =>
    have text := keyText_approximates parts key shapes
    refine text.bind fun ⟨first, box⟩ ⟨second, another⟩ ⟨texts, boxes⟩ => ?_
    obtain rfl : first = second := texts
    cases boxes with
    | none => exact (parts.inner value).bind fun _ _ covers => .pure (before.insert first covers)
    | some covers => exact .pure (before.insert first covers)
  | accessor span kind key inner =>
    have text := keyText_approximates parts key shapes
    refine text.bind fun ⟨first, _⟩ ⟨second, _⟩ ⟨texts, _⟩ => ?_
    obtain rfl : first = second := texts
    exact .pure (before.insert first (.unknown ..))
  | defaulted => exact .pure before

/-- The members of a list are approximated one after the other. -/
theorem members_approximates {entries others : Entries String Box} {list : List Member}
    (before : CoversEntries (!s.coarse.flags.skipConditions) entries others)
    (shapes : ∀ span ∈ list.filterMap Member.shape?, span ∈ outer.shapes) :
    s.Approximates (CoversEntries !s.coarse.flags.skipConditions)
      (Evaluation.members s.blunt next scope node entries list)
      (Evaluation.members s.sharp other scope node others list) := by
  induction list generalizing entries others with
  | nil => exact .pure before
  | cons first rest ih =>
    have added := member_approximates parts node first before fun span found =>
      shapes span (List.mem_filterMap.2 ⟨first, List.mem_cons_self .., found⟩)
    refine added.bind fun _ _ covers => ih covers fun span found => shapes span ?_
    obtain ⟨member, listed, found⟩ := List.mem_filterMap.1 found
    exact List.mem_filterMap.2 ⟨member, List.mem_cons_of_mem _ listed, found⟩

/-- A name is approximated when its binding is. -/
theorem name_approximates {id : Id} :
    s.Approximates s.Covers (Evaluation.name next scope id node)
      (Evaluation.name other scope id node) := by
  refine (Approximates.override? id.name).bind ?_
  rintro _ override ⟨rfl, found⟩
  cases override with
  | none =>
    dsimp only
    split
    · exact parts.name id node
    · split
      · exact .pure (.literal ..)
      · exact .pure (.unknown ..)
  | some box =>
    -- The name has no other meaning, so the coarse side knows nothing of it.
    obtain ⟨foreign, free⟩ := s.unbound id.name box found.symm
    obtain ⟨path, rfl⟩ := parts.placed
    dsimp only
    rw [free path id rfl, foreign]
    exact .pure (.unknown ..)

/-- Whether a name stands for all exports of a module is the same on both sides. -/
theorem wholeImport?_approximates (expr : Expr) :
    s.Approximates Eq (Evaluation.wholeImport? scope expr) (Evaluation.wholeImport? scope expr) := by
  cases expr with
  | ident span id =>
    refine (Approximates.override? id.name).bind ?_
    rintro _ override ⟨rfl, found⟩
    cases override with
    | none => split <;> exact .pure rfl
    | some box =>
      obtain ⟨_, free⟩ := s.unbound id.name box found.symm
      obtain ⟨path, rfl⟩ := parts.placed
      rw [free path id rfl]
      exact .pure rfl
  | _ => exact .pure rfl

/-- Reading a member is approximated when the parts are. -/
theorem read_approximates {base : Expr} (key : Primitive) :
    s.Approximates s.Covers (Evaluation.read s.blunt next scope base key node)
      (Evaluation.read s.sharp other scope base key node) := by
  refine (wholeImport?_approximates parts base.unwrap).bind ?_
  rintro source _ rfl
  cases source with
  | none => exact (parts.inner base).bind fun _ _ covers => .pure (covers.read key)
  | some source =>
    dsimp only
    rw [s.target?_eq]
    split
    · exact parts.field _ _ _
    · exact .pure (.unknown ..)

/-- An access is approximated when the parts are. -/
theorem access_approximates {base : Expr} {key : Key} :
    s.Approximates s.Covers (Evaluation.access s.blunt next scope base key node)
      (Evaluation.access s.sharp other scope base key node) := by
  have whole := Evaluation.reduce_steady s.sharp parts.steadyFine scope
    (.member default base key) node
  cases key with
  | name text | string text | number value => exact read_approximates parts _
  | bigint | hidden => exact .pure (.unknown ..)
  | computed span value =>
    refine (parts.inner value).bind_or (parts.steadyFine _) whole fun known box covers => ?_
    cases covers with
    | literal => exact .inr (read_approximates parts _)
    | _ => exact .inl ⟨_, rfl, fun _ => .unknown ..⟩

/-- Where the coarse side does not know which of two expressions counts, it evaluates both. -/
theorem conditional_approximates {test whenTrue whenFalse : Expr} :
    s.Approximates s.Covers
      (Evaluation.conditional s.blunt next scope test whenTrue whenFalse node)
      (Evaluation.conditional s.sharp other scope test whenTrue whenFalse node) := by
  have whole := Evaluation.reduce_steady s.sharp parts.steadyFine scope
    (.conditional default test whenTrue whenFalse) node
  refine (parts.inner test).bind_or (parts.steadyFine _) whole fun known decision covers => ?_
  cases decided : known.truthy? with
  | some answer =>
    rw [covers.truthy? decided]
    cases answer
    · exact .inr (parts.inner whenFalse)
    · exact .inr (parts.inner whenTrue)
  | none =>
    cases skips : s.coarse.flags.skipConditions with
    | true =>
      refine .inl ⟨.unknown .notEvaluated node, ?_, fun _ => .unknown ..⟩
      simp [blunt, skips]
    | false =>
      have branches : (!s.coarse.flags.skipConditions) = true := by simp [skips]
      simp only [blunt, sharp, skips, s.looks skips, Bool.false_eq_true, if_false]
      refine .inr ?_
      cases decision.truthy? with
      | none =>
        exact (parts.inner whenTrue).bind fun _ _ yes => (parts.inner whenFalse).bind fun _ _ no =>
          .pure (.both branches yes no)
      | some answer =>
        cases answer with
        | true =>
          exact (parts.inner whenTrue).bind_done fun _ _ covers =>
            .before (parts.steady _) fun _ => .pure (.left branches covers)
        | false =>
          exact .before (parts.steady _) fun _ => (parts.inner whenFalse).bind_done
            fun _ _ covers => .pure (.right branches covers)

omit parts in
/-- Where a known left operand decides an operator, so does a box that it covers. -/
theorem shortCircuits?_of_covers {branching : Bool} {operator : Logical} {known value : Box}
    {answer : Bool} (covers : Box.Covers branching known value)
    (decided : Evaluation.shortCircuits? operator known = some answer) :
    Evaluation.shortCircuits? operator value = some answer := by
  cases operator with
  | and =>
    obtain ⟨truth, agreed, rfl⟩ := Option.map_eq_some_iff.1 decided
    exact Option.map_eq_some_iff.2 ⟨truth, covers.truthy? agreed, rfl⟩
  | or => exact covers.truthy? decided
  | coalesce =>
    obtain ⟨nullish, agreed, rfl⟩ := Option.map_eq_some_iff.1 decided
    exact Option.map_eq_some_iff.2 ⟨nullish, covers.nullish? agreed, rfl⟩

/-- A logical operator is approximated, if it is known which way the left operand of `and` goes. -/
theorem logical_approximates {operator : Logical} {left right : Expr}
    (guards : operator = .and → left.span ∈ outer.guarding) :
    s.Approximates s.Covers (Evaluation.logical s.blunt next scope operator left right node)
      (Evaluation.logical s.sharp other scope operator left right node) := by
  have whole := Evaluation.reduce_steady s.sharp parts.steadyFine scope
    (.logical default operator left right) node
  have first : s.Approximates (fun known value => s.Covers known value ∧ (operator = .and →
      s.coarse.flags.skipConditions = true ∨ known.truthy?.isSome = true))
      (next (.expr scope left)) (other (.expr scope left)) := by
    cases operator with
    | and =>
      exact (parts.guarding left (guards rfl)).mono fun _ _ guarded =>
        guarded.imp id fun known _ => known
    | or | coalesce => exact (parts.inner left).mono fun _ _ covers => ⟨covers, nofun⟩
  refine first.bind_or (parts.steadyFine _) whole fun known value ⟨covers, guarded⟩ => ?_
  cases decided : Evaluation.shortCircuits? operator known with
  | some answer =>
    rw [shortCircuits?_of_covers covers decided]
    cases answer
    · exact .inr (parts.inner right)
    · exact .inr (.pure covers)
  | none =>
    cases skips : s.coarse.flags.skipConditions with
    | true =>
      refine .inl ⟨.unknown .notEvaluated node, ?_, fun _ => .unknown ..⟩
      simp [blunt, skips]
    | false =>
      have branches : (!s.coarse.flags.skipConditions) = true := by simp [skips]
      simp only [blunt, sharp, skips, s.looks skips, Bool.false_eq_true, if_false]
      refine .inr ?_
      -- An undecided `and` is only accepted where conditions are left out.
      have alternatives : operator ≠ .and := by
        rintro rfl
        have undecided : known.truthy? = none := Option.map_eq_none_iff.1 decided
        simpa [skips, undecided] using guarded rfl
      cases Evaluation.shortCircuits? operator value with
      | none =>
        refine (parts.inner right).bind fun _ _ second => ?_
        cases operator with
        | and => exact absurd rfl alternatives
        | or | coalesce => exact .pure (.both branches covers second)
      | some answer =>
        cases operator with
        | and => exact absurd rfl alternatives
        | or | coalesce =>
          cases answer with
          | true => exact .before (parts.steady _) fun _ => .pure (.left branches covers)
          | false =>
            exact (parts.inner right).bind_done fun _ _ second => .pure (.right branches second)

omit parts in
/-- Without helpers nothing is known of calls. -/
theorem call_approximates {callee : Option Expr} {arguments : List Argument} :
    s.Approximates s.Covers (Evaluation.call next scope callee arguments node)
      (Evaluation.call other scope callee arguments node) := by
  have helpless : s.Approximates (fun known value => known = none ∧ value = none)
      (Evaluation.helper? callee) (Evaluation.helper? callee) := by
    unfold Evaluation.helper?
    split
    · exact .helper? _
    · exact .pure ⟨rfl, rfl⟩
  refine helpless.bind ?_
  rintro _ _ ⟨rfl, rfl⟩
  exact .pure (.unknown ..)

/-- What a step does inside an expression. -/
theorem reduce_approximates {expr : Expr} (same : outer = expr) :
    s.Approximates s.Covers (Evaluation.reduce s.blunt next scope expr node)
      (Evaluation.reduce s.sharp other scope expr node) := by
  subst same
  cases outer with
  | literal => exact .pure (covers_ofResult _)
  | optionalCall | assign | update | wrapped | definition | other => exact .pure (.unknown ..)
  | ident => exact name_approximates parts
  | template | tagged => exact template_approximates parts ""
  | array span items =>
    refine (elements_approximates parts fun value found => ?_).bind fun _ _ covers =>
      .pure (covers_list covers ..)
    exact List.mem_filterMap.2 ⟨_, found, rfl⟩
  | object span list =>
    exact (members_approximates parts .nil fun _ found => found).bind fun _ _ covers =>
      .pure (covers_map covers ..)
  | member | optionalMember => exact access_approximates parts
  | conditional => exact conditional_approximates parts
  | logical span operator left right =>
    exact logical_approximates parts fun same => same ▸ List.mem_singleton.2 rfl
  | binary span operator left right =>
    exact (parts.inner left).bind fun _ _ first => (parts.inner right).bind fun _ _ second =>
      .pure (first.binary second operator)
  | unary span operator operand =>
    cases operator with
    | void => exact .pure (.literal ..)
    | _ => exact (parts.inner operand).bind fun _ _ covers => .pure (covers.unary _)
  | call => exact call_approximates

end Expressions

/-- An expression is approximated when its parts are. -/
theorem expression_approximates {scope : Scope} {expr : Expr}
    (parts : s.Parts scope expr.unwrap next other) :
    s.Approximates s.Covers (Evaluation.expression s.blunt next scope expr)
      (Evaluation.expression s.sharp other scope expr) := by
  rw [Evaluation.expression_eq s.ungated, Evaluation.expression_eq s.ungatedFine]
  rw [show s.sharp.policy.flags.skipEvaluate = s.blunt.policy.flags.skipEvaluate from s.skipEvaluate]
  by_cases skipped : s.blunt.policy.flags.skipEvaluate = true
  · rw [if_pos skipped, if_pos skipped]
    exact .pure (.unknown ..)
  · rw [if_neg skipped, if_neg skipped]
    have steady := Evaluation.reduce_steady s.sharp parts.steadyFine
    exact (reduce_approximates parts rfl).inside (steady ..) _ _

section Names

variable {scope : Scope} {node : Reference}

/-- The parts of a value cover those of the values that it covers. -/
theorem covers_part {branching : Bool} (binding : Variable) {known value : Box}
    (covers : Box.Covers branching known value) :
    Box.Covers branching (binding.part node known) (binding.part node value) := by
  unfold Variable.part
  induction binding.path generalizing known value with
  | nil => exact covers
  | cons step rest ih => exact ih (covers.read step.toKey)

/-- Every part of the undefined value is undefined. -/
theorem part_undefinedAt (binding : Variable) (node : Reference) :
    binding.part node (.undefinedAt node) = .undefinedAt node := by
  unfold Variable.part
  induction binding.path with
  | nil => rfl
  | cons step rest ih => exact ih

/-- What a declaration takes apart is approximated and known well enough when its expression is. -/
theorem initial_approximates {binding : Variable}
    (parts : ∀ expr, s.Approximates (fun known value => s.Covers known value ∧
      binding.isClear (binding.part node known) = true)
      (next (.expr scope expr)) (other (.expr scope expr))) :
    s.Approximates (fun known value =>
      s.Covers (binding.part node known) (binding.part node value) ∧
        binding.isClear (binding.part node known) = true)
      (Evaluation.initial next scope binding node) (Evaluation.initial other scope binding node) := by
  unfold Evaluation.initial
  cases binding.init with
  | some init =>
    exact (parts init).mono fun _ _ ⟨covers, clear⟩ => ⟨covers_part binding covers, clear⟩
  | none =>
    refine .pure ?_
    rw [part_undefinedAt]
    exact ⟨.literal .., by simp [Variable.isClear, Box.undefinedAt, isDefinite]⟩

/-- A part of a value and its default, unless it is open whether the default applies. -/
theorem declared_approximates {binding : Variable} (steady : ∀ part, (other part).Steady)
    (parts : ∀ expr, s.Approximates (fun known value => s.Covers known value ∧
      binding.isClear (binding.part node known) = true)
      (next (.expr scope expr)) (other (.expr scope expr))) :
    s.Approximates s.Covers (Evaluation.declared next scope binding node)
      (Evaluation.declared other scope binding node) := by
  have whole := Evaluation.declared_steady s.sharp steady scope binding node
  have started := Evaluation.initial_steady steady scope binding node
  refine (initial_approximates parts).bind_or started whole fun known value ⟨covers, clear⟩ => ?_
  generalize binding.part node known = known at covers clear
  generalize binding.part node value = value at covers
  cases stated : binding.fallback with
  | none => exact .inr (.pure covers)
  | some fallback =>
    cases known with
    | unresolvable => exact .inl ⟨_, rfl, fun _ => .unknown ..⟩
    | conditional whenTrue whenFalse condition origin =>
      by_cases undefined : value.isUndefined = true
      · -- No known alternative is undefined, so one of them is unresolvable.
        have never : ∀ value ∈ (Box.conditional whenTrue whenFalse condition origin).possible,
            value.isUndefined = false := by
          simpa [Variable.isClear, stated, isDefinite] using clear
        exact .inl ⟨_, rfl, covers.of_undefined undefined never⟩
      · cases value with
        | literal value =>
          cases value with
          | undefined => exact absurd rfl undefined
          | _ => exact .inr (.pure covers)
        | _ => exact .inr (.pure covers)
    | literal primitive =>
      cases covers
      cases primitive with
      | undefined => exact .inr ((parts fallback).mono fun _ _ covered => covered.1)
      | _ => exact .inr (.pure (.literal ..))
    | list =>
      cases covers with
      | list lengths each => exact .inr (.pure (.list lengths each))
    | map =>
      cases covers with
      | map keys each => exact .inr (.pure (.map keys each))

/-- What is imported from a module is approximated when its exports are. -/
theorem forward_approximates {source : String} {imported : Imported}
    (one : ∀ path name, s.Approximates s.Covers (next (.exported path name node))
      (other (.exported path name node)))
    (all : ∀ path, s.Approximates s.Covers (next (.whole path node)) (other (.whole path node))) :
    s.Approximates s.Covers (Evaluation.forward s.blunt next scope source imported node)
      (Evaluation.forward s.sharp other scope source imported node) := by
  unfold Evaluation.forward
  rw [s.target?_eq]
  split
  · exact .pure (.unknown ..)
  · split
    · exact one _ _
    · exact all _

end Names

/-- What the cautious box of a task says of the finer one: it covers it, and where an export that a
module does not state itself is unbound, it is unbound for the finer evaluation as well. -/
def Meets (s : Sharpening) : Task → Box → Box → Prop
  | .exported path name _, known, value => s.Covers known value ∧
    ((s.project.scope path).export? name = none → known.reason? = some .unbound →
      value.reason? = some .unbound)
  | _, known, value => s.Covers known value

/-- What meets a task covers the finer box. -/
theorem Meets.covers {task : Task} {known value : Box} (meets : s.Meets task known value) :
    s.Covers known value := by
  cases task with
  | exported => exact meets.1
  | _ => exact meets

/-- The first of several modules that states an export. An unbound one is passed over on both sides,
since it is not stated there. -/
theorem search_approximates {scope : Scope} {name : String} {node : Reference}
    {sources : List String} (steady : ∀ part, (other part).Steady)
    (parts : ∀ path, s.Approximates (fun known value =>
      s.Meets (.exported path name node) known value ∧
        (((s.project.scope path).export? name).isNone = true ∨ known.reason? ≠ some .unbound))
      (next (.exported path name node)) (other (.exported path name node))) :
    s.Approximates (fun known value => s.Covers known value ∧
      (known.reason? = some .unbound → value.reason? = some .unbound))
      (Evaluation.search s.blunt next scope name node sources)
      (Evaluation.search s.sharp other scope name node sources) := by
  induction sources with
  | nil => exact .pure ⟨.unknown .., fun _ => rfl⟩
  | cons source rest ih =>
    have whole := Evaluation.search_steady s.sharp steady scope name node (source :: rest)
    unfold Evaluation.search at whole ⊢
    rw [s.target?_eq] at whole ⊢
    split
    · exact ih
    · rename_i path target
      refine (parts path).bind_or (steady _) (by simpa only [target] using whole)
        fun known value ⟨meets, stated⟩ => ?_
      by_cases unbound : known.reason? = some .unbound
      · have unstated : (s.project.scope path).export? name = none := by
          simpa [unbound] using stated
        rw [if_pos unbound, if_pos (meets.2 unstated unbound)]
        exact .inr ih
      · rw [if_neg unbound]
        by_cases missed : value.reason? = some .unbound
        · -- The coarse side may stand for anything, whatever the fine one finds further on.
          have all := meets.covers.of_unresolvable (by simp [isUnresolvable, missed])
          exact .inl ⟨known, rfl, fun box => ⟨all box, fun found => absurd found unbound⟩⟩
        · rw [if_neg missed]
          exact .inr (.pure ⟨meets.covers, fun found => absurd found unbound⟩)

/-- All exports of a module are approximated when each of them is. -/
theorem exports_approximates {path : Path} {node : Reference} {names : List String}
    (one : ∀ name, s.Approximates s.Covers (next (.exported path name node))
      (other (.exported path name node))) :
    s.Approximates (CoversEntries !s.coarse.flags.skipConditions)
      (Evaluation.exports next path node names) (Evaluation.exports other path node names) := by
  induction names with
  | nil => exact .pure .nil
  | cons name rest ih =>
    exact (one name).bind fun _ _ first => ih.bind fun _ _ others =>
      .pure (.cons ⟨rfl, first⟩ others)

/-- An expression or name of a task stands in a module of the project. -/
def Placed (s : Sharpening) : Task → Prop
  | .expr scope _ | .binding scope _ _ => ∃ path, scope = s.project.scope path
  | .exported .. | .whole .. => True

/-- Parts of an expression that its cautious evaluation accepts are known well enough. -/
theorem parts_of_accepted {scope : Scope} {expr : Expr}
    (placed : ∃ path, scope = s.project.scope path) (steady : ∀ part, (next part).Steady)
    (steadyFine : ∀ part, (other part).Steady)
    (parts : ∀ part, s.Placed part → s.Approximates (fun known value => s.Meets part known value ∧
      Task.accepts s.blunt (.expr scope expr) part known = true) (next part) (other part)) :
    s.Parts scope expr.unwrap next other := by
  have inner : ∀ part, s.Approximates (fun known value => s.Covers known value ∧
      Task.accepts s.blunt (.expr scope expr) (.expr scope part) known = true)
      (next (.expr scope part)) (other (.expr scope part)) := fun part =>
    parts (.expr scope part) placed
  refine ⟨steady, steadyFine, placed, fun part => (inner part).mono fun _ _ met => met.1,
    fun part decides => (inner part).mono fun known _ ⟨covers, accepted⟩ => ?_,
    fun part decides => (inner part).mono fun known _ ⟨covers, accepted⟩ => ?_,
    fun id node => (parts (.binding scope id node) placed).mono fun _ _ met => met.1,
    fun path name node => (parts (.exported path name node) trivial).mono
      fun _ _ met => met.1.covers⟩
  · simp only [Task.accepts, decides, not_true, decide_false, Bool.false_or, Bool.and_eq_true]
      at accepted
    exact ⟨covers, accepted.1⟩
  · simp only [Task.accepts, decides, not_true, decide_false, Bool.false_or, Bool.and_eq_true,
      Bool.or_eq_true] at accepted
    exact ⟨covers, accepted.2⟩

section Step

variable {task : Task} (placed : s.Placed task) (steady : ∀ part, (next part).Steady)
  (steadyFine : ∀ part, (other part).Steady)
  (parts : ∀ part, s.Placed part → s.Approximates (fun known value => s.Meets part known value ∧
    task.accepts s.blunt part known = true) (next part) (other part))

include placed steady steadyFine parts

/-- One unguarded step of a task is approximated when its parts are, each known as well as the step
needs it. -/
theorem step_approximates :
    s.Approximates (s.Meets task) (Evaluation.step s.blunt Guard.plain next task)
      (Evaluation.step s.sharp Guard.plain other task) := by
  have exported : ∀ path name node, s.Approximates s.Covers (next (.exported path name node))
      (other (.exported path name node)) := fun path name node =>
    (parts (.exported path name node) trivial).mono fun _ _ met => met.1.covers
  have whole : ∀ path node, s.Approximates s.Covers (next (.whole path node))
      (other (.whole path node)) := fun path node =>
    (parts (.whole path node) trivial).mono fun _ _ met => met.1.covers
  cases task with
  | expr scope expr =>
    exact expression_approximates (parts_of_accepted placed steady steadyFine parts)
  | binding scope id node =>
    -- That the step accepts the part is what tells whether the default applies.
    have bound : ∀ value, scope.binding? id = some (.variable value) → ∀ expr,
        s.Approximates (fun known box => s.Covers known box ∧
          value.isClear (value.part node known) = true)
          (next (.expr scope expr)) (other (.expr scope expr)) := by
      intro value bound expr
      refine (parts (.expr scope expr) placed).mono fun known box met => ?_
      have accepted := met.2
      simp only [Task.accepts, bound] at accepted
      exact ⟨met.1, accepted⟩
    change s.Approximates s.Covers
      (Evaluation.binding s.blunt Guard.plain next scope id node)
      (Evaluation.binding s.sharp Guard.plain other scope id node)
    unfold Evaluation.binding
    split
    · rename_i value found
      split
      · exact .pure (.unknown ..)
      · exact declared_approximates steadyFine (bound value found)
    · exact forward_approximates (fun path name => exported path name node)
        fun path => whole path node
    · exact .pure (.unknown ..)
    · exact .pure (.unknown ..)
  | exported path name node =>
    simp only [Evaluation.step, Evaluation.exported, Guard.plain, blunt_project, sharp_project]
    cases stated : (s.project.scope path).export? name with
    | some given =>
      have meets : ∀ known value, s.Covers known value →
          s.Meets (.exported path name node) known value := fun _ _ covers =>
        ⟨covers, fun missing => absurd (stated.symm.trans missing) (Option.some_ne_none _)⟩
      refine Approximates.mono ?_ meets
      cases given with
      | binding id => exact (parts (.binding _ id node) ⟨path, rfl⟩).mono fun _ _ met => met.1
      | forward source imported =>
        exact forward_approximates (fun path name => exported path name node)
          fun path => whole path node
      | value expr => exact (parts (.expr _ expr) ⟨path, rfl⟩).mono fun _ _ met => met.1
    | none =>
      dsimp only
      split
      · exact .pure ⟨.unknown .., fun _ _ => rfl⟩
      · -- A module may be passed over only where the finer search passes it over too.
        refine (search_approximates steadyFine fun place => ?_).mono fun known value met =>
          ⟨met.1, fun _ => met.2⟩
        refine (parts (.exported place name node) trivial).mono fun known value met => ⟨met.1, ?_⟩
        have accepted := met.2
        simp only [Task.accepts, blunt_project, stated, Option.isSome_none, Bool.false_or,
          Bool.or_eq_true, decide_eq_true_eq] at accepted
        exact accepted
  | whole path node =>
    refine (exports_approximates fun name => exported _ name node).bind fun _ _ covers => .pure ?_
    exact covers_map covers _ _

end Step

/-- What a cautious step goes on with is known well enough for it. -/
theorem accepted_approximates {related : Box → Box → Prop} {coarse : Task → Eval Box}
    {fine : Eval Box} {task part : Task} (inner : s.Approximates related (coarse part) fine) :
    s.Approximates (fun known value => related known value ∧
      task.accepts s.blunt part known = true)
      (Evaluation.accepted s.blunt coarse task part) fine where
  ends agree ended endedFine := by
    obtain ⟨⟨box, middle⟩, started, ended⟩ := Option.bind_eq_some_iff.1 ended
    have ended : (if task.accepts s.blunt part box then pure box else failure : Eval Box) middle =
      _ := ended
    split at ended
    · obtain ⟨rfl, rfl⟩ := Prod.mk.inj (Option.some_inj.1 ended)
      obtain ⟨agree, holds⟩ := inner.ends agree started endedFine
      exact ⟨agree, holds, by assumption⟩
    · cases ended

/-- A box of which nothing is known, other than for the want of a binding, says nothing. -/
theorem meets_unknown (task : Task) (reason : Reason) (node : Option Reference)
    (bound : reason ≠ .unbound) (value : Box) : s.Meets task (.unresolvable reason node) value := by
  cases task with
  | exported =>
    exact ⟨.unknown .., fun _ unbound => absurd (Option.some_inj.1 unbound) bound⟩
  | _ => exact .unknown ..

/-- Whatever the cautious evaluation of a task comes to in whichever depth, it covers what the finer
evaluation comes to. -/
theorem cautious_approximates (depth fuel : Nat) {task : Task} (placed : s.Placed task) :
    s.Approximates (s.Meets task) (Evaluation.cautious s.blunt depth task)
      (Evaluation.run s.sharp (.remembering false) fuel task) := by
  induction depth generalizing fuel task with
  | zero =>
    exact .settled (Evaluation.run_steady s.sharp fuel task)
      (meets_unknown task .notEvaluated _ (by decide))
  | succ depth ih =>
    cases fuel with
    | zero => exact ⟨fun _ _ ended => by cases ended⟩
    | succ fuel =>
      refine .orElse ?_ (Evaluation.run_steady s.sharp (fuel + 1) task)
        (meets_unknown task .notEvaluated _ (by decide))
      have body := step_approximates placed
        (Evaluation.accepted_steady s.blunt (Evaluation.cautious_steady s.blunt depth) task)
        (Evaluation.run_steady s.sharp fuel)
        fun part placed => accepted_approximates (ih fuel placed)
      rw [Evaluation.run, Evaluation.step_eq, Evaluation.step_eq s.sharp, s.goal?_eq]
      cases task.goal? s.blunt with
      | none => exact body
      | some goal => exact body.remembering goal _ (meets_unknown task .cycle _ (by decide))

/-- The box of the cautious evaluation of an expression covers that of the finer evaluation. -/
theorem covers_of_ends {depth fuel : Nat} {path : Path} {expr : Expr} {after final : Run}
    {known value : Box}
    (ended : Evaluation.cautious s.blunt depth (.expr (s.project.scope path) expr) {} =
      some (known, after))
    (endedFine : Evaluation.run s.sharp (.remembering false) fuel
      (.expr (s.project.scope path) expr) {} = some (value, final)) : s.Covers known value := by
  cases depth with
  | zero =>
    obtain ⟨rfl, _⟩ := Prod.mk.inj (Option.some_inj.1 ended)
    exact .unknown ..
  | succ depth =>
    cases fuel with
    | zero => cases endedFine
    | succ fuel =>
      -- The outermost expression is entered by both, which brings the environment into force on the
      -- fine side. Everything inside is approximated.
      rcases Eval.orElse_eq_some ended with ended | fallback
      · have parts := parts_of_accepted ⟨path, rfl⟩
          (Evaluation.accepted_steady s.blunt (Evaluation.cautious_steady s.blunt depth)
            (.expr (s.project.scope path) expr))
          (Evaluation.run_steady s.sharp fuel) fun part placed =>
            accepted_approximates (cautious_approximates depth fuel placed)
        change Evaluation.expression s.blunt _ (s.project.scope path) expr {} = _ at ended
        change Evaluation.expression s.sharp _ (s.project.scope path) expr {} = _ at endedFine
        rw [Evaluation.expression_eq s.ungated] at ended
        rw [Evaluation.expression_eq s.ungatedFine, show s.sharp.policy.flags.skipEvaluate =
          s.blunt.policy.flags.skipEvaluate from s.skipEvaluate] at endedFine
        split at ended
        · obtain ⟨rfl, _⟩ := Prod.mk.inj (Option.some_inj.1 ended)
          exact .unknown ..
        · rename_i evaluated
          rw [if_neg evaluated, Eval.inside_apply] at endedFine
          rw [Eval.inside_apply] at ended
          obtain ⟨⟨box, middle⟩, started, ended⟩ := Option.map_eq_some_iff.1 ended
          obtain ⟨⟨box', middleFine⟩, startedFine, endedFine⟩ :=
            Option.map_eq_some_iff.1 endedFine
          obtain ⟨rfl, _⟩ := Prod.mk.inj ended
          obtain ⟨rfl, _⟩ := Prod.mk.inj endedFine
          have agree := Agree.enter s expr.unwrap ((s.project.scope path).refer expr.unwrap.span)
          exact ((reduce_approximates parts rfl).ends agree started startedFine).2
      · obtain ⟨rfl, _⟩ := Prod.mk.inj (Option.some_inj.1 fallback)
        exact .unknown ..

/-- Cautious evaluation from the first state covers what the finer evaluation comes to. -/
theorem covers_cautiously {depth fuel : Nat} {path : Path} {expr : Expr} {final : Run} {value : Box}
    (ended : Evaluation.run s.sharp (.remembering false) fuel
      (.expr (s.project.scope path) expr) {} = some (value, final)) :
    s.Covers (s.blunt.cautiously depth path expr) value := by
  simp only [Setting.cautiously, blunt_project]
  split
  · rename_i cautious
    exact covers_of_ends cautious ended
  · exact .unknown ..

end Sharpening

end Glean
