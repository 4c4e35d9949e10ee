import Glean.Proofs.Box.Spreading
import Glean.Proofs.Evaluation.Avoiding
import Glean.Proofs.Evaluation.Operands

/-!
# The members of an object expression

The members of an object expression are evaluated one after the other. Each has its turn: the state
in which it is evaluated, and with it the entries that it gives to an object without other members
(`Turn.entries`). While no spread value is conditional, the object is made of what its members give
(`evaluate_object`), and under each key stands what the last member gives that gives anything there
(`get?_flatMap_entries`).
-/

namespace Glean

open Syntax Box

/-- The member states its key: it is no spread, and the key is not computed. -/
def Syntax.Member.Static : Member → Prop
  | .spread .. => False
  | .keyed _ key _ | .accessor _ _ key _ => key.names ≠ []
  | .shorthand .. | .defaulted .. => True

namespace Evaluation

variable {setting : Setting} {scope : Scope} {node : Reference} {next other : Task → Eval Box}

/-- A stated key is known without an evaluation. -/
theorem keyText_of_stated (setting : Setting) (next : Task → Eval Box) (scope : Scope) {key : Key}
    (stated : key.names ≠ []) :
    ∃ name, key.names = [name] ∧ keyText setting next scope key = pure (name, none) := by
  cases key with
  | computed => exact absurd rfl stated
  | _ => exact ⟨_, rfl, rfl⟩

/-! Members are evaluated alike when their parts are. -/

/-- The texts of a key depend on its expressions alone. -/
theorem keyText_congr {key : Key}
    (parts : ∀ part, .expr part ∈ key.parts →
      next (.expr scope part) = other (.expr scope part)) :
    keyText setting next scope key = keyText setting other scope key := by
  cases key with
  | computed span value => simp only [keyText, parts value (List.mem_singleton.2 rfl)]
  | _ => rfl

/-- What a member adds depends on its expressions alone. -/
theorem member_congr {member : Member}
    (parts : ∀ part, .expr part ∈ member.parts →
      next (.expr scope part) = other (.expr scope part))
    (named : ∀ span id, member = .shorthand span id →
      next (.expr scope (.ident span id)) = other (.expr scope (.ident span id)))
    (entries : Entries String Box) :
    Evaluation.member setting next scope node entries member =
      Evaluation.member setting other scope node entries member := by
  cases member with
  | spread span value => simp only [Evaluation.member, parts value (List.mem_singleton.2 rfl)]
  | shorthand span id => simp only [Evaluation.member, named span id rfl]
  | keyed span key value =>
    have text : keyText setting next scope key = keyText setting other scope key :=
      keyText_congr fun part inside => parts part (by simp [Member.parts, inside])
    simp only [Evaluation.member, text, parts value (by simp [Member.parts])]
  | accessor span kind key body =>
    have text : keyText setting next scope key = keyText setting other scope key :=
      keyText_congr fun part inside => parts part (by simp [Member.parts, inside])
    simp only [Evaluation.member, text]
  | defaulted => rfl

/-- What the members of an object add depends on their expressions alone. -/
theorem members_congr {list : List Member}
    (parts : ∀ member ∈ list, ∀ part, .expr part ∈ member.parts →
      next (.expr scope part) = other (.expr scope part))
    (named : ∀ span id, .shorthand span id ∈ list →
      next (.expr scope (.ident span id)) = other (.expr scope (.ident span id)))
    (entries : Entries String Box) :
    members setting next scope node entries list =
      members setting other scope node entries list := by
  induction list generalizing entries with
  | nil => rfl
  | cons first rest ih =>
    have here : ∀ entries, Evaluation.member setting next scope node entries first =
        Evaluation.member setting other scope node entries first :=
      member_congr (parts first (List.mem_cons_self ..))
        fun span id same => named span id (same ▸ List.mem_cons_self ..)
    have others := ih (fun member listed => parts member (List.mem_cons_of_mem _ listed))
      fun span id listed => named span id (List.mem_cons_of_mem _ listed)
    simp only [members, here, others]

end Evaluation

namespace Setting

variable {setting : Setting} {file : Document} {expr : Expr} {run : Run}

/-- A permitted object expression comes to the map of what its members come to one after the
other. -/
theorem evaluate_members (found : setting.project.file? file.path = some file) {span : Span}
    {list : List Member} (form : expr.unwrap = .object span list)
    (permitted : setting.Permits expr run) {entries : Entries String Box} {after : Run}
    (ends : Evaluation.members setting (setting.alone file) file.scope (file.scope.refer span) []
      list (setting.entered file.path expr run) = some (entries, after)) :
    ((setting.evaluate file.path expr).run run).1 = .map entries (some (file.scope.refer span)) := by
  have smaller : ∀ {part : Expr}, part.size < (Expr.object span list).size →
      Evaluation.run setting setting.guard (setting.fuel expr) (.expr file.scope part) =
        setting.alone file (.expr file.scope part) := fun size =>
    run_eq_alone_of_lt found (form ▸ size)
  have same : Evaluation.members setting (Evaluation.run setting setting.guard (setting.fuel expr))
        file.scope (file.scope.refer span) [] list =
      Evaluation.members setting (setting.alone file) file.scope (file.scope.refer span) [] list :=
    Evaluation.members_congr
      (fun member listed part inside => smaller (Expr.size_member_lt listed inside))
      (fun place id listed => smaller (Expr.size_shorthand_lt listed)) []
  refine evaluate_of_reduced permitted (Nat.le_refl _) ?_
  rw [refer, scopeAt_of_found run found, form]
  simp only [Evaluation.reduce, Expr.span, same, Eval.bind_apply, ends, Option.bind_some,
    Eval.pure_apply, Option.map_some]

end Setting

/-- A member of an object expression and the state in which it is evaluated. -/
structure Turn where
  /-- The member. -/
  member : Member
  /-- The state. -/
  state : Run

namespace Turn

variable (setting : Setting) (file : Document) (node : Reference) (turn : Turn)

/-- The entries of an object at a node that has the member only, and the state after it. -/
def outcome : Entries String Box × Run :=
  (Evaluation.member setting (setting.alone file) file.scope node [] turn.member turn.state).getD
    ([], turn.state)

/-- What the member gives to an object at a node. -/
def entries : Entries String Box := (turn.outcome setting file node).1

/-- The value of the member, if it is spread, is not conditional. -/
def isSettled : Bool :=
  match turn.member with
  | .spread _ value => ((setting.evaluate file.path value).run turn.state).1.branches?.isNone
  | _ => true

/-- The last of several turns in which something is given under a key. -/
def giver? (turns : List Turn) (key : String) : Option Turn :=
  turns.reverse.find? fun turn => Entries.contains (turn.entries setting file node) key

end Turn

namespace Setting

/-- The turns of members, the first of them from a given state. -/
def turns (setting : Setting) (file : Document) (node : Reference) : List Member → Run → List Turn
  | [], _ => []
  | first :: rest, run =>
    let turn : Turn := ⟨first, run⟩
    turn :: turns setting file node rest (turn.outcome setting file node).2

/-- The turns of an object are those of its members, in order. -/
theorem map_member_turns (setting : Setting) (file : Document) (node : Reference)
    (list : List Member) (run : Run) : (setting.turns file node list run).map Turn.member = list := by
  induction list generalizing run with
  | nil => rfl
  | cons first rest ih => simp [turns, ih]

end Setting

/-- The key of a member of a file is always found. -/
theorem Setting.keyText_alone (setting : Setting) (file : Document) (key : Key) (run : Run) :
    ∃ text box after,
      Evaluation.keyText setting (setting.alone file) file.scope key run =
        some ((text, box), after) := by
  cases key with
  | computed span value =>
    have ends : setting.alone file (.expr file.scope value) run =
      some ((setting.evaluate file.path value).run run) := rfl
    simp only [Evaluation.keyText, Eval.bind_apply, ends, Option.bind_some]
    cases ((setting.evaluate file.path value).run run).1 <;> exact ⟨_, _, _, rfl⟩
  | _ => exact ⟨_, _, _, rfl⟩

namespace Turn

variable {setting : Setting} {file : Document} {node : Reference} {turn : Turn}

/-- In its turn, a settled member puts what it gives over the entries before it. -/
theorem member_of_settled (settled : turn.isSettled setting file = true)
    {before : Entries String Box} (apart : (Entries.keys before).Nodup) :
    (Entries.keys (turn.entries setting file node)).Nodup ∧
      Evaluation.member setting (setting.alone file) file.scope node before turn.member turn.state =
        some (Entries.insertAll before (turn.entries setting file node),
          (turn.outcome setting file node).2) := by
  obtain ⟨member, state⟩ := turn
  have evaluated : ∀ part run, setting.alone file (.expr file.scope part) run =
    some ((setting.evaluate file.path part).run run) := fun _ _ => rfl
  cases member with
  | spread span value =>
    have single : ((setting.evaluate file.path value).run state).1.branches? = none :=
      Option.isNone_iff_eq_none.1 settled
    simp only [entries, outcome, Evaluation.member, Eval.bind_apply, evaluated, Option.bind_some,
      Eval.pure_apply, Option.getD_some, spread_of_value single]
    refine ⟨Entries.nodup_ofList _, ?_⟩
    rw [show Entries.insertAll [] _ = Entries.ofList _ from rfl, Entries.insertAll_ofList apart]
  | shorthand span id =>
    simp only [entries, outcome, Evaluation.member, Eval.bind_apply, evaluated, Option.bind_some,
      Eval.pure_apply, Option.getD_some]
    exact ⟨Entries.nodup_insert Entries.nodup_nil _ _, rfl⟩
  | keyed span key value =>
    obtain ⟨text, box, after, named⟩ := setting.keyText_alone file key state
    simp only [entries, outcome, Evaluation.member, Eval.bind_apply, named, Option.bind_some]
    cases box with
    | none => exact ⟨Entries.nodup_insert Entries.nodup_nil _ _, rfl⟩
    | some box => exact ⟨Entries.nodup_insert Entries.nodup_nil _ _, rfl⟩
  | accessor span kind key body =>
    obtain ⟨text, box, after, named⟩ := setting.keyText_alone file key state
    simp only [entries, outcome, Evaluation.member, Eval.bind_apply, named, Option.bind_some]
    exact ⟨Entries.nodup_insert Entries.nodup_nil _ _, rfl⟩
  | defaulted => exact ⟨Entries.nodup_nil, rfl⟩

/-- A member that states its key gives something under this key only. -/
theorem keys_entries_of_static (static : turn.member.Static) :
    Entries.keys (turn.entries setting file node) = turn.member.names := by
  obtain ⟨member, state⟩ := turn
  have evaluated : ∀ part run, setting.alone file (.expr file.scope part) run =
    some ((setting.evaluate file.path part).run run) := fun _ _ => rfl
  cases member with
  | spread => exact static.elim
  | shorthand span id => rfl
  | keyed span key value =>
    obtain ⟨name, names, text⟩ :=
      Evaluation.keyText_of_stated setting (setting.alone file) file.scope static
    simp only [entries, outcome, Evaluation.member, text]
    exact names.symm
  | accessor span kind key body =>
    obtain ⟨name, names, text⟩ :=
      Evaluation.keyText_of_stated setting (setting.alone file) file.scope static
    simp only [entries, outcome, Evaluation.member, text]
    exact names.symm
  | defaulted => rfl

/-- Static members have the keys that are written, in order. -/
theorem keys_flatMap_of_static {turns : List Turn} (static : ∀ turn ∈ turns, turn.member.Static) :
    Entries.keys (turns.flatMap (Turn.entries setting file node)) =
      (turns.map Turn.member).flatMap Member.names := by
  rw [Entries.keys, List.map_flatMap, List.flatMap_map]
  exact List.flatMap_congr fun turn listed => keys_entries_of_static (static turn listed)

/-- The keys of a static member are settled. -/
theorem isSettled_of_static (static : turn.member.Static) : turn.isSettled setting file = true := by
  obtain ⟨member, state⟩ := turn
  cases member with
  | spread => exact static.elim
  | _ => rfl

/-! ### The last to give something under a key -/

/-- A key has its giver among the later turns, or else in the first one, if that has the key. -/
theorem giver?_cons (first : Turn) (rest : List Turn) (key : String) :
    giver? setting file node (first :: rest) key =
      (giver? setting file node rest key).or
        (if Entries.contains (first.entries setting file node) key then some first else none) := by
  by_cases held : Entries.contains (first.entries setting file node) key <;>
    simp [giver?, List.find?_append, held]

/-- Who gives something under a key is one of the turns and does so. -/
theorem of_giver? {turns : List Turn} {key : String}
    (given : giver? setting file node turns key = some turn) :
    turn ∈ turns ∧ Entries.contains (turn.entries setting file node) key = true := by
  unfold giver? at given
  exact ⟨List.mem_reverse.1 (List.mem_of_find?_eq_some given), by simpa using List.find?_some given⟩

/-- Under each key stands what the last one gives that gives anything there. -/
theorem get?_flatMap_entries {turns : List Turn}
    (apart : ∀ turn ∈ turns, (Entries.keys (turn.entries setting file node)).Nodup) (key : String) :
    Entries.get? (Entries.ofList (turns.flatMap (Turn.entries setting file node))) key =
      (giver? setting file node turns key).bind fun turn =>
        Entries.get? (turn.entries setting file node) key := by
  induction turns with
  | nil => rfl
  | cons first rest ih =>
    obtain ⟨here, later⟩ := List.forall_mem_cons.1 apart
    have split : Entries.ofList ((first :: rest).flatMap (Turn.entries setting file node)) =
        Entries.insertAll (Entries.ofList (first.entries setting file node))
          (rest.flatMap (Turn.entries setting file node)) := by
      rw [List.flatMap_cons, Entries.ofList, Entries.insertAll, List.foldl_append]
      rfl
    rw [split, Entries.get?_insertAll, Entries.ofList_of_nodup here, ih later, giver?_cons]
    cases given : giver? setting file node rest key with
    | none =>
      cases held : Entries.get? (first.entries setting file node) key <;>
        simp [Entries.contains, held]
    | some turn =>
      obtain ⟨box, found⟩ := Option.isSome_iff_exists.1 (of_giver? given).2
      simp [found]

end Turn

namespace Setting

variable {setting : Setting} {file : Document} {node : Reference}

/-- What each of several settled members gives has each key once. -/
theorem nodup_entries_of_settled {turns : List Turn}
    (settled : ∀ turn ∈ turns, turn.isSettled setting file = true) :
    ∀ turn ∈ turns, (Entries.keys (turn.entries setting file node)).Nodup :=
  fun turn listed => (Turn.member_of_settled (settled turn listed) Entries.nodup_nil).1

/-- Settled members put what they give one over the other. -/
theorem members_of_settled {list : List Member} {run : Run}
    (settled : ∀ turn ∈ setting.turns file node list run, turn.isSettled setting file = true)
    {before : Entries String Box} (apart : (Entries.keys before).Nodup) :
    ∃ after, Evaluation.members setting (setting.alone file) file.scope node before list run =
      some (Entries.insertAll before ((setting.turns file node list run).flatMap
        (Turn.entries setting file node)), after) := by
  induction list generalizing before run with
  | nil => exact ⟨run, rfl⟩
  | cons first rest ih =>
    obtain ⟨here, later⟩ := List.forall_mem_cons.1 settled
    obtain ⟨_, put⟩ := Turn.member_of_settled here apart
    obtain ⟨after, others⟩ := ih later (Entries.nodup_insertAll apart _)
    refine ⟨after, ?_⟩
    simp only [Evaluation.members, Eval.bind_apply]
    rw [put, Option.bind_some, others, turns, List.flatMap_cons, Entries.insertAll,
      Entries.insertAll, Entries.insertAll, List.foldl_append]

/-- A permitted object expression, none of whose spread values is conditional, is made of what its
members give. -/
theorem evaluate_object (found : setting.project.file? file.path = some file) {expr : Expr}
    {run : Run} {span : Span} {list : List Member} (form : expr.unwrap = .object span list)
    (permitted : setting.Permits expr run) :
    let node := file.scope.refer span
    let turns := setting.turns file node list (setting.entered file.path expr run)
    (∀ turn ∈ turns, turn.isSettled setting file = true) →
      ((setting.evaluate file.path expr).run run).1 =
        .map (Entries.ofList (turns.flatMap (Turn.entries setting file node))) (some node) := by
  intro node turns settled
  obtain ⟨after, ends⟩ := members_of_settled settled Entries.nodup_nil
  exact evaluate_members found form permitted ends

/-- A permitted object expression whose members state their keys has these keys. -/
theorem evaluate_stated (found : setting.project.file? file.path = some file) {expr : Expr}
    {run : Run} {span : Span} {list : List Member} (form : expr.unwrap = .object span list)
    (permitted : setting.Permits expr run) (static : ∀ member ∈ list, member.Static) :
    ∃ entries, ((setting.evaluate file.path expr).run run).1 =
        .map entries (some (file.scope.refer span)) ∧
      (Entries.keys entries).Nodup ∧
      ∀ key, key ∈ Entries.keys entries ↔ key ∈ list.flatMap Member.names := by
  let node := file.scope.refer span
  let turns := setting.turns file node list (setting.entered file.path expr run)
  have members : turns.map Turn.member = list := setting.map_member_turns ..
  have stated : ∀ turn ∈ turns, turn.member.Static := fun turn listed =>
    static _ (members ▸ List.mem_map.2 ⟨turn, listed, rfl⟩)
  have settled : ∀ turn ∈ turns, turn.isSettled setting file = true := fun turn listed =>
    Turn.isSettled_of_static (stated turn listed)
  refine ⟨_, evaluate_object found form permitted settled, Entries.nodup_ofList _, fun key => ?_⟩
  rw [← Entries.contains_iff, Entries.contains_ofList, Entries.contains_iff,
    Turn.keys_flatMap_of_static stated, members]

/-- A permitted object expression with a spread member alone is what the value is spread into. -/
theorem evaluate_spread (found : setting.project.file? file.path = some file) {run : Run}
    {span place : Span} {value : Expr}
    (permitted : setting.Permits (.object span [.spread place value]) run) :
    let inside := setting.entered file.path (.object span [.spread place value]) run
    let node := file.scope.refer span
    ((setting.evaluate file.path (.object span [.spread place value])).run run).1 =
      .map (((setting.evaluate file.path value).run inside).1.spread
        (setting.sourceOfSpread file.scope place) node []) (some node) := by
  intro inside node
  exact evaluate_members found rfl permitted rfl

/-- Where a permitted object expression only spreads an undecided choice between two object
expressions that state their keys, what the outcomes give is merged. -/
theorem evaluate_choice (found : setting.project.file? file.path = some file) {run : Run}
    {span place branch spanTrue spanFalse : Span} {value test whenTrue whenFalse : Expr}
    {left right : List Member} (permitted : setting.Permits (.object span [.spread place value]) run)
    (form : value.unwrap = .conditional branch test whenTrue whenFalse)
    (first : whenTrue.unwrap = .object spanTrue left)
    (second : whenFalse.unwrap = .object spanFalse right)
    (static : ∀ member ∈ left ++ right, member.Static)
    (both : setting.policy.flags.skipConditions = false) :
    let spreading := setting.entered file.path (.object span [.spread place value]) run
    let tested := (setting.evaluate file.path test).run (setting.entered file.path value spreading)
    let yes := (setting.evaluate file.path whenTrue).run tested.2
    let no := (setting.evaluate file.path whenFalse).run yes.2
    let one := yes.1.entries?.getD []
    let other := no.1.entries?.getD []
    setting.Permits value spreading →
    setting.Permits whenTrue tested.2 → setting.Permits whenFalse yes.2 →
    tested.1.truthy? = none →
    ((setting.evaluate file.path (.object span [.spread place value])).run run).1 =
        .map (merge (some (file.scope.refer test.span)) (file.scope.refer span) one other)
          (some (file.scope.refer span)) ∧
      ((Entries.keys one).Nodup ∧ ∀ key, key ∈ Entries.keys one ↔ key ∈ left.flatMap Member.names) ∧
      (Entries.keys other).Nodup ∧
        ∀ key, key ∈ Entries.keys other ↔ key ∈ right.flatMap Member.names := by
  intro spreading tested yes no one other permitsValue permitsTrue permitsFalse undecided
  obtain ⟨staticTrue, staticFalse⟩ := List.forall_mem_append.1 static
  obtain ⟨given, oneEnds, apartOne, keysOne⟩ := evaluate_stated found first permitsTrue staticTrue
  obtain ⟨givenNext, otherEnds, apartOther, keysOther⟩ :=
    evaluate_stated found second permitsFalse staticFalse
  have oneGiven : one = given := congrArg (·.entries?.getD []) oneEnds
  have otherGiven : other = givenNext := congrArg (·.entries?.getD []) otherEnds
  rw [oneGiven, otherGiven]
  refine ⟨?_, ⟨apartOne, keysOne⟩, apartOther, keysOther⟩
  have alone : ∀ {entries : Entries String Box}, (Entries.keys entries).Nodup →
      Entries.insertAll [] entries = entries := Entries.ofList_of_nodup
  rw [evaluate_spread found permitted,
    evaluate_conditional found form permitsValue both undecided, oneEnds, otherEnds]
  simp only [Box.spread, alone apartOne, alone apartOther]

end Setting

end Glean
