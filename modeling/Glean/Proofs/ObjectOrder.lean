import Glean.Proofs.Evaluation.Members
import Glean.Proofs.Evaluation.Reachable
import Mathlib.Data.List.Perm.Basic

/-!
# The order of the members of an object

The members of an object expression that state their keys are worked out one after the other, from
states that look alike. Each comes to the same box wherever it stands, so with all keys apart the
members may be written in any order (`evaluate_reordered`).

The policy sees the whole expression and may tell the orders apart.
-/

namespace Glean

open Syntax Box

namespace Setting

variable (setting : Setting) (start : Run) (scope : Scope)

/-- What a member that states its key adds to the entries of an object, worked out from a state. -/
def stored (member : Member) : Entries String Box :=
  match member with
  | .keyed _ key value => key.names.map fun name => (name, setting.boxFrom start scope value)
  | .shorthand span id => [(id.name, setting.boxFrom start scope (.ident span id))]
  | .accessor span _ key _ =>
    key.names.map fun name => (name, .unknown .unsupported (scope.refer span))
  | .spread .. | .defaulted .. => []

/-- A plain member is stored under its names. -/
theorem keys_stored (member : Member) :
    Entries.keys (setting.stored start scope member) = member.names := by
  cases member <;> simp [stored, Entries.keys, Member.names, Function.comp_def]

/-- Plain members are stored under their names, in order. -/
theorem keys_flatMap_stored (members : List Member) :
    Entries.keys (members.flatMap (setting.stored start scope)) =
      members.flatMap Member.names := by
  simp only [Entries.keys, List.map_flatMap]
  exact congrArg (members.flatMap ·) (funext (setting.keys_stored start scope))

end Setting

namespace Evaluation

variable {setting : Setting} {start : Run} {scope : Scope} {next : Task → Eval Box}
  {node : Reference}

/-- A member that states its key puts its box under the key. -/
theorem comesFrom_member (node : Reference) {member : Member} (static : member.Static)
    (entries : Entries String Box)
    (parts : ∀ part, .expr part ∈ member.parts →
      Eval.ComesFrom start (next (.expr scope part)) (setting.boxFrom start scope part))
    (named : ∀ span id, member = .shorthand span id →
      Eval.ComesFrom start (next (.expr scope (.ident span id)))
        (setting.boxFrom start scope (.ident span id))) :
    Eval.ComesFrom start (Evaluation.member setting next scope node entries member)
      (Entries.insertAll entries (setting.stored start scope member)) := by
  cases member with
  | spread => exact static.elim
  | defaulted => exact .pure _
  | shorthand span id => exact .bind (named span id rfl) (.pure _)
  | keyed span key value =>
    obtain ⟨name, names, text⟩ := keyText_of_stated setting next scope static
    have inside : Node.expr value ∈ (Member.keyed span key value).parts := by simp [Member.parts]
    simp only [Evaluation.member, text, Setting.stored, names]
    exact .bind (.pure (name, none)) (.bind (parts value inside) (.pure _))
  | accessor span kind key body =>
    obtain ⟨name, names, text⟩ := keyText_of_stated setting next scope static
    simp only [Evaluation.member, text, Setting.stored, names]
    exact .bind (.pure (name, none)) (.pure _)

/-- The members of an object put their boxes under their keys. -/
theorem comesFrom_members {members : List Member} (static : ∀ member ∈ members, member.Static)
    (entries : Entries String Box)
    (parts : ∀ member ∈ members, ∀ part, .expr part ∈ member.parts →
      Eval.ComesFrom start (next (.expr scope part)) (setting.boxFrom start scope part))
    (named : ∀ span id, .shorthand span id ∈ members →
      Eval.ComesFrom start (next (.expr scope (.ident span id)))
        (setting.boxFrom start scope (.ident span id))) :
    Eval.ComesFrom start (Evaluation.members setting next scope node entries members)
      (Entries.insertAll entries (members.flatMap (setting.stored start scope))) := by
  induction members generalizing entries with
  | nil => exact .pure _
  | cons first rest ih =>
    have put := comesFrom_member node (static first (List.mem_cons_self ..)) entries
      (parts first (List.mem_cons_self ..))
      fun span id same => named span id (same ▸ List.mem_cons_self ..)
    have others := ih (fun member listed => static member (List.mem_cons_of_mem _ listed))
      (Entries.insertAll entries (setting.stored start scope first))
      (fun member listed => parts member (List.mem_cons_of_mem _ listed))
      (fun span id listed => named span id (List.mem_cons_of_mem _ listed))
    rw [List.flatMap_cons, Entries.insertAll, List.foldl_append]
    exact .bind put others

/-- An object expression that the policy admits comes to the map of what its members store. -/
theorem boxFrom_object (start : Run) {span : Span} {members : List Member}
    (evaluates : setting.policy.flags.skipEvaluate = false) (unknown : start.known = [])
    (free : setting.policy.isStackSensitive = false → start.overrides = [])
    (within : (Task.expr scope (.object span members)).Within setting.project)
    (admits : ∀ gate, setting.policy.gate = some gate →
      gate (.object span members) start.stack = true)
    (static : ∀ member ∈ members, member.Static)
    (apart : (members.flatMap Member.names).Nodup) :
    let inside := start.enter (scope.refer span)
      (setting.policy.overridesFor (.object span members) start.stack)
    setting.boxFrom start scope (.object span members) =
      .map (members.flatMap (setting.stored inside scope)) (some (scope.refer span)) := by
  intro inside
  obtain ⟨fuel, depth⟩ := Nat.exists_eq_add_one.2
    (setting.depth_pos start.inProgress (.expr scope (.object span members)))
  have freeInside : setting.policy.isStackSensitive = false → inside.overrides = [] := by
    intro calm
    simp [inside, Run.enter, Run.Corresponds.overridesFor_eq_none calm, free calm]
  -- The members are worked out with one unit of fuel less, which still covers their depth.
  have smaller : ∀ part : Expr, part.size < (Expr.object span members).size →
      Eval.ComesFrom inside
        (Evaluation.run setting (.remembering false) fuel (.expr scope part))
        (setting.boxFrom inside scope part) := by
    intro part size
    have calls : setting.Calls (.expr scope (.object span members)) (.expr scope part) := .inner size
    have less := Setting.depth_lt_of_calls calls rfl start.inProgress
    rw [depth] at less
    exact Setting.comesFrom_boxFrom unknown freeInside within (Nat.le_of_lt_succ less)
  have entries : Eval.ComesFrom inside
      (Evaluation.members setting (Evaluation.run setting (.remembering false) fuel) scope
        (scope.refer span) [] members)
      (Entries.insertAll [] (members.flatMap (setting.stored inside scope))) :=
    comesFrom_members static []
      (fun member listed part found => smaller part (Expr.size_member_lt listed found))
      (fun place id listed => smaller _ (Expr.size_shorthand_lt listed))
  have distinct : (Entries.keys (members.flatMap (setting.stored inside scope))).Nodup := by
    rw [Setting.keys_flatMap_stored]
    exact apart
  rw [show Entries.insertAll [] _ = _ from Entries.ofList_of_nodup distinct] at entries
  refine Setting.boxFrom_eq unknown ?_
  rw [depth]
  change Eval.ComesFrom start (Evaluation.expression setting _ scope (.object span members)) _
  unfold Evaluation.expression
  simp only [Expr.unwrap, evaluates]
  exact .bind (.allowed admits) (.inside (.bind entries (.pure _)))

end Evaluation

/-- From a state between evaluations, an admitted object expression whose members state their keys
comes to a map that looks like that of what its members store. -/
theorem Setting.Quiet.evaluate_object {setting : Setting} {run : Run} (quiet : setting.Quiet run)
    {path : Path} {scope : Scope} (here : ((setting.scopeAt path).run run).1 = scope) {span : Span}
    {members : List Member} (evaluates : setting.policy.flags.skipEvaluate = false)
    (admits : ∀ gate, setting.policy.gate = some gate →
      gate (.object span members) run.stack = true)
    (static : ∀ member ∈ members, member.Static)
    (apart : (members.flatMap Member.names).Nodup) :
    let inside : Run := Run.enter { stack := run.stack } (scope.refer span)
      (setting.policy.overridesFor (.object span members) run.stack)
    Alike .blind
      (.map (members.flatMap (setting.stored inside scope)) (some (scope.refer span)))
      ((setting.evaluate path (.object span members)).run run).1 := by
  obtain ⟨place, strangers, _, located, alike, _⟩ := quiet.evaluate path (.object span members)
  obtain rfl : setting.project.scope place = scope := by rw [← here, located]
  rwa [Evaluation.boxFrom_object { stack := run.stack } evaluates rfl (fun _ => rfl)
    ⟨place, rfl⟩ admits static apart] at alike

/-- The members of an object expression that state their keys may be written in any order: with all
keys apart, and where the policy treats both expressions alike, both come to maps with the same keys
and equal boxes under them, whatever was evaluated before. -/
theorem evaluate_reordered (setting : Setting) (run : Run) (path : Path) (span : Span)
    (members others : List Member) (reachable : setting.Reachable run)
    (evaluates : setting.policy.flags.skipEvaluate = false)
    (admits : ∀ gate, setting.policy.gate = some gate →
      gate (.object span members) run.stack = true ∧ gate (.object span others) run.stack = true)
    (brings : setting.policy.overridesFor (.object span members) run.stack =
      setting.policy.overridesFor (.object span others) run.stack)
    (static : ∀ member ∈ members, member.Static)
    (apart : (members.flatMap Member.names).Nodup) (perm : members.Perm others) :
    ∃ first second node twin,
      ((setting.evaluate path (.object span members)).run run).1 = .map first node ∧
      ((setting.evaluate path (.object span others)).run run).1 = .map second twin ∧
      Entries.keys first = members.flatMap Member.names ∧
      (Entries.keys first).Perm (Entries.keys second) ∧
      ∀ key, (Entries.get? first key == Entries.get? second key) = true := by
  have quiet := reachable.quiet
  generalize here : ((setting.scopeAt path).run run).1 = scope
  have apartOthers : (others.flatMap Member.names).Nodup :=
    (perm.flatMap_right Member.names).nodup_iff.1 apart
  have alike := quiet.evaluate_object here evaluates (fun gate gated => (admits gate gated).1) static
    apart
  have alikeOthers := quiet.evaluate_object here evaluates (fun gate gated => (admits gate gated).2)
    (fun member listed => static member (perm.mem_iff.2 listed)) apartOthers
  -- The policy treats both alike, so both are worked out from one state.
  rw [← brings] at alikeOthers
  dsimp only at alike alikeOthers
  generalize Run.enter _ _ _ = inside at alike alikeOthers
  obtain ⟨first, node, comes, keys, entries⟩ := alike.exists_map
  obtain ⟨second, twin, comesOthers, keysOthers, entriesOthers⟩ := alikeOthers.exists_map
  have stored := perm.flatMap_right (setting.stored inside scope)
  refine ⟨first, second, node, twin, comes, comesOthers, ?_, ?_, fun key => ?_⟩
  · rw [keys, Setting.keys_flatMap_stored]
  · rw [keys, keysOthers]
    exact stored.map Prod.fst
  · have distinct : (Entries.keys (members.flatMap (setting.stored inside scope))).Nodup := by
      rw [Setting.keys_flatMap_stored]
      exact apart
    -- With all keys apart, what is found under a key does not depend on the order.
    have looked : (Entries.get? first key).map (seen .blind) =
        (Entries.get? second key).map (seen .blind) := by
      rw [← entries.get? key, ← entriesOthers.get? key, Entries.get?_perm stored distinct]
    cases held : Entries.get? first key with
    | none =>
      rw [held] at looked
      rw [Option.map_eq_none_iff.1 looked.symm]
      rfl
    | some box =>
      rw [held] at looked
      obtain ⟨other, found, same⟩ := Option.map_eq_some_iff.1 looked.symm
      rw [found]
      exact Alike.beq (show Alike .blind box other from same.symm)

/-- `const o = { d: o };` -/
def selfModule : Module :=
  ⟨[.declarations [.mk (.ident ⟨"o", 1⟩)
    (some (.object ⟨11, 19⟩ [.keyed ⟨13, 17⟩ (.name "d") (.ident ⟨16, 17⟩ ⟨"o", 1⟩)]))]]⟩

/-- Members that share a circular binding may be exchanged, also after it was evaluated. -/
theorem evaluate_reordered_circular :
    let file := Document.make ⟨"/a.ts"⟩ "" selfModule
    let setting : Setting := { project := Project.insert {} file }
    let whole : Expr := .ident ⟨7, 8⟩ ⟨"o", 1⟩
    let run := ((setting.evaluate file.path whole).run {}).2
    let members : List Member := [.shorthand ⟨7, 8⟩ ⟨"o", 1⟩,
      .keyed ⟨13, 17⟩ (.string "d") (.member ⟨16, 17⟩ whole (.name "d"))]
    let others : List Member := members.reverse
    (setting.Reachable run ∧ (∀ member ∈ members, member.Static) ∧
      (members.flatMap Member.names).Nodup ∧ members.Perm others) ∧
    ∃ first second node twin,
      ((setting.evaluate file.path (.object ⟨1, 2⟩ members)).run run).1 = .map first node ∧
      ((setting.evaluate file.path (.object ⟨1, 2⟩ others)).run run).1 = .map second twin ∧
      Entries.keys first = members.flatMap Member.names ∧
      (Entries.keys first).Perm (Entries.keys second) ∧
      ∀ key, (Entries.get? first key == Entries.get? second key) = true := by
  intro file setting whole run members others
  have reachable : setting.Reachable run := .evaluate .start file.path whole
  have static : ∀ member ∈ members, member.Static := by
    simp [members, Member.Static, Key.names]
  have apart : (members.flatMap Member.names).Nodup := by
    simp [members, Member.names, Key.names]
  have perm : members.Perm others := members.reverse_perm.symm
  exact ⟨⟨reachable, static, apart, perm⟩,
    evaluate_reordered setting run file.path ⟨1, 2⟩ members others reachable rfl nofun rfl static
      apart perm⟩

/-- A gate that refuses object expressions. -/
def refusingObjects : Gate := fun expr _ => expr.typeName ≠ "ObjectExpression"

/-- Where the gate refuses objects, an object expression comes to no map in any order. -/
theorem not_evaluate_reordered_refused :
    let file := Document.make ⟨"/a.ts"⟩ "" ⟨[]⟩
    let setting : Setting :=
      { project := Project.insert {} file, policy := { gate := some refusingObjects } }
    let members : List Member := [.keyed ⟨18, 22⟩ (.name "a") (.literal ⟨21, 22⟩ (.string "x")),
      .keyed ⟨24, 28⟩ (.name "b") (.literal ⟨27, 28⟩ (.string "y"))]
    setting.Reachable {} ∧ (∀ member ∈ members, member.Static) ∧
      (members.flatMap Member.names).Nodup ∧
      ∀ others, members.Perm others →
        (((setting.evaluate file.path (.object ⟨16, 30⟩ others)).run {}).1).entries? = none := by
  intro file setting members
  refine ⟨.start, by simp [members, Member.Static, Key.names],
    by simp [members, Member.names, Key.names], fun others _ => ?_⟩
  have found : setting.project.file? file.path = some file := Project.file?_insert {} file
  obtain ⟨box, after, evaluated, _, ends⟩ :=
    Setting.evaluate_of_found {} found (.object ⟨16, 30⟩ others)
  have ended := ends (setting.fuel (.object ⟨16, 30⟩ others) + 1) (Nat.le_succ _)
  have denied : Evaluation.run setting setting.guard
      (setting.fuel (.object ⟨16, 30⟩ others) + 1) (.expr file.scope (.object ⟨16, 30⟩ others)) {} =
      some (.unknown .denied (file.scope.refer ⟨16, 30⟩),
        { events := [.gate (.object ⟨16, 30⟩ others) [] false] }) := rfl
  rw [evaluated, (Prod.mk.inj (Option.some_inj.1 (ended.symm.trans denied))).1]
  rfl

end Glean
