import Glean.Proofs.Evaluation.Following
import Glean.Proofs.StarExports

/-!
# Objects of all exports

`import * as all from "./m"` binds a name to all exports of a module. A member read from that name
is the one export, worked out alone; read from the object as a value, after it was given another name
or taken apart by a declaration, it is an entry of the object.

Where no cycle is met both come to the same for every export that the module states itself. The
object has no entry for what the module exports through other modules, so that reads as undefined
(`evaluate_rereads_whole`).
-/

namespace Glean

open Syntax Box

namespace Setting

variable {setting : Setting} {path : Path} {expr : Expr} {box : Box} {before : Run}

/-- Evaluating an expression meets no cycle. -/
def Acyclic (setting : Setting) (path : Path) (expr : Expr) (before : Run) : Prop :=
  ((setting.evaluate path expr).run before).2.cycles = before.cycles

/-- An evaluation that meets no cycle comes to what the expression comes to without a memory. -/
theorem Idle.comesTo_of_acyclic (idle : setting.Idle before)
    (calm : setting.policy.isStackSensitive = false)
    (found : (setting.project.file? path).isSome) (acyclic : setting.Acyclic path expr before) :
    setting.ComesTo (.expr (setting.project.scope path) expr)
      ((setting.evaluate path expr).run before).1 := by
  obtain ⟨place, strangers, value, final, same, _, evaluated, _, ends⟩ :=
    setting.evaluate_spec path before expr
  rw [(Project.scope_congr found same.symm).symm] at ends
  have within : (Task.expr (setting.project.scope path) expr).Within setting.project := ⟨path, rfl⟩
  obtain ⟨_, after, _, endsUncached⟩ := Evaluation.run_ends false within {}
  have uncached := endsUncached _ (setting.depth_le_fuel (setting.project.scope path) expr [])
  have corresponds : Run.Corresponds setting.policy
      (Evaluation.Paired setting [] before.cycles) {} { before with strangers } :=
    .of_calm calm rfl idle.overrides
      ⟨rfl, rfl, (Nat.zero_add _).symm, idle.inProgress, idle.sound calm⟩
  have unsettled : ∀ fuel, Evaluation.Unsettled setting fuel [] :=
    fun _ _ entered => absurd entered List.not_mem_nil
  obtain ⟨other, last, otherEnds, lastCorresponds, alike⟩ :=
    (Evaluation.remembering_of_uncached _ calm (.refl _) within unsettled).elim corresponds uncached
  obtain ⟨rfl, rfl⟩ :=
    Prod.mk.inj (Option.some_inj.1 (otherEnds.symm.trans (ends _ (Nat.le_refl _))))
  have cycles : last.cycles = after.cycles + before.cycles := lastCorresponds.memories.2.2.1
  have met : last.cycles = before.cycles := by simpa only [Acyclic, evaluated] using acyclic
  have start : Run.Corresponds setting.policy
      (fun memory _ => memory.cycles = 0 ∧ memory.known = []) {} {} :=
    .of_calm calm rfl rfl ⟨rfl, rfl⟩
  rw [evaluated]
  rcases (Evaluation.plain_of_uncached (.refl _)).ends start uncached with
    ⟨settled, _, ended, _, alikeSettled⟩ | ⟨met, _⟩
  · exact ⟨_, settled, ⟨_, ended⟩, alikeSettled.symm.trans alike⟩
  · have some : 0 < after.cycles := met
    omega

/-- An evaluation comes to what the expression comes to without a memory. -/
theorem Idle.evaluate_of_comesTo (idle : setting.Idle before)
    (calm : setting.policy.isStackSensitive = false)
    (found : (setting.project.file? path).isSome)
    (comes : setting.ComesTo (.expr (setting.project.scope path) expr) box) :
    Alike .blind box ((setting.evaluate path expr).run before).1 := by
  obtain ⟨fuel, settled, ⟨after, ended⟩, alike⟩ := comes
  obtain ⟨place, strangers, same, located⟩ := setting.scopeAt_spec path before
  have plain : setting.evaluatePlain? fuel path expr before = some settled := by
    rw [evaluatePlain?, located, (Project.scope_congr found same.symm).symm]
    exact congrArg (Option.map Prod.fst) ended
  exact alike.symm.trans (idle.evaluate_of_plain calm plain).1

end Setting

/-- Expressions that read a member from all exports of a module as a value: `other.key` after
`const other = whole`, and `part` after `const { key: part } = whole`. -/
inductive Scope.Rereads (scope : Scope) (whole : Id) (key : String) : Expr → Prop where
  | member {holder : Id} {place : Span}
    (declared : scope.binding? holder = some (.variable ⟨some (.ident place whole), [], none⟩))
    (constant : scope.isReassigned holder = false) (span inner : Span) :
    Rereads scope whole key (.member span (.ident inner holder) (.name key))
  | name {part : Id} {place : Span}
    (declared : scope.binding? part = some (.variable ⟨some (.ident place whole), [.key key], none⟩))
    (constant : scope.isReassigned part = false) (span : Span) :
    Rereads scope whole key (.ident span part)

section Calm

variable {setting : Setting} {scope : Scope} {whole : Id} {key source : String} {expr : Expr}
  {path : Path} {box : Box} (calm : setting.policy.isStackSensitive = false)
  (evaluates : setting.policy.flags.skipEvaluate = false)

include calm evaluates

/-- What is read from all exports as a value is an entry of what the name of the import stands for.
-/
theorem Scope.Rereads.comesTo_iff (rereads : scope.Rereads whole key expr)
    (bound : (scope.binding? whole).isSome) :
    ∃ place node, ∀ box, setting.ComesTo (.expr scope expr) box ↔
      ∃ object, setting.ComesTo (.binding scope whole place) object ∧
        Alike .blind (object.read (.string key) node) box := by
  cases rereads with
  | @member holder place declared constant span inner =>
    have ordinary : ∀ source, scope.binding? holder ≠ some (.imported source .whole) := by
      simp [declared]
    refine ⟨scope.refer place, scope.refer span, fun box => ?_⟩
    have read : setting.ComesTo (.expr scope (.member span (.ident inner holder) (.name key))) box ↔
        ∃ object, setting.ComesTo (.expr scope (.ident inner holder)) object ∧
          Alike .blind (object.read (.string key) (scope.refer span)) box :=
      (Setting.follows_member calm evaluates ordinary span inner key).comesTo_iff calm
        fun alike => alike.read rfl _
    have named : (scope.binding? holder).isSome := by simp [declared]
    have object : ∀ object, setting.ComesTo (.expr scope (.ident inner holder)) object ↔
        setting.ComesTo (.binding scope whole (scope.refer place)) object := fun object =>
      calc
        _ ↔ _ := (Setting.follows_name calm evaluates named inner).comesTo calm
        _ ↔ _ := Setting.Follows.comesTo calm (Setting.follows_declaration declared constant _)
        _ ↔ _ := (Setting.follows_name calm evaluates bound place).comesTo calm
    simpa only [object] using read
  | @name part place declared constant span =>
    refine ⟨scope.refer place, scope.refer span, fun box => ?_⟩
    have named : (scope.binding? part).isSome := by simp [declared]
    have taken : setting.ComesTo (.binding scope part (scope.refer span)) box ↔
        ∃ object, setting.ComesTo (.expr scope (.ident place whole)) object ∧
          Alike .blind (object.read (.string key) (scope.refer span)) box :=
      (Setting.follows_declaration declared constant (scope.refer span)).comesTo_iff calm
        fun alike => alike.read rfl _
    have object : ∀ object, setting.ComesTo (.expr scope (.ident place whole)) object ↔
        setting.ComesTo (.binding scope whole (scope.refer place)) object := fun object =>
      (Setting.follows_name calm evaluates bound place).comesTo calm
    refine ((Setting.follows_name calm evaluates named span).comesTo calm).trans ?_
    simpa only [object] using taken

omit evaluates in
/-- An import of all exports that leads to no file is unbound. -/
theorem Setting.comesTo_import_of_missing
    (bound : scope.binding? whole = some (.imported source .whole))
    (missing : setting.target? scope source = none) (node : Reference) :
    setting.ComesTo (.binding scope whole node) (.unknown .unbound node) := by
  have ended : Evaluation.run setting Guard.plain 1 (.binding scope whole node) {} =
      some (.unknown .unbound node, {}) := by
    simp only [Evaluation.run, Evaluation.step, Evaluation.binding, bound, Evaluation.forward,
      missing]
    rfl
  exact Setting.comesTo_of_plain calm rfl ended

/-- So is every member of it. -/
theorem Setting.comesTo_field_of_missing
    (bound : scope.binding? whole = some (.imported source .whole))
    (missing : setting.target? scope source = none) (span inner : Span) :
    setting.ComesTo (.expr scope (.member span (.ident inner whole) (.name key)))
      (.unknown .unbound (scope.refer span)) := by
  let expr : Expr := .member span (.ident inner whole) (.name key)
  have reduced : ∀ run : Run, run.overrides = [] →
      Evaluation.reduce setting (Evaluation.run setting Guard.plain 0) scope expr
        (scope.refer expr.span) run = some (.unknown .unbound (scope.refer span), run) := by
    intro run free
    simp only [expr, Evaluation.reduce, Evaluation.access, Evaluation.read, Expr.unwrap,
      Evaluation.wholeImport?, Eval.bind_apply, Eval.override?_of_free _ free, Option.bind_some, bound,
      Eval.pure_apply, missing, Expr.span]
  have bare : expr.unwrap = expr := rfl
  have ended : Evaluation.run setting Guard.plain 1 (.expr scope expr) {} =
      some (.unknown .unbound (scope.refer span), {}) := by
    rw [Setting.plain_expression calm evaluates bare 0 {}, reduced _ rfl]
    rfl
  exact Setting.comesTo_of_plain calm rfl ended

/-- What is read from all exports as a value is what the import's member is, when the module states
the export itself or no files are entered; otherwise it is undefined. -/
theorem Scope.Rereads.comesTo_member (rereads : (setting.project.scope path).Rereads whole key expr)
    {target : Path}
    (bound : (setting.project.scope path).binding? whole = some (.imported source .whole))
    (resolved : setting.project.resolve? (setting.project.scope path).file source = some target)
    (comes : setting.ComesTo (.expr (setting.project.scope path) expr) box) (span inner : Span) :
    (((setting.project.scope target).export? key).isSome ∨ setting.policy.flags.skipFiles = true →
      setting.ComesTo (.expr (setting.project.scope path)
        (.member span (.ident inner whole) (.name key))) box) ∧
    (setting.policy.flags.skipFiles = false → (setting.project.scope target).export? key = none →
      Alike .blind box .missing) := by
  obtain ⟨place, node, reads⟩ := rereads.comesTo_iff calm evaluates (by simp [bound])
  obtain ⟨object, comesObject, alike⟩ := (reads box).1 comes
  by_cases skips : setting.policy.flags.skipFiles = true
  · -- Where no files are entered, nothing is known on either side.
    have missing : setting.target? (setting.project.scope path) source = none := by
      simp [Setting.target?, skips]
    have unbound : Alike .blind object (.unknown .unbound place) :=
      comesObject.alike calm (Setting.comesTo_import_of_missing calm bound missing place) (.refl _)
    have read : Alike .blind (object.read (.string key) node) (.unknown .unbound place) :=
      unbound.read rfl _
    have alikeBox : Alike .blind (.unknown .unbound _) box := read.symm.trans alike
    exact ⟨fun _ => (Setting.comesTo_field_of_missing calm evaluates bound missing span inner).congr
      alikeBox, fun entered => absurd skips (by simp [entered])⟩
  · have found : setting.target? (setting.project.scope path) source = some target := by
      simp [Setting.target?, skips, resolved]
    obtain ⟨entries, alikeObject, keys, each⟩ := Setting.ComesTo.whole calm
      ((Setting.Follows.comesTo calm (Setting.follows_import bound found place)).1 comesObject)
    have read : Alike .blind ((Entries.get? entries key).getD (.undefinedAt node))
        (object.read (.string key) node) := alikeObject.read rfl (.string key)
    have alikeBox := read.trans alike
    -- The map of all exports has the names that the module states itself, and no others.
    have stated : (Entries.get? entries key).isSome =
        ((setting.project.scope target).export? key).isSome := by
      rw [Bool.eq_iff_iff]
      exact Entries.contains_iff.trans (keys ▸ Entries.contains_iff.symm)
    refine ⟨fun states => ?_, fun _ unstated => ?_⟩
    · rw [or_iff_left skips, ← stated] at states
      obtain ⟨value, listed⟩ := Option.isSome_iff_exists.1 states
      rw [listed] at alikeBox
      have file := Project.isSome_file?_of_resolve? resolved
      have same := Project.scope_congr file (setting.project.components_scope target).symm
      have comesValue : setting.ComesTo
          (.exported target key ((setting.project.scope path).refer span)) value :=
        (each _ (Entries.mem_of_get? listed)).transfer calm (.exported same.symm key rfl)
      exact (Setting.Follows.comesTo calm
        (Setting.follows_field calm evaluates bound found span inner key)).2
          (comesValue.congr alikeBox)
    · have absent : Entries.get? entries key = none := by
        simpa [unstated] using stated
      rw [absent] at alikeBox
      exact alikeBox.symm

end Calm

/-- A member of all exports of a module, read from their object, equals the one export where no
cycle is met and the module states the export itself. -/
theorem evaluate_rereads_whole (setting : Setting) (calls others : List (Path × Expr)) (path : Path)
    (target : Path) (source key : String) (whole : Id) (expr : Expr) (span inner : Span)
    (calm : setting.policy.isStackSensitive = false)
    (evaluates : setting.policy.flags.skipEvaluate = false)
    (bound : (setting.project.scope path).binding? whole = some (.imported source .whole))
    (resolved : setting.project.resolve? (setting.project.scope path).file source = some target)
    (rereads : (setting.project.scope path).Rereads whole key expr) :
    let before := ((setting.evaluateAll calls).run {}).2
    let other := ((setting.evaluateAll others).run {}).2
    let member := Expr.member span (.ident inner whole) (.name key)
    setting.Acyclic path expr before →
    (((setting.project.scope target).export? key).isSome ∨ setting.policy.flags.skipFiles = true →
      (((setting.evaluate path member).run other).1 ==
        ((setting.evaluate path expr).run before).1) = true) ∧
    (setting.policy.flags.skipFiles = false → (setting.project.scope target).export? key = none →
      (((setting.evaluate path expr).run before).1 == .missing) = true) := by
  intro before other member acyclic
  have idle : setting.Idle before := (setting.idle_start []).evaluateAll calls
  have idleOther : setting.Idle other := (setting.idle_start []).evaluateAll others
  have found := Project.isSome_file?_of_bound bound
  obtain ⟨stated, unstated⟩ := rereads.comesTo_member calm evaluates bound resolved
    (idle.comesTo_of_acyclic calm found acyclic) span inner
  exact ⟨fun states => (idleOther.evaluate_of_comesTo calm found (stated states)).symm.beq,
    fun entered absent => (unstated entered absent).beq⟩

/-- `import * as all from "./m"; const other = all; const { n } = all;` -/
def wholeModule : Module :=
  ⟨[.importFrom "./m" false [.whole ⟨"all", 1⟩],
    .declarations [.mk (.ident ⟨"other", 1⟩) (some (.ident ⟨43, 46⟩ ⟨"all", 1⟩))],
    .declarations [.mk (.object [.shorthand ⟨"n", 1⟩ none]) (some (.ident ⟨62, 65⟩ ⟨"all", 1⟩))]]⟩

/-- `/a.ts` reads the exports of `/m.ts` as a value, and `/t.ts` exports a name. -/
def wholeProject (module : Module) : Project :=
  ((Project.insert { keyed := Project.keyed_nil } (Document.make ⟨"/a.ts"⟩ "" wholeModule)).insert
    (Document.make ⟨"/m.ts"⟩ "" module)).insert (Document.make ⟨"/t.ts"⟩ "" statingModule)

/-- What `/m.ts` exports has no part in the names of `/a.ts`. -/
theorem scope_wholeProject (module : Module) :
    (wholeProject module).scope ⟨"/a.ts"⟩ = Scope.collect ⟨"/a.ts"⟩ wholeModule := by
  have found : (wholeProject module).file? ⟨"/a.ts"⟩ =
      some (Document.make ⟨"/a.ts"⟩ "" wholeModule) := by
    rw [wholeProject, Project.file?_insert_of_ne _ _ (by decide +kernel),
      Project.file?_insert_of_ne _ _ (by simp only [Document.make]; decide +kernel)]
    exact Project.file?_insert _ _
  exact Project.scope_of_file? found

/-- `/a.ts` imports all exports of `/m.ts` and reads one of them in two ways. -/
theorem rereads_wholeProject (module : Module) :
    let scope := (wholeProject module).scope ⟨"/a.ts"⟩
    let all : Id := ⟨"all", 1⟩
    scope.binding? all = some (.imported "./m" .whole) ∧
      (∀ span inner, scope.Rereads all "n" (.member span (.ident inner ⟨"other", 1⟩) (.name "n"))) ∧
      ∀ span, scope.Rereads all "n" (.ident span ⟨"n", 1⟩) := by
  rw [scope_wholeProject]
  let scope := Scope.collect ⟨"/a.ts"⟩ wholeModule
  let all : Id := ⟨"all", 1⟩
  have bound : scope.binding? all = some (.imported "./m" .whole) := by cbv
  have other : scope.binding? ⟨"other", 1⟩ =
      some (.variable ⟨some (.ident ⟨43, 46⟩ all), [], none⟩) := by cbv
  have part : scope.binding? ⟨"n", 1⟩ =
      some (.variable ⟨some (.ident ⟨62, 65⟩ all), [.key "n"], none⟩) := by cbv
  have constant : ∀ id, scope.isReassigned id = false := by
    have none : scope.reassigned = [] := by cbv
    simp [Scope.isReassigned, none]
  exact ⟨bound, .member other (constant _), .name part (constant _)⟩

/-- A stated export is read alike under every name. -/
theorem evaluate_rereads_whole_of_stated :
    let setting : Setting := { project := wholeProject statingModule }
    let path : Path := ⟨"/a.ts"⟩
    let scope := setting.project.scope path
    let all : Id := ⟨"all", 1⟩
    let expr : Expr := .member default (.ident default ⟨"other", 1⟩) (.name "n")
    let member : Expr := .member default (.ident default all) (.name "n")
    let before := ((setting.evaluateAll [(path, member)]).run {}).2
    setting.policy.isStackSensitive = false ∧ setting.policy.flags.skipEvaluate = false ∧
      scope.binding? all = some (.imported "./m" .whole) ∧
      setting.project.resolve? scope.file "./m" = some ⟨"/m.ts"⟩ ∧ scope.Rereads all "n" expr ∧
      setting.Acyclic path expr before ∧
      (((setting.project.scope ⟨"/m.ts"⟩).export? "n").isSome ∨
        setting.policy.flags.skipFiles = true) ∧
      (((setting.evaluate path member).run {}).1 ==
        ((setting.evaluate path expr).run before).1) = true := by
  intro setting path scope all expr member before
  obtain ⟨bound, other, _⟩ := rereads_wholeProject statingModule
  have rereads : scope.Rereads all "n" expr := other _ _
  have resolved : setting.project.resolve? scope.file "./m" = some ⟨"/m.ts"⟩ := by decide +kernel
  have acyclic : setting.Acyclic path expr before := by
    rw [Setting.Acyclic]
    decide +kernel
  have states : ((setting.project.scope ⟨"/m.ts"⟩).export? "n").isSome ∨
      setting.policy.flags.skipFiles = true := .inl (by decide +kernel)
  exact ⟨rfl, rfl, bound, resolved, rereads, acyclic, states,
    (evaluate_rereads_whole setting [(path, member)] [] path ⟨"/m.ts"⟩ "./m" "n" all expr default
      default rfl rfl bound resolved rereads acyclic).1 states⟩

/-- An export of another module, which the export of all exports makes a member, is undefined when
it is read under another name or from a declaration that takes the object apart. -/
theorem not_evaluate_rereads_whole_of_star :
    let setting : Setting := { project := wholeProject (starModule ["./t"]) }
    let path : Path := ⟨"/a.ts"⟩
    let scope := setting.project.scope path
    let all : Id := ⟨"all", 1⟩
    let member : Expr := .member default (.ident default all) (.name "n")
    scope.binding? all = some (.imported "./m" .whole) ∧
      setting.project.resolve? scope.file "./m" = some ⟨"/m.ts"⟩ ∧
      setting.project.Star ⟨"/m.ts"⟩ ⟨"/t.ts"⟩ ∧
      ((setting.project.scope ⟨"/t.ts"⟩).export? "n").isSome ∧
      (((setting.evaluate path member).run {}).1 == .text "x" none) = true ∧
      ∀ expr : Expr, expr = .member default (.ident default ⟨"other", 1⟩) (.name "n") ∨
          expr = .ident default ⟨"n", 1⟩ →
        scope.Rereads all "n" expr ∧ setting.Acyclic path expr {} ∧
        (((setting.evaluate path expr).run {}).1 == .missing) = true ∧
        (((setting.evaluate path member).run {}).1 == ((setting.evaluate path expr).run {}).1) =
          false := by
  intro setting path scope all member
  obtain ⟨bound, other, part⟩ := rereads_wholeProject (starModule ["./t"])
  refine ⟨bound, by decide +kernel, ⟨"./t", by decide +kernel, by decide +kernel⟩,
    by decide +kernel, by decide +kernel, ?_⟩
  rintro expr (rfl | rfl)
  · refine ⟨other _ _, ?_, by decide +kernel, by decide +kernel⟩
    rw [Setting.Acyclic]
    decide +kernel
  · refine ⟨part _, ?_, by decide +kernel, by decide +kernel⟩
    rw [Setting.Acyclic]
    decide +kernel

end Glean
