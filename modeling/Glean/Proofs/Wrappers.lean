import Glean.Proofs.Evaluation.Rewrapping
import Mathlib.Logic.Equiv.Basic

/-!
# Wrappers make no difference

Parentheses and the wrappers that only types need are transparent to evaluation. In two projects
that rewrap each other, expressions with one bare form have equal boxes, up to the source texts that
spreads and computed keys are stored under (`evaluate_rewraps`). Where these texts are the same, the
boxes are equal (`evaluate_of_same_texts`).

The source texts of the two projects correspond by one injective function of texts. A function of the
places where they stand would not do: an entry of a map has its text as its key and nothing else, so
two spreads with one text are one entry, also where they come together from several places. When a
wrapper is put around only one of them there are two entries, and the boxes differ in more than the
names of their keys.

The bare form keeps the wrappers that are not transparent. An assignment to a member reaches the
name before it through parentheses only, so a wrapper of another sort hides that the name changes.
-/

namespace Glean

open Syntax Box

section

variable {rename : String → String} {project other : Project} {policy : Policy} {path : Path}
  {file twin : Document}

/-- Nothing is known of an expression when nothing is evaluated. -/
theorem Setting.evaluate_of_skipped {setting : Setting} (ungated : setting.policy.gate = none)
    (skipped : setting.policy.flags.skipEvaluate = true)
    (found : setting.project.file? path = some file) (expr : Expr) :
    ((setting.evaluate path expr).run {}).1 =
      .unknown .notEvaluated (file.scope.refer expr.unwrap.span) := by
  obtain ⟨box, after, evaluated, _, ends⟩ := Setting.evaluate_of_found {} found expr
  have ended := ends (setting.fuel expr + 1) (Nat.le_succ _)
  rw [Evaluation.run, Evaluation.step, Evaluation.expression_eq ungated, if_pos skipped] at ended
  rw [evaluated]
  exact (Prod.mk.inj (Option.some_inj.1 ended)).1.symm

variable (calm : policy.isStackSensitive = false) (rewraps : project.Rewraps rename other)
  (found : project.file? path = some file) (foundTwin : other.file? path = some twin)
  {expr expr' : Expr} (exprs : expr.Rewraps (file.renamed rename) twin.source expr')

include calm rewraps found foundTwin exprs

/-- Expressions with one bare form have boxes that are equal up to keys. -/
theorem Setting.evaluate_renames (injective : Function.Injective rename)
    (numerals : ∀ position : Nat, rename (toString position) = toString position)
    (avoids : Setting.Avoids { project, policy } (fun text => rename text ≠ text) file expr) :
    Box.Renames rename ((Setting.evaluate { project, policy } path expr).run {}).1
      ((Setting.evaluate { project := other, policy } path expr').run {}).1 := by
  cases skipped : policy.flags.skipEvaluate with
  | true =>
    have ungated : policy.gate = none := Policy.gate_eq_none calm
    have unknown := @Setting.evaluate_of_skipped path file { project, policy } ungated skipped found
    have unknownTwin :=
      @Setting.evaluate_of_skipped path twin { project := other, policy } ungated skipped foundTwin
    rw [unknown, unknownTwin]
    exact .unresolvable ..
  | false =>
    obtain ⟨paired, foundPair, pairs⟩ := rewraps.exists_pairs found
    obtain rfl : paired = twin := Option.some_inj.1 (foundPair.symm.trans foundTwin)
    obtain ⟨fuel, ends⟩ := avoids
    obtain ⟨⟨box, after⟩, ended⟩ := Option.isSome_iff_exists.1 ends
    obtain ⟨value, final, evaluated, _, endsTwin⟩ :=
      @Setting.evaluate_of_found { project := other, policy } path {} paired foundTwin expr'
    -- The fuel is enough for the evaluation itself, and for the mirror of the first one.
    let more := max (2 * fuel) (Setting.fuel { project := other, policy } expr')
    have endedTwin := endsTwin more (Nat.le_max_right ..)
    have mirrors := Evaluation.run_rewraps calm skipped injective numerals rewraps
      (!policy.isStackSensitive) (Nat.le_max_left .. : 2 * fuel ≤ more) (.expr pairs exprs)
    have start : Run.Corresponds policy (Memory.Renames rename) {} {} :=
      .of_calm calm rfl rfl ⟨.nil, rfl, rfl⟩
    obtain ⟨result, last, mirrored, _, renames, _⟩ := mirrors.elim start ended
    obtain ⟨rfl, rfl⟩ := Prod.mk.inj (Option.some_inj.1 (mirrored.symm.trans endedTwin))
    rw [Setting.evaluate_of_avoiding found ended, evaluated]
    exact renames

end

/-- Expressions with one bare form have equal boxes when the source texts of spreads and of computed
keys are the same. -/
theorem evaluate_of_same_texts {project other : Project} {policy : Policy} {path : Path}
    {file twin : Document} {expr expr' : Expr} (calm : policy.isStackSensitive = false)
    (rewraps : project.Rewraps id other) (found : project.file? path = some file)
    (foundTwin : other.file? path = some twin)
    (exprs : expr.Rewraps file.source twin.source expr') :
    (((Setting.evaluate { project, policy } path expr).run {}).1 ==
      ((Setting.evaluate { project := other, policy } path expr').run {}).1) = true := by
  have kept : (fun text => decide (id text ≠ text)) = fun _ : String => false := by
    funext text
    exact decide_eq_false fun moved => moved rfl
  have avoids : Setting.Avoids { project, policy } (fun text => id text ≠ text) file expr := by
    rw [kept]
    exact Setting.avoids_nothing _ found expr
  have renames := Setting.evaluate_renames calm rewraps found foundTwin exprs Function.injective_id
    (fun _ => rfl) avoids
  rw [Box.Renames, rekey_id] at renames
  exact renames.beq

/-- Wrappers make no difference to the box of an expression, wherever they stand in a project, up to
the source texts that spreads and computed keys in objects are stored under. -/
theorem evaluate_rewraps (rename : String → String) (project other : Project) (policy : Policy)
    (path : Path) (file twin : Document) (expr expr' : Expr)
    (calm : policy.isStackSensitive = false) (injective : Function.Injective rename)
    (numerals : ∀ position : Nat, rename (toString position) = toString position)
    (rewraps : project.Rewraps rename other) (found : project.file? path = some file)
    (foundTwin : other.file? path = some twin)
    (exprs : expr.Rewraps (file.renamed rename) twin.source expr')
    (avoids : Setting.Avoids { project, policy } (fun text => rename text ≠ text) file expr) :
    (((Setting.evaluate { project, policy } path expr).run {}).1.rekey rename ==
      ((Setting.evaluate { project := other, policy } path expr').run {}).1) = true :=
  Alike.beq
    (Setting.evaluate_renames calm rewraps found foundTwin exprs injective numerals avoids)

/-- `const o = { ...value };`, with a spread that stops at a position. -/
def spreadModule (value : Expr) (stop : Nat) : Module :=
  ⟨[.declarations [.mk (.ident ⟨"o", 1⟩)
    (some (.object ⟨11, stop + 2⟩ [.spread ⟨13, stop⟩ value]))]]⟩

/-- A spread of a call is stored under its text, with wrappers and without them. -/
theorem evaluate_rewraps_spread :
    let rename : String → String := Equiv.swap "...f()" "...(f() as T)"
    let callAt (start : Nat) : Expr :=
      .call ⟨start, start + 3⟩ (some (.ident ⟨start, start + 1⟩ ⟨"f", 1⟩)) []
    let wrapped : Expr := .wrapped ⟨16, 26⟩ .parentheses (.wrapped ⟨17, 25⟩ .cast (callAt 17))
    let file := Document.make ⟨"/a.ts"⟩ "const o = { ...f() };" (spreadModule (callAt 16) 19)
    let twin := Document.make ⟨"/a.ts"⟩ "const o = { ...(f() as T) };" (spreadModule wrapped 26)
    let setting : Setting := { project := Project.insert {} file }
    let other : Setting := { project := Project.insert {} twin }
    let expr : Expr := .ident ⟨7, 8⟩ ⟨"o", 1⟩
    let expr' : Expr := .wrapped ⟨7, 9⟩ .nonNull expr
    (setting.policy.isStackSensitive = false ∧ Function.Injective rename ∧
      (∀ position : Nat, rename (toString position) = toString position) ∧
      setting.project.Rewraps rename other.project ∧
      setting.project.file? file.path = some file ∧ other.project.file? file.path = some twin ∧
      expr.Rewraps (file.renamed rename) twin.source expr' ∧
      setting.Avoids (fun text => rename text ≠ text) file expr) ∧
    (((setting.evaluate file.path expr).run {}).1.rekey rename ==
      ((other.evaluate file.path expr').run {}).1) = true := by
  intro rename callAt wrapped file twin setting other expr expr'
  have injective : Function.Injective rename := Equiv.injective _
  have numerals : ∀ position : Nat, rename (toString position) = toString position := by
    intro position
    have apart : ∀ text : String, text.toList.any (fun c => !c.isDigit) = true →
        toString position ≠ text := by
      rintro text other rfl
      obtain ⟨c, listed, outside⟩ := List.any_eq_true.1 other
      have digits : c ∈ Nat.toDigits 10 position := by simpa using listed
      have digit := Nat.isDigit_of_mem_toDigits (by decide) (by decide) digits
      simp [digit] at outside
    exact Equiv.swap_apply_of_ne_of_ne (apart _ (by decide +kernel)) (apart _ (by decide +kernel))
  have texts : file.renamed rename "..." ⟨13, 19⟩ = twin.source "..." ⟨13, 26⟩ := by decide +kernel
  have stored : (Member.spread ⟨13, 19⟩ (callAt 16)).bare (file.renamed rename) =
      (Member.spread ⟨13, 26⟩ wrapped).bare twin.source := by
    rw [Member.bare, Member.bare, texts]
    rfl
  have files : file.Rewraps rename twin :=
    ⟨rfl, congrArg (fun member => [Node.declarations [.mk (.ident ⟨"o", 1⟩)
      (some (.object blank [member]))]]) stored⟩
  have rewraps : setting.project.Rewraps rename other.project :=
    Project.Rewraps.empty.insert files
  have found : setting.project.file? file.path = some file := Project.file?_insert {} file
  have foundTwin : other.project.file? file.path = some twin := Project.file?_insert {} twin
  have exprs : expr.Rewraps (file.renamed rename) twin.source expr' := rfl
  have avoids : setting.Avoids (fun text => rename text ≠ text) file expr :=
    ⟨8, by decide +kernel⟩
  exact ⟨⟨rfl, injective, numerals, rewraps, found, foundTwin, exprs, avoids⟩,
    evaluate_rewraps rename _ _ {} file.path file twin expr expr' rfl injective numerals rewraps found
      foundTwin exprs avoids⟩

/-- Of `({ ...f, ...f })` and `({ ...f, ...(f) })` the first has one entry and the second has two. -/
example :
    let name (start : Nat) : Expr := .ident ⟨start, start + 1⟩ ⟨"f", 1⟩
    let entries (code : String) (second : Expr) : Nat :=
      let file := Document.make ⟨"/a.ts"⟩ code ⟨[]⟩
      let expr : Expr := .object ⟨2, second.span.stop + 2⟩
        [.spread ⟨4, 8⟩ (name 7), .spread ⟨10, second.span.stop⟩ second]
      let setting : Setting := { project := Project.insert {} file }
      (((setting.evaluate file.path expr).run {}).1.entries?.getD []).length
    entries "({ ...f, ...f });" (name 13) = 1 ∧
      entries "({ ...f, ...(f) });" (.wrapped ⟨13, 16⟩ .parentheses (name 14)) = 2 := by
  decide +kernel

/-- `let x = { y: "a" }; base.y = "b";` -/
def assigningModule (base : Expr) : Module :=
  ⟨[.declarations [.mk (.ident ⟨"x", 1⟩) (some (.object ⟨9, 19⟩
      [.keyed ⟨11, 17⟩ (.name "y") (.literal ⟨14, 17⟩ (.string "a"))]))],
    .group [.expr (.assign ⟨21, 39⟩ (.member base (.name "y"))
      (.literal ⟨36, 39⟩ (.string "b")))]]⟩

/-- An assignment to a member of a cast name does not show that the name changes, so the name keeps
its first value. Without the cast nothing is known of the name. -/
theorem not_evaluate_rewraps_target :
    let plain : Expr := .ident ⟨22, 23⟩ ⟨"x", 1⟩
    let cast : Expr := .wrapped ⟨21, 31⟩ .parentheses (.wrapped ⟨22, 30⟩ .cast plain)
    let setting (base : Expr) : Setting :=
      { project := Project.insert {} (Document.make ⟨"/a.ts"⟩ "" (assigningModule base)) }
    let access : Expr := .member ⟨56, 59⟩ (.ident ⟨56, 57⟩ ⟨"x", 1⟩) (.name "y")
    let box (base : Expr) : Box := (((setting base).evaluate ⟨"/a.ts"⟩ access).run {}).1
    cast.unwrap = plain ∧ (box cast == .text "a" none) = true ∧
      (box plain == .unresolvable .unbound none) = true ∧
      ∀ rename, ((box plain).rekey rename == box cast) = false := by
  intro plain cast setting access box
  have known : (box cast == .text "a" none) = true := by decide +kernel
  have unknown : (box plain == .unresolvable .unbound none) = true := by decide +kernel
  have valued : (box cast).reason? = none := by decide +kernel
  have unbound : (box plain).reason? = some .unbound := by decide +kernel
  refine ⟨rfl, known, unknown, fun rename => ?_⟩
  generalize box cast = right at valued ⊢
  generalize box plain = left at unbound ⊢
  cases left with
  | unresolvable reason node =>
    rw [rekey_unresolvable]
    cases right with
    | unresolvable => cases valued
    | _ => rfl
  | _ => cases unbound

end Glean
