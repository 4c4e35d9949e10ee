import Glean.Proofs.Evaluation.Reachable
import Glean.Proofs.Extraction.Boxes
import Glean.Proofs.Project

/-!
# Skipped conditions leave no conditional

Where conditions are skipped, an undecided one makes a box unknown and not one of two boxes. No part
of a box is then conditional, at any depth, whatever was evaluated before: neither of the box that
an expression comes to nor of any box in a report (`evaluate_undivided`).

To be free of conditionals is a trait of boxes (`Box.Trait.undivided`), so what is left to say is that
evaluation admits it.
-/

namespace Glean

open Syntax Box

namespace Box

mutual

/-- Whether the box or a part of it, at any depth, is one of two boxes. -/
def hasConditional : Box → Bool
  | literal .. | unresolvable .. => false
  | list items _ => itemsHaveConditional items
  | map entries _ => entriesHaveConditional entries
  | conditional .. => true

/-- Whether one of the items has a conditional. -/
def itemsHaveConditional : List Box → Bool
  | [] => false
  | item :: rest => item.hasConditional || itemsHaveConditional rest

/-- Whether the value of one of the entries has a conditional. -/
def entriesHaveConditional : List (String × Box) → Bool
  | [] => false
  | (_, value) :: rest => value.hasConditional || entriesHaveConditional rest

end

/-- A list has a conditional when one of its items has. -/
theorem itemsHaveConditional_eq (items : List Box) :
    itemsHaveConditional items = items.any hasConditional := by
  induction items with
  | nil => rfl
  | cons item rest ih => rw [itemsHaveConditional, ih, List.any_cons]

/-- A map has a conditional when one of its values has. -/
theorem entriesHaveConditional_eq (entries : List (String × Box)) :
    entriesHaveConditional entries = entries.any fun entry => entry.2.hasConditional := by
  induction entries with
  | nil => rfl
  | cons entry rest ih => rw [entriesHaveConditional, ih, List.any_cons]

/-- No part is one of two boxes; nothing else is asked of parts. -/
def Trait.undivided : Trait := { Reasons := fun _ => True, Splits := False }

/-- A box all of whose parts are undivided has no conditional. -/
theorem Has.hasConditional {box : Box} (has : Has .undivided box) : box.hasConditional = false := by
  induction has with
  | literal | unresolvable => rfl
  | list _ _ ih =>
    rw [Box.hasConditional, itemsHaveConditional_eq]
    exact List.any_eq_false.2 fun item listed => Bool.eq_false_iff.1 (ih item listed)
  | map _ _ ih =>
    rw [Box.hasConditional, entriesHaveConditional_eq]
    exact List.any_eq_false.2 fun entry listed => Bool.eq_false_iff.1 (ih entry listed)
  | conditional splits => exact splits.elim

end Box

namespace Setting

variable {setting : Setting} {trait : Trait}

/-- From a state with a trait that admits all nodes, evaluation comes to a box with the trait and
leaves such a state, at every path. -/
theorem Admits.evaluate (admits : setting.Admits trait) (cycles : trait.Reasons .cycle)
    (refers : ∀ scope, trait.Refers scope) {run : Run} (has : run.Has trait) (path : Path)
    (expr : Expr) :
    Box.Has trait ((setting.evaluate path expr).run run).1 ∧
      ((setting.evaluate path expr).run run).2.Has trait := by
  obtain ⟨place, strangers, box, after, _, _, evaluated, _, ends⟩ :=
    setting.evaluate_spec path run expr
  have housed : (Task.expr (setting.project.scope place) expr).Housed setting trait trait.Refers :=
    ⟨refers _, (refers _).covers _⟩
  have started : Run.Has trait { run with strangers } := ⟨has.known, has.overrides⟩
  obtain ⟨left, boxHas⟩ := (Evaluation.remembering_yields admits.houses cycles
    (!setting.policy.isStackSensitive) (setting.fuel expr) _ housed).ends started
      (ends _ (Nat.le_refl _))
  rw [evaluated]
  exact ⟨boxHas, left⟩

/-- Between evaluations the boxes of the state have every trait that evaluation admits. -/
theorem Admits.reachable (admits : setting.Admits trait) (cycles : trait.Reasons .cycle)
    (refers : ∀ scope, trait.Refers scope) {run : Run} (reachable : setting.Reachable run) :
    run.Has trait := by
  induction reachable with
  | start => exact ⟨nofun, nofun⟩
  | evaluate _ path expr ih => exact (admits.evaluate cycles refers ih path expr).2
  | enter _ _ ih | leave _ ih | record _ _ ih => exact ⟨ih.known, ih.overrides⟩

/-- Where conditions are skipped and no overrides bring boxes along, all parts stay undivided. -/
theorem admits_undivided (skips : setting.policy.flags.skipConditions = true)
    (free : setting.policy.overrides = none) : setting.Admits .undivided where
  reasons _ _ := trivial
  splits looked := Bool.false_ne_true (looked.symm.trans skips)
  overrides expr stack overrides brought := by
    rw [Policy.overridesFor, free] at brought
    cases brought
  targets _ _ _ := trivial

end Setting

/-- Where conditions are skipped, no box has a conditional at any depth: not the box that an
expression comes to, whatever was evaluated before, nor an instance of a report or a box listed for a
property there. -/
theorem evaluate_undivided (setting : Setting)
    (skips : setting.policy.flags.skipConditions = true)
    (free : setting.policy.overrides = none) :
    (∀ run, setting.Reachable run → ∀ path expr,
      ((setting.evaluate path expr).run run).1.hasConditional = false) ∧
    ∀ matchers path report, (Extraction.extract setting matchers path).1 = .ok report →
      ∀ entry ∈ report.groups,
        (∀ inst ∈ entry.2.instances, inst.box.hasConditional = false) ∧
        ∀ listed ∈ entry.2.properties, ∀ box ∈ listed.2, box.hasConditional = false := by
  have admits := Setting.admits_undivided skips free
  have refers : ∀ scope, Trait.undivided.Refers scope := fun _ _ => trivial
  refine ⟨fun run reachable path expr => ?_, fun matchers path report extracted entry found => ?_⟩
  · have has := admits.reachable trivial refers reachable
    exact (admits.evaluate trivial refers has path expr).1.hasConditional
  · cases located : setting.project.file? path with
    | none =>
      rw [Extraction.extract, located] at extracted
      cases extracted
    | some file =>
      have has : report.Has .undivided := Extraction.report_has admits trivial located
        (refers file.scope) (fun _ => trivial) extracted
      have group := has entry found
      exact ⟨fun inst listed => (group.instances inst listed).2.hasConditional,
        fun listed among box member => (group.properties listed among box member).hasConditional⟩

/-- `{ a: c ? "x" : "y" }` -/
def undecidedObject : Expr :=
  .object ⟨3, 23⟩ [.keyed ⟨5, 21⟩ (.name "a") (.conditional ⟨8, 21⟩ (.ident ⟨8, 9⟩ ⟨"c", 1⟩)
    (.literal ⟨12, 15⟩ (.string "x")) (.literal ⟨18, 21⟩ (.string "y")))]

/-- The object has a conditional part unless conditions are skipped; then neither its box nor the
report of a call with it as an argument has one. -/
theorem evaluate_undivided_object :
    let call : Expr :=
      .call ⟨1, 24⟩ (some (.ident ⟨1, 2⟩ ⟨"f", 1⟩)) [.single undecidedObject]
    let file := Document.make ⟨"/a.ts"⟩ "" ⟨[.group [.expr call]]⟩
    let project := Project.insert {} file
    let plain : Setting := { project }
    let setting : Setting := { project, policy := { flags := { skipConditions := true } } }
    let matchers : Matchers := { functions := some ({} : NameRules).functions }
    setting.policy.flags.skipConditions = true ∧ setting.policy.overrides = none ∧
      ((plain.evaluate file.path undecidedObject).run {}).1.hasConditional = true ∧
      ((setting.evaluate file.path undecidedObject).run {}).1.hasConditional = false ∧
      ∃ report, (Extraction.extract setting matchers file.path).1 = .ok report ∧
        report.groups ≠ [] ∧
        ∀ entry ∈ report.groups,
          (∀ inst ∈ entry.2.instances, inst.box.hasConditional = false) ∧
          ∀ listed ∈ entry.2.properties, ∀ box ∈ listed.2, box.hasConditional = false := by
  intro call file project plain setting matchers
  obtain ⟨evaluated, reported⟩ := evaluate_undivided setting rfl rfl
  refine ⟨rfl, rfl, by decide +kernel, evaluated {} .start file.path undecidedObject, ?_⟩
  have filled : (Extraction.extract setting matchers file.path).1.toOption.any
      (fun report => !report.groups.isEmpty) = true := by decide +kernel
  cases extracted : (Extraction.extract setting matchers file.path).1 with
  | error failure =>
    rw [extracted] at filled
    cases filled
  | ok report =>
    rw [extracted] at filled
    have filled : (!report.groups.isEmpty) = true := filled
    exact ⟨report, rfl, by simpa using filled, reported matchers file.path report extracted⟩

end Glean
