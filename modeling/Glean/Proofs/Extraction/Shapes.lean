import Glean.Proofs.Evaluation.Traits
import Glean.Proofs.Extraction.Logic

/-!
# The boxes of instances

What kind of box an instance has goes by the kind of the instance: an element has a map of
properties, a call a list of arguments, and a template one value without parts, since a template is
a text or not known at all (`Setting.isLeaf_evaluate_tagged`). So it is for everything that an
extraction finds (`Extraction.shaped_ofNode`).
-/

namespace Glean

open Syntax Box

/-- A box without parts: a literal, or one about which nothing is known. -/
def Box.isLeaf : Box → Bool
  | literal .. | unresolvable .. => true
  | list .. | map .. | conditional .. => false

/-- The box of an instance is of the sort that its kind calls for. -/
def Instance.Shaped (inst : Instance) : Prop :=
  match inst.kind with
  | .element => ∃ entries node, inst.box = .map entries node
  | .call => ∃ items node, inst.box = .list items node
  | .template => inst.box.isLeaf = true

namespace Eval

variable {α : Type} {computation : Eval α} {expected : Box → Prop}

/-- Any computation yields something. -/
theorem yields_any (computation : Eval α) : computation.Yields .any fun _ => True := by
  refine ⟨fun _ _ => ⟨⟨fun entry _ => entry.2.has_any, ?_⟩, trivial⟩⟩
  exact fun _ _ entry _ => entry.2.has_any

/-- What is expected of a computation wherever it ends. -/
theorem of_yields_any {computation : Eval Box} (yields : computation.Yields .any expected)
    {run after : Run} {box : Box} (ended : computation run = some (box, after)) : expected box := by
  have has : run.Has .any :=
    ⟨fun entry _ => entry.2.has_any, fun _ _ entry _ => entry.2.has_any⟩
  exact (yields.ends has ended).2

end Eval

namespace Evaluation

variable (next : Task → Eval Box) (scope : Scope)

/-- A template is a text, or nothing is known about it. -/
theorem template_isLeaf (node : Reference) (done : String) (quasis : List Quasi)
    (interpolations : List Expr) :
    (template next scope node done quasis interpolations).Yields .any (·.isLeaf = true) := by
  induction quasis generalizing done interpolations with
  | nil => exact .pure rfl
  | cons quasi quasis ih =>
    cases interpolations with
    | nil => exact ih _ _
    | cons part rest =>
      refine (Eval.yields_any (next (.expr scope part))).bind fun box _ => ?_
      cases box with
      | literal => exact ih _ rest
      | _ => exact .pure rfl

/-- So it is for the expression as a whole, which flags and gate may keep from being looked at. -/
theorem expression_tagged_isLeaf (setting : Setting) (span : Span) (tag : Expr)
    (quasis : List Quasi) (interpolations : List Expr) :
    (expression setting next scope (.tagged span tag quasis interpolations)).Yields .any
      (·.isLeaf = true) := by
  unfold expression
  dsimp only
  split
  · exact .pure rfl
  · refine (Eval.yields_any (Eval.allowed setting.policy _)).bind fun answer _ => ?_
    split
    · have reduced := template_isLeaf next scope (scope.refer span) "" quasis interpolations
      exact reduced.inside (fun _ _ _ _ entry _ => entry.2.has_any) _ _
    · exact .pure rfl

end Evaluation

/-- A template with a tag comes to a text, or nothing is known about it. -/
theorem Setting.isLeaf_evaluate_tagged (setting : Setting) (path : Path) (run : Run) (span : Span)
    (tag : Expr) (quasis : List Quasi) (interpolations : List Expr) :
    ((setting.evaluate path (.tagged span tag quasis interpolations)).run run).1.isLeaf = true := by
  let expr : Expr := .tagged span tag quasis interpolations
  obtain ⟨place, strangers, box, after, _, _, evaluated, _, ends⟩ :=
    setting.evaluate_spec path run expr
  have ended := ends (setting.fuel expr + 1) (Nat.le_succ _)
  rw [Evaluation.run] at ended
  rw [evaluated]
  exact Eval.of_yields_any (Evaluation.expression_tagged_isLeaf _ _ setting ..) ended

namespace Extraction

/-- The box of whatever is found at a node is of the sort that its kind calls for. -/
theorem shaped_ofNode {setting : Setting} {matchers : Matchers} (file : Document) (node : Node) :
    ending.Holds (fun found : Option Instance => ∀ inst ∈ found, inst.Shaped)
      (ofNode setting matchers file node) := by
  have nothing : ∀ inst ∈ (none : Option Instance), inst.Shaped := nofun
  unfold ofNode
  split
  · split
    · refine ending_asked nothing fun _ => ?_
      refine ending.bind (ending_any _) fun _ _ => ending.bind (ending_any _) fun taken _ => ?_
      refine ending.pure fun inst same => ?_
      obtain rfl := Option.some_inj.1 same
      exact ⟨taken, _, rfl⟩
    · exact ending.pure nothing
  · split
    · unfold call
      split
      · exact ending.pure nothing
      · refine ending_asked nothing fun _ => ?_
        refine ending.bind (ending_any _) fun boxes _ => ending.pure fun inst same => ?_
        obtain rfl := Option.some_inj.1 same
        exact ⟨boxes, _, rfl⟩
    · exact ending.pure nothing
  · rename_i span tag quasis interpolations
    split
    · unfold template
      split
      · exact ending.pure nothing
      · refine ending_asked nothing fun _ => ?_
        have leaf : ending.Holds (·.isLeaf = true)
            (evaluate setting file ⟨file.path, span, .tagged⟩
              (.tagged span tag quasis interpolations)) := by
          intro run box after ended
          rw [evaluate_run] at ended
          cases ended
          exact setting.isLeaf_evaluate_tagged ..
        refine ending.bind leaf fun box isLeaf => ending.pure fun inst same => ?_
        obtain rfl := Option.some_inj.1 same
        exact isLeaf
    · exact ending.pure nothing
  · exact ending.pure nothing

end Extraction

end Glean
