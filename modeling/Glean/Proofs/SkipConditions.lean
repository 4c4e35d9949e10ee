import Glean.Proofs.Evaluation.Covering
import Glean.Proofs.Evaluation.Transparency

/-!
# Leaving out conditions

Where conditions are left out, less is known. A box without unresolvable parts is the same with and
without the flag, provided it does not rest on what was left out: provided cautious evaluation comes
to it as well.
-/

namespace Glean

open Syntax Box

/-- A policy that leaves out conditions knows less than one that need not. -/
def Sharpening.skipping (project : Project) (skipFiles skipped : Bool) : Sharpening where
  project
  environment := []
  coarse := { flags := { skipConditions := true, skipFiles } }
  fine := { flags := { skipConditions := skipped, skipFiles } }
  ungated := rfl
  ungatedFine := rfl
  plain := rfl
  environs _ _ := rfl
  helpless _ _ := rfl
  outermost _ _ _ := rfl
  skipEvaluate := rfl
  skipFiles := rfl
  skipConditions _ := rfl
  unbound _ _ found := nomatch found

/-- An expression whose cautious evaluation without a look into conditions leaves nothing unresolved
comes to the same box whether or not conditions are left out. -/
theorem evaluate_alike_cautiously {project : Project} (skipFiles : Bool) {path : Path} {expr : Expr}
    {depth : Nat} (found : (project.file? path).isSome)
    (resolved : (Setting.cautiously
      { project, policy := { flags := { skipConditions := true, skipFiles } } }
      depth path expr).unresolvables = []) (skipped : Bool) :
    Alike .blind
      (Setting.cautiously { project, policy := { flags := { skipConditions := true, skipFiles } } }
        depth path expr)
      ((Setting.evaluate
        { project, policy := { flags := { skipConditions := skipped, skipFiles } } } path expr).run
        {}).1 := by
  let s := Sharpening.skipping project skipFiles skipped
  obtain ⟨value, after, uncached, alike, _⟩ :=
    Setting.evaluate_uncached (s.sharp.idle_start []) found expr
  have covers : s.Covers (s.blunt.cautiously depth path expr) value := s.covers_cautiously uncached
  exact (covers.alike resolved).trans alike

/-- A box that leaves nothing unresolved although conditions are left out is also the box with a look
into conditions, if it does not rest on what was left out. -/
theorem evaluate_skipConditions (project : Project) (skipFiles : Bool) (path : Path) (expr : Expr)
    (depth : Nat) :
    let full : Setting := { project, policy := { flags := { skipFiles } } }
    let skipping : Setting :=
      { project, policy := { flags := { skipConditions := true, skipFiles } } }
    (project.file? path).isSome →
    ((skipping.evaluate path expr).run {}).1.unresolvables = [] →
    ((skipping.evaluate path expr).run {}).1 == skipping.cautiously depth path expr →
    ((full.evaluate path expr).run {}).1 == ((skipping.evaluate path expr).run {}).1 := by
  intro full skipping found resolved sure
  have certain := evaluate_alike_cautiously skipFiles found (unresolvables_of_same sure resolved)
  exact ((certain false).symm.trans (certain true)).beq

/-- `({ b: "x", ...(c ? { b: "y" } : { b: "z" }) }).b` -/
def overwritten : Expr :=
  .member ⟨16, 64⟩
    (.wrapped ⟨16, 62⟩ .parentheses (.object ⟨17, 61⟩
      [.keyed ⟨19, 25⟩ (.name "b") (.literal ⟨22, 25⟩ (.string "x")),
        .spread ⟨27, 59⟩ (.wrapped ⟨30, 59⟩ .parentheses
          (.conditional ⟨31, 58⟩ (.ident ⟨31, 32⟩ ⟨"c", 1⟩)
            (.object ⟨35, 45⟩ [.keyed ⟨37, 43⟩ (.name "b") (.literal ⟨40, 43⟩ (.string "y"))])
            (.object ⟨48, 58⟩ [.keyed ⟨50, 56⟩ (.name "b") (.literal ⟨53, 56⟩ (.string "z"))])))]))
    (.name "b")

/-- With conditions left out, a spread of one of two objects hides nothing, although both of them
have the key. -/
theorem evaluate_skipConditions_overwritten :
    let file := Document.make ⟨"/a.ts"⟩ "" ⟨[.exportDefault ⟨1, 65⟩ overwritten]⟩
    let project := Project.insert {} file
    let full : Setting := { project }
    let skipping : Setting := { project, policy := { flags := { skipConditions := true } } }
    (project.file? file.path).isSome ∧
      ((skipping.evaluate file.path overwritten).run {}).1.unresolvables = [] ∧
      (((full.evaluate file.path overwritten).run {}).1 ==
        ((skipping.evaluate file.path overwritten).run {}).1) = false := by
  refine ⟨?_, ?_, ?_⟩ <;> decide +kernel

/-- `({ a: c ? "y" : "z", b: "x" }).b` -/
def spared : Expr :=
  .member ⟨16, 48⟩
    (.wrapped ⟨16, 46⟩ .parentheses (.object ⟨17, 45⟩
      [.keyed ⟨19, 35⟩ (.name "a") (.conditional ⟨22, 35⟩ (.ident ⟨22, 23⟩ ⟨"c", 1⟩)
          (.literal ⟨26, 29⟩ (.string "y")) (.literal ⟨32, 35⟩ (.string "z"))),
        .keyed ⟨37, 43⟩ (.name "b") (.literal ⟨40, 43⟩ (.string "x"))]))
    (.name "b")

/-- A condition under another key decides nothing. -/
theorem evaluate_skipConditions_spared :
    let file := Document.make ⟨"/a.ts"⟩ "" ⟨[.exportDefault ⟨1, 49⟩ spared]⟩
    let project := Project.insert {} file
    let full : Setting := { project }
    let skipping : Setting := { project, policy := { flags := { skipConditions := true } } }
    (project.file? file.path).isSome ∧
      ((skipping.evaluate file.path spared).run {}).1.unresolvables = [] ∧
      ((skipping.evaluate file.path spared).run {}).1 == skipping.cautiously 6 file.path spared ∧
      ((full.evaluate file.path spared).run {}).1 ==
        ((skipping.evaluate file.path spared).run {}).1 := by
  intro file project full skipping
  have found : (project.file? file.path).isSome := by decide +kernel
  have resolved : ((skipping.evaluate file.path spared).run {}).1.unresolvables = [] := by decide +kernel
  have sure : ((skipping.evaluate file.path spared).run {}).1 ==
      skipping.cautiously 6 file.path spared := by decide +kernel
  exact ⟨found, resolved, sure,
    evaluate_skipConditions project false file.path spared 6 found resolved sure⟩

end Glean
