import Glean.Proofs.Box.Combining
import Glean.Proofs.Evaluation.Operands
import Glean.Proofs.Evaluation.Reachable

/-!
# Operators of expressions

An operator on operands that may have several values has a value for every combination of them.

A binary operator that is evaluated has exactly these, in order, unless there are too many of them
or something is not known of an operand (`evaluate_distributes`). A logical operator has at least
these, but an undecided `and` has undefined in place of those left values that are not true
(`evaluate_covers_outcomes`).
-/

namespace Glean

open Syntax Box

/-- A binary operator never has more values than the bound. When it is evaluated within the bound, an
operand that is unknown is the result, the left one first; and when all values of both operands are
known, the values of the result are those for all pairs, in order. An operator that is not evaluated
is unknown, as its operands are where nothing is evaluated. -/
theorem evaluate_distributes (setting : Setting) (run : Run) (path : Path) (expr left right : Expr)
    (span : Span) (operator : Binary) (form : expr.unwrap = .binary span operator left right) :
    let box := ((setting.evaluate path expr).run run).1
    let node := setting.refer path run span
    let first := (setting.evaluate path left).run (setting.entered path expr run)
    let second := (setting.evaluate path right).run first.2
    box.possible.length ≤ alternativeLimit ∧
      (setting.Permits expr run →
        first.1.possible.length * second.1.possible.length ≤ alternativeLimit →
        (first.1.isUnresolvable = true → box = first.1) ∧
        (first.1.isUnresolvable = false → second.1.isUnresolvable = true → box = second.1) ∧
        ((∀ value ∈ first.1.possible ++ second.1.possible, value.isUnresolvable = false) →
          box.possible = first.1.possible.flatMap fun a =>
            second.1.possible.map fun b => pairResult operator node a b)) ∧
      (¬ setting.Permits expr run → ∃ reason, box = .unknown reason node) ∧
      (setting.policy.flags.skipEvaluate = true → (box == first.1) = true) := by
  intro box node first second
  have spanned : expr.unwrap.span = span := by rw [form]; rfl
  have unknown : ¬ setting.Permits expr run → ∃ reason, box = .unknown reason node := by
    intro refused
    have excluded := Setting.evaluate_of_not_permitted path refused
    rw [spanned] at excluded
    exact ⟨_, excluded⟩
  refine ⟨?_, fun permitted within => ?_, unknown, fun skips => ?_⟩
  · by_cases permitted : setting.Permits expr run
    · have whole : box = Box.binary operator node first.1 second.1 :=
        Setting.evaluate_binary form permitted
      rw [whole]
      exact length_possible_binary_le ..
    · obtain ⟨reason, same⟩ := unknown permitted
      rw [same]
      exact (by decide : 1 ≤ alternativeLimit)
  · have whole : box = Box.binary operator node first.1 second.1 :=
      Setting.evaluate_binary form permitted
    rw [whole, Box.binary, if_neg (Nat.not_lt.2 within)]
    refine ⟨fun unknown => ?_, fun known unknown => ?_, fun known => ?_⟩
    · rw [combine_eq, if_pos unknown]
    · rw [combine_eq, known, unknown, if_neg Bool.false_ne_true, if_pos rfl]
    · rw [List.forall_mem_append] at known
      exact possible_combine operator node known.1 known.2
  · rw [show box = _ from Setting.evaluate_of_skips skips path expr run,
      show first.1 = _ from Setting.evaluate_of_skips skips path left _]
    rfl

/-- `(c ? "a" : "b") + (d ? "1" : "2")` has four values. -/
theorem evaluate_distributes_texts :
    let file := Document.make ⟨"/a.ts"⟩ "" ⟨[]⟩
    let setting : Setting := { project := Project.insert {} file }
    let text (start : Nat) (value : String) : Expr := .literal ⟨start, start + 3⟩ (.string value)
    let left : Expr := .wrapped ⟨16, 31⟩ .parentheses (.conditional ⟨17, 30⟩
      (.ident ⟨17, 18⟩ ⟨"c", 1⟩) (text 21 "a") (text 27 "b"))
    let right : Expr := .wrapped ⟨34, 49⟩ .parentheses (.conditional ⟨35, 48⟩
      (.ident ⟨35, 36⟩ ⟨"d", 1⟩) (text 39 "1") (text 45 "2"))
    let expr : Expr := .binary ⟨16, 49⟩ .add left right
    let node := file.scope.refer ⟨16, 49⟩
    setting.Permits expr {} ∧
      ((setting.evaluate file.path expr).run {}).1.possible =
        [.text "a1" (some node), .text "a2" (some node), .text "b1" (some node),
          .text "b2" (some node)] := by
  intro file setting text left right expr node
  have permitted : setting.Permits expr {} := ⟨rfl, nofun⟩
  obtain ⟨-, evaluated, -⟩ :=
    evaluate_distributes setting {} file.path expr left right ⟨16, 49⟩ .add rfl
  obtain ⟨-, -, distributed⟩ := evaluated permitted (by decide +kernel)
  refine ⟨permitted, (distributed (by decide +kernel)).trans ?_⟩
  decide +kernel

/-- A gate that refuses operators with two operands. -/
def refusingOperators : Gate
  | .binary .., _ | .logical .., _ => false
  | _, _ => true

/-- `"a" + "b"` has no value that is known where the gate refuses it, though both operands are
known. -/
theorem not_evaluate_distributes_refused :
    let file := Document.make ⟨"/a.ts"⟩ "" ⟨[]⟩
    let setting : Setting :=
      { project := Project.insert {} file, policy := { gate := some refusingOperators } }
    let left : Expr := .literal ⟨16, 19⟩ (.string "a")
    let right : Expr := .literal ⟨22, 25⟩ (.string "b")
    let expr : Expr := .binary ⟨16, 25⟩ .add left right
    let first := (setting.evaluate file.path left).run (setting.entered file.path expr {})
    let second := (setting.evaluate file.path right).run first.2
    setting.Reachable {} ∧
      first.1.possible.length * second.1.possible.length ≤ alternativeLimit ∧
      (∀ value ∈ first.1.possible ++ second.1.possible, value.isUnresolvable = false) ∧
      ∀ node, ((setting.evaluate file.path expr).run {}).1.possible ≠
        first.1.possible.flatMap fun a => second.1.possible.map fun b => pairResult .add node a b := by
  intro file setting left right expr first second
  have refused : ¬ setting.Permits expr {} := fun permitted =>
    absurd (permitted.2 _ rfl) (by decide)
  have values : first.1.possible = [.text "a" (some (file.scope.refer ⟨16, 19⟩))] := by decide +kernel
  have others : second.1.possible = [.text "b" (some (file.scope.refer ⟨22, 25⟩))] := by decide +kernel
  rw [values, others, Setting.evaluate_of_not_permitted file.path refused]
  refine ⟨.start, by decide, by decide, fun node distributed => ?_⟩
  change [Box.unknown ..] = [Box.text "ab" (some node)] at distributed
  cases distributed

namespace Box

/-- Whether a condition takes a value as true. -/
def isTruthy : Box → Bool
  | literal value _ => value.truthy
  | _ => true

/-- Whether a value is one of the two values for nothing. -/
def isNullish : Box → Bool
  | literal value _ => value.nullish
  | _ => false

end Box

/-- Whether an operator gives its left value without a look at the right one. -/
def Syntax.Logical.keeps (operator : Logical) (left : Box) : Bool :=
  match operator with
  | .and => !left.isTruthy
  | .or => left.isTruthy
  | .coalesce => !left.isNullish

/-- What an operator gives for two values. -/
def Syntax.Logical.result (operator : Logical) (left right : Box) : Box :=
  if operator.keeps left then left else right

namespace Box

variable {operator : Logical} {box left right a b : Box} {condition node : Reference}

/-- A question is answered for a box as it is for all its values. -/
theorem agreed_of_answers {question : Box → Option Bool} {answer : Box → Bool}
    (answers : ∀ value ∈ box.possible, question value = some (answer value)) (given : Bool) :
    agreed question box = some given ↔ ∀ value ∈ box.possible, answer value = given := by
  rw [agreed_eq_some]
  refine forall₂_congr fun value found => ?_
  rw [answers value found, Option.some_inj]

section Known

variable (known : ∀ value ∈ box.possible, value.isUnresolvable = false)

include known

/-- What is known is a literal, a list or a map. -/
theorem cases_of_known {value : Box} (found : value ∈ box.possible) :
    (∃ primitive node, value = .literal primitive node) ∨
      (∃ items node, value = .list items node) ∨ ∃ entries node, value = .map entries node := by
  have single := branches?_of_possible found
  have resolved := known value found
  cases value with
  | literal primitive node => exact .inl ⟨primitive, node, rfl⟩
  | list items node => exact .inr (.inl ⟨items, node, rfl⟩)
  | map entries node => exact .inr (.inr ⟨entries, node, rfl⟩)
  | conditional => cases single
  | unresolvable => cases resolved

/-- A box with known alternatives decides a condition when all of them decide it alike. -/
theorem truthy?_of_known (answer : Bool) :
    box.truthy? = some answer ↔ ∀ value ∈ box.possible, value.isTruthy = answer := by
  refine agreed_of_answers (fun value found => ?_) answer
  obtain ⟨_, _, rfl⟩ | ⟨_, _, rfl⟩ | ⟨_, _, rfl⟩ := cases_of_known known found <;> rfl

/-- A box with known alternatives decides whether it is nullish when all of them do so alike. -/
theorem nullish?_of_known (answer : Bool) :
    box.nullish? = some answer ↔ ∀ value ∈ box.possible, value.isNullish = answer := by
  refine agreed_of_answers (fun value found => ?_) answer
  obtain ⟨_, _, rfl⟩ | ⟨_, _, rfl⟩ | ⟨_, _, rfl⟩ := cases_of_known known found <;> rfl

/-- It is decided which operand an operator gives when it is the same one for all left values. -/
theorem shortCircuits?_of_known (operator : Logical) (answer : Bool) :
    Evaluation.shortCircuits? operator box = some answer ↔
      ∀ value ∈ box.possible, operator.keeps value = answer := by
  have negated : ∀ {asked : Option Bool},
      asked.map (!·) = some answer ↔ asked = some !answer := by
    intro asked
    cases asked <;> simp [Bool.not_eq_eq_eq_not]
  cases operator with
  | and =>
    simp only [Evaluation.shortCircuits?, negated, truthy?_of_known known, Logical.keeps,
      Bool.not_eq_eq_eq_not]
  | or => exact truthy?_of_known known answer
  | coalesce =>
    simp only [Evaluation.shortCircuits?, negated, nullish?_of_known known, Logical.keeps,
      Bool.not_eq_eq_eq_not]

end Known

/-- Among the values of a logical operator is its result for any two values of its operands, but
where they do not all decide alike whether `and` gives its left one, undefined is in place of
that. -/
theorem mem_possible_logical (condition node : Reference)
    (known : ∀ value ∈ left.possible, value.isUnresolvable = false) (found : a ∈ left.possible)
    (foundNext : b ∈ right.possible) :
    (if operator = .and ∧ operator.keeps a = true ∧
        ∃ other ∈ left.possible, operator.keeps other = false
      then missing else operator.result a b) ∈
        (Box.logical operator condition node left right).possible := by
  unfold Box.logical Logical.result
  cases decided : Evaluation.shortCircuits? operator left with
  | some answer =>
    have alike := (shortCircuits?_of_known known operator answer).1 decided
    -- All left values decide alike, so one operand is the result for every pair.
    have agrees : ¬ (operator = .and ∧ operator.keeps a = true ∧
        ∃ other ∈ left.possible, operator.keeps other = false) := by
      rintro ⟨-, kept, other, listed, left⟩
      exact Bool.false_ne_true
        ((left.symm.trans (alike other listed)).trans ((alike a found).symm.trans kept))
    rw [if_neg agrees, alike a found]
    cases answer with
    | true => exact found
    | false => exact foundNext
  | none =>
    -- For either answer there is a left value that decides the other way.
    have disagree : ∀ answer, ∃ other ∈ left.possible, operator.keeps other = !answer := by
      intro answer
      by_contra! alike
      have agreed := (shortCircuits?_of_known known operator answer).2 fun other listed =>
        by simpa using alike other listed
      cases decided.symm.trans agreed
    cases operator with
    | and =>
      cases kept : Logical.keeps .and a with
      | true =>
        rw [if_pos ⟨rfl, rfl, disagree true⟩]
        exact List.mem_append_right _ (List.mem_singleton.2 rfl)
      | false =>
        rw [if_neg (fun undecided => Bool.false_ne_true undecided.2.1), if_neg Bool.false_ne_true]
        exact List.mem_append_left _ foundNext
    | _ =>
      rw [if_neg (fun undecided => Logical.noConfusion undecided.1)]
      change (if _ = true then a else b) ∈ left.possible ++ right.possible
      split
      · exact List.mem_append_left _ found
      · exact List.mem_append_right _ foundNext

end Box

/-- A permitted logical operator whose conditions are not skipped covers every outcome: when all
values of both operands are known, its result for any two of them is among its values. Only where
some left values decide for the left operand of `and` and some against it, undefined is in place of
the left values that are not true. -/
theorem evaluate_covers_outcomes (setting : Setting) (run : Run) (path : Path)
    (expr left right : Expr) (span : Span) (operator : Logical)
    (form : expr.unwrap = .logical span operator left right) (permitted : setting.Permits expr run)
    (both : setting.policy.flags.skipConditions = false) :
    let box := ((setting.evaluate path expr).run run).1
    let first := (setting.evaluate path left).run (setting.entered path expr run)
    let second := (setting.evaluate path right).run first.2
    (∀ value ∈ first.1.possible ++ second.1.possible, value.isUnresolvable = false) →
      ∀ a ∈ first.1.possible, ∀ b ∈ second.1.possible,
        (if operator = .and ∧ operator.keeps a = true ∧
            ∃ other ∈ first.1.possible, operator.keeps other = false
          then missing else operator.result a b) ∈ box.possible := by
  intro box first second known a found b foundNext
  have whole : box = Box.logical operator (setting.refer path run left.span)
      (setting.refer path run span) first.1 second.1 :=
    Setting.evaluate_logical form permitted both
  rw [whole]
  exact mem_possible_logical _ _ (fun value listed => known value (List.mem_append_left _ listed))
    found foundNext

/-- `(c ? "" : "x") || "y"` may be either text that is not empty. -/
theorem evaluate_covers_outcomes_or :
    let file := Document.make ⟨"/a.ts"⟩ "" ⟨[]⟩
    let setting : Setting := { project := Project.insert {} file }
    let left : Expr := .wrapped ⟨16, 30⟩ .parentheses (.conditional ⟨17, 29⟩
      (.ident ⟨17, 18⟩ ⟨"c", 1⟩) (.literal ⟨21, 23⟩ (.string "")) (.literal ⟨26, 29⟩ (.string "x")))
    let right : Expr := .literal ⟨34, 37⟩ (.string "y")
    let expr : Expr := .logical ⟨16, 37⟩ .or left right
    let x : Box := .text "x" (some (file.scope.refer ⟨26, 29⟩))
    let y : Box := .text "y" (some (file.scope.refer ⟨34, 37⟩))
    setting.Permits expr {} ∧ setting.policy.flags.skipConditions = false ∧
      x ∈ ((setting.evaluate file.path expr).run {}).1.possible ∧
      y ∈ ((setting.evaluate file.path expr).run {}).1.possible := by
  intro file setting left right expr x y
  let inside := setting.entered file.path expr {}
  let empty : Box := .text "" (some (file.scope.refer ⟨21, 23⟩))
  have permitted : setting.Permits expr {} := ⟨rfl, nofun⟩
  have values : ((setting.evaluate file.path left).run inside).1.possible = [empty, x] := by decide +kernel
  have others : ((setting.evaluate file.path right).run
      ((setting.evaluate file.path left).run inside).2).1.possible = [y] := by decide +kernel
  have covers := evaluate_covers_outcomes setting {} file.path expr left right ⟨16, 37⟩ .or rfl
    permitted rfl (by decide +kernel)
  have kept := covers x (values ▸ by simp) y (others ▸ by simp)
  have passed := covers empty (values ▸ by simp) y (others ▸ by simp)
  rw [if_neg (fun undecided => Logical.noConfusion undecided.1)] at kept passed
  exact ⟨permitted, rfl, kept, passed⟩

/-- `(c ? "" : "x") && "y"` is never the empty text, whether it is evaluated or refused. -/
theorem not_evaluate_covers_outcomes_and :
    let file := Document.make ⟨"/a.ts"⟩ "" ⟨[]⟩
    let left : Expr := .wrapped ⟨16, 30⟩ .parentheses (.conditional ⟨17, 29⟩
      (.ident ⟨17, 18⟩ ⟨"c", 1⟩) (.literal ⟨21, 23⟩ (.string "")) (.literal ⟨26, 29⟩ (.string "x")))
    let right : Expr := .literal ⟨34, 37⟩ (.string "y")
    let expr : Expr := .logical ⟨16, 37⟩ .and left right
    ∀ policy ∈ [({} : Policy), { gate := some refusingOperators }],
      let setting : Setting := { project := Project.insert {} file, policy }
      let first := (setting.evaluate file.path left).run (setting.entered file.path expr {})
      let second := (setting.evaluate file.path right).run first.2
      policy.flags.skipConditions = false ∧
        (∀ value ∈ first.1.possible ++ second.1.possible, value.isUnresolvable = false) ∧
        ∃ a ∈ first.1.possible, ∃ b ∈ second.1.possible,
          ∀ value ∈ ((setting.evaluate file.path expr).run {}).1.possible,
            (value == Logical.result .and a b) = false := by
  intro file left right expr
  rw [List.forall_mem_cons, List.forall_mem_singleton]
  constructor <;> decide +kernel

end Glean
