import Glean.Proofs.Evaluation.Covering
import Glean.Proofs.Evaluation.Transparency

/-!
# Knowing more

An environment gives boxes to names of which nothing was known before. What evaluation finds with the
environment is among what it allowed for without it (`Box.Admits`), provided the box found without it
does not rest on a guess about something unknown: provided cautious evaluation comes to it as well.
-/

namespace Glean

open Syntax

namespace Box

/-- The first box allows for what the second one says. -/
inductive Admits : Box → Box → Prop where
  | unknown (reason : Reason) (node : Option Reference) (other : Box) :
    Admits (unresolvable reason node) other
  | split {box whenTrue whenFalse : Box} {condition node : Option Reference}
    (yes : Admits box whenTrue) (no : Admits box whenFalse) :
    Admits box (conditional whenTrue whenFalse condition node)
  | left {whenTrue whenFalse other : Box} {condition node : Option Reference}
    (admits : Admits whenTrue other) : Admits (conditional whenTrue whenFalse condition node) other
  | right {whenTrue whenFalse other : Box} {condition node : Option Reference}
    (admits : Admits whenFalse other) : Admits (conditional whenTrue whenFalse condition node) other
  | literal {value next : Primitive} {node other : Option Reference}
    (equal : value.same next = true) : Admits (literal value node) (literal next other)
  | list {items others : List Box} {node other : Option Reference}
    (lengths : items.length = others.length)
    (each : ∀ pair ∈ items.zip others, Admits pair.1 pair.2) :
    Admits (list items node) (list others other)
  | map {entries others : Entries String Box} {node other : Option Reference}
    (each : ∀ key ∈ Entries.keys entries ++ Entries.keys others,
      Admits ((Entries.get? entries key).getD missing) ((Entries.get? others key).getD missing)) :
    Admits (map entries node) (map others other)

/-- What relates lists place by place is composed place by place. -/
theorem forall₂_compose {α β γ : Type} {first : α → β → Prop} {second : α → γ → Prop}
    {left : List α} {middle : List β} {right : List γ} (pairs : List.Forall₂ first left middle)
    (next : List.Forall₂ (fun b c => ∀ a, first a b → second a c) middle right) :
    List.Forall₂ second left right := by
  induction pairs generalizing right with
  | nil => cases next; exact .nil
  | cons holds _ ih =>
    cases next with
    | cons further others => exact .cons (further _ holds) (ih others)

/-- A box that says the same as one that covers a box allows for it. -/
theorem Covers.admits {branching : Bool} {box known value : Box}
    (covers : Covers branching known value) (equal : (box == known) = true) : Admits box value := by
  change same box known = true at equal
  -- By induction on what is covered; the box on the left has the shape of the known one.
  induction covers generalizing box with
  | unknown => cases box <;> first | exact .unknown .. | exact (Bool.false_ne_true equal).elim
  | literal => cases box <;> first | exact .literal equal | exact (Bool.false_ne_true equal).elim
  | @list items others _ _ lengths _ ih =>
    cases box with
    | list first node =>
      rw [same, sameItems_iff] at equal
      have second : List.Forall₂ (fun item other => ∀ box, same box item = true → Admits box other)
          items others :=
        List.forall₂_iff_zip.2 ⟨lengths, fun found _ equal => ih _ found equal⟩
      have admits := List.forall₂_iff_zip.1 (forall₂_compose equal second)
      exact .list admits.1 fun _ found => admits.2 found
    | _ => exact (Bool.false_ne_true equal).elim
  | @map entries others _ _ keys _ ih =>
    cases box with
    | map first node =>
      rw [same, sameEntries_iff] at equal
      have second := @forall₂_of_keys
        (fun value other => ∀ box, same box value = true → Admits box other) entries others keys
        fun _ found _ equal => ih _ found equal
      have admits : List.Forall₂ (fun entry other => entry.1 = other.1 ∧ Admits entry.2 other.2)
          first others :=
        forall₂_compose equal (second.imp fun _ _ next _ same =>
          ⟨same.1.trans next.1, next.2 _ same.2⟩)
      exact .map fun key _ => forall₂_getD admits key (.literal (Primitive.same_self _))
    | _ => exact (Bool.false_ne_true equal).elim
  | left branches _ ih =>
    cases box <;> simp only [same, Bool.false_eq_true, Bool.and_eq_true] at equal
    exact .left (ih equal.1)
  | right branches _ ih =>
    cases box <;> simp only [same, Bool.false_eq_true, Bool.and_eq_true] at equal
    exact .right (ih equal.2)
  | both branches _ _ yes no =>
    cases box <;> simp only [same, Bool.false_eq_true, Bool.and_eq_true] at equal
    exact .split (.left (yes equal.1)) (.right (no equal.2))

end Box

/-- The policy under which, in addition, the outermost expression gives a name a box. -/
def Policy.knowing (policy : Policy) (name : String) (value : Box) : Policy :=
  { policy with
    overrides := some fun _ stack =>
      if stack.isEmpty then some { environment := [(name, value)] } else none }

/-- A policy that gives a box to a name without a meaning knows more. -/
def Sharpening.knowing (project : Project) (flags : Flags) (name : String) (value : Box)
    (foreign : builtin? name = none)
    (unbound : ∀ path (id : Id), id.name = name → (project.scope path).binding? id = none) :
    Sharpening where
  project
  environment := [(name, value)]
  coarse := { flags }
  fine := Policy.knowing { flags } name value
  ungated := rfl
  ungatedFine := rfl
  plain := rfl
  environs _ _ := rfl
  helpless _ _ := rfl
  outermost _ stack inside := by
    cases stack with
    | nil => exact absurd rfl inside
    | cons => rfl
  skipEvaluate := rfl
  skipFiles := rfl
  skipConditions := id
  unbound other box found := by
    simp only [Entries.get?] at found
    split at found
    · rename_i same
      obtain rfl := eq_of_beq same
      exact ⟨foreign, unbound⟩
    · cases found

/-- What an expression comes to allows for what it comes to once a name without a meaning is given a
box, if it does not rest on a guess about something unknown. -/
theorem evaluate_admits_knowing (project : Project) (flags : Flags) (path : Path) (expr : Expr)
    (name : String) (value : Box) (depth : Nat) :
    let setting : Setting := { project, policy := { flags } }
    let knowing : Setting := { project, policy := Policy.knowing { flags } name value }
    (project.file? path).isSome → builtin? name = none →
    (∀ path (id : Id), id.name = name → (project.scope path).binding? id = none) →
    ((setting.evaluate path expr).run {}).1 == setting.cautiously depth path expr →
    ((setting.evaluate path expr).run {}).1.Admits ((knowing.evaluate path expr).run {}).1 := by
  intro setting knowing found foreign unbound sure
  let s := Sharpening.knowing project flags name value foreign unbound
  obtain ⟨box, after, uncached, _, same, _⟩ :=
    Setting.evaluate_uncached (s.sharp.idle_start []) found expr
  have covers : s.Covers (s.blunt.cautiously depth path expr) box := s.covers_cautiously uncached
  have result : box = ((knowing.evaluate path expr).run {}).1 := same rfl
  exact result ▸ covers.admits sure

/-- `({ ...c }).b` -/
def spreading : Expr :=
  .member ⟨16, 28⟩
    (.wrapped ⟨16, 26⟩ .parentheses (.object ⟨17, 25⟩
      [.spread ⟨19, 23⟩ (.ident ⟨22, 23⟩ ⟨"c", 1⟩)]))
    (.name "b")

/-- A member of an object that an unknown value is spread into is undefined, although the value may
have it. -/
theorem not_admits_knowing_spreading :
    let file := Document.make ⟨"/a.ts"⟩ "" ⟨[.exportDefault ⟨1, 29⟩ spreading]⟩
    let project := Project.insert {} file
    let setting : Setting := { project }
    let knowing : Setting :=
      { project, policy := Policy.knowing {} "c" (.map [("b", .text "x" none)] none) }
    (project.file? file.path).isSome ∧ builtin? "c" = none ∧
      (∀ path (id : Id), id.name = "c" → (project.scope path).binding? id = none) ∧
      ¬((setting.evaluate file.path spreading).run {}).1.Admits
        ((knowing.evaluate file.path spreading).run {}).1 := by
  intro file project setting knowing
  have undefined : ((setting.evaluate file.path spreading).run {}).1 =
      .undefinedAt ⟨file.path, spreading.span, .expr⟩ := by decide +kernel
  have given : ((knowing.evaluate file.path spreading).run {}).1 = .text "x" none := by
    decide +kernel
  refine ⟨by decide +kernel, by decide +kernel,
    fun path id _ => Project.binding?_of_unbound (by decide +kernel) path id, ?_⟩
  rw [undefined, given]
  intro admits
  cases admits with
  | literal equal => cases equal

/-- `[c ? "y" : "z"]` -/
def undecided : Expr :=
  .array ⟨16, 31⟩
    [some (.single (.conditional ⟨17, 30⟩ (.ident ⟨17, 18⟩ ⟨"c", 1⟩)
      (.literal ⟨21, 24⟩ (.string "y")) (.literal ⟨27, 30⟩ (.string "z"))))]

/-- An undecided condition allows for both outcomes. -/
theorem evaluate_admits_knowing_undecided :
    let file := Document.make ⟨"/a.ts"⟩ "" ⟨[.exportDefault ⟨1, 32⟩ undecided]⟩
    let project := Project.insert {} file
    let value : Box := .literal (.boolean true) none
    let setting : Setting := { project }
    let knowing : Setting := { project, policy := Policy.knowing {} "c" value }
    (project.file? file.path).isSome ∧ builtin? "c" = none ∧
      (∀ path (id : Id), id.name = "c" → (project.scope path).binding? id = none) ∧
      ((setting.evaluate file.path undecided).run {}).1 ==
        setting.cautiously 6 file.path undecided ∧
      ((setting.evaluate file.path undecided).run {}).1.Admits
        ((knowing.evaluate file.path undecided).run {}).1 := by
  intro file project value setting knowing
  have found : (project.file? file.path).isSome := by decide +kernel
  have foreign : builtin? "c" = none := by decide +kernel
  have unbound : ∀ path (id : Id), id.name = "c" → (project.scope path).binding? id = none :=
    fun path id _ => Project.binding?_of_unbound (by decide +kernel) path id
  have sure : ((setting.evaluate file.path undecided).run {}).1 ==
      setting.cautiously 6 file.path undecided := by decide +kernel
  exact ⟨found, foreign, unbound, sure,
    evaluate_admits_knowing project {} file.path undecided "c" value 6 found foreign unbound sure⟩

end Glean
