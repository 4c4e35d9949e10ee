import Glean.Proofs.Entries
import Glean.Proofs.Extraction.Attributes
import Glean.Proofs.Extraction.Logic

/-!
# What is collected about an element

The attributes of an element are collected one after the other, and then the default values of
properties that it does not have. What attributes collect over others is what they collect on their
own, put over that (`Collected.Over`), so a property that they do not give stays what it was. Under
a property that the matcher takes stands what a spread gives there (`ending_spreadEntries`), and the
default is put only where no attribute gives the property (`ending_defaults`).
-/

namespace Glean

open Syntax Box

/-- Two computations come to related values, or fail alike, and end in one state. -/
inductive Extract.Matches {α β : Type} (related : α → β → Prop) :
    Except Failure α × Run → Except Failure β × Run → Prop where
  | value {a : α} {b : β} (alike : related a b) (run : Run) : Matches related (.ok a, run) (.ok b, run)
  | failure (failed : Failure) (run : Run) : Matches related (.error failed, run) (.error failed, run)

/-- From each state, two computations come to related values, or fail alike. -/
def Extract.Together {α β : Type} (related : α → β → Prop) (left : Extract α) (right : Extract β) :
    Prop :=
  ∀ run, Matches related (left.run.run run) (right.run.run run)

namespace Extract.Together

variable {α β γ δ : Type} {related : α → β → Prop}

/-- Related values go together. -/
theorem pure {a : α} {b : β} (alike : related a b) : Together related (Pure.pure a) (Pure.pure b) :=
  fun run => .value alike run

/-- Computations that go together, followed by such, go together. -/
theorem bind {after : γ → δ → Prop} {left : Extract α} {right : Extract β}
    {leftNext : α → Extract γ} {rightNext : β → Extract δ} (first : Together related left right)
    (rest : ∀ a b, related a b → Together after (leftNext a) (rightNext b)) :
    Together after (left >>= leftNext) (right >>= rightNext) := by
  intro run
  rw [run_bind, run_bind]
  have both := first run
  generalize left.run.run run = one at both
  generalize right.run.run run = other at both
  cases both with
  | value alike middle => exact rest _ _ alike middle
  | failure failed middle => exact .failure failed middle

/-- What both do first makes no difference. -/
theorem after {computation : Extract α} {left : α → Extract γ} {right : α → Extract δ}
    {related : γ → δ → Prop} (rest : ∀ value, Together related (left value) (right value)) :
    Together related (computation >>= left) (computation >>= right) := by
  have same : Together Eq computation computation := by
    intro run
    generalize computation.run.run run = ended
    obtain ⟨failed | value, middle⟩ := ended
    · exact .failure failed middle
    · exact .value rfl middle
  exact same.bind fun value _ equal => equal ▸ rest value

end Extract.Together

namespace Extraction

open Extract

/-- What is collected over something else: what is collected on its own, put over that. -/
structure Collected.Over (before own collected : Collected) : Prop where
  present : collected.present = own.present ++ before.present
  kept : ∀ property, property ∉ own.present →
    Entries.get? collected.taken property = Entries.get? before.taken property

variable {setting : Setting} {file : Document} {matcher : ComponentMatcher} {name : String}
  {opening : Opening} {before own collected : Collected}

/-- Before anything is collected on its own. -/
theorem Collected.over_start (before : Collected) : Collected.Over before {} before :=
  ⟨rfl, fun _ _ => rfl⟩

section Over

variable (above : Collected.Over before own collected)

include above

/-- An offer adds to what was collected before as it adds to what is collected alone. -/
theorem together_offer (question : AttributeQuestion) (box : Extract Box) :
    Together (Collected.Over before) (own.offer matcher file question box)
      (collected.offer matcher file question box) := by
  have present : question.property :: collected.present =
      (question.property :: own.present) ++ before.present :=
    congrArg (question.property :: ·) above.present
  refine Together.after fun taken => ?_
  cases taken with
  | false =>
    refine .pure ⟨present, fun property absent => ?_⟩
    exact above.kept property fun listed => absent (List.mem_cons_of_mem _ listed)
  | true =>
    refine Together.after fun value => .pure ⟨present, fun property absent => ?_⟩
    have different : (question.property == property) = false :=
      beq_eq_false_iff_ne.2 fun same => absent (same ▸ List.mem_cons_self ..)
    rw [Entries.get?_insert, different]
    exact above.kept property fun listed => absent (List.mem_cons_of_mem _ listed)

/-- Spread entries add to what was collected before as they add to what is collected alone. -/
theorem together_spreadEntries (entries : List (String × Box)) :
    Together (Collected.Over before) (spreadEntries file matcher name opening own entries)
      (spreadEntries file matcher name opening collected entries) := by
  induction entries generalizing own collected with
  | nil => exact .pure above
  | cons entry rest ih =>
    obtain ⟨property, box⟩ := entry
    unfold spreadEntries
    dsimp only
    split
    · exact Together.bind (.pure above) fun _ _ above => ih above
    · exact Together.bind (together_offer above ⟨name, opening, property, none⟩ (pure box))
        fun _ _ above => ih above

/-- Attributes add to what was collected before as they add to what is collected alone. -/
theorem together_addAttributes (around : Reference) (attributes : List Attribute) :
    Together (Collected.Over before)
      (addAttributes setting file matcher name opening around own attributes)
      (addAttributes setting file matcher name opening around collected attributes) := by
  induction attributes generalizing own collected with
  | nil => exact .pure above
  | cons first rest ih =>
    refine Together.bind ?_ fun _ _ above => ih above
    cases first with
    | named span property value =>
      exact together_offer above ⟨name, opening, property, some (span, value)⟩ _
    | spread span value =>
      exact Together.after fun box => together_spreadEntries above (box.entries?.getD [])

end Over

/-- Attributes that do not give a property on their own leave it as it was. -/
theorem of_addAttributes {around : Reference} {attributes : List Attribute} {run after : Run}
    {property : String}
    (ended : (addAttributes setting file matcher name opening around before attributes).run.run run =
      (.ok collected, after))
    (absent : ∀ own, ((addAttributes setting file matcher name opening around {}
      attributes).run.run run).1 = .ok own → property ∉ own.present) :
    (property ∈ collected.present ↔ property ∈ before.present) ∧
      Entries.get? collected.taken property = Entries.get? before.taken property := by
  have together : Together (Collected.Over before)
      (addAttributes setting file matcher name opening around {} attributes)
      (addAttributes setting file matcher name opening around before attributes) :=
    together_addAttributes (Collected.over_start before) around attributes
  have both := together run
  rw [ended] at both
  generalize (addAttributes setting file matcher name opening around {} attributes).run.run run =
    alone at both absent
  cases both with
  | value above =>
    have missing := absent _ rfl
    refine ⟨?_, above.kept property missing⟩
    rw [above.present, List.mem_append]
    exact or_iff_right missing

/-- A property that is offered is present from then on, and it is put if it is taken. -/
theorem ending_offer (question : AttributeQuestion) (value : Box) (before : Collected) :
    ending.Holds (fun after => after.present = question.property :: before.present ∧
        ∀ property, Entries.get? after.taken property =
          if question.property = property ∧ matcher.property question = .ok true then some value
          else Entries.get? before.taken property)
      (before.offer matcher file question (pure value)) := by
  have asked := ending_ask file (.attr question) (matcher.property question)
  refine ending.bind asked fun taken answered => ?_
  cases taken with
  | false =>
    have refused : ¬ matcher.property question = .ok true := by
      rw [answered]
      nofun
    exact ending.pure ⟨rfl, fun property => by simp [refused]⟩
  | true =>
    refine ending.bind (ending.pure (rfl : value = value)) fun box same => ending.pure ?_
    subst same
    exact ⟨rfl, fun property => by simp [Entries.get?_insert, answered]⟩

section Taken

variable {property : String}
  (accepted : matcher.property ⟨name, opening, property, none⟩ = .ok true)

include accepted

/-- Of a property that is taken, a spread that gives it gives the value. -/
theorem ending_spreadEntries (named : isProperty property = true) {entries : Entries String Box}
    (apart : (Entries.keys entries).Nodup) (before : Collected) :
    ending.Holds (fun after =>
        (property ∈ after.present ↔ property ∈ Entries.keys entries ∨ property ∈ before.present) ∧
        Entries.get? after.taken property =
          (Entries.get? entries property).or (Entries.get? before.taken property))
      (spreadEntries file matcher name opening before entries) := by
  induction entries generalizing before with
  | nil => exact ending.pure ⟨by simp [Entries.keys], rfl⟩
  | cons entry rest ih =>
    obtain ⟨key, box⟩ := entry
    obtain ⟨away, apart⟩ := List.nodup_cons.1 apart
    unfold spreadEntries
    dsimp only
    split
    · -- The text of a spread is passed over, and it is not the property.
      rename_i dots
      have different : key ≠ property := by
        rintro rfl
        simp [isProperty, dots] at named
      have passed := ih apart before
      simpa [Entries.keys, Entries.get?, different, Ne.symm different] using passed
    · refine ending.bind (ending_offer ⟨name, opening, key, none⟩ box before) fun middle offered => ?_
      obtain ⟨present, put⟩ := offered
      have passed := ih apart middle
      rw [present, put property] at passed
      by_cases same : key = property
      · subst same
        have absent : Entries.get? rest key = none := Entries.get?_eq_none away
        simpa [Entries.keys, Entries.get?, accepted, absent] using passed
      · simpa [Entries.keys, Entries.get?, same, Ne.symm same] using passed

/-- The default of a property is put exactly where the property is not present. -/
theorem ending_defaults (around : Reference) {values : Entries String Primitive}
    (apart : (Entries.keys values).Nodup) (collected : Collected) :
    ending.Holds (fun taken => Entries.get? taken property =
        if property ∈ collected.present then Entries.get? collected.taken property
        else ((Entries.get? values property).map fun value => Box.literal value (some around)).or
          (Entries.get? collected.taken property))
      (defaults file matcher name opening around collected values) := by
  induction values generalizing collected with
  | nil => exact ending.pure (by simp [Entries.get?])
  | cons first rest ih =>
    obtain ⟨key, value⟩ := first
    obtain ⟨away, apart⟩ := List.nodup_cons.1 apart
    unfold defaults
    by_cases present : collected.present.contains key = true
    · simp only [present, if_true]
      have held : key ∈ collected.present := List.contains_iff_mem.1 present
      have passed := ih apart collected
      by_cases same : key = property
      · subst same
        simpa [held] using passed
      · simpa [Entries.get?, same] using passed
    · simp only [present, Bool.false_eq_true, if_false]
      have fresh : key ∉ collected.present := fun held => present (List.contains_iff_mem.2 held)
      have asked := ending_ask file (.attr ⟨name, opening, key, none⟩)
        (matcher.property ⟨name, opening, key, none⟩)
      refine ending.bind asked fun taken answered => ?_
      cases taken with
      | false =>
        have different : key ≠ property := by
          rintro rfl
          rw [accepted] at answered
          cases answered
        have passed := ih apart collected
        simpa [Entries.get?, different] using passed
      | true =>
        have passed := ih apart
          { collected with
            taken := Entries.insert collected.taken key (Box.literal value (some around)) }
        by_cases same : key = property
        · subst same
          have absent : Entries.get? rest key = none := Entries.get?_eq_none away
          simpa [Entries.get?, Entries.get?_insert, fresh, absent] using passed
        · simpa [Entries.get?, Entries.get?_insert, same] using passed

end Taken

end Extraction

end Glean
