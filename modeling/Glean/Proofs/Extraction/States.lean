import Glean.Proofs.Evaluation.Meaning
import Glean.Proofs.Extraction.Logic

/-!
# States of an extraction

Between the questions and evaluations of an extraction the working state is ready: whatever a
computation asks, evaluates or fails with, it leaves a ready state (`Extract.Leads`). So each
expression that is evaluated on the way comes to what it means.
-/

namespace Glean

open Syntax Box

/-- From every ready state the computation comes to something with the property, in a ready state.
-/
structure Extract.Leads (setting : Setting) {α : Type} (ends : Except Failure α → Prop)
    (computation : Extract α) : Prop where
  reaches : ∀ {run : Run}, setting.Ready run →
    ends (computation.run.run run).1 ∧ setting.Ready (computation.run.run run).2

/-- The computation leaves a ready state. -/
def Extract.Keeps (setting : Setting) {α : Type} (computation : Extract α) : Prop :=
  Extract.Leads setting (fun _ => True) computation

/-- The computation does not fail, and its value has the property. -/
def Extract.Gives (setting : Setting) {α : Type} (holds : α → Prop) (computation : Extract α) :
    Prop :=
  Extract.Leads setting (fun result => ∃ value, result = .ok value ∧ holds value) computation

namespace Extract

variable {setting : Setting} {α β : Type} {computation : Extract α} {next : α → Extract β}

/-- Computations lead to an end together, when the first leads to it by its failures. -/
theorem Leads.bind {middle : Except Failure α → Prop} {ends : Except Failure β → Prop}
    (first : Leads setting middle computation)
    (rest : ∀ value, middle (.ok value) → Leads setting ends (next value))
    (failed : ∀ failure, middle (.error failure) → ends (.error failure)) :
    Leads setting ends (computation >>= next) := by
  refine ⟨fun {run} ready => ?_⟩
  obtain ⟨reached, readyAfter⟩ := first.reaches ready
  rw [run_bind]
  split
  · rename_i value after ended
    rw [ended] at reached readyAfter
    exact (rest value reached).reaches readyAfter
  · rename_i failure after ended
    rw [ended] at reached readyAfter
    exact ⟨failed failure reached, readyAfter⟩

/-- A value alone leads to its own end. -/
theorem Leads.pure {ends : Except Failure α → Prop} {value : α} (held : ends (.ok value)) :
    Leads setting ends (Pure.pure value : Extract α) :=
  ⟨fun ready => ⟨held, ready⟩⟩

/-- A value alone gives what holds of it. -/
theorem Gives.pure {holds : α → Prop} {value : α} (held : holds value) :
    Gives setting holds (Pure.pure value : Extract α) :=
  Leads.pure ⟨value, rfl, held⟩

/-- A computation that gives a value leads to the ends of the next one. -/
theorem Gives.bind {holds : α → Prop} {ends : Except Failure β → Prop}
    (first : Gives setting holds computation)
    (rest : ∀ value, holds value → Leads setting ends (next value)) :
    Leads setting ends (computation >>= next) := by
  refine Leads.bind first (fun value reached => ?_) fun failure reached => ?_
  · obtain ⟨_, same, held⟩ := reached
    obtain rfl := Except.ok.inj same
    exact rest value held
  · obtain ⟨_, same, _⟩ := reached
    cases same

end Extract

namespace Extraction

open Extract

variable {setting : Setting} {file : Document}

/-- Asking changes no more of the state than what was asked. -/
theorem keeps_ask (file : Document) (question : Question) (answer : Answer) :
    Keeps setting (ask file question answer) := by
  refine ⟨fun ready => ?_⟩
  cases answer <;> exact ⟨trivial, ready.inProgress, ready.overrides, ready.sound⟩

/-- A question that is answered is passed on. -/
theorem gives_ask (file : Document) (question : Question) (answer : Bool) :
    Gives setting (· = answer) (ask file question (.ok answer)) :=
  ⟨fun ready => ⟨⟨answer, rfl, rfl⟩, ready.inProgress, ready.overrides, ready.sound⟩⟩

section Calm

variable (calm : setting.policy.isStackSensitive = false)
  (found : (setting.project.file? file.path).isSome)

include calm found

/-- An expression of the file comes to its meaning, whatever node is put around it. -/
theorem gives_evaluate (around : Reference) (expr : Expr) :
    Gives setting (Alike .blind (setting.meaning (setting.project.scope file.path) expr))
      (evaluate setting file around expr) := by
  refine ⟨fun {run} ready => ?_⟩
  have inside : setting.Ready { run with stack := around :: run.stack } :=
    ⟨ready.inProgress, ready.overrides, ready.sound⟩
  obtain ⟨alike, after⟩ := inside.evaluate calm found expr
  exact ⟨⟨_, rfl, alike⟩, after.inProgress, after.overrides, after.sound⟩

/-- The walk through an extraction keeps the state ready. -/
theorem allows_ready (matchers : Matchers) (nodes : List Node) :
    Allows (.keeping setting.Ready) setting matchers file nodes .any where
  asks _ _ ready := ⟨((keeps_ask ..).reaches ready).2, fun _ _ => trivial⟩
  evaluates _ _ _ ready :=
    ⟨((gives_evaluate calm found _ _).reaches ready).2, fun box _ => box.has_any⟩
  places _ := trivial
  reasons _ _ := trivial

/-- Whatever node is visited, the state stays ready. -/
theorem keeps_ofNode (matchers : Matchers) (node : Node) :
    Keeps setting (ofNode setting matchers file node) := by
  have kept := (allows_ready calm found matchers [node]).ofNode_holds (List.mem_singleton_self node)
  exact ⟨fun ready => ⟨trivial, (kept _ ready).1⟩⟩

/-- Extraction from nodes keeps the states between evaluations. -/
theorem keeps_ofNodes (matchers : Matchers) (nodes : List Node) :
    Keeps setting (ofNodes setting matchers file nodes) := by
  have kept := (allows_ready calm found matchers nodes).ofNodes_holds nodes fun _ listed => listed
  exact ⟨fun ready => ⟨trivial, (kept _ ready).1⟩⟩

/-- What a node always gives is among the results for a list of nodes with it. -/
theorem leads_ofNodes {matchers : Matchers} {holds : Instance → Prop} {nodes : List Node}
    {node : Node}
    (gives : Gives setting (fun result => ∃ inst, result = some inst ∧ holds inst)
      (ofNode setting matchers file node)) (listed : node ∈ nodes) :
    Leads setting (fun result => ∀ instances, result = .ok instances →
        ∃ inst ∈ instances, holds inst) (ofNodes setting matchers file nodes) := by
  induction nodes with
  | nil => cases listed
  | cons first rest ih =>
    rcases List.mem_cons.1 listed with rfl | listed
    · refine Gives.bind gives fun result given => ?_
      obtain ⟨inst, rfl, held⟩ := given
      refine Leads.bind (keeps_ofNodes calm found matchers rest) (fun others _ => .pure ?_) nofun
      rintro _ ⟨⟩
      exact ⟨inst, List.mem_cons_self .., held⟩
    · refine Leads.bind (keeps_ofNode calm found matchers first) (fun result _ => ?_) nofun
      refine Leads.bind (ih listed) (fun others among => .pure ?_) nofun
      rintro _ ⟨⟩
      obtain ⟨inst, listed, held⟩ := among others rfl
      exact ⟨inst, List.mem_append_right _ listed, held⟩

/-- What a node always gives it gives when it is visited, whatever was visited before, and it is
among the instances that the report of the file is made of. -/
theorem extracts_of_gives {matchers : Matchers} {holds : Instance → Prop} {path : Path} {node : Node}
    (stored : setting.project.file? path = some file)
    (gives : Gives setting (fun result => ∃ inst, result = some inst ∧ holds inst)
      (ofNode setting matchers file node)) :
    (∀ before, let run := ((ofNodes setting matchers file before).run.run {}).2
      ∃ inst, ((ofNode setting matchers file node).run.run run).1 = .ok (some inst) ∧ holds inst) ∧
    (node ∈ file.module.all → ∀ report, (extract setting matchers path).1 = .ok report →
      ∃ instances, report = .ofList instances ∧ ∃ inst ∈ instances, holds inst) := by
  constructor
  · intro before run
    have keeps := keeps_ofNodes calm found matchers before
    have ready : setting.Ready run := (keeps.reaches setting.ready_start).2
    obtain ⟨⟨_, ended, inst, rfl, held⟩, _⟩ := gives.reaches ready
    exact ⟨inst, ended, held⟩
  · intro listed report extracted
    simp only [extract, stored] at extracted
    have leads := leads_ofNodes calm found gives listed
    have among := (leads.reaches setting.ready_start).1
    split at extracted
    rename_i result after ended
    rw [ended] at among
    cases result with
    | error failure => cases extracted
    | ok instances =>
      cases extracted
      exact ⟨instances, rfl, among instances rfl⟩

end Calm

end Extraction

end Glean
