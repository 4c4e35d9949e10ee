import Glean.Proofs.Evaluation.Traits
import Glean.Proofs.Extraction.Logic

/-!
# What the boxes of a report are made of

A trait that admits what evaluation puts into boxes, and the nodes that questions are about, is kept
by extraction: every report has it.
-/

namespace Glean

open Syntax Box

namespace Extraction

variable {setting : Setting} {matchers : Matchers} {file : Document} {path : Path}
  {nodes : List Node} {trait : Trait} {Scopes : Scope → Prop} {expr : Expr}

/-- What extraction evaluates refers to nothing but what stands in the nodes. -/
theorem Evaluates.covers {scope : Scope} (evaluates : Evaluates nodes expr)
    (covers : ∀ node ∈ nodes, trait.Covers scope node) : trait.Covers scope (.expr expr) := by
  have attr : ∀ {opening : Opening} {attr : Attribute}, .opening opening ∈ nodes →
      attr ∈ opening.attributes → trait.Covers scope (.attr attr) := by
    intro opening attr listed written
    refine (covers _ listed).child ?_
    cases opening
    exact List.mem_append_right _ (List.mem_map.2 ⟨attr, written, rfl⟩)
  have literal : ∀ {span : Span} {value : Literal}, trait.Nodes (scope.refer span) →
      trait.Covers scope (.expr (.literal span value)) := by
    intro span value place inner held other cited
    obtain rfl : inner = .expr (.literal span value) := by
      simpa [Node.all_eq, Node.children, Expr.parts] using held
    exact List.mem_singleton.1 cited ▸ place
  cases evaluates with
  | bare listed written => exact literal ((attr listed written).cited _ (List.mem_cons_self ..))
  | literal listed written =>
    exact literal ((attr listed written).cited _ (List.mem_cons_self ..))
  | braced listed written => exact (attr listed written).child (List.mem_cons_self ..)
  | @spread _ span value listed written =>
    have inside : trait.Covers scope (.expr value) :=
      (attr listed written).child (List.mem_cons_self ..)
    intro inner held other cited
    simp only [Node.all_eq (.expr (.object ..)), Node.all_eq (.member _), Node.children, Expr.parts,
      Member.parts, List.map_cons, List.map_nil, List.flatMap_cons, List.flatMap_nil,
      List.append_nil, List.mem_cons] at held
    rcases held with rfl | rfl | held
    · exact List.mem_singleton.1 cited ▸ inside.place
    · cases cited
    · exact inside inner held other cited
  | @argument _ _ arguments argument listed among =>
    refine (covers _ listed).child (List.mem_append_right _ ?_)
    exact List.mem_map.2 ⟨argument, among, rfl⟩
  | template listed => exact covers _ listed

/-- Extraction keeps a trait of the state and takes it over to what it finds. -/
theorem allows_has (houses : setting.Houses trait Scopes) (cycles : trait.Reasons .cycle)
    (found : setting.project.file? file.path = some file) (sits : Scopes file.scope)
    (covers : ∀ node ∈ nodes, trait.Covers file.scope node)
    (places : ∀ {question answer node}, Poses matchers file.path nodes question answer node →
      trait.Nodes node) :
    Allows (.keeping (Run.Has trait)) setting matchers file nodes trait where
  asks {question answer node} _ run has := by
    have kept : Run.Has trait { run with events := .question question :: run.events } :=
      ⟨has.known, has.overrides⟩
    cases answer <;> exact ⟨kept, fun _ _ => trivial⟩
  evaluates {around expr} evaluates _ run has := by
    have inside : Run.Has trait { run with stack := around :: run.stack } :=
      ⟨has.known, has.overrides⟩
    obtain ⟨boxHas, left⟩ :=
      setting.evaluate_yields houses cycles found sits (evaluates.covers covers) inside
    rw [evaluate_run]
    refine ⟨⟨left.known, left.overrides⟩, fun box same => ?_⟩
    exact Except.ok.inj same ▸ boxHas
  places := places
  reasons reason other := houses.reasons reason other

/-- A report has every trait that admits the nodes questions are about, what is referred to in the
file and what evaluation puts into boxes. -/
theorem report_has_of_houses (houses : setting.Houses trait Scopes) (cycles : trait.Reasons .cycle)
    (found : setting.project.file? path = some file) (sits : Scopes file.scope)
    (covers : ∀ node ∈ file.module.all, trait.Covers file.scope node)
    (places : ∀ {question answer node},
      Poses matchers file.path file.module.all question answer node → trait.Nodes node)
    {report : Report} (extracted : (extract setting matchers path).1 = .ok report) :
    report.Has trait := by
  have same : setting.project.file? file.path = some file :=
    (Project.file?_congr _ (Project.path_of_file? found).1).trans found
  have start : Run.Has trait {} := ⟨nofun, nofun⟩
  have allows := allows_has houses cycles same sits covers places
  obtain ⟨_, has⟩ := allows.ofNodes_holds file.module.all (fun _ listed => listed) {} start
  rw [extract_eq matchers found] at extracted
  dsimp only at extracted
  cases ended : ((ofNodes setting matchers file file.module.all).run.run {}).1 with
  | error failure =>
    rw [ended] at extracted
    cases extracted
  | ok instances =>
    rw [ended] at extracted
    cases extracted
    exact Report.has_ofList (has instances ended)

/-- A report has every trait that admits the nodes questions are about and what evaluation puts into
boxes. -/
theorem report_has (admits : setting.Admits trait) (cycles : trait.Reasons .cycle)
    (found : setting.project.file? path = some file) (refers : trait.Refers file.scope)
    (places : ∀ {question answer node},
      Poses matchers file.path file.module.all question answer node → trait.Nodes node)
    {report : Report} (extracted : (extract setting matchers path).1 = .ok report) :
    report.Has trait :=
  report_has_of_houses admits.houses cycles found refers (fun node _ => refers.covers node) places
    extracted

end Extraction

end Glean
