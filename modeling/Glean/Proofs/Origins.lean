import Glean.Proofs.Evaluation.Transparency
import Glean.Proofs.Extraction.Reports
import Glean.Proofs.References

/-!
# Where the parts of an instance come from

Everything that the box of an instance refers to stands in the instance itself, or in an expression
that gives a name or an export its value. The one exception are values that were kept: without a gate
the value of a name is worked out once, and where it has no place of its own it keeps the place at
which it was used first, which may be in another instance (`extract_blames`).
-/

namespace Glean

open Syntax Box

/-- The reference names something that stands within what the other one names. -/
def Reference.Within (inner outer : Reference) : Prop :=
  (inner.file == outer.file) = true ∧ outer.span.covers inner.span = true

/-- It can be decided whether one reference is within another. -/
instance (inner outer : Reference) : Decidable (inner.Within outer) :=
  inferInstanceAs (Decidable (_ ∧ _))

/-- The reference names something within an expression that gives a name or an export of a file its
value. -/
def Project.Declares (project : Project) (place : Reference) : Prop :=
  ∃ file expr, project.file? place.file = some file ∧ file.scope.States expr ∧
    expr.span.covers place.span = true

/-- All parts stand in the origin or in expressions that give names and exports their values, or are
parts of what is known. -/
def Box.Trait.traceable (project : Project) (known : List (Goal × Box)) (origin : Reference) :
    Trait where
  Reasons _ := True
  Splits := True
  Nodes place := place.Within origin ∨ project.Declares place ∨
    ∃ entry ∈ known, place ∈ entry.2.references

namespace Report

/-- The instances of all groups. -/
def instances (report : Report) : List Instance :=
  report.groups.flatMap fun entry => entry.2.instances

/-- The instances of a report are those before the last was added, and the last. -/
theorem mem_instances_push {report : Report} {added inst : Instance}
    (found : inst ∈ (report.push added).instances) : inst ∈ report.instances ∨ inst = added := by
  obtain ⟨entry, listed, found⟩ := List.mem_flatMap.1 found
  have pushed : ∀ {group : Group}, inst ∈ (group.push added).instances →
      inst ∈ group.instances ∨ inst = added := fun found =>
    (List.mem_append.1 found).imp_right List.mem_singleton.1
  rcases Entries.mem_update listed with before | ⟨name, group, before, rfl⟩ | rfl
  · exact .inl (List.mem_flatMap.2 ⟨entry, before, found⟩)
  · have among : inst ∈ group.instances ∨ inst = added := pushed found
    exact among.imp_left fun held => List.mem_flatMap.2 ⟨(name, group), before, held⟩
  · exact .inr ((pushed found).resolve_left List.not_mem_nil)

/-- A report has the instances that it is made of. -/
theorem mem_instances_ofList {list : List Instance} {inst : Instance} :
    inst ∈ (ofList list).instances ↔ inst ∈ list := by
  constructor
  · intro found
    have pushed : ∀ report : Report, inst ∈ (list.foldl push report).instances →
        inst ∈ report.instances ∨ inst ∈ list := by
      clear found
      induction list with
      | nil => exact fun _ => .inl
      | cons first rest ih =>
        intro report found
        rcases ih (report.push first) found with found | found
        · rcases mem_instances_push found with found | rfl
          · exact .inl found
          · exact .inr (List.mem_cons_self ..)
        · exact .inr (List.mem_cons_of_mem _ found)
    exact (pushed {} found).resolve_left List.not_mem_nil
  · intro listed
    obtain ⟨group, found, among⟩ := holds_ofList listed
    exact List.mem_flatMap.2 ⟨_, Entries.mem_of_get? found, among⟩

end Report

namespace Extraction

variable {setting : Setting} {matchers : Matchers} {file : Document} {node : Node}

/-- An instance that is found stands for its node, and where none is found nothing is evaluated. -/
structure Marks (path : Path) (node : Node) (before : Run) (found : Option Instance) (after : Run) :
    Prop where
  known : found = none → after.known = before.known
  file : ∀ inst ∈ found, inst.node.file = path
  extent : ∀ inst ∈ found, node.extent? = some inst.node.span

/-- Where a question is answered with no, nothing is evaluated. -/
theorem marks_asked (place : Reference) {question : Question} {answer : Answer}
    {taken : Extract (Option Instance)} (here : place.file = file.path) (extent : node.extent? = some place.span)
    (gives : ending.Holds (fun found => ∃ inst, found = some inst ∧ inst.node = place) taken)
    {run after : Run} {found : Option Instance}
    (ended : (ask file question answer >>= fun answer => if answer then taken else pure none).run.run
      run = (.ok found, after)) :
    Marks file.path node run found after := by
  obtain ⟨value, middle, asked, ended⟩ := Extract.ok_of_bind ended
  have known : middle.known = run.known := by
    cases answer with
    | ok value => cases asked; rfl
    | error cause => cases asked
  cases value with
  | false =>
    cases ended
    exact ⟨fun _ => known, nofun, nofun⟩
  | true =>
    obtain ⟨inst, rfl, rfl⟩ := gives middle found after ended
    refine ⟨nofun, ?_, ?_⟩
    · rintro _ ⟨⟩
      exact here
    · rintro _ ⟨⟩
      exact extent

/-- An instance that is found at a node stands there, and without one nothing more is known. -/
theorem marks_of_ofNode {run after : Run} {found : Option Instance}
    (ended : (ofNode setting matchers file node).run.run run = (.ok found, after)) :
    Marks file.path node run found after := by
  have nothing : (pure none : Extract (Option Instance)).run.run run = (.ok found, after) →
      Marks file.path node run found after := by
    intro ended
    cases ended
    exact ⟨fun _ => rfl, nofun, nofun⟩
  unfold ofNode at ended
  split at ended
  · rename_i opening
    split at ended
    · refine marks_asked ⟨file.path, opening.span, .opening⟩ rfl rfl ?_ ended
      refine ending.bind (ending_any _) fun _ _ => ending.bind (ending_any _) fun _ _ => ?_
      exact ending.pure ⟨_, rfl, rfl⟩
    · exact nothing ended
  · rename_i span callee arguments
    split at ended
    · unfold call at ended
      split at ended
      · exact nothing ended
      · refine marks_asked ⟨file.path, span, .call⟩ rfl rfl ?_ ended
        exact ending.bind (ending_any _) fun _ _ => ending.pure ⟨_, rfl, rfl⟩
    · exact nothing ended
  · rename_i span tag quasis interpolations
    split at ended
    · unfold template at ended
      split at ended
      · exact nothing ended
      · refine marks_asked ⟨file.path, span, .tagged⟩ rfl rfl ?_ ended
        exact ending.bind (ending_any _) fun _ _ => ending.pure ⟨_, rfl, rfl⟩
    · exact nothing ended
  · exact nothing ended

/-- Extraction leaves an idle state and forgets nothing that is known. -/
theorem allows_idle (found : setting.project.file? file.path = some file) (nodes : List Node)
    (known : List (Goal × Box)) :
    Allows (.keeping fun run => setting.Idle run ∧ known <:+ run.known) setting matchers file nodes
      .any where
  asks {_ answer _} _ run := by
    rintro ⟨idle, grown⟩
    have recorded : ∀ question, setting.Idle { run with events := .question question :: run.events } :=
      fun _ => ⟨idle.inProgress, idle.stack, idle.overrides, idle.sound, idle.unknown⟩
    cases answer <;> exact ⟨⟨recorded _, grown⟩, fun _ _ => trivial⟩
  evaluates {around expr} _ _ run := by
    rintro ⟨idle, grown⟩
    obtain ⟨_, left, _⟩ := idle.evaluate_within idle found around expr
    obtain ⟨box, after, evaluated, returns, _⟩ :=
      Setting.evaluate_of_found { run with stack := around :: run.stack } found expr
    rw [evaluated] at left
    rw [evaluate_run, evaluated]
    exact ⟨⟨left, grown.trans returns.known⟩, fun box _ => box.has_any⟩
  places _ := trivial
  reasons _ _ := trivial

/-- The state is idle, and what is known refers to expressions of names and exports and to what
stands in instances. -/
structure Traced (setting : Setting) (instances : List Instance) (run : Run) : Prop where
  idle : setting.Idle run
  known : ∀ entry ∈ run.known, ∀ place ∈ entry.2.references,
    setting.project.Declares place ∨ ∃ inst ∈ instances, place.Within inst.node

/-- The box of an instance refers to the instance, to expressions of names and exports, and through
values that are known to other instances. -/
def Accounts (setting : Setting) (instances : List Instance) (run : Run) (inst : Instance) : Prop :=
  ∀ place ∈ inst.box.references, place.Within inst.node ∨ setting.project.Declares place ∨
    (∃ other ∈ instances, place.Within other.node) ∧ ∃ entry ∈ run.known, place ∈ entry.2.references

/-- What accounts for an instance still does so when more instances are added and more is known. -/
theorem Accounts.mono {instances others : List Instance} {run after : Run} {inst : Instance}
    (accounts : Accounts setting instances run inst) (among : instances ⊆ others)
    (grown : run.known <:+ after.known) : Accounts setting others after inst := by
  intro place found
  refine (accounts place found).imp_right fun rest => rest.imp_right ?_
  rintro ⟨⟨other, listed, within⟩, entry, kept, held⟩
  exact ⟨⟨other, among listed, within⟩, entry, grown.subset kept, held⟩

section Blames

variable (free : setting.policy.overrides = none) (nested : setting.project.IsNested)

include free nested

/-- Expressions that give names and exports their values are declared, and evaluation is led only to
such expressions. -/
theorem houses_traceable (known : List (Goal × Box)) (origin : Reference) :
    setting.Houses (.traceable setting.project known origin) setting.project.Collects := by
  refine Setting.houses_of_states free (fun _ => trivial) trivial ?_
  intro path other expr held states inner inside span cited
  have stated := Document.mem_all_of_states states
  have same : setting.project.file? other.path = some other :=
    (Project.file?_congr _ (Project.path_of_file? held).1).trans held
  have covers : expr.span.covers span = true :=
    Module.covers_of_isNested (nested.module held) stated rfl inside
      (List.mem_append_left _ cited)
  rw [other.refer_eq]
  exact .inr (.inl ⟨other, expr, same, states, covers⟩)

variable (found : setting.project.file? file.path = some file)

include found

/-- Extraction from a node asks about what stands in the node, and its boxes can be traced. -/
theorem allows_traceable (listed : node ∈ file.module.all) {origin : Reference}
    (here : origin.file = file.path) (extent : node.extent? = some origin.span)
    (known : List (Goal × Box)) :
    Allows (.keeping (Run.Has (.traceable setting.project known origin))) setting matchers file
      [node] (.traceable setting.project known origin) := by
  have covered : ∀ inner ∈ node.all, ∀ span ∈ inner.spans, ∀ kind,
      Reference.Within ⟨file.path, span, kind⟩ origin := by
    intro inner inside span stated kind
    have covers := Module.covers_of_isNested (nested.module found) listed extent inside stated
    exact ⟨here ▸ BEq.rfl, covers⟩
  refine allows_has (houses_traceable free nested known origin) trivial found
    ⟨_, file, found, rfl⟩ ?_ ?_
  · intro _ among inner inside span cited
    obtain rfl := List.mem_singleton.1 among
    rw [file.refer_eq]
    exact .inl (covered inner inside span (List.mem_append_left _ cited) _)
  · intro question answer place poses
    obtain ⟨_, among, inner, inside, handle, held, rfl⟩ := poses.handle
    obtain rfl := List.mem_singleton.1 among
    have spelled : handle.span ∈ inner.spans :=
      List.mem_append_right _ (List.mem_map.2 ⟨handle, held, rfl⟩)
    exact .inl (covered inner inside _ spelled _)

/-- What a node gives is accounted for, and so is what is known after it. -/
theorem traced_ofNode (listed : node ∈ file.module.all) {instances : List Instance}
    {run after : Run} (traced : Traced setting instances run) {result : Option Instance}
    (ended : (ofNode setting matchers file node).run.run run = (.ok result, after)) :
    Traced setting (instances ++ result.toList) after ∧ run.known <:+ after.known ∧
      ∀ inst ∈ result, Accounts setting (instances ++ result.toList) after inst := by
  have marks := marks_of_ofNode ended
  have self : node ∈ [node] := List.mem_singleton_self node
  obtain ⟨⟨idle, grown⟩, _⟩ :=
    (allows_idle found [node] run.known).ofNode_holds self run ⟨traced.idle, List.suffix_rfl⟩
  rw [ended] at idle grown
  cases result with
  | none =>
    refine ⟨⟨idle, ?_⟩, grown, nofun⟩
    rw [marks.known rfl, Option.toList_none, List.append_nil]
    exact traced.known
  | some inst =>
    -- A reference in a known value is blamed on the value; it was traced when that was kept.
    have start : Run.Has (.traceable setting.project run.known inst.node) run := by
      refine ⟨fun entry kept => ?_, by simp [traced.idle.overrides]⟩
      exact has_of_references (fun _ => trivial) trivial fun place held =>
        .inr (.inr ⟨entry, kept, held⟩)
    obtain ⟨left, has⟩ := (allows_traceable free nested found listed (marks.file inst rfl)
      (marks.extent inst rfl) run.known).ofNode_holds self run start
    rw [ended] at left has
    have own : inst ∈ instances ++ (some inst).toList :=
      List.mem_append_right _ (List.mem_singleton_self inst)
    have earlier : ∀ {place : Reference}, (∃ other ∈ instances, place.Within other.node) →
        ∃ other ∈ instances ++ (some inst).toList, place.Within other.node := by
      rintro place ⟨other, among, within⟩
      exact ⟨other, List.mem_append_left _ among, within⟩
    -- What is known now stands in this instance, is declared, or was known before.
    refine ⟨⟨idle, fun entry kept place held => ?_⟩, grown, ?_⟩
    · rcases (left.known entry kept).nodes place held with within | declared | ⟨old, was, stood⟩
      · exact .inr ⟨inst, own, within⟩
      · exact .inl declared
      · exact (traced.known old was place stood).imp_right earlier
    · rintro _ ⟨⟩ place held
      rcases (has _ rfl inst rfl).2.nodes place held with within | declared | ⟨old, was, stood⟩
      · exact .inl within
      · exact .inr (.inl declared)
      · refine .inr ((traced.known old was place stood).imp_right fun within => ?_)
        exact ⟨earlier within, old, grown.subset was, stood⟩

/-- What a list of nodes gives is accounted for. -/
theorem traced_ofNodes (list : List Node) (inside : ∀ node ∈ list, node ∈ file.module.all)
    {instances results : List Instance} {run after : Run} (traced : Traced setting instances run)
    (ended : (ofNodes setting matchers file list).run.run run = (.ok results, after)) :
    Traced setting (instances ++ results) after ∧ run.known <:+ after.known ∧
      ∀ inst ∈ results, Accounts setting (instances ++ results) after inst := by
  induction list generalizing instances results run with
  | nil =>
    cases ended
    rw [List.append_nil]
    exact ⟨traced, List.suffix_rfl, nofun⟩
  | cons first rest ih =>
    obtain ⟨here, others⟩ := List.forall_mem_cons.1 inside
    rw [ofNodes] at ended
    obtain ⟨result, middle, started, ended⟩ := Extract.ok_of_bind ended
    obtain ⟨following, last, continued, ended⟩ := Extract.ok_of_bind ended
    cases ended
    obtain ⟨tracedMiddle, grown, accounts⟩ := traced_ofNode free nested found here traced started
    obtain ⟨tracedAfter, grownAfter, accountsAfter⟩ := ih others tracedMiddle continued
    rw [List.append_assoc] at tracedAfter accountsAfter
    refine ⟨tracedAfter, grown.trans grownAfter, fun inst listed => ?_⟩
    rcases List.mem_append.1 listed with listed | listed
    · refine (accounts inst (Option.mem_toList.1 listed)).mono ?_ grownAfter
      rw [← List.append_assoc]
      exact List.subset_append_left ..
    · exact accountsAfter inst listed

end Blames

end Extraction

/-- Everything that the box of an instance refers to stands in the instance, or in an expression that
gives a name or an export its value. Without a gate, a value that was kept may also refer to an
instance in which it was used. -/
theorem extract_blames (setting : Setting) (matchers : Matchers) (path : Path) (report : Report)
    (free : setting.policy.overrides = none) (nested : setting.project.IsNested)
    (extracted : (Extraction.extract setting matchers path).1 = .ok report) :
    let final := (Extraction.extract setting matchers path).2
    ∀ inst ∈ report.instances, ∀ place ∈ inst.box.references,
      place.Within inst.node ∨ setting.project.Declares place ∨
        (setting.policy.gate = none ∧ (∃ other ∈ report.instances, place.Within other.node) ∧
          ∃ entry ∈ final.known, place ∈ entry.2.references) := by
  intro final inst listed place held
  cases found : setting.project.file? path with
  | none =>
    rw [Extraction.extract, found] at extracted
    cases extracted
  | some file =>
    have same : setting.project.file? file.path = some file :=
      (Project.file?_congr _ (Project.path_of_file? found).1).trans found
    have start : Extraction.Traced setting [] {} :=
      ⟨setting.idle_start [], fun entry known => absurd known List.not_mem_nil⟩
    simp only [final, Extraction.extract_eq matchers found] at extracted ⊢
    rcases ended : (Extraction.ofNodes setting matchers file file.module.all).run.run {} with
      ⟨failure | results, after⟩
    · rw [ended] at extracted
      cases extracted
    · rw [ended] at extracted
      cases extracted
      obtain ⟨traced, _, accounts⟩ := Extraction.traced_ofNodes free nested same file.module.all
        (fun _ inside => inside) start ended
      rw [Report.mem_instances_ofList] at listed
      refine (accounts inst listed place held).imp_right fun rest => rest.imp_right ?_
      rintro ⟨⟨other, among, within⟩, entry, kept, stands⟩
      refine ⟨?_, ⟨other, Report.mem_instances_ofList.2 among, within⟩, entry, kept, stands⟩
      -- With a gate no value is kept.
      cases gated : setting.policy.gate with
      | none => rfl
      | some gate =>
        have sensitive : setting.policy.isStackSensitive = true := by
          simp [Policy.isStackSensitive, gated]
        rw [traced.idle.unknown sensitive] at kept
        cases kept

/-- `import { c } from "./t"; <Box x={c} />; <Box y={c} />;` -/
def importingTwice : Module :=
  ⟨[.importFrom "./t" false [.named ⟨"c", 1⟩ none],
    .group [.expr (.other ⟨26, 39⟩ "JSXElement" [.opening (.mk ⟨26, 39⟩ (.ident ⟨"Box", 2⟩)
      [.named ⟨31, 36⟩ "x" (.expr (.ident ⟨34, 35⟩ ⟨"c", 1⟩))])])],
    .group [.expr (.other ⟨41, 54⟩ "JSXElement" [.opening (.mk ⟨41, 54⟩ (.ident ⟨"Box", 2⟩)
      [.named ⟨46, 51⟩ "y" (.expr (.ident ⟨49, 50⟩ ⟨"c", 1⟩))])])]]⟩

/-- `/a.tsx` uses a name twice that it imports from `/t.ts`, which may export it or not. -/
def importingProject (module : Module) : Project :=
  (Project.insert { keyed := Project.keyed_nil } (Document.make ⟨"/a.tsx"⟩ "" importingTwice)).insert
    (Document.make ⟨"/t.ts"⟩ "" module)

/-- `export const c = "x";` -/
def statedConstant : Module :=
  ⟨[.exportDeclaration (.declarations [.mk (.ident ⟨"c", 1⟩)
    (some (.literal ⟨18, 21⟩ (.string "x")))])]⟩

/-- Both elements refer to the value that the name is declared with. -/
theorem extract_blames_declaration :
    let setting : Setting := { project := importingProject statedConstant }
    let matchers : Matchers := { components := some ({} : NameRules).components }
    let result := Extraction.extract setting matchers ⟨"/a.tsx"⟩
    setting.policy.overrides = none ∧ setting.project.IsNested ∧ ∃ report, result.1 = .ok report ∧
      report.instances.length = 2 ∧
      ∀ inst ∈ report.instances, ∀ place ∈ inst.box.references,
        place.Within inst.node ∨ setting.project.Declares place ∨
          (setting.policy.gate = none ∧ (∃ other ∈ report.instances, place.Within other.node) ∧
            ∃ entry ∈ result.2.known, place ∈ entry.2.references) := by
  intro setting matchers result
  have nested : setting.project.IsNested := by
    unfold Project.IsNested
    decide +kernel
  have two : (result.1.toOption.map fun report => report.instances.length) = some 2 := by
    decide +kernel
  cases extracted : result.1 with
  | error failure =>
    rw [extracted] at two
    cases two
  | ok report =>
    rw [extracted] at two
    have blames := extract_blames setting matchers ⟨"/a.tsx"⟩ report rfl nested extracted
    exact ⟨rfl, nested, report, rfl, Option.some_inj.1 two, blames⟩

/-- An imported name that is not exported is unknown at its first use. The second element refers to
that place, which stands in the first element and in no declaration. -/
theorem not_extract_blames_first_use :
    let setting : Setting := { project := importingProject statingModule }
    let matchers : Matchers := { components := some ({} : NameRules).components }
    let result := Extraction.extract setting matchers ⟨"/a.tsx"⟩
    let place : Reference := ⟨⟨"/a.tsx"⟩, ⟨34, 35⟩, .expr⟩
    let first : Reference := ⟨⟨"/a.tsx"⟩, ⟨26, 39⟩, .opening⟩
    let second : Reference := ⟨⟨"/a.tsx"⟩, ⟨41, 54⟩, .opening⟩
    (∃ report, result.1 = .ok report ∧ report.instances.map Instance.node = [first, second] ∧
      ∃ inst ∈ report.instances, inst.node = second ∧ place ∈ inst.box.references) ∧
    place.Within first ∧ ¬ place.Within second ∧ ¬ setting.project.Declares place := by
  intro setting matchers result place first second
  refine ⟨?_, by decide +kernel, by decide +kernel, ?_⟩
  · have found : (result.1.toOption.any fun report =>
        report.instances.map Instance.node = [first, second] ∧
          ∃ inst ∈ report.instances, inst.node = second ∧ place ∈ inst.box.references) = true := by
      decide +kernel
    cases extracted : result.1 with
    | error failure =>
      rw [extracted] at found
      cases found
    | ok report =>
      rw [extracted] at found
      exact ⟨report, rfl, of_decide_eq_true found⟩
  · rintro ⟨file, expr, here, states, _⟩
    have held : setting.project.file? place.file =
        some (Document.make ⟨"/a.tsx"⟩ "" importingTwice) := by
      have different : ((Document.make ⟨"/t.ts"⟩ "" statingModule).path == place.file) = false := by
        decide +kernel
      exact (Project.file?_insert_of_ne _ _ different).trans (Project.file?_insert _ _)
    obtain rfl := Option.some_inj.1 (held.symm.trans here)
    have bindings : (Document.make ⟨"/a.tsx"⟩ "" importingTwice).scope.bindings =
        [(⟨"c", 1⟩, .imported "./t" (.named "c"))] := by cbv
    have exports : (Document.make ⟨"/a.tsx"⟩ "" importingTwice).scope.exports = [] := by cbv
    cases states with
    | source bound => simp [Scope.binding?, bindings, Entries.get?] at bound
    | exported stated => simp [Scope.export?, exports, Entries.get?] at stated

end Glean
