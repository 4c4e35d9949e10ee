import Glean.Proofs.Box.Merging
import Glean.Proofs.Evaluation.Members
import Glean.Proofs.Extraction.Collecting
import Glean.Proofs.Failures

/-!
# Default values of elements

A default is put where an element does not have a property. A spread value that depends on an
undecided condition gives the element every property that one of its outcomes gives, and where the
other outcome lacks it, it is undefined there and not the default (`ofNode_defaults`).
-/

namespace Glean

open Syntax Box

/-- Where neither outcome gives anything under a key, nothing stands there. -/
theorem Box.get?_merge_of_neither {condition : Option Reference} {node : Reference}
    {whenTrue whenFalse : Entries String Box} {key : String} (absent : key ∉ Entries.keys whenTrue)
    (absentNext : key ∉ Entries.keys whenFalse) :
    Entries.get? (merge condition node whenTrue whenFalse) key = none := by
  rw [get?_merge]
  simp [Entries.contains, Entries.get?_eq_none absent, Entries.get?_eq_none absentNext]

/-- Of one of two outcomes that leaves nothing under a key, undefined is left. -/
theorem Box.get?_merge_of_one {condition : Option Reference} {node : Reference}
    {whenTrue whenFalse : Entries String Box} {key : String}
    (one : (key ∈ Entries.keys whenTrue ↔ key ∉ Entries.keys whenFalse)) :
    ∃ given box,
      (Entries.get? whenTrue key).or (Entries.get? whenFalse key) = some given ∧
      Entries.get? (merge condition node whenTrue whenFalse) key = some box ∧
      SameValues box.possible (missing :: given.possible) := by
  rw [get?_merge]
  by_cases held : key ∈ Entries.keys whenTrue
  · have absent := Entries.get?_eq_none (one.1 held)
    have contains := Entries.contains_iff.2 held
    obtain ⟨given, found⟩ := Option.isSome_iff_exists.1 contains
    refine ⟨given, either condition node given missing, by simp [found], ?_, ?_⟩
    · simp [contains, found, absent]
    · exact (possible_either ..).trans (.comm given.possible [missing])
  · have absent := Entries.get?_eq_none held
    have contains := Entries.contains_iff.2 (not_not.1 fun missing => held (one.2 missing))
    obtain ⟨given, found⟩ := Option.isSome_iff_exists.1 contains
    refine ⟨given, either condition node missing given, by simp [absent, found], ?_, ?_⟩
    · simp [contains, found, absent]
    · exact possible_either ..

namespace Extraction

open Extract

variable {setting : Setting} {matchers : Matchers} {matcher : ComponentMatcher} {file : Document}
  {opening : Opening} {run : Run}

/-- An element that is taken has an instance, unless the matcher fails on one of its properties. -/
theorem ofNode_opening_ok (chosen : matchers.components = some matcher)
    (matched : matcher.tag (matchers.tagQuestion opening) = .ok true)
    (answers : ∀ question, (matcher.property question).isOk = true) :
    ∃ result after,
      (ofNode setting matchers file (.opening opening)).run.run run = (.ok result, after) := by
  have allows := allows_auditing setting matchers file [.opening opening]
  obtain ⟨asked, _, audit, _⟩ := allows.ofNode_holds (List.mem_singleton_self _) run
  cases ended : (ofNode setting matchers file (.opening opening)).run.run run with
  | mk result after =>
    rw [ended] at audit
    cases result with
    | ok value => exact ⟨value, after, rfl⟩
    | error failure =>
      obtain ⟨_, last, cause, _, _, _, poses, _⟩ := audit.failure
      generalize failed : (Except.error cause : Answer) = answer at poses
      -- Of an element only the element and its properties are asked about.
      cases poses with
      | @tag other value question given listed asked =>
        obtain rfl : value = opening := by simpa using listed
        obtain rfl : matcher = other := Option.some_inj.1 (chosen.symm.trans given)
        rw [asked] at failed
        exact absurd (failed.trans matched) nofun
      | named given | entry given | default given =>
        obtain rfl := Option.some_inj.1 (chosen.symm.trans given)
        have answered := answers ‹_›
        rw [← failed] at answered
        cases answered
      | call _ listed | argument _ listed | member _ listed | property _ listed
      | template _ listed => simp at listed

/-- The instance of an element holds what its attributes and then the defaults come to. -/
theorem of_ofNode_opening (chosen : matchers.components = some matcher)
    (matched : matcher.tag (matchers.tagQuestion opening) = .ok true) {first : Attribute}
    {rest : List Attribute} (attributes : opening.attributes = first :: rest)
    {result : Option Instance} {after : Run}
    (ended : (ofNode setting matchers file (.opening opening)).run.run run = (.ok result, after)) :
    let name := opening.name.text
    let node : Reference := ⟨file.path, opening.span, .opening⟩
    ∃ begun middle collected last taken,
      (addAttribute setting file matcher name opening node {} first).run.run
        (run.posed (.tag (matchers.tagQuestion opening))) = (.ok begun, middle) ∧
      (addAttributes setting file matcher name opening node begun rest).run.run middle =
        (.ok collected, last) ∧
      (defaults file matcher name opening node collected (matcher.defaults name)).run.run last =
        (.ok taken, after) ∧
      result = some ⟨name, .element, node, .map taken (some node)⟩ := by
  intro name node
  have asked : ∀ here, (ask file (.tag (matchers.tagQuestion opening)) (.ok true)).run.run here =
      (.ok true, here.posed (.tag (matchers.tagQuestion opening))) := ask_run file _ _
  unfold ofNode at ended
  simp only [chosen] at ended
  unfold component at ended
  dsimp only at ended
  change ((ask file (.tag (matchers.tagQuestion opening))
    (matcher.tag (matchers.tagQuestion opening)) >>= _).run.run run) = _ at ended
  rw [matched] at ended
  obtain ⟨answer, tagged, answered, ended⟩ := ok_of_bind ended
  cases (asked run).symm.trans answered
  rw [if_pos rfl, attributes] at ended
  obtain ⟨collected, last, collecting, ended⟩ := ok_of_bind ended
  obtain ⟨begun, middle, beginning, others⟩ := ok_of_bind collecting
  obtain ⟨taken, final, filled, ended⟩ := ok_of_bind ended
  cases ended
  exact ⟨begun, middle, collected, last, taken, beginning, others, filled, rfl⟩

variable (run) in
/-- Under a property that no attribute after a first spread gives stands what the spread gives, or
else the default. -/
theorem get?_of_first_spread (chosen : matchers.components = some matcher)
    (matched : matcher.tag (matchers.tagQuestion opening) = .ok true)
    (answers : ∀ question, (matcher.property question).isOk = true) {property : String}
    (named : isProperty property = true)
    (accepted : matcher.property ⟨opening.name.text, opening, property, none⟩ = .ok true)
    (apart : (Entries.keys (matcher.defaults opening.name.text)).Nodup) {place : Span} {value : Expr}
    {rest : List Attribute} (attributes : opening.attributes = .spread place value :: rest) :
    let name := opening.name.text
    let around : Reference := ⟨file.path, opening.span, .opening⟩
    let tagged := run.posed (.tag (matchers.tagQuestion opening))
    let inside : Run := { tagged with stack := around :: run.stack }
    let entries := ((setting.evaluate file.path (.object value.span [.spread place value])).run
      inside).1.entries?.getD []
    let middle := ((addAttribute setting file matcher name opening around {}
      (.spread place value)).run.run tagged).2
    let others := (addAttributes setting file matcher name opening around {} rest).run.run middle
    (Entries.keys entries).Nodup → (∀ own, others.1 = .ok own → property ∉ own.present) →
    ∃ inst, ((ofNode setting matchers file (.opening opening)).run.run run).1 = .ok (some inst) ∧
      Entries.get? (inst.box.entries?.getD []) property = (Entries.get? entries property).or
        ((Entries.get? (matcher.defaults name) property).map fun value =>
          .literal value (some around)) := by
  intro name around tagged inside entries middle others apartEntries elsewhere
  have returns : ∃ result after,
      (ofNode setting matchers file (.opening opening)).run.run run = (.ok result, after) :=
    ofNode_opening_ok chosen matched answers
  obtain ⟨result, after, ended⟩ := returns
  obtain ⟨begun, state, collected, last, taken, beginning, walked, filled, rfl⟩ :=
    of_ofNode_opening chosen matched attributes ended
  obtain rfl : state = middle := (congrArg Prod.snd beginning).symm
  obtain ⟨box, here, evaluated, spread⟩ := ok_of_bind beginning
  have entered : box.entries?.getD [] = entries := by
    rw [evaluate_run] at evaluated
    cases evaluated
    rfl
  rw [entered] at spread
  obtain ⟨present, given⟩ := ending_spreadEntries accepted named apartEntries {} here begun middle
    spread
  -- The other attributes leave the property as the spread left it, given or not.
  obtain ⟨presentAll, givenAll⟩ := of_addAttributes walked elsewhere
  have held := ending_defaults accepted around apart collected last taken after filled
  refine ⟨_, by rw [ended], ?_⟩
  change Entries.get? taken property = _
  have none : Entries.get? ({} : Collected).taken property = none := rfl
  rw [held, givenAll, given, none, Option.or_none]
  by_cases listed : property ∈ Entries.keys entries
  · obtain ⟨box, found⟩ := Option.isSome_iff_exists.1 (Entries.contains_iff.2 listed)
    rw [if_pos (presentAll.2 (present.2 (.inl listed))), found]
    rfl
  · have absent : property ∉ collected.present := fun held =>
      (present.1 (presentAll.1 held)).elim listed List.not_mem_nil
    rw [if_neg absent, Entries.get?_eq_none listed, Option.or_none, Option.none_or]

end Extraction

/-- The literal is one of the values that a box may be. -/
def Box.MayBe (box : Box) (value : Primitive) : Prop :=
  ∃ other ∈ box.possible, (other == literal value none) = true

/-- Of the literals only the undefined value equals what is missing. -/
theorem Box.missing_same_iff {value : Primitive} :
    (missing == literal value none) = true ↔ value = .undefined := by
  change Primitive.same .undefined value = true ↔ _
  cases value <;> simp [Primitive.same, Primitive.strictEquals]

/-- What has the values of another box and undefined may be these. -/
theorem Box.SameValues.mayBe_iff {box given : Box} {value : Primitive}
    (same : SameValues box.possible (missing :: given.possible)) :
    box.MayBe value ↔ value = .undefined ∨ given.MayBe value := by
  constructor
  · rintro ⟨one, listed, equal⟩
    obtain ⟨other, among, alike⟩ := same.1 one listed
    have equal : (other == literal value none) = true := BEq.trans (BEq.symm alike) equal
    rcases List.mem_cons.1 among with rfl | among
    · exact .inl (missing_same_iff.1 equal)
    · exact .inr ⟨other, among, equal⟩
  · intro known
    have among : ∃ other ∈ missing :: given.possible, (other == literal value none) = true := by
      rcases known with rfl | ⟨other, listed, equal⟩
      · exact ⟨missing, List.mem_cons_self .., missing_same_iff.2 rfl⟩
      · exact ⟨other, List.mem_cons_of_mem _ listed, equal⟩
    obtain ⟨other, among, equal⟩ := among
    obtain ⟨one, listed, alike⟩ := same.2 other among
    exact ⟨one, listed, BEq.trans (BEq.symm alike) equal⟩

/-- Of an element whose first attribute spreads a choice between two object expressions that state
their keys, by a test that is not decided, a default is put exactly where neither has the property
and the other attributes do not have it either. Where one of them has it, the values of the property
are those that it has there and undefined, so the default is one of them only by chance. -/
theorem ofNode_defaults (setting : Setting) (matchers : Matchers) (matcher : ComponentMatcher)
    (file : Document) (opening : Opening) (place span spanTrue spanFalse : Span)
    (value test whenTrue whenFalse : Expr) (rest : List Attribute) (left right : List Member)
    (property : String) (preset : Primitive) (run : Run)
    (found : setting.project.file? file.path = some file)
    (chosen : matchers.components = some matcher)
    (matched : matcher.tag (matchers.tagQuestion opening) = .ok true)
    (answers : ∀ question, (matcher.property question).isOk = true)
    (named : isProperty property = true)
    (accepted : matcher.property ⟨opening.name.text, opening, property, none⟩ = .ok true)
    (apart : (Entries.keys (matcher.defaults opening.name.text)).Nodup)
    (configured : Entries.get? (matcher.defaults opening.name.text) property = some preset)
    (attributes : opening.attributes = .spread place value :: rest)
    (form : value.unwrap = .conditional span test whenTrue whenFalse)
    (first : whenTrue.unwrap = .object spanTrue left)
    (second : whenFalse.unwrap = .object spanFalse right)
    (static : ∀ member ∈ left ++ right, member.Static)
    (both : setting.policy.flags.skipConditions = false) :
    let around : Reference := ⟨file.path, opening.span, .opening⟩
    let tagged := run.posed (.tag (matchers.tagQuestion opening))
    let inside : Run := { tagged with stack := around :: run.stack }
    let wrapper := Expr.object value.span [.spread place value]
    let spreading := setting.entered file.path wrapper inside
    let tested := (setting.evaluate file.path test).run (setting.entered file.path value spreading)
    let yes := (setting.evaluate file.path whenTrue).run tested.2
    let no := (setting.evaluate file.path whenFalse).run yes.2
    let middle := ((Extraction.addAttribute setting file matcher opening.name.text opening around {}
      (.spread place value)).run.run tagged).2
    let others := (Extraction.addAttributes setting file matcher opening.name.text opening around {}
      rest).run.run middle
    setting.Permits wrapper inside → setting.Permits value spreading →
    setting.Permits whenTrue tested.2 → setting.Permits whenFalse yes.2 →
    tested.1.truthy? = none →
    (∀ own, others.1 = .ok own → property ∉ own.present) →
    ∃ inst,
      ((Extraction.ofNode setting matchers file (.opening opening)).run.run run).1 =
        .ok (some inst) ∧
      ((property ∈ left.flatMap Member.names ↔ property ∉ right.flatMap Member.names) →
        ∃ given box,
          (Entries.get? (yes.1.entries?.getD []) property).or
            (Entries.get? (no.1.entries?.getD []) property) = some given ∧
          Entries.get? (inst.box.entries?.getD []) property = some box ∧
          SameValues box.possible (missing :: given.possible) ∧
          (box.MayBe preset ↔ preset = .undefined ∨ given.MayBe preset)) ∧
      (property ∉ left.flatMap Member.names → property ∉ right.flatMap Member.names →
        Entries.get? (inst.box.entries?.getD []) property =
          some (.literal preset (some around))) := by
  intro around tagged inside wrapper spreading tested yes no middle others permitsWrapper
    permitsValue permitsTrue permitsFalse undecided elsewhere
  obtain ⟨spread, ⟨apartOne, keysOne⟩, apartOther, keysOther⟩ := Setting.evaluate_choice found
    permitsWrapper form first second static both permitsValue permitsTrue permitsFalse undecided
  -- What one expression has and the other lacks stands in the merged entries as that or undefined.
  let merged := merge (some (file.scope.refer test.span)) (file.scope.refer value.span)
    (yes.1.entries?.getD []) (no.1.entries?.getD [])
  have entries : ((setting.evaluate file.path wrapper).run inside).1.entries?.getD [] = merged :=
    congrArg (·.entries?.getD []) spread
  have distinct : (Entries.keys merged).Nodup := nodup_merge apartOne apartOther
  obtain ⟨inst, ended, held⟩ := Extraction.get?_of_first_spread run chosen matched answers
    named accepted apart attributes (entries ▸ distinct) elsewhere
  have held : Entries.get? (inst.box.entries?.getD []) property =
      (Entries.get? merged property).or (some (.literal preset (some around))) := by
    rw [configured] at held
    exact entries ▸ held
  -- What is left is about merged entries alone: a key of one branch, and a key of neither.
  rw [← keysOne, ← keysOther]
  refine ⟨inst, ended, fun exactly => ?_, fun absent absentNext => ?_⟩
  · obtain ⟨given, box, gives, stands, same⟩ := get?_merge_of_one exactly
    rw [stands] at held
    exact ⟨given, box, gives, held, same, same.mayBe_iff⟩
  · rw [get?_merge_of_neither absent absentNext] at held
    exact held

/-- An object expression with one member. -/
def soleMember (span inner text : Span) (key value : String) : Expr :=
  .object span [.keyed inner (.name key) (.literal text (.string value))]

/-- `<Box {...(c ? { p: "x" } : { q: "y" })} />` -/
def choiceOpening : Opening :=
  .mk ⟨1, 43⟩ (.ident ⟨"Box", 1⟩) [.spread ⟨7, 39⟩ (.wrapped ⟨10, 39⟩ .parentheses
    (.conditional ⟨11, 38⟩ (.ident ⟨11, 12⟩ ⟨"c", 1⟩)
      (soleMember ⟨15, 25⟩ ⟨17, 23⟩ ⟨20, 23⟩ "p" "x")
      (soleMember ⟨28, 38⟩ ⟨30, 36⟩ ⟨33, 36⟩ "q" "y")))]

/-- A matcher of elements that gives the property `p` a default. -/
def presetMatcher (preset : Primitive) : ComponentMatcher :=
  ({ defaults := [("Box", [("p", preset)])] } : NameRules).components

/-- The default is one of the values where the outcome that gives the property gives this value. -/
theorem ofNode_defaults_among :
    let opening := choiceOpening
    let file := elementFile opening
    let setting : Setting := { project := Project.insert {} file }
    let matcher := presetMatcher (.string "x")
    let matchers : Matchers := { components := some matcher }
    setting.project.file? file.path = some file ∧
      matcher.tag (matchers.tagQuestion opening) = .ok true ∧
      (∀ question, (matcher.property question).isOk = true) ∧
      isProperty "p" = true ∧
      matcher.property ⟨"Box", opening, "p", none⟩ = .ok true ∧
      matcher.defaults opening.name.text = [("p", .string "x")] ∧
      ∃ inst box,
        ((Extraction.ofNode setting matchers file (.opening opening)).run.run {}).1 =
          .ok (some inst) ∧
        Entries.get? (inst.box.entries?.getD []) "p" = some box ∧ box.MayBe (.string "x") := by
  intro opening file setting matcher matchers
  have found : setting.project.file? file.path = some file := Project.file?_insert {} file
  have matched : matcher.tag (matchers.tagQuestion opening) = .ok true := rfl
  have answers : ∀ question, (matcher.property question).isOk = true := fun _ => rfl
  have named : isProperty "p" = true := by decide +kernel
  have accepted : matcher.property ⟨"Box", opening, "p", none⟩ = .ok true := rfl
  have configured : matcher.defaults opening.name.text = [("p", .string "x")] := by rfl
  have permits : ∀ expr run, setting.Permits expr run := fun _ _ => ⟨rfl, nofun⟩
  obtain ⟨inst, ended, filled, _⟩ := ofNode_defaults setting matchers matcher file opening ⟨7, 39⟩
    ⟨11, 38⟩ ⟨15, 25⟩ ⟨28, 38⟩ _ _ _ _ [] _ _ "p" (.string "x") {} found rfl matched answers named
    accepted (by rw [configured]; decide) (by rw [configured]; rfl) rfl rfl rfl rfl
    (by simp [Member.Static, Key.names]) rfl (permits ..) (permits ..) (permits ..) (permits ..)
    (by decide +kernel) (by rintro _ ⟨⟩; exact List.not_mem_nil)
  obtain ⟨given, box, gives, stands, _, among⟩ := filled (by decide +kernel)
  have known : ((some given).any fun given =>
      given.possible.any (· == .literal (.string "x") none)) = true := by
    rw [← gives]
    decide +kernel
  have known : given.MayBe (.string "x") := by simpa [Box.MayBe] using known
  exact ⟨found, matched, answers, named, accepted, configured, inst, box, ended, stands,
    among.2 (.inr known)⟩

/-- The default is lost where it is another value: the property is then undefined in the outcome that
lacks it. -/
theorem not_ofNode_defaults :
    let opening := choiceOpening
    let file := elementFile opening
    let setting : Setting := { project := Project.insert {} file }
    let matcher := presetMatcher (.string "d")
    let matchers : Matchers := { components := some matcher }
    let boxes := (Extraction.extract setting matchers file.path).1.toOption.map fun report =>
      report.groups.flatMap fun (_, group) => group.instances.map Instance.box
    let box := Box.conditional (.text "x" none) (.literal .undefined none) none none
    let other := Box.conditional (.literal .undefined none) (.text "y" none) none none
    matcher.tag (matchers.tagQuestion opening) = .ok true ∧
      matcher.property ⟨"Box", opening, "p", none⟩ = .ok true ∧
      matcher.defaults opening.name.text = [("p", .string "d")] ∧
      boxes == some [.map [("p", box), ("q", other)] none] ∧
      ¬ box.MayBe (.string "d") := by
  intro opening file setting matcher matchers boxes box other
  have absent : ¬ box.MayBe (.string "d") := by
    unfold Box.MayBe
    decide +kernel
  exact ⟨rfl, rfl, by rfl, by decide +kernel, absent⟩

end Glean
