import Mathlib.Data.List.Induction
import Glean.Proofs.Box.Spreading
import Glean.Proofs.Extraction.Reports
import Glean.Proofs.Extraction.States

/-!
# Attributes and object expressions

The attributes of an element mean what the members of an object expression mean, as long as every
matcher takes them. Extraction evaluates a spread attribute on its own and puts its entries over
those before, while an object expression spreads the value into the entries before it; so the two
agree where no alternative of a conditional spread leaves out what an earlier attribute gives and
another alternative gives anew (`Setting.Agrees`, `extract_mirrors_object`).
-/

namespace Glean

open Syntax Box

/-- The member of an object expression that stands for an attribute. An attribute with empty braces
or an element as its value has none. -/
def Syntax.Attribute.member? : Attribute → Option Member
  | .named span name .missing => some (.keyed span (.string name) (.literal span (.boolean true)))
  | .named span name (.literal place value) =>
    some (.keyed span (.string name) (.literal place value))
  | .named span name (.expr value) => some (.keyed span (.string name) value)
  | .named _ _ .empty | .named _ _ (.element _) => none
  | .spread span value => some (.spread span value)

/-- The object expression with the entries of attributes. -/
def Syntax.Expr.ofAttributes (span : Span) (attributes : List Attribute) : Expr :=
  .object span (attributes.filterMap Attribute.member?)

/-- Whether a key is the name of a property, and not the text of a spread. -/
def isProperty (key : String) : Bool := !key.startsWith "..."

/-- The box with the properties of an object only. -/
def Box.properties : Box → Box
  | .map entries node => .map (Entries.keep isProperty entries) node
  | box => box

/-- Boxes that look alike have properties that look alike. -/
theorem Box.Alike.properties {view : View} {left right : Box} (alike : Alike view left right) :
    Alike view left.properties right.properties := by
  cases alike.kindred with
  | map entries others node other =>
    have nodes : view.see node = view.see other := by
      simp only [Alike, seen_map, map.injEq] at alike
      exact alike.2
    simp only [Alike, Box.properties, seen_map, map.injEq]
    exact ⟨alike.entries.keep isProperty, nodes⟩
  | _ => exact alike

/-- An attribute stands for a plain member. -/
theorem Syntax.Attribute.plain_of_member? {attr : Attribute} {member : Member}
    (stands : attr.member? = some member) : member.Plain := by
  cases attr with
  | spread => cases stands; trivial
  | named span name value =>
    cases value with
    | empty | element => cases stands
    | _ => cases stands; trivial

namespace Setting

variable {setting : Setting} {scope : Scope} {node : Reference} {entries : Entries String Box}

/-- The properties of an element after one more attribute, given as a member: a spread value is
spread on its own, and its properties are put over those before. -/
def putAlone (setting : Setting) (scope : Scope) (node : Reference) (entries : Entries String Box) :
    Member → Entries String Box
  | .spread span value =>
    Entries.insertAll entries (Entries.keep isProperty
      ((setting.meaning scope value).spread (setting.sourceOfSpread scope span) node []))
  | member => setting.put scope node entries member

/-- Of each property that earlier members give, either all alternatives of a spread value have it or
none. -/
def Decided (setting : Setting) (scope : Scope) (node : Reference) (members : List Member) : Prop :=
  ∀ earlier span value later, members = earlier ++ .spread span value :: later →
    ∀ key, isProperty key = true →
      Entries.contains (earlier.foldl (setting.put scope node) []) key = true →
        ((setting.meaning scope value).contributes? (setting.sourceOfSpread scope span) key).isSome

/-- Putting in a member leaves keys that are apart apart. -/
theorem nodup_put (apart : (Entries.keys entries).Nodup) (member : Member) :
    (Entries.keys (setting.put scope node entries member)).Nodup := by
  unfold put
  split
  · exact Entries.nodup_insert apart ..
  · exact nodup_spread apart
  · exact apart

/-- Putting in several members leaves keys that are apart apart. -/
theorem nodup_foldl_put (apart : (Entries.keys entries).Nodup) (members : List Member) :
    (Entries.keys (members.foldl (setting.put scope node) entries)).Nodup := by
  induction members generalizing entries with
  | nil => exact apart
  | cons first rest ih => exact ih (nodup_put apart first)

/-- An object expression whose spreads are decided has the properties of its members put one over
the other. -/
theorem keep_foldl_putAlone {members : List Member}
    (decided : setting.Decided scope node members) :
    Entries.keep isProperty (members.foldl (setting.putAlone scope node) []) =
      Entries.keep isProperty (members.foldl (setting.put scope node) []) := by
  -- The condition speaks of the members before a spread, so members are added at the end.
  induction members using List.reverseRecOn with
  | nil => rfl
  | append_singleton members member ih =>
    have before := ih fun earlier span value later split =>
      decided earlier span value (later ++ [member]) (by simp [split])
    have apart : (Entries.keys (members.foldl (setting.put scope node) [])).Nodup :=
      nodup_foldl_put (show (Entries.keys []).Nodup from List.nodup_nil) members
    simp only [List.foldl_append, List.foldl_cons, List.foldl_nil]
    cases member with
    | spread span value =>
      have agreed := keep_spread isProperty node apart (decided members span value [] rfl)
      simp only [putAlone, put]
      rw [agreed, Entries.keep_insertAll, Entries.keep_keep, before]
    | keyed span key value =>
      cases key with
      | string name => simp only [putAlone, put, Entries.keep_insert, before]
      | _ => exact before
    | _ => exact before

end Setting

namespace Extraction

open Extract

variable {setting : Setting} {file : Document} {matcher : ComponentMatcher} {name : String}
  {opening : Opening} {entries : Entries String Box} {collected : Collected}

/-- A property that the matcher takes is put over the properties before. -/
theorem gives_offer (question : AttributeQuestion) (taken : matcher.property question = .ok true)
    {box : Extract Box} {value : Box} (gives : Gives setting (Alike .blind value) box)
    (before : AlikeEntries .blind entries collected.taken) :
    Gives setting (fun after =>
        AlikeEntries .blind (Entries.insert entries question.property value) after.taken)
      (collected.offer matcher file question box) := by
  unfold Collected.offer
  rw [taken]
  refine Gives.bind (gives_ask file (.attr question) true) fun answer same => ?_
  subst same
  exact Gives.bind gives fun box alike => Gives.pure (before.insert _ alike)

/-- The properties among the entries of a spread are put over the properties before. -/
theorem gives_spreadEntries (all : ∀ question, matcher.property question = .ok true)
    {pairs list : Entries String Box} (alike : AlikeEntries .blind pairs list)
    (before : AlikeEntries .blind entries collected.taken) :
    Gives setting (fun after => AlikeEntries .blind
        (Entries.insertAll entries (Entries.keep isProperty pairs)) after.taken)
      (spreadEntries file matcher name opening collected list) := by
  induction pairs generalizing list entries collected with
  | nil =>
    obtain rfl : list = [] := List.map_eq_nil_iff.1 alike.symm
    exact Gives.pure before
  | cons pair pairs ih =>
    obtain ⟨key, value⟩ := pair
    obtain ⟨box, rest, rfl, first, others⟩ := alike.of_cons
    unfold spreadEntries
    dsimp only
    -- The text of a spread is passed over here, and it is no property that is kept.
    split
    · rename_i dots
      have failed : isProperty key = false := by simp [isProperty, dots]
      rw [Entries.keep_cons, if_neg (Bool.eq_false_iff.1 failed)]
      exact Gives.bind (Gives.pure before) fun after before => ih others before
    · rename_i plain
      have passed : isProperty key = true := by simp [isProperty, plain]
      rw [Entries.keep_cons, if_pos passed]
      exact Gives.bind (gives_offer ⟨name, opening, key, none⟩ (all _) (Gives.pure first) before)
        fun after before => ih others before

section Calm

variable (calm : setting.policy.isStackSensitive = false)
  (evaluates : setting.policy.flags.skipEvaluate = false)
  (found : (setting.project.file? file.path).isSome)
  (all : ∀ question, matcher.property question = .ok true)

include calm evaluates found all

/-- An attribute that stands for a member is put over the properties before. -/
theorem gives_addAttribute (around node : Reference) {attr : Attribute} {member : Member}
    (stands : attr.member? = some member)
    (before : AlikeEntries .blind entries collected.taken) :
    Gives setting (fun after => AlikeEntries .blind
        (setting.putAlone (setting.project.scope file.path) node entries member) after.taken)
      (addAttribute setting file matcher name opening around collected attr) := by
  cases attr with
  | named span property value =>
    have taken : ∀ expr, Gives setting (fun after => AlikeEntries .blind (Entries.insert entries
          property (setting.meaning (setting.project.scope file.path) expr)) after.taken)
        (collected.offer matcher file ⟨name, opening, property, some (span, value)⟩
          (evaluate setting file around expr)) := fun expr =>
      gives_offer ⟨name, opening, property, some (span, value)⟩ (all _)
        (gives_evaluate calm found around expr) before
    cases value with
    | empty | element => cases stands
    | missing | literal | expr =>
      cases stands
      exact taken _
  | spread span value =>
    cases stands
    have plain : ∀ member ∈ [Member.spread span value], member.Plain := by simp [Member.Plain]
    refine Gives.bind (gives_evaluate calm found around _) fun box alike => ?_
    rw [Setting.meaning_object calm evaluates file.path value.span plain] at alike
    refine gives_spreadEntries all ?_ before
    exact (spread_at ..).trans alike.entries

/-- Attributes that stand for members are put one over the other. -/
theorem gives_addAttributes (around node : Reference) {attributes : List Attribute}
    (written : ∀ attr ∈ attributes, attr.member?.isSome)
    (before : AlikeEntries .blind entries collected.taken) :
    Gives setting (fun after => AlikeEntries .blind
        ((attributes.filterMap Attribute.member?).foldl
          (setting.putAlone (setting.project.scope file.path) node) entries) after.taken)
      (addAttributes setting file matcher name opening around collected attributes) := by
  induction attributes generalizing entries collected with
  | nil => exact Gives.pure before
  | cons first rest ih =>
    obtain ⟨member, stands⟩ := Option.isSome_iff_exists.1 (written first (List.mem_cons_self ..))
    rw [List.filterMap_cons_some stands]
    have others : ∀ attr ∈ rest, attr.member?.isSome := fun attr listed =>
      written attr (List.mem_cons_of_mem _ listed)
    exact Gives.bind (gives_addAttribute calm evaluates found all around node stands before)
      fun after before => ih others before

end Calm

end Extraction

namespace Setting

/-- The box of the object expression with the entries of attributes, evaluated first of all. -/
def objectBox (setting : Setting) (path : Path) (span : Span) (attributes : List Attribute) : Box :=
  ((setting.evaluate path (.ofAttributes span attributes)).run {}).1

/-- Of each property that the attributes before a spread attribute give, either all alternatives of
the spread value have it or none. -/
def Agrees (setting : Setting) (path : Path) (span : Span) (attributes : List Attribute) : Prop :=
  ∀ earlier place value later, attributes = earlier ++ .spread place value :: later →
    ∀ key ∈ Entries.keys ((setting.objectBox path span earlier).entries?.getD []),
      isProperty key = true →
        (((setting.evaluate path value).run {}).1.contributes?
          (setting.sourceOfSpread (setting.project.scope path) place) key).isSome

end Setting

/-- What a matcher is asked about an element. -/
def Matchers.tagQuestion (matchers : Matchers) (opening : Opening) : TagQuestion :=
  let name := opening.name.text
  ⟨name, opening, matchers.factory.any fun isFactory => isFactory name opening⟩

/-- An instance is that of an element, and its properties are those of the object expression with
the entries of the attributes. -/
structure Instance.Mirrors (setting : Setting) (file : Document) (span : Span) (opening : Opening)
    (inst : Instance) : Prop where
  name : inst.name = opening.name.text
  kind : inst.kind = .element
  node : inst.node = ⟨file.path, opening.span, .opening⟩
  isMap : inst.box.entries?.isSome
  box : (inst.box.properties ==
    (setting.objectBox file.path span opening.attributes).properties) = true

namespace Extraction

open Extract

variable {setting : Setting} {file : Document} {matcher : ComponentMatcher} {opening : Opening}

section Calm

variable (calm : setting.policy.isStackSensitive = false)
  (evaluates : setting.policy.flags.skipEvaluate = false)
  (found : (setting.project.file? file.path).isSome)

include calm evaluates found

/-- From a ready state, the object expression with the entries of attributes comes to the members
put into one object. -/
theorem objectBox_alike (span : Span) (attributes : List Attribute) :
    let scope := setting.project.scope file.path
    let node := scope.refer span
    Alike .blind (.map ((attributes.filterMap Attribute.member?).foldl (setting.put scope node) [])
      (some node)) (setting.objectBox file.path span attributes) := by
  intro scope node
  have plain : ∀ member ∈ attributes.filterMap Attribute.member?, member.Plain := by
    intro member listed
    obtain ⟨attr, _, stands⟩ := List.mem_filterMap.1 listed
    exact Attribute.plain_of_member? stands
  have evaluated := (setting.ready_start.evaluate calm found (.ofAttributes span attributes)).1
  rwa [Expr.ofAttributes, Setting.meaning_object calm evaluates file.path span plain] at evaluated

/-- What the alternatives agree on after an evaluation, they agree on in meaning. -/
theorem decided_of_agrees {span : Span} {attributes : List Attribute}
    (agrees : setting.Agrees file.path span attributes) :
    let scope := setting.project.scope file.path
    setting.Decided scope (scope.refer span) (attributes.filterMap Attribute.member?) := by
  intro scope earlier place value later split key passes held
  obtain ⟨first, rest, rfl, rfl, others⟩ := List.filterMap_eq_append_iff.1 split
  obtain ⟨none, attr, last, rfl, absent, stands, _⟩ := List.filterMap_eq_cons_iff.1 others
  -- Attributes without a member stand between the others and put nothing.
  obtain rfl : attr = .spread place value := by
    cases attr with
    | spread => cases stands; rfl
    | named span name value => cases value <;> cases stands
  have same : (first ++ none).filterMap Attribute.member? = first.filterMap Attribute.member? := by
    rw [List.filterMap_append, List.filterMap_eq_nil_iff.2 absent, List.append_nil]
  have alike := (objectBox_alike calm evaluates found span (first ++ none)).entries
  rw [same] at alike
  have value := (setting.ready_start.evaluate calm found value).1
  rw [value.contributes?]
  refine agrees (first ++ none) place _ last (by simp) key ?_ passes
  rw [← alike.keys]
  exact Entries.contains_iff.1 held

variable (all : ∀ question, matcher.property question = .ok true)

include all

/-- An element that the matcher takes gives an instance with the properties of the object
expression, when the alternatives of its spread attributes agree. -/
theorem gives_component {matchers : Matchers} {span : Span}
    (matched : matcher.tag (matchers.tagQuestion opening) = .ok true)
    (bare : matcher.defaults opening.name.text = [])
    (written : ∀ attr ∈ opening.attributes, attr.member?.isSome)
    (agrees : setting.Agrees file.path span opening.attributes) :
    Gives setting (fun result => ∃ inst, result = some inst ∧
        inst.Mirrors setting file span opening)
      (component setting matchers file matcher opening) := by
  have decided := decided_of_agrees calm evaluates found agrees
  have object := objectBox_alike calm evaluates found span opening.attributes
  have asked : Gives setting (· = true) (ask file (.tag (matchers.tagQuestion opening))
      (matcher.tag (matchers.tagQuestion opening))) := by
    rw [matched]
    exact gives_ask ..
  have nothing : AlikeEntries .blind [] ({} : Collected).taken := rfl
  refine Gives.bind asked fun answer same => ?_
  subst same
  refine Gives.bind (gives_addAttributes calm evaluates found all _
    ((setting.project.scope file.path).refer span) written nothing) fun collected taken => ?_
  rw [bare]
  refine Gives.bind (Gives.pure taken) fun entries taken =>
    Gives.pure ⟨_, rfl, rfl, rfl, rfl, rfl, Alike.beq ?_⟩
  have properties := congrArg (Entries.keep isProperty) taken
  rw [Entries.keep_mapValues, Entries.keep_mapValues, Setting.keep_foldl_putAlone decided]
    at properties
  have alike : AlikeEntries .blind (Entries.keep isProperty entries) _ := properties.symm
  exact (alike_map rfl alike).trans object.properties

end Calm

end Extraction

/-- Under a policy without gate and overrides, an element that a matcher takes with all its
attributes mirrors the object expression with their entries, provided the alternatives of its spread
attributes agree about the properties before them. That is so when the element is visited, whatever
was visited before, and in the report of the file. -/
theorem extract_mirrors_object (setting : Setting) (matchers : Matchers)
    (matcher : ComponentMatcher) (path : Path) (file : Document) (opening : Opening) (span : Span)
    (ungated : setting.policy.gate = none) (free : setting.policy.overrides = none)
    (evaluates : setting.policy.flags.skipEvaluate = false)
    (found : setting.project.file? path = some file) (chosen : matchers.components = some matcher)
    (matched : matcher.tag (matchers.tagQuestion opening) = .ok true)
    (all : ∀ question, matcher.property question = .ok true)
    (bare : matcher.defaults opening.name.text = [])
    (written : ∀ attr ∈ opening.attributes, attr.member?.isSome)
    (agrees : setting.Agrees file.path span opening.attributes) :
    (∀ before, let run := ((Extraction.ofNodes setting matchers file before).run.run {}).2
      ∃ inst, ((Extraction.ofNode setting matchers file (.opening opening)).run.run run).1 =
        .ok (some inst) ∧ inst.Mirrors setting file span opening) ∧
    (.opening opening ∈ file.module.all → ∀ report,
      (Extraction.extract setting matchers path).1 = .ok report →
      ∃ inst, report.Holds inst ∧ inst.Mirrors setting file span opening) := by
  have calm : setting.policy.isStackSensitive = false := by
    simp [Policy.isStackSensitive, ungated, free]
  have present : (setting.project.file? file.path).isSome := by
    rw [Project.file?_congr _ (Project.path_of_file? found).1, found]
    rfl
  have gives : Extract.Gives setting (fun result => ∃ inst, result = some inst ∧
        inst.Mirrors setting file span opening)
      (Extraction.ofNode setting matchers file (.opening opening)) := by
    unfold Extraction.ofNode
    rw [chosen]
    exact Extraction.gives_component calm evaluates present all matched bare written agrees
  obtain ⟨visited, reported⟩ := Extraction.extracts_of_gives calm present found gives
  refine ⟨visited, fun listed report extracted => ?_⟩
  obtain ⟨instances, rfl, inst, member, mirrors⟩ := reported listed report extracted
  exact ⟨inst, Report.holds_ofList member, mirrors⟩

/-- `<Box a="x" {...(c ? { a: "y" } : { b: "z" })} />` with a given key instead of `b`. -/
def spreadingOpening (key : String) : Opening :=
  .mk ⟨11, 59⟩ (.ident ⟨"Box", 1⟩)
    [.named ⟨16, 21⟩ "a" (.literal ⟨18, 21⟩ (.string "x")),
      .spread ⟨23, 55⟩ (.wrapped ⟨26, 55⟩ .parentheses
        (.conditional ⟨27, 54⟩ (.ident ⟨27, 28⟩ ⟨"c", 1⟩)
          (.object ⟨31, 41⟩ [.keyed ⟨33, 39⟩ (.name "a") (.literal ⟨36, 39⟩ (.string "y"))])
          (.object ⟨44, 54⟩ [.keyed ⟨46, 52⟩ (.name key) (.literal ⟨49, 52⟩ (.string "z"))])))]

/-- A file that declares `d` with an element as its value. -/
def elementFile (opening : Opening) : Document :=
  .make ⟨"/a.tsx"⟩ "" ⟨[.declarations [.mk (.ident ⟨"d", 2⟩)
    (some (.other opening.span "JSXElement" [.opening opening]))]]⟩

/-- The file of an element has its opening tag. -/
theorem opening_mem_elementFile (opening : Opening) :
    .opening opening ∈ (elementFile opening).module.all :=
  List.mem_flatMap.2 ⟨_, List.mem_cons_self .., Node.mem_all_of_child
    (List.mem_cons_of_mem _ (List.mem_cons_self ..))
    (Node.mem_all_of_child (List.mem_cons_self ..) (Node.mem_all_self _))⟩

/-- A conditional spread that gives a property in both cases takes the place of the attribute before
it. -/
theorem extract_mirrors_object_spread :
    let opening := spreadingOpening "a"
    let file := elementFile opening
    let setting : Setting := { project := Project.insert {} file }
    let matcher := ({} : NameRules).components
    let matchers : Matchers := { components := some matcher }
    setting.project.file? file.path = some file ∧
      matcher.tag (matchers.tagQuestion opening) = .ok true ∧
      (∀ question, matcher.property question = .ok true) ∧
      matcher.defaults opening.name.text = [] ∧
      (∀ attr ∈ opening.attributes, attr.member?.isSome) ∧
      setting.Agrees file.path opening.span opening.attributes ∧
      .opening opening ∈ file.module.all ∧
      ∃ report, (Extraction.extract setting matchers file.path).1 = .ok report ∧
        ∃ inst, report.Holds inst ∧ inst.Mirrors setting file opening.span opening := by
  intro opening file setting matcher matchers
  have found : setting.project.file? file.path = some file := Project.file?_insert {} file
  have matched : matcher.tag (matchers.tagQuestion opening) = .ok true := by rfl
  have all : ∀ question, matcher.property question = .ok true := fun _ => rfl
  have bare : matcher.defaults opening.name.text = [] := by rfl
  have written : ∀ attr ∈ opening.attributes, attr.member?.isSome := by decide
  have agrees : setting.Agrees file.path opening.span opening.attributes := by
    intro earlier place value later split
    rcases List.cons_eq_append_iff.1 split with ⟨_, same⟩ | ⟨rest, rfl, others⟩
    · cases same
    · rcases List.cons_eq_append_iff.1 others with ⟨rfl, same⟩ | ⟨_, _, same⟩
      · cases same
        decide +kernel
      · cases (List.append_eq_nil_iff.1 same.symm).2
  have listed : .opening opening ∈ file.module.all := opening_mem_elementFile opening
  have ends : (Extraction.extract setting matchers file.path).1.isOk = true := by decide +kernel
  cases extracted : (Extraction.extract setting matchers file.path).1 with
  | error failure =>
    rw [extracted] at ends
    cases ends
  | ok report =>
    exact ⟨found, matched, all, bare, written, agrees, listed, report, rfl,
      (extract_mirrors_object setting matchers matcher file.path file opening opening.span rfl rfl
        rfl found rfl matched all bare written agrees).2 listed report extracted⟩

/-- A conditional spread that gives a property in one case only hides the attribute before it in the
other case as well, while an object expression keeps its value there. -/
theorem not_extract_mirrors_object_undecided :
    let opening := spreadingOpening "b"
    let file := elementFile opening
    let setting : Setting := { project := Project.insert {} file }
    let matcher := ({} : NameRules).components
    let matchers : Matchers := { components := some matcher }
    let boxes := (Extraction.extract setting matchers file.path).1.toOption.map fun report =>
      report.groups.flatMap fun (_, group) => group.instances.map fun inst => inst.box.properties
    let object := (setting.objectBox file.path opening.span opening.attributes).properties
    let last := Box.conditional (.literal .undefined none) (.text "z" none) none none
    matcher.tag (matchers.tagQuestion opening) = .ok true ∧
      (∀ question, matcher.property question = .ok true) ∧
      matcher.defaults opening.name.text = [] ∧
      (∀ attr ∈ opening.attributes, attr.member?.isSome) ∧
      boxes == some [.map
        [("a", .conditional (.text "y" none) (.literal .undefined none) none none),
          ("b", last)] none] ∧
      object == .map [("a", .conditional (.text "y" none) (.text "x" none) none none),
        ("b", last)] none ∧
      (boxes == some [object]) = false := by
  intro opening file setting matcher matchers boxes object last
  exact ⟨by decide +kernel, fun _ => rfl, by decide +kernel, by decide +kernel, by decide +kernel,
    by decide +kernel, by decide +kernel⟩

end Glean
