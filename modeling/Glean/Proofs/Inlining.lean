import Glean.Proofs.Evaluation.Meaning
import Glean.Proofs.Evaluation.Reachable

/-!
# Inline objects that are spread

An object expression that is spread where it is written gives the same object as its members do in
its place, with one exception (`evaluate_inlined`): the object on its own cannot say of a key that
only some alternatives of a conditional spread give it, and says undefined for the others. So where
nothing takes the place of the key, a value that stood before the object is lost, which it is not
when the members are written in place.
-/

namespace Glean

open Syntax Box

/-- What an object has under a key, where a key that is missing is undefined. -/
def Box.property (key : String) (box : Box) : Box := valueAt (box.entries?.getD []) key

/-- A map always or never contributes a key, as it contains it or not. -/
theorem Box.contributes?_map (fallback key : String) (entries : Entries String Box)
    (origin : Option Reference) :
    (map entries origin).contributes? fallback key = some (Entries.contains entries key) :=
  (contributes?_of_value rfl).2 rfl

namespace Setting

/-- Whether a member of an object gives a key, when its alternatives agree on that. -/
def gives? (setting : Setting) (path : Path) (run : Run) (key : String) : Member → Option Bool
  | .spread span value =>
    ((setting.evaluate path value).run run).1.contributes?
      (setting.sourceOfSpread ((setting.scopeAt path).run run).1 span) key
  | member => ((setting.evaluate path (.object ⟨0, 0⟩ [member])).run run).1.contributes? "" key

/-- It makes no difference under a key whether members stand in an object that is spread: nothing is
given there before, a member from there on is sure to give it, or each of the members is sure whether
it gives it. -/
def Indifferent (setting : Setting) (path : Path) (run : Run) (given : Box)
    (members after : List Member) (key : String) : Prop :=
  (given.property key == missing) = true ∨
    (∃ member ∈ members ++ after, setting.gives? path run key member = some true) ∨
    ∀ member ∈ members, (setting.gives? path run key member).isSome

variable {setting : Setting} {run : Run}

/-- A key that is not given before is indifferent. -/
theorem indifferent_of_new {path : Path} {given : Box} {members after : List Member} {key : String}
    (new : key ∉ Entries.keys (given.entries?.getD [])) :
    setting.Indifferent path run given members after key := by
  have absent : Entries.get? (given.entries?.getD []) key = none :=
    Option.not_isSome_iff_eq_none.1 fun found => new (Entries.contains_iff.1 found)
  refine .inl ?_
  rw [property, valueAt, absent]
  exact BEq.rfl

variable (calm : setting.policy.isStackSensitive = false)

include calm

/-- From a quiet state every expression at a path comes to its meaning. -/
theorem Quiet.evaluate_means (quiet : setting.Quiet run) (path : Path) :
    ∃ place, ((setting.scopeAt path).run run).1 = setting.project.scope place ∧
      ∀ expr, Alike .blind (setting.meaning (setting.project.scope place) expr)
        ((setting.evaluate path expr).run run).1 := by
  obtain ⟨place, _, _, located⟩ := setting.scopeAt_spec path run
  refine ⟨place, by rw [located], fun expr => ?_⟩
  obtain ⟨other, _, _, locatedOther, alike, _⟩ := quiet.evaluate path expr
  rw [(Prod.mk.inj (locatedOther.symm.trans located)).1,
    boxFrom_congr { stack := run.stack } {} rfl rfl rfl
      (fun sensitive => absurd (calm.symm.trans sensitive) Bool.false_ne_true) rfl (fun _ => rfl)
      ⟨place, rfl⟩] at alike
  exact alike

variable (evaluates : setting.policy.flags.skipEvaluate = false)

include evaluates

/-- Whether a member gives a key is what its meaning says. -/
theorem Quiet.gives?_eq (quiet : setting.Quiet run) (path : Path) (key : String)
    (member : Member) :
    setting.gives? path run key member =
      let part := setting.addition ((setting.scopeAt path).run run).1 member
      part.2.contributes? part.1 key := by
  obtain ⟨place, here, means⟩ := quiet.evaluate_means calm path
  have alone : ∀ pairs, setting.addition (setting.project.scope place) member =
        ("", .map pairs none) →
      ((setting.evaluate path (.object ⟨0, 0⟩ [member])).run run).1.contributes? "" key =
        some (Entries.contains pairs key) := by
    intro pairs adds
    rw [← (means _).contributes? "" key, meaning_members calm evaluates, contributes?_map,
      List.map_singleton, adds]
    exact congrArg some (Entries.contains_ofList pairs key)
  rw [here]
  cases member with
  | spread span value =>
    rw [gives?, here, ← (means value).contributes?]
    rfl
  | _ => exact (alone _ rfl).trans (contributes?_map ..).symm

/-- What is indifferent for the boxes is so for the meanings. -/
theorem Quiet.settled_of_indifferent (quiet : setting.Quiet run) (path : Path) {span : Span}
    {before members after : List Member} {key : String}
    (settled : setting.Indifferent path run
      ((setting.evaluate path (.object span before)).run run).1 members after key) :
    let scope := ((setting.scopeAt path).run run).1
    let added := setting.addition scope
    (valueAt (spreadAll (scope.refer span) [] (before.map added)) key == missing) = true ∨
      (∃ part ∈ members.map added ++ after.map added,
        part.2.contributes? part.1 key = some true) ∨
      ∀ part ∈ members.map added, (part.2.contributes? part.1 key).isSome := by
  intro scope added
  have gives := quiet.gives?_eq calm evaluates path key
  rcases settled with nothing | ⟨member, listed, sure⟩ | decided
  · left
    obtain ⟨place, here, means⟩ := quiet.evaluate_means calm path
    have given := means (.object span before)
    rw [meaning_members calm evaluates, ← here] at given
    exact BEq.trans (given.entries.getD_missing key).beq nothing
  · refine .inr (.inl ⟨added member, ?_, (gives member).symm.trans sure⟩)
    rw [← List.map_append]
    exact List.mem_map_of_mem listed
  · refine .inr (.inr fun part found => ?_)
    obtain ⟨member, listed, rfl⟩ := List.mem_map.1 found
    exact (congrArg Option.isSome (gives member)).symm.trans (decided member listed)

/-- An object that is spread lays the map of its own members over the members before it, as the
members after it do one by one. -/
theorem meaning_nested (home : Path) (outer : Span) {inner span : Span}
    (before after : List Member) {members : List Member} {value : Expr}
    (written : value.unwrap = .object inner members) :
    let scope := setting.project.scope home
    let added := setting.addition scope
    let object : Box :=
      .map (spreadAll (scope.refer inner) [] (members.map added)) (some (scope.refer inner))
    setting.meaning scope (.object outer (before ++ .spread span value :: after)) =
      .map (spreadAll (scope.refer outer) (spreadAll (scope.refer outer) [] (before.map added))
        ((setting.sourceOfSpread scope span, object) :: after.map added))
        (some (scope.refer outer)) := by
  intro scope added object
  have laid : added (.spread span value) = (setting.sourceOfSpread scope span, object) := by
    change (_, setting.meaning scope value) = _
    rw [meaning_unwrap ⟨home, rfl⟩, written, meaning_members calm evaluates]
  rw [meaning_members calm evaluates, List.map_append, List.map_cons, spreadAll_append,
    show setting.addition scope _ = _ from laid]

end Setting

/-- An object expression that is spread where it is written and the members in its place come to
maps with the same keys in the same order, from every state between evaluations; the maps have equal
values under every key where it makes no difference where the members stand, and they are equal when
that holds of all keys that are given before. -/
theorem evaluate_inlined (setting : Setting) (run : Run) (path : Path) (outer flat inner place : Span)
    (before members after : List Member) (value : Expr) (reachable : setting.Reachable run)
    (calm : setting.policy.isStackSensitive = false)
    (evaluates : setting.policy.flags.skipEvaluate = false)
    (written : value.unwrap = .object inner members) :
    let box := fun span list => ((setting.evaluate path (.object span list)).run run).1
    let nested := box outer (before ++ .spread place value :: after)
    let inlined := box flat (before ++ members ++ after)
    let settled := setting.Indifferent path run (box outer before) members after
    ∃ first second node twin, nested = .map first node ∧ inlined = .map second twin ∧
      Entries.keys first = Entries.keys second ∧
      (∀ key, settled key → (nested.property key == inlined.property key) = true) ∧
      ((∀ key ∈ Entries.keys ((box outer before).entries?.getD []), settled key) →
        (nested == inlined) = true) := by
  intro box nested inlined settled
  have quiet := reachable.quiet
  obtain ⟨home, here, means⟩ := quiet.evaluate_means calm path
  let scope := setting.project.scope home
  let added := setting.addition scope
  let given := spreadAll (scope.refer outer) [] (before.map added)
  let givenTwin := spreadAll (scope.refer flat) [] (before.map added)
  have shown : Alike .blind (setting.meaning scope _) nested := means _
  rw [Setting.meaning_nested calm evaluates home outer before after written] at shown
  have shownTwin : Alike .blind (setting.meaning scope _) inlined := means _
  rw [Setting.meaning_members calm evaluates, List.append_assoc, List.map_append, List.map_append,
    spreadAll_append] at shownTwin
  obtain ⟨first, node, nestedMap, keys, entries⟩ := shown.exists_map
  obtain ⟨second, twin, inlinedMap, keysTwin, entriesTwin⟩ := shownTwin.exists_map
  -- The order of the keys needs no condition: a spread adds the new keys of its members.
  have sameKeys : Entries.keys first = Entries.keys second := by
    rw [keys, keysTwin]
    exact keys_spreadAll_inline _ _ _ _ _ (keys_spreadAll_nil ..)
  -- Under a settled key it makes no difference whether the members are merged before.
  have values : ∀ key, settled key → (nested.property key == inlined.property key) = true := by
    intro key indifferent
    have decided := quiet.settled_of_indifferent calm evaluates path indifferent
    rw [here] at decided
    have same : (valueAt given key == valueAt givenTwin key) = true :=
      valueAt_spreadAll_congr _ _ _ BEq.rfl
    rw [nestedMap, inlinedMap]
    calc (valueAt first key == valueAt second key)
      _ = (valueAt _ key == valueAt second key) :=
        (BEq.congr_left (entries.getD_missing key).beq).symm
      _ = (valueAt _ key == valueAt _ key) :=
        (BEq.congr_right (entriesTwin.getD_missing key).beq).symm
      _ = true := valueAt_spreadAll_inline _ _ _ _ _ same decided
  refine ⟨first, second, node, twin, nestedMap, inlinedMap, sameKeys, values, fun all => ?_⟩
  have apart : (Entries.keys first).Nodup := keys ▸ nodup_spreadAll (nodup_spreadAll_nil ..) ..
  -- A key that was not given before is settled by itself.
  have everywhere : ∀ key, settled key := by
    intro key
    by_cases held : key ∈ Entries.keys ((box outer before).entries?.getD [])
    · exact all key held
    · exact Setting.indifferent_of_new held
  rw [nestedMap, inlinedMap] at values ⊢
  exact map_beq_of_valueAt apart sameKeys fun key _ => values key (everywhere key)

/-- A conditional spread that gives a property in both cases may as well be written in place. -/
theorem evaluate_inlined_decided :
    let file := Document.make ⟨"/a.ts"⟩ "" ⟨[]⟩
    let setting : Setting := { project := Project.insert {} file }
    let text (start : Nat) (name value : String) : Member :=
      .keyed ⟨start, start + 6⟩ (.name name) (.literal ⟨start + 3, start + 6⟩ (.string value))
    let before : List Member := [text 18 "a" "x"]
    let members : List Member := [.spread ⟨31, 71⟩ (.wrapped ⟨34, 71⟩ .parentheses (.conditional
      ⟨35, 70⟩ (.ident ⟨35, 36⟩ ⟨"c", 1⟩) (.object ⟨39, 57⟩ [text 41 "a" "y", text 49 "b" "u"])
      (.object ⟨60, 70⟩ [text 62 "a" "z"])))]
    let value : Expr := .object ⟨29, 73⟩ members
    let box (members : List Member) :=
      ((setting.evaluate file.path (.object ⟨16, 75⟩ members)).run {}).1
    setting.Reachable {} ∧ setting.policy.isStackSensitive = false ∧
      (∀ key ∈ Entries.keys ((box before).entries?.getD []),
        setting.Indifferent file.path {} (box before) members [] key) ∧
      (box (before ++ [.spread ⟨26, 73⟩ value]) == box (before ++ members)) = true := by
  intro file setting text before members value box
  have settled : ∀ key ∈ Entries.keys ((box before).entries?.getD []),
      setting.Indifferent file.path {} (box before) members [] key := by
    have keys : Entries.keys ((box before).entries?.getD []) = ["a"] := by decide +kernel
    rw [keys, List.forall_mem_singleton]
    exact .inr (.inr (by decide +kernel))
  obtain ⟨_, _, _, _, _, _, _, _, inlined⟩ := evaluate_inlined setting {} file.path ⟨16, 75⟩
    ⟨16, 75⟩ ⟨29, 73⟩ ⟨26, 73⟩ before members [] value .start rfl rfl rfl
  have equal := inlined settled
  rw [List.append_nil] at equal
  exact ⟨.start, rfl, settled, equal⟩

/-- A conditional spread that gives a property in one case only hides the property before it in the
other case, unless it is written in place. -/
theorem not_evaluate_inlined_undecided :
    let file := Document.make ⟨"/a.ts"⟩ "" ⟨[]⟩
    let setting : Setting := { project := Project.insert {} file }
    let text (start : Nat) (name value : String) : Member :=
      .keyed ⟨start, start + 6⟩ (.name name) (.literal ⟨start + 3, start + 6⟩ (.string value))
    let before : List Member := [text 18 "a" "x"]
    let members : List Member := [.spread ⟨31, 63⟩ (.wrapped ⟨34, 63⟩ .parentheses (.conditional
      ⟨35, 62⟩ (.ident ⟨35, 36⟩ ⟨"c", 1⟩) (.object ⟨39, 49⟩ [text 41 "a" "y"])
      (.object ⟨52, 62⟩ [text 54 "b" "z"])))]
    let value : Expr := .object ⟨29, 65⟩ members
    let box (members : List Member) :=
      ((setting.evaluate file.path (.object ⟨16, 67⟩ members)).run {}).1
    setting.Reachable {} ∧ setting.policy.isStackSensitive = false ∧
      (box (before ++ [.spread ⟨26, 65⟩ value]) == box (before ++ members)) = false := by
  intro file setting text before members value box
  exact ⟨.start, rfl, by decide +kernel⟩

end Glean
