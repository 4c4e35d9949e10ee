import Glean.Box.Spread
import Glean.Proofs.Box.Equality
import Glean.Proofs.Entries

/-!
# Spreading on its own

A value can be spread into the entries before it, or on its own, and then its entries be put there.
The keys are the same either way (`keys_spread`). Under a key the same is found unless only some of
the alternatives of the value contribute to it (`Box.contributes?`): spread into entries, such a
value leaves what was there in place of what the other alternatives lack, and on its own they lack
it.
-/

namespace Glean.Box

/-- The pairs that a value which is not conditional puts into an object. -/
def contribution (fallback : String) : Box → Entries String Box
  | map entries _ => entries
  | list items _ => positional items
  | literal (.string value) origin => positional (characters value origin)
  | literal .. | conditional .. => []
  | unresolvable reason origin => [(fallback, unresolvable reason origin)]

/-- Whether a spread value contributes to a key, when all of its alternatives agree on that. -/
def contributes? (fallback key : String) : Box → Option Bool :=
  agreed fun value => some (Entries.contains (value.contribution fallback) key)

/-- Induction on the alternatives of a box. -/
theorem alternatives_induction {motive : Box → Prop}
    (single : ∀ box, box.branches? = none → motive box)
    (conditional : ∀ whenTrue whenFalse condition node, motive whenTrue → motive whenFalse →
      motive (.conditional whenTrue whenFalse condition node)) (box : Box) : motive box := by
  induction box with
  | conditional whenTrue whenFalse condition node first second =>
    exact conditional whenTrue whenFalse condition node first second
  | _ => exact single _ rfl

variable {fallback key : String} {node : Reference} {entries : Entries String Box} {box : Box}

/-- A value that is not conditional puts its pairs. -/
theorem spread_of_value (single : box.branches? = none) :
    box.spread fallback node entries = Entries.insertAll entries (box.contribution fallback) := by
  cases box with
  | conditional => cases single
  | literal value => cases value <;> simp [spread, contribution, Entries.insertAll]
  | _ => simp [spread, contribution, Entries.insertAll]

/-- A value without branches contributes exactly the keys that it has. -/
theorem contributes?_of_value (single : box.branches? = none) {answer : Bool} :
    box.contributes? fallback key = some answer ↔
      Entries.contains (box.contribution fallback) key = answer := by
  simp [contributes?, agreed_eq_some, possible_of_value single]

/-! ### Keys -/

/-- Merged branches have the keys of the first, followed by those that only the second has. -/
theorem keys_merge (condition : Option Reference) (node : Reference)
    (whenTrue whenFalse : Entries String Box) :
    Entries.keys (merge condition node whenTrue whenFalse) =
      Entries.keys whenTrue ++
        (Entries.keys whenFalse).filter fun key => !Entries.contains whenTrue key := by
  simp [merge, Entries.keys, Function.comp_def]

/-- Merging leaves keys that are apart apart. -/
theorem nodup_merge {condition : Option Reference} {whenTrue whenFalse : Entries String Box}
    (first : (Entries.keys whenTrue).Nodup) (second : (Entries.keys whenFalse).Nodup) :
    (Entries.keys (merge condition node whenTrue whenFalse)).Nodup := by
  rw [keys_merge]
  refine List.nodup_append.2 ⟨first, second.filter _, ?_⟩
  rintro one listed other kept rfl
  have held := Entries.contains_iff.2 listed
  simp [held] at kept

/-- A spread leaves keys that are apart apart. -/
theorem nodup_spread (apart : (Entries.keys entries).Nodup) :
    (Entries.keys (box.spread fallback node entries)).Nodup := by
  induction box using alternatives_induction with
  | single box single =>
    rw [spread_of_value single]
    exact Entries.nodup_insertAll apart _
  | conditional whenTrue whenFalse condition _ first second =>
    rw [spread]
    exact nodup_merge first second

/-- A key is held after others were put behind the keys before them, when it is one of either. -/
theorem contains_of_keys {before added all : Entries String Box}
    (keys : Entries.keys all = Entries.keys before ++
      (Entries.keys added).filter fun key => !Entries.contains before key) (key : String) :
    Entries.contains all key = (Entries.contains before key || Entries.contains added key) := by
  rw [Bool.eq_iff_iff, Entries.contains_iff, keys]
  by_cases held : Entries.contains before key <;>
    simp [held, ← Entries.contains_iff]

/-- The keys that a value contributes come after those that were there before. -/
theorem keys_spread (fallback : String) (node : Reference) (entries : Entries String Box)
    (box : Box) :
    Entries.keys (box.spread fallback node entries) =
      Entries.keys entries ++
        (Entries.keys (box.spread fallback node [])).filter fun key =>
          !Entries.contains entries key := by
  induction box using alternatives_induction with
  | single box single =>
    rw [spread_of_value single, spread_of_value single]
    exact Entries.keys_insertAll entries _
  | conditional whenTrue whenFalse condition _ first second =>
    have known : (Entries.keys entries).filter (fun key => !(Entries.contains entries key ||
        Entries.contains (whenTrue.spread fallback node []) key)) = [] := by
      refine List.filter_eq_nil_iff.2 fun key listed => ?_
      simp [Entries.contains_iff.2 listed]
    rw [spread, spread, keys_merge, keys_merge]
    simp only [contains_of_keys first, second, List.filter_append, known, List.nil_append,
      List.filter_filter]
    rw [first, List.append_assoc]
    congr 3
    funext key
    simp [Bool.and_comm]

/-! ### Values -/

/-- In a map made from a list of keys, each listed key has its value. -/
theorem get?_map_keys (keys : List String) (value : String → Box) (key : String) :
    Entries.get? (keys.map fun key => (key, value key)) key =
      if key ∈ keys then some (value key) else none := by
  induction keys with
  | nil => rfl
  | cons first rest ih =>
    by_cases same : first = key
    · simp [Entries.get?, same]
    · simp [Entries.get?, same, Ne.symm same, ih]

/-- Under a key of either outcome stands what both have there. -/
theorem get?_merge (condition : Option Reference) (node : Reference)
    (whenTrue whenFalse : Entries String Box) (key : String) :
    Entries.get? (merge condition node whenTrue whenFalse) key =
      if Entries.contains whenTrue key || Entries.contains whenFalse key then
        some (either condition node ((Entries.get? whenTrue key).getD missing)
          ((Entries.get? whenFalse key).getD missing))
      else none := by
  have listed : key ∈ Entries.keys whenTrue ++
        ((Entries.keys whenFalse).filter fun key => !Entries.contains whenTrue key) ↔
      (Entries.contains whenTrue key || Entries.contains whenFalse key) = true := by
    by_cases held : Entries.contains whenTrue key <;> simp [held, ← Entries.contains_iff]
  rw [merge, get?_map_keys]
  simp only [listed]

/-- A choice between a box and itself is the box. -/
theorem either_self (condition : Option Reference) (node : Reference) (box : Box) :
    either condition node box box = box := by
  simp [either]

/-- Under a new key stands what the value contributes on its own. -/
theorem get?_spread_of_new (fallback : String) (node : Reference) (box : Box)
    (new : Entries.contains entries key = false) :
    Entries.get? (box.spread fallback node entries) key =
      Entries.get? (box.spread fallback node []) key := by
  induction box using alternatives_induction with
  | single box single =>
    have absent : Entries.get? entries key = none := Option.not_isSome_iff_eq_none.1 (by
      simpa [Entries.contains] using new)
    rw [spread_of_value single, spread_of_value single, Entries.get?_insertAll, absent,
      Option.or_none]
    rfl
  | conditional whenTrue whenFalse condition _ first second =>
    have heldFirst : Entries.contains (whenTrue.spread fallback node entries) key =
        Entries.contains (whenTrue.spread fallback node []) key := congrArg Option.isSome first
    have heldSecond : Entries.contains (whenFalse.spread fallback node entries) key =
        Entries.contains (whenFalse.spread fallback node []) key := congrArg Option.isSome second
    rw [spread, spread, get?_merge, get?_merge, first, second, heldFirst, heldSecond]

/-- The alternatives of a conditional value agree when those of both branches do. -/
theorem contributes?_conditional {whenTrue whenFalse : Box} {condition origin : Option Reference}
    {answer : Bool} :
    (conditional whenTrue whenFalse condition origin).contributes? fallback key = some answer ↔
      whenTrue.contributes? fallback key = some answer ∧
        whenFalse.contributes? fallback key = some answer := by
  simp only [contributes?, agreed_eq_some, possible, List.forall_mem_append]

/-- When every alternative contributes to a key, nothing is left of what was there before. -/
theorem get?_spread_of_always (node : Reference) (entries : Entries String Box)
    (always : box.contributes? fallback key = some true) :
    Entries.get? (box.spread fallback node entries) key =
        Entries.get? (box.spread fallback node []) key ∧
      (Entries.get? (box.spread fallback node []) key).isSome := by
  induction box using alternatives_induction with
  | single box single =>
    have held : (Entries.get? (Entries.ofList (box.contribution fallback)) key).isSome :=
      (Entries.contains_ofList _ key).trans ((contributes?_of_value single).1 always)
    rw [spread_of_value single, spread_of_value single, Entries.get?_insertAll,
      Option.or_of_isSome held]
    exact ⟨rfl, held⟩
  | conditional whenTrue whenFalse condition _ first second =>
    obtain ⟨yes, no⟩ := contributes?_conditional.1 always
    obtain ⟨first, held⟩ := first yes
    obtain ⟨second, _⟩ := second no
    rw [spread, spread, get?_merge, get?_merge]
    simp only [Entries.contains, first, second, held, Bool.true_or, if_true, Option.isSome_some,
      and_self]

/-- When no alternative contributes to a key, what was there before stays. -/
theorem get?_spread_of_never (node : Reference) (entries : Entries String Box)
    (never : box.contributes? fallback key = some false) :
    Entries.get? (box.spread fallback node entries) key = Entries.get? entries key ∧
      Entries.get? (box.spread fallback node []) key = none := by
  induction box using alternatives_induction with
  | single box single =>
    have absent : Entries.get? (Entries.ofList (box.contribution fallback)) key = none :=
      Option.not_isSome_iff_eq_none.1 (Bool.not_eq_true _ ▸
        (Entries.contains_ofList _ key).trans ((contributes?_of_value single).1 never))
    rw [spread_of_value single, spread_of_value single, Entries.get?_insertAll, absent,
      Option.none_or]
    exact ⟨rfl, absent⟩
  | conditional whenTrue whenFalse condition _ first second =>
    obtain ⟨yes, no⟩ := contributes?_conditional.1 never
    obtain ⟨first, absent⟩ := first yes
    obtain ⟨second, absentNext⟩ := second no
    rw [spread, spread, get?_merge, get?_merge]
    simp only [Entries.contains, first, second, absent, absentNext, either_self]
    cases Entries.get? entries key <;> simp

/-- Under a key that is new, or about which the alternatives agree, the same is found when a value
is spread on its own first. -/
theorem get?_spread (node : Reference)
    (decided : Entries.contains entries key = true → (box.contributes? fallback key).isSome) :
    Entries.get? (box.spread fallback node entries) key =
      Entries.get? (Entries.insertAll entries (box.spread fallback node [])) key := by
  have apart : (Entries.keys (box.spread fallback node [])).Nodup := nodup_spread List.nodup_nil
  rw [Entries.get?_insertAll, Entries.ofList_of_nodup apart]
  cases held : Entries.contains entries key with
  | false =>
    have absent : Entries.get? entries key = none := by
      simpa [Entries.contains] using held
    rw [get?_spread_of_new fallback node box held, absent, Option.or_none]
  | true =>
    obtain ⟨answer, agreed⟩ := Option.isSome_iff_exists.1 (decided held)
    cases answer with
    | true =>
      obtain ⟨same, found⟩ := get?_spread_of_always node entries agreed
      rw [same, Option.or_of_isSome found]
    | false =>
      obtain ⟨same, absent⟩ := get?_spread_of_never node entries agreed
      rw [same, absent, Option.none_or]

/-- Of the entries whose keys pass, a value that is spread into entries leaves the same as one that
is spread on its own first, when its alternatives agree about every such key that was there before.
-/
theorem keep_spread (passes : String → Bool) (node : Reference)
    (apart : (Entries.keys entries).Nodup)
    (decided : ∀ key, passes key = true → Entries.contains entries key = true →
      (box.contributes? fallback key).isSome) :
    Entries.keep passes (box.spread fallback node entries) =
      Entries.insertAll (Entries.keep passes entries)
        (Entries.keep passes (box.spread fallback node [])) := by
  have apartAlone : (Entries.keys (box.spread fallback node [])).Nodup :=
    nodup_spread List.nodup_nil
  have sameKeys : Entries.keys (box.spread fallback node entries) =
      Entries.keys (Entries.insertAll entries (box.spread fallback node [])) := by
    rw [keys_spread, Entries.keys_insertAll, Entries.ofList_of_nodup apartAlone]
  rw [← Entries.keep_insertAll]
  refine Entries.ext_of_nodup ?_ ?_ fun key => ?_
  · rw [Entries.keys_keep]
    exact (nodup_spread apart).filter _
  · rw [Entries.keys_keep, Entries.keys_keep, sameKeys]
  · rw [Entries.get?_keep, Entries.get?_keep]
    by_cases passed : passes key
    · rw [get?_spread node (decided key passed)]
    · simp [passed]

/-! ### Nodes -/

/-- A choice does not depend on its node, but for nodes. -/
theorem either_at (condition : Option Reference) (node other : Reference) (left right : Box) :
    Alike .blind (either condition node left right) (either condition other left right) := by
  unfold either
  split
  · rfl
  · exact alike_conditional rfl rfl rfl

/-- Merging does not depend on its node, but for nodes. -/
theorem merge_at (condition : Option Reference) (node other : Reference)
    (whenTrue whenFalse : Entries String Box) :
    AlikeEntries .blind (merge condition node whenTrue whenFalse)
      (merge condition other whenTrue whenFalse) := by
  simp only [AlikeEntries, merge, Entries.mapValues, List.map_map]
  exact List.map_congr_left fun key _ => Prod.ext rfl (either_at ..)

/-- The node of a spread shows in nodes only. -/
theorem spread_at (fallback : String) (node other : Reference) (entries : Entries String Box)
    (box : Box) :
    AlikeEntries .blind (box.spread fallback node entries) (box.spread fallback other entries) := by
  induction box using alternatives_induction with
  | single box single =>
    rw [spread_of_value single, spread_of_value single]
    rfl
  | conditional whenTrue whenFalse condition _ first second =>
    have same : View.blind.see condition = View.blind.see condition := rfl
    rw [spread, spread]
    exact (first.merge same second node).trans (merge_at condition node other _ _)

/-- The contribution of what is seen is the contribution, seen. -/
theorem contribution_seen {view : View} (fallback : String) (box : Box) :
    (box.seen view).contribution fallback =
      Entries.mapValues (seen view) (box.contribution fallback) := by
  cases box with
  | literal value origin =>
    cases value with
    | string value =>
      simp only [seen_literal, contribution, ← seen_characters, seen_positional]
    | _ => rfl
  | list items origin => simp only [seen_list, contribution, seen_positional]
  | map entries origin => simp [contribution]
  | conditional whenTrue whenFalse condition origin => simp [contribution, Entries.mapValues]
  | unresolvable reason origin => simp [contribution, Entries.mapValues]

/-- What a value contributes to does not depend on nodes. -/
theorem Alike.contributes? {view : View} {left right : Box} (alike : Alike view left right)
    (fallback key : String) : left.contributes? fallback key = right.contributes? fallback key := by
  have shown : ∀ box : Box, (box.seen view).contributes? fallback key =
      box.contributes? fallback key :=
    agreed_seen fun value => by rw [contribution_seen, Entries.contains_mapValues]
  rw [← shown left, ← shown right, show left.seen view = _ from alike]

end Glean.Box
