import Glean.Proofs.Box.Merging

/-!
# Values spread one after the other

Several values that are spread one after the other (`spreadAll`) may be spread on their own first,
and the object of that put in their place. The keys are the same either way, in the same order
(`keys_spreadAll`). Under a key stands the same when the entries before give nothing there, when a
value gives it in all of its alternatives, or when no value leaves open whether it gives it
(`valueAt_spreadAll_inline`).
-/

namespace Glean.Box

variable {fallback key : String} {node other : Reference} {entries others : Entries String Box}
  {box : Box} {parts : List (String × Box)}

/-- Spreads values into entries one after the other, each with the key under which it goes when
nothing is known about it. -/
def spreadAll (node : Reference) (entries : Entries String Box) (parts : List (String × Box)) :
    Entries String Box :=
  parts.foldl (fun entries part => part.2.spread part.1 node entries) entries

/-- Two runs of spreads are spread one after the other. -/
theorem spreadAll_append (node : Reference) (entries : Entries String Box)
    (first second : List (String × Box)) :
    spreadAll node entries (first ++ second) =
      spreadAll node (spreadAll node entries first) second := List.foldl_append

/-- Spreading leaves keys that are apart apart. -/
theorem nodup_spreadAll (apart : (Entries.keys entries).Nodup) (node : Reference)
    (parts : List (String × Box)) : (Entries.keys (spreadAll node entries parts)).Nodup := by
  induction parts generalizing entries with
  | nil => exact apart
  | cons part rest ih => exact ih (nodup_spread apart)

/-- What is spread into an empty object has its keys apart. -/
theorem nodup_spreadAll_nil (node : Reference) (parts : List (String × Box)) :
    (Entries.keys (spreadAll node [] parts)).Nodup :=
  nodup_spreadAll (show (Entries.keys ([] : Entries String Box)).Nodup from List.nodup_nil) node parts

/-! ### Keys -/

/-- Keys, and behind them those others that are not among them. -/
def joinKeys (keys others : List String) : List String :=
  keys ++ others.filter fun key => decide (key ∉ keys)

/-- Joining keys to none gives the keys. -/
theorem nil_joinKeys (keys : List String) : joinKeys [] keys = keys := by simp [joinKeys]

/-- Joined keys are the keys of both lists. -/
theorem mem_joinKeys {keys others : List String} :
    key ∈ joinKeys keys others ↔ key ∈ keys ∨ key ∈ others := by
  by_cases listed : key ∈ keys <;> simp [joinKeys, listed]

/-- Joining keys is associative. -/
theorem joinKeys_assoc (first second third : List String) :
    joinKeys (joinKeys first second) third = joinKeys first (joinKeys second third) := by
  simp only [joinKeys, List.filter_append, List.append_assoc, List.filter_filter]
  congr 3
  funext key
  by_cases listed : key ∈ first <;> simp [listed]

/-- The keys of a spread value come behind those before it, whatever the node. -/
theorem keys_spread_join (fallback : String) (node other : Reference) (entries : Entries String Box)
    (box : Box) :
    Entries.keys (box.spread fallback node entries) =
      joinKeys (Entries.keys entries) (Entries.keys (box.spread fallback other [])) := by
  rw [keys_spread, (spread_at fallback node other [] box).keys, joinKeys]
  congr 1
  refine List.filter_congr fun key _ => ?_
  rw [Bool.eq_iff_iff, Bool.not_eq_true', ← Bool.not_eq_true, Entries.contains_iff, decide_eq_true_eq]

/-- The keys of several spread values come behind those before them. -/
theorem keys_spreadAll (node other : Reference) (entries : Entries String Box)
    (parts : List (String × Box)) :
    Entries.keys (spreadAll node entries parts) =
      joinKeys (Entries.keys entries) (Entries.keys (spreadAll other [] parts)) := by
  induction parts generalizing entries node with
  | nil => simp [spreadAll, joinKeys, Entries.keys]
  | cons part rest ih =>
    calc Entries.keys (spreadAll node (part.2.spread part.1 node entries) rest)
      _ = joinKeys (Entries.keys (part.2.spread part.1 node entries))
            (Entries.keys (spreadAll other [] rest)) := ih node _
      _ = joinKeys (Entries.keys entries) (joinKeys (Entries.keys (part.2.spread part.1 other []))
            (Entries.keys (spreadAll other [] rest))) := by
          rw [keys_spread_join part.1 node other, joinKeys_assoc]
      _ = joinKeys (Entries.keys entries)
            (Entries.keys (spreadAll other (part.2.spread part.1 other []) rest)) := by
          rw [ih other (part.2.spread part.1 other [])]

/-- The keys of what is spread do not depend on the node. -/
theorem keys_spreadAll_nil (node other : Reference) (parts : List (String × Box)) :
    Entries.keys (spreadAll node [] parts) = Entries.keys (spreadAll other [] parts) :=
  (keys_spreadAll node other [] parts).trans (nil_joinKeys _)

/-- A spread value gives no key that none of its alternatives contributes to. -/
theorem contributes?_eq_some_false_iff (node : Reference) :
    box.contributes? fallback key = some false ↔
      key ∉ Entries.keys (box.spread fallback node []) := by
  induction box using alternatives_induction with
  | single box single =>
    rw [contributes?_of_value single, spread_of_value single, ← Bool.not_eq_true,
      ← Entries.contains_iff]
    exact not_congr (iff_of_eq (congrArg (· = true) (Entries.contains_ofList _ key).symm))
  | conditional whenTrue whenFalse condition _ first second =>
    rw [contributes?_conditional, first, second, spread, ← not_or, ← Entries.contains_iff,
      ← Entries.contains_iff, ← Entries.contains_iff, contains_of_keys (keys_merge ..),
      Bool.or_eq_true]

/-- Several spread values give no key that none of them gives. -/
theorem not_mem_keys_spreadAll (node : Reference) :
    key ∉ Entries.keys (spreadAll node [] parts) ↔
      ∀ part ∈ parts, part.2.contributes? part.1 key = some false := by
  induction parts with
  | nil => simp [spreadAll, Entries.keys]
  | cons part rest ih =>
    have split := keys_spreadAll node node (part.2.spread part.1 node []) rest
    rw [List.forall_mem_cons, ← ih, contributes?_eq_some_false_iff node, ← not_or, ← mem_joinKeys,
      ← split]
    rfl

/-! ### Values -/

/-- Under every key stands the last value that was put in for it, or else the value before. -/
theorem valueAt_insertAll (entries pairs : Entries String Box) (key : String) :
    valueAt (Entries.insertAll entries pairs) key =
      (Entries.get? (Entries.ofList pairs) key).getD (valueAt entries key) := by
  rw [valueAt, Entries.get?_insertAll]
  cases Entries.get? (Entries.ofList pairs) key <;> rfl

/-- A choice between branches that are equal in turn is equal. -/
theorem either_congr {condition twin : Option Reference} {whenTrue whenFalse yes no : Box}
    (first : (whenTrue == yes) = true) (second : (whenFalse == no) = true) :
    (either condition node whenTrue whenFalse == either twin other yes no) = true := by
  have agree : (whenTrue == whenFalse) = (yes == no) :=
    (BEq.congr_left first).trans (BEq.congr_right second)
  unfold either
  rw [agree]
  split
  · exact first
  · exact same_conditional_iff.2 ⟨_, _, _, _, rfl, first, second⟩

/-- What a spread value leaves under a key depends on what was there before alone. -/
theorem valueAt_spread_congr (fallback : String) (node other : Reference) (box : Box)
    (same : (valueAt entries key == valueAt others key) = true) :
    (valueAt (box.spread fallback node entries) key ==
      valueAt (box.spread fallback other others) key) = true := by
  induction box using alternatives_induction with
  | single box single =>
    rw [spread_of_value single, spread_of_value single, valueAt_insertAll, valueAt_insertAll]
    cases Entries.get? (Entries.ofList (box.contribution fallback)) key with
    | none => exact same
    | some => exact BEq.rfl
  | conditional whenTrue whenFalse condition _ first second =>
    rw [spread, spread, valueAt_merge, valueAt_merge]
    exact either_congr first second

/-- Under a key that all of its alternatives give, a spread value leaves nothing of what was there.
-/
theorem valueAt_spread_of_always (node other : Reference) (entries others : Entries String Box)
    (always : box.contributes? fallback key = some true) :
    (valueAt (box.spread fallback node entries) key ==
      valueAt (box.spread fallback other others) key) = true := by
  have alone : ∀ node entries, valueAt (box.spread fallback node entries) key =
      valueAt (box.spread fallback node []) key := fun node entries =>
    congrArg (Option.getD · missing) (get?_spread_of_always node entries always).1
  rw [alone node, alone other]
  exact valueAt_spread_congr fallback node other box BEq.rfl

/-- A spread that never has a key leaves its value as it was. -/
theorem valueAt_spread_of_never (node : Reference) (entries : Entries String Box)
    (never : box.contributes? fallback key = some false) :
    valueAt (box.spread fallback node entries) key = valueAt entries key :=
  congrArg (Option.getD · missing) (get?_spread_of_never node entries never).1

section Several

variable (node other : Reference)

/-- Spreads keep values equal that are equal before. -/
theorem valueAt_spreadAll_congr (parts : List (String × Box))
    (same : (valueAt entries key == valueAt others key) = true) :
    (valueAt (spreadAll node entries parts) key ==
      valueAt (spreadAll other others parts) key) = true := by
  induction parts generalizing entries others with
  | nil => exact same
  | cons part rest ih => exact ih (valueAt_spread_congr part.1 node other part.2 same)

/-- Under a key that one of the spreads always has, nothing is left of what was there before. -/
theorem valueAt_spreadAll_of_always (entries others : Entries String Box)
    (always : ∃ part ∈ parts, part.2.contributes? part.1 key = some true) :
    (valueAt (spreadAll node entries parts) key ==
      valueAt (spreadAll other others parts) key) = true := by
  induction parts generalizing entries others with
  | nil => simp at always
  | cons part rest ih =>
    rcases (List.exists_mem_cons_iff _ _ _).1 always with gives | later
    · exact valueAt_spreadAll_congr node other rest
        (valueAt_spread_of_always node other entries others gives)
    · exact ih _ _ later

/-- Spreads that never have a key leave its value as it was. -/
theorem valueAt_spreadAll_of_never
    (never : ∀ part ∈ parts, part.2.contributes? part.1 key = some false) :
    valueAt (spreadAll node entries parts) key = valueAt entries key := by
  induction parts generalizing entries with
  | nil => rfl
  | cons part rest ih =>
    obtain ⟨first, later⟩ := List.forall_mem_cons.1 never
    exact (ih later).trans (valueAt_spread_of_never node entries first)

end Several

/-- An object that is spread puts its own entries over those before. -/
theorem valueAt_insertAll_of_nodup {added : Entries String Box} (apart : (Entries.keys added).Nodup)
    (entries : Entries String Box) (key : String) :
    valueAt (Entries.insertAll entries added) key =
      if key ∈ Entries.keys added then valueAt added key else valueAt entries key := by
  rw [valueAt_insertAll, Entries.ofList_of_nodup apart]
  by_cases listed : key ∈ Entries.keys added
  · obtain ⟨value, found⟩ := Option.isSome_iff_exists.1 (Entries.contains_iff.2 listed)
    rw [if_pos listed, found]
    exact (congrArg (Option.getD · missing) found).symm
  · have absent : Entries.get? added key = none :=
      Option.not_isSome_iff_eq_none.1 fun held => listed (Entries.contains_iff.1 held)
    rw [if_neg listed, absent]
    rfl

/-- Under a key a value of an object that is spread on its own first stands as if it were spread
directly, when the entries before give nothing there, when one of the values gives the key in all of
its alternatives, or when each of those that are moved does or gives it in none. -/
theorem valueAt_spreadAll_inline (node inner other : Reference) (origin : Option Reference)
    (fallback : String) {moved after : List (String × Box)}
    (same : (valueAt entries key == valueAt others key) = true)
    (settled : (valueAt entries key == missing) = true ∨
      (∃ part ∈ moved ++ after, part.2.contributes? part.1 key = some true) ∨
      ∀ part ∈ moved, (part.2.contributes? part.1 key).isSome) :
    (valueAt (spreadAll node entries ((fallback, .map (spreadAll inner [] moved) origin) :: after))
        key ==
      valueAt (spreadAll other others (moved ++ after)) key) = true := by
  rw [spreadAll_append]
  change (valueAt (spreadAll node (Entries.insertAll entries (spreadAll inner [] moved)) after) key ==
    valueAt (spreadAll other (spreadAll other others moved) after) key) = true
  have apart := nodup_spreadAll_nil inner moved
  -- Where a moved value is sure to give the key, that is all that matters before the rest.
  have sure : (∃ part ∈ moved, part.2.contributes? part.1 key = some true) →
      (valueAt (spreadAll inner [] moved) key ==
        valueAt (spreadAll other others moved) key) = true :=
    valueAt_spreadAll_of_always inner other [] others
  by_cases late : ∃ part ∈ after, part.2.contributes? part.1 key = some true
  · exact valueAt_spreadAll_of_always node other _ _ late
  · refine valueAt_spreadAll_congr node other after ?_
    rw [valueAt_insertAll_of_nodup apart]
    split
    · rename_i listed
      rcases settled with nothing | ⟨part, found, gives⟩ | decided
      · have empty : (valueAt [] key == valueAt others key) = true :=
          BEq.trans (BEq.symm nothing) same
        exact valueAt_spreadAll_congr inner other moved empty
      · rcases List.mem_append.1 found with found | found
        · exact sure ⟨part, found, gives⟩
        · exact absurd ⟨part, found, gives⟩ late
      · obtain ⟨part, found, open'⟩ : ∃ part ∈ moved,
            part.2.contributes? part.1 key ≠ some false := by
          by_contra! never
          exact (not_mem_keys_spreadAll inner).2 never listed
        obtain ⟨answer, given⟩ := Option.isSome_iff_exists.1 (decided part found)
        cases answer with
        | true => exact sure ⟨part, found, given⟩
        | false => exact absurd given open'
    · rename_i unlisted
      rw [valueAt_spreadAll_of_never other ((not_mem_keys_spreadAll inner).1 unlisted)]
      exact same

/-- The keys are the same when values are spread on their own first. -/
theorem keys_spreadAll_inline (node inner other : Reference) (origin : Option Reference)
    (fallback : String) {moved after : List (String × Box)}
    (same : Entries.keys entries = Entries.keys others) :
    Entries.keys
        (spreadAll node entries ((fallback, .map (spreadAll inner [] moved) origin) :: after)) =
      Entries.keys (spreadAll other others (moved ++ after)) := by
  have alone : Entries.insertAll [] (spreadAll inner [] moved) = spreadAll inner [] moved :=
    Entries.ofList_of_nodup (nodup_spreadAll_nil inner moved)
  have put : Entries.keys (Entries.insertAll entries (spreadAll inner [] moved)) =
      joinKeys (Entries.keys entries) (Entries.keys (spreadAll inner [] moved)) := by
    have spreading := keys_spread_join fallback node node entries (.map (spreadAll inner [] moved)
      origin)
    rwa [spread, spread, alone] at spreading
  rw [spreadAll_append, keys_spreadAll other node, keys_spreadAll other inner, ← same, ← put]
  exact keys_spreadAll node node _ after

/-- The value at the first key is the first value. -/
theorem valueAt_cons_self (key : String) (value : Box) (rest : Entries String Box) :
    valueAt ((key, value) :: rest) key = value := by simp [valueAt, Entries.get?]

/-- The value at any other key is among the rest. -/
theorem valueAt_cons_of_ne {first : String} (apart : first ≠ key) (value : Box)
    (rest : Entries String Box) : valueAt ((first, value) :: rest) key = valueAt rest key := by
  simp [valueAt, Entries.get?, apart]

/-- Maps are equal when they have the same keys, in the same order, and equal values under them. -/
theorem map_beq_of_valueAt {origin twin : Option Reference} (apart : (Entries.keys entries).Nodup)
    (keys : Entries.keys entries = Entries.keys others)
    (values : ∀ key ∈ Entries.keys entries, (valueAt entries key == valueAt others key) = true) :
    (map entries origin == map others twin) = true := by
  refine same_map_iff.2 ⟨others, twin, rfl, ?_⟩
  induction entries generalizing others with
  | nil =>
    obtain rfl : others = [] := List.map_eq_nil_iff.1 keys.symm
    exact .nil
  | cons entry rest ih =>
    obtain ⟨key, value⟩ := entry
    cases others with
    | nil => cases keys
    | cons second later =>
      obtain ⟨twinKey, twinValue⟩ := second
      obtain ⟨rfl, _⟩ := List.cons.inj keys
      have tails : Entries.keys rest = Entries.keys later := (List.cons.inj keys).2
      obtain ⟨fresh, apart⟩ := List.nodup_cons.1 apart
      have first := values key (List.mem_cons_self ..)
      rw [valueAt_cons_self, valueAt_cons_self] at first
      refine .cons ⟨rfl, first⟩ (ih apart tails fun other listed => ?_)
      have different : key ≠ other := fun same => fresh (same ▸ listed)
      have next := values other (List.mem_cons_of_mem _ listed)
      rwa [valueAt_cons_of_ne different, valueAt_cons_of_ne different] at next

end Glean.Box
