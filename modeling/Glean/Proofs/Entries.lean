import Glean.Entries

/-!
# Laws of entries

A change of all values keeps every key at its place, so it commutes with looking up, putting and
listing keys. These laws carry facts about single boxes over to the entries of objects. What putting
pairs leaves is known by its keys in order and by what is found under each of them (`ext_of_nodup`).
A renaming of keys commutes with all of it when it is injective.
-/

namespace Glean.Entries

variable {κ α β : Type} [BEq κ]

/-- The entries with every value changed. -/
def mapValues (change : α → β) (entries : Entries κ α) : Entries κ β :=
  entries.map fun (key, value) => (key, change value)

omit [BEq κ] in
/-- Changing every value leaves the keys as they are. -/
@[simp]
theorem keys_mapValues (change : α → β) (entries : Entries κ α) :
    keys (mapValues change entries) = keys entries := by
  simp [keys, mapValues, Function.comp_def]

/-- What is found under a key after every value was changed is the changed value. -/
@[simp]
theorem get?_mapValues (change : α → β) (entries : Entries κ α) (key : κ) :
    get? (mapValues change entries) key = (get? entries key).map change := by
  induction entries with
  | nil => rfl
  | cons entry rest ih =>
    simp only [mapValues] at ih
    simp only [mapValues, List.map_cons, get?, ih]
    split <;> rfl

/-- Changing every value adds no key and drops none. -/
@[simp]
theorem contains_mapValues (change : α → β) (entries : Entries κ α) (key : κ) :
    contains (mapValues change entries) key = contains entries key := by
  simp [contains]

/-- A change of all values commutes with an update that goes along with it. -/
theorem update_mapValues {convert : α → β} (change : Option α → α) (changeNext : Option β → β)
    (along : ∀ value, changeNext (value.map convert) = convert (change value))
    (entries : Entries κ α) (key : κ) :
    update (mapValues convert entries) key changeNext =
      mapValues convert (update entries key change) := by
  induction entries with
  | nil =>
    have first := along none
    simp only [Option.map_none] at first
    simp [mapValues, update, first]
  | cons entry rest ih =>
    have found := along (some entry.2)
    simp only [Option.map_some] at found
    simp only [mapValues] at ih
    simp only [mapValues, List.map_cons, update, found, ih]
    split <;> rfl

/-- A changed value is put in before or after all the others are changed. -/
theorem insert_mapValues (change : α → β) (entries : Entries κ α) (key : κ) (value : α) :
    insert (mapValues change entries) key (change value) =
      mapValues change (insert entries key value) :=
  update_mapValues (fun _ => value) (fun _ => change value) (fun _ => rfl) entries key

/-- Changed pairs are put in before or after all values are changed. -/
theorem insertAll_mapValues (change : α → β) (entries pairs : Entries κ α) :
    insertAll (mapValues change entries) (mapValues change pairs) =
      mapValues change (insertAll entries pairs) := by
  induction pairs generalizing entries with
  | nil => rfl
  | cons pair rest ih =>
    have first := insert_mapValues change entries pair.1 pair.2
    simp only [insertAll, mapValues, List.map_cons, List.foldl_cons] at ih first ⊢
    rw [first, ih]

/-- An entry after an update is one from before, the changed one, or the new one. -/
theorem mem_update {entries : Entries κ α} {key : κ} {change : Option α → α}
    {entry : κ × α} (found : entry ∈ update entries key change) :
    entry ∈ entries ∨
      (∃ other value, (other, value) ∈ entries ∧ entry = (other, change (some value))) ∨
      entry = (key, change none) := by
  induction entries with
  | nil => exact .inr (.inr (List.mem_singleton.1 found))
  | cons first rest ih =>
    obtain ⟨other, value⟩ := first
    simp only [update] at found
    split at found
    · rcases List.mem_cons.1 found with rfl | found
      · exact .inr (.inl ⟨other, value, List.mem_cons_self .., rfl⟩)
      · exact .inl (List.mem_cons_of_mem _ found)
    · rcases List.mem_cons.1 found with rfl | found
      · exact .inl (List.mem_cons_self ..)
      · rcases ih found with before | ⟨name, held, listed, same⟩ | new
        · exact .inl (List.mem_cons_of_mem _ before)
        · exact .inr (.inl ⟨name, held, List.mem_cons_of_mem _ listed, same⟩)
        · exact .inr (.inr new)

/-- What was put under a key is found there, even when keys that are the same are not equal. -/
theorem get?_insert_self [ReflBEq κ] (entries : Entries κ α) (key : κ) (value : α) :
    get? (insert entries key value) key = some value := by
  induction entries with
  | nil => simp [insert, update, get?]
  | cons entry rest ih =>
    simp only [insert, update] at ih ⊢
    split
    · rename_i same
      simp [get?, same]
    · rename_i differs
      simp [get?, differs, ih]

/-- Keys that are the same find the same. -/
theorem get?_congr [EquivBEq κ] (entries : Entries κ α) {key other : κ}
    (same : (key == other) = true) : get? entries key = get? entries other := by
  induction entries with
  | nil => rfl
  | cons entry rest ih =>
    have equal : (entry.1 == key) = (entry.1 == other) := by
      rw [Bool.eq_iff_iff]
      exact ⟨fun first => BEq.trans first same, fun second => BEq.trans second (BEq.symm same)⟩
    simp only [get?, equal, ih]

/-- What is put under another key is not found. -/
theorem get?_insert_of_ne [EquivBEq κ] (entries : Entries κ α) {key other : κ}
    (different : (key == other) = false) (value : α) :
    get? (insert entries key value) other = get? entries other := by
  induction entries with
  | nil => simp [insert, update, get?, different]
  | cons entry rest ih =>
    obtain ⟨known, _⟩ := entry
    simp only [insert] at ih
    by_cases same : (known == key) = true
    · have away : (known == other) = false :=
        Bool.eq_false_iff.2 fun found =>
          Bool.eq_false_iff.1 different (BEq.trans (BEq.symm same) found)
      simp [insert, update, get?, same, away]
    · simp [insert, update, get?, same, ih]

/-- What is found under a key stands under a key that is the same. -/
theorem exists_mem_of_get? {entries : Entries κ α} {key : κ} {value : α}
    (found : get? entries key = some value) :
    ∃ other, (other == key) = true ∧ (other, value) ∈ entries := by
  induction entries with
  | nil => simp [get?] at found
  | cons entry rest ih =>
    simp only [get?] at found
    split at found
    · rename_i same
      obtain rfl := Option.some_inj.1 found
      exact ⟨entry.1, same, List.mem_cons_self ..⟩
    · obtain ⟨other, same, listed⟩ := ih found
      exact ⟨other, same, List.mem_cons_of_mem _ listed⟩

/-- The entries whose keys pass. -/
def keep (passes : κ → Bool) (entries : Entries κ α) : Entries κ α :=
  entries.filter fun entry => passes entry.1

omit [BEq κ] in
/-- Whether the first entry is kept is decided by its key alone. -/
theorem keep_cons (passes : κ → Bool) (key : κ) (value : α) (rest : Entries κ α) :
    keep passes ((key, value) :: rest) =
      if passes key then (key, value) :: keep passes rest else keep passes rest :=
  List.filter_cons

omit [BEq κ] in
/-- Which entries are kept does not depend on their values. -/
theorem keep_mapValues (passes : κ → Bool) (change : α → β) (entries : Entries κ α) :
    keep passes (mapValues change entries) = mapValues change (keep passes entries) := by
  simp [keep, mapValues, List.filter_map, Function.comp_def]

omit [BEq κ] in
/-- Keeping the same keys a second time drops nothing more. -/
theorem keep_keep (passes : κ → Bool) (entries : Entries κ α) :
    keep passes (keep passes entries) = keep passes entries := by
  simp [keep]

omit [BEq κ] in
/-- The keys that are left are those that pass, in their order. -/
theorem keys_keep (passes : κ → Bool) (entries : Entries κ α) :
    keys (keep passes entries) = (keys entries).filter passes := by
  simp [keep, keys, List.filter_map, Function.comp_def]

section Lawful

variable [LawfulBEq κ]

/-- A key that passes has the value it had, and any other key has none. -/
theorem get?_keep (passes : κ → Bool) (entries : Entries κ α) (key : κ) :
    get? (keep passes entries) key = if passes key then get? entries key else none := by
  induction entries with
  | nil => simp [keep, get?]
  | cons entry rest ih =>
    obtain ⟨other, value⟩ := entry
    simp only [keep] at ih
    by_cases same : other = key
    · subst same
      by_cases passed : passes other <;> simp [keep, get?, passed, ih]
    · by_cases kept : passes other <;> simp [keep, get?, same, kept, ih]

/-- An update of a key that passes is made among the kept entries; one of any other key is not seen.
-/
theorem keep_update (passes : κ → Bool) (entries : Entries κ α) (key : κ)
    (change : Option α → α) :
    keep passes (update entries key change) =
      if passes key then update (keep passes entries) key change else keep passes entries := by
  induction entries with
  | nil => by_cases passed : passes key <;> simp [keep, update, passed]
  | cons entry rest ih =>
    obtain ⟨other, before⟩ := entry
    simp only [keep] at ih
    by_cases same : other = key
    · subst same
      by_cases passed : passes other <;> simp [keep, update, passed]
    · by_cases passed : passes key <;> by_cases kept : passes other <;>
        simp [keep, update, same, passed, kept, ih]

/-- An insertion under a key that passes is made among the kept entries; any other is not seen. -/
theorem keep_insert (passes : κ → Bool) (entries : Entries κ α) (key : κ) (value : α) :
    keep passes (insert entries key value) =
      if passes key then insert (keep passes entries) key value else keep passes entries :=
  keep_update passes entries key fun _ => value

/-- Keys that do not pass can be left out before or after. -/
theorem keep_insertAll (passes : κ → Bool) (entries pairs : Entries κ α) :
    keep passes (insertAll entries pairs) =
      insertAll (keep passes entries) (keep passes pairs) := by
  induction pairs generalizing entries with
  | nil => rfl
  | cons pair rest ih =>
    have first := ih (insert entries pair.1 pair.2)
    rw [keep_insert] at first
    by_cases passed : passes pair.1 <;>
      simpa [insertAll, keep, passed] using first

/-- A value that is found under a key was put there. -/
theorem mem_of_get? {entries : Entries κ α} {key : κ} {value : α}
    (found : get? entries key = some value) : (key, value) ∈ entries := by
  obtain ⟨other, same, listed⟩ := exists_mem_of_get? found
  exact eq_of_beq same ▸ listed

/-- What is found stands under one of the keys. -/
theorem mem_keys_of_get? {entries : Entries κ α} {key : κ} {value : α}
    (found : get? entries key = some value) : key ∈ keys entries :=
  List.mem_map.2 ⟨_, mem_of_get? found, rfl⟩

/-- After pairs are put, a value comes from one of them or was there before. -/
theorem mem_or_get?_of_insertAll {entries pairs : Entries κ α} {key : κ} {value : α}
    (found : get? (insertAll entries pairs) key = some value) :
    (key, value) ∈ pairs ∨ get? entries key = some value := by
  induction pairs generalizing entries with
  | nil => exact .inr found
  | cons pair rest ih =>
    rcases ih found with listed | before
    · exact .inl (List.mem_cons_of_mem _ listed)
    · rw [get?_insert] at before
      split at before
      · rename_i same
        obtain rfl := eq_of_beq same
        obtain rfl := Option.some_inj.1 before
        exact .inl (List.mem_cons_self ..)
      · exact .inr before

/-- A map contains a key when the key is listed. -/
theorem contains_iff {entries : Entries κ α} {key : κ} :
    contains entries key = true ↔ key ∈ keys entries := by
  induction entries with
  | nil => simp [contains, get?, keys]
  | cons entry rest ih =>
    simp only [contains, keys] at ih
    by_cases same : entry.1 = key
    · simp [contains, get?, keys, same]
    · simp [contains, get?, keys, same, Ne.symm same, ih]

/-- Nothing is found under a key that is not listed. -/
theorem get?_eq_none {entries : Entries κ α} {key : κ} (absent : key ∉ keys entries) :
    get? entries key = none :=
  Option.not_isSome_iff_eq_none.1 fun held => absent (contains_iff.1 held)

/-- Keys stay apart when what is under one of them is changed. -/
theorem nodup_update {entries : Entries κ α} (apart : (keys entries).Nodup) (key : κ)
    (change : Option α → α) : (keys (update entries key change)).Nodup := by
  rw [keys_update]
  split
  · exact apart
  · rename_i fresh
    refine List.nodup_append.2 ⟨apart, by simp, ?_⟩
    rintro other listed _ single rfl
    rw [List.mem_singleton.1 single] at listed
    exact fresh (contains_iff.2 listed)

/-- Keys stay apart when a pair is put. -/
theorem nodup_insert {entries : Entries κ α} (apart : (keys entries).Nodup) (key : κ) (value : α) :
    (keys (insert entries key value)).Nodup :=
  nodup_update apart key _

/-- Keys that are apart stay apart when pairs are put in. -/
theorem nodup_insertAll {entries : Entries κ α} (apart : (keys entries).Nodup)
    (pairs : Entries κ α) : (keys (insertAll entries pairs)).Nodup := by
  induction pairs generalizing entries with
  | nil => exact apart
  | cons pair rest ih => exact ih (nodup_insert apart ..)

omit [LawfulBEq κ] [BEq κ] in
/-- A map with no entry has its keys apart. -/
theorem nodup_nil : (keys ([] : Entries κ α)).Nodup := List.nodup_nil

/-- Entries that are made of pairs have each key once. -/
theorem nodup_ofList (pairs : List (κ × α)) : (keys (ofList pairs)).Nodup :=
  nodup_insertAll nodup_nil pairs

/-- After an insertion the map contains the new key and the keys it contained. -/
theorem contains_insert (entries : Entries κ α) (key : κ) (value : α) (other : κ) :
    contains (insert entries key value) other = (key == other || contains entries other) := by
  rw [contains, get?_insert]
  by_cases same : (key == other) = true <;> simp [same, contains]

/-- The keys of pairs that are put come after those that were there before. -/
theorem keys_insertAll (entries pairs : Entries κ α) :
    keys (insertAll entries pairs) =
      keys entries ++ (keys (ofList pairs)).filter fun key => !contains entries key := by
  induction pairs generalizing entries with
  | nil => simp [insertAll, ofList, keys]
  | cons pair rest ih =>
    obtain ⟨key, value⟩ := pair
    have first : keys (insert entries key value) = _ := keys_update entries key fun _ => value
    have held : ∀ other, contains [(key, value)] other = (key == other) := fun other => by
      by_cases same : (key == other) = true <;> simp [contains, get?, same]
    have alone : keys (ofList ((key, value) :: rest)) =
        key :: (keys (ofList rest)).filter fun other => !(key == other) := by
      have alone := ih [(key, value)]
      simp only [held] at alone
      exact alone
    change keys (insertAll (insert entries key value) rest) = _
    rw [ih, alone, first]
    by_cases present : contains entries key <;>
      simp [present, contains_insert, List.filter_filter, Bool.and_comm]

/-- Under a key stands the last of the pairs that were put there, or else what was there before. -/
theorem get?_insertAll (entries pairs : Entries κ α) (key : κ) :
    get? (insertAll entries pairs) key = (get? (ofList pairs) key).or (get? entries key) := by
  induction pairs generalizing entries with
  | nil => rfl
  | cons pair rest ih =>
    have all := ih (insert entries pair.1 pair.2)
    have alone := ih (insert [] pair.1 pair.2)
    change get? (insertAll (insert entries pair.1 pair.2) rest) key =
      (get? (insertAll (insert [] pair.1 pair.2) rest) key).or _
    rw [all, alone, get?_insert, get?_insert, Option.or_assoc]
    by_cases same : (pair.1 == key) = true <;> simp [same, get?]

/-- A map made of pairs contains the keys of the pairs. -/
theorem contains_ofList (pairs : Entries κ α) (key : κ) :
    contains (ofList pairs) key = contains pairs key := by
  induction pairs with
  | nil => rfl
  | cons pair rest ih =>
    change contains (insertAll (insert [] pair.1 pair.2) rest) key = _
    simp only [contains] at ih
    rw [contains, get?_insertAll, Option.isSome_or, ih, get?_insert]
    by_cases same : (pair.1 == key) = true <;> simp [contains, get?, same]

omit [LawfulBEq κ] in
/-- A key that is new is put at the end. -/
theorem insert_of_fresh {entries : Entries κ α} {key : κ}
    (fresh : contains entries key = false) (value : α) :
    insert entries key value = entries ++ [(key, value)] := by
  induction entries with
  | nil => rfl
  | cons entry rest ih =>
    obtain ⟨other, before⟩ := entry
    by_cases same : (other == key) = true
    · simp [contains, get?, same] at fresh
    · have absent : contains rest key = false := by simpa [contains, get?, same] using fresh
      have tail := ih absent
      simp only [insert] at tail
      simp [insert, update, same, tail]

/-- New keys go to the end in order. -/
theorem insertAll_of_fresh {entries pairs : Entries κ α} (apart : (keys pairs).Nodup)
    (fresh : ∀ key ∈ keys pairs, contains entries key = false) :
    insertAll entries pairs = entries ++ pairs := by
  induction pairs generalizing entries with
  | nil => simp [insertAll]
  | cons pair rest ih =>
    obtain ⟨key, value⟩ := pair
    obtain ⟨away, apart⟩ := List.nodup_cons.1 apart
    have first := insert_of_fresh (fresh key (List.mem_cons_self ..)) value
    have others : ∀ other ∈ keys rest, contains (insert entries key value) other = false := by
      intro other listed
      have different : (key == other) = false := by
        simpa using fun same : key = other => away (same ▸ listed)
      rw [contains_insert, different]
      exact fresh other (List.mem_cons_of_mem _ listed)
    change insertAll (insert entries key value) rest = _
    rw [ih apart others, first, List.append_assoc]
    rfl

/-- Entries whose keys are all apart are made of themselves. -/
theorem ofList_of_nodup {entries : Entries κ α} (apart : (keys entries).Nodup) :
    ofList entries = entries :=
  (insertAll_of_fresh apart fun _ _ => rfl).trans (List.nil_append _)

/-- Entries with the same keys, all apart, are the same when the same is found under each key. -/
theorem ext_of_nodup {entries others : Entries κ α} (apart : (keys entries).Nodup)
    (same : keys entries = keys others) (found : ∀ key, get? entries key = get? others key) :
    entries = others := by
  induction entries generalizing others with
  | nil => exact (List.map_eq_nil_iff.1 same.symm).symm
  | cons entry rest ih =>
    cases others with
    | nil => simp [keys] at same
    | cons other more =>
      obtain ⟨key, value⟩ := entry
      obtain ⟨_, valueNext⟩ := other
      simp only [keys, List.map_cons, List.cons.injEq] at same
      obtain ⟨rfl, same⟩ := same
      have first := found key
      simp only [get?, beq_self_eq_true, if_true, Option.some.injEq] at first
      obtain ⟨fresh, apart⟩ := List.nodup_cons.1 apart
      rw [first, ih apart same fun asked => ?_]
      by_cases equal : key = asked
      · subst equal
        have absent : key ∉ keys rest := fresh
        have absentNext : key ∉ keys more := (show keys rest = keys more from same) ▸ absent
        rw [get?_eq_none absent, get?_eq_none absentNext]
      · simpa [get?, equal] using found asked

/-- Pairs may be made entries of their own before they are put. -/
theorem insertAll_ofList {entries : Entries κ α} (apart : (keys entries).Nodup)
    (pairs : Entries κ α) : insertAll entries (ofList pairs) = insertAll entries pairs := by
  have once : ofList (ofList pairs) = ofList pairs := ofList_of_nodup (nodup_ofList pairs)
  refine ext_of_nodup (nodup_insertAll apart _) ?_ fun key => ?_
  · rw [keys_insertAll, keys_insertAll, once]
  · rw [get?_insertAll, get?_insertAll, once]

/-- Entries made of pairs hold nothing but these pairs. -/
theorem mem_of_get?_ofList {pairs : List (κ × α)} {key : κ} {value : α}
    (found : get? (ofList pairs) key = some value) : (key, value) ∈ pairs := by
  rcases mem_or_get?_of_insertAll found with listed | before
  · exact listed
  · simp [get?] at before

/-- A pair whose key comes up once gives the value of its key. -/
theorem get?_ofList_of_count {pairs : List (κ × α)} {key : κ} {value : α}
    (listed : (key, value) ∈ pairs) (single : (keys pairs).count key ≤ 1) :
    get? (ofList pairs) key = some value := by
  have held : contains (ofList pairs) key = true := by
    rw [contains_ofList, contains_iff]
    exact List.mem_map.2 ⟨_, listed, rfl⟩
  obtain ⟨other, found⟩ := Option.isSome_iff_exists.1 held
  let named := pairs.filter fun pair => pair.1 == key
  have short : named.length ≤ 1 := by
    rw [← List.countP_eq_length_filter]
    rwa [keys, List.count, List.countP_map] at single
  have first : (key, value) ∈ named := List.mem_filter.2 ⟨listed, beq_self_eq_true key⟩
  have second : (key, other) ∈ named :=
    List.mem_filter.2 ⟨mem_of_get?_ofList found, beq_self_eq_true key⟩
  generalize named = named at short first second
  cases named with
  | nil => cases first
  | cons pair rest =>
    obtain rfl : rest = [] := List.length_eq_zero_iff.1 (Nat.le_zero.1 (Nat.le_of_succ_le_succ short))
    have same := (List.mem_singleton.1 first).trans (List.mem_singleton.1 second).symm
    rw [found, (Prod.mk.inj same).2]

/-- A value that stands under a key is found there, when the keys are apart. -/
theorem get?_of_mem {entries : Entries κ α} (apart : (keys entries).Nodup) {key : κ} {value : α}
    (listed : (key, value) ∈ entries) : get? entries key = some value := by
  have single : (keys entries).count key ≤ 1 := List.nodup_iff_count.1 apart key
  have found := get?_ofList_of_count listed single
  rwa [ofList_of_nodup apart] at found

/-- Where keys stand makes no difference to what is under them, when all are apart. -/
theorem get?_perm {entries others : Entries κ α} (perm : entries.Perm others)
    (apart : (keys entries).Nodup) (key : κ) : get? entries key = get? others key := by
  induction perm with
  | nil => rfl
  | cons entry _ ih =>
    rw [get?, get?, ih (List.nodup_cons.1 apart).2]
  | swap first second rest =>
    have different : second.1 ≠ first.1 := by
      have fresh := (List.nodup_cons.1 apart).1
      exact fun same => fresh (List.mem_cons.2 (.inl same))
    by_cases asked : first.1 = key
    · subst asked
      simp [get?, different]
    · simp [get?, asked]
  | trans left _ ih ihNext =>
    exact (ih apart).trans (ihNext ((left.map Prod.fst).nodup_iff.1 apart))

end Lawful

section Translation

variable (rename : κ → κ) (change : α → β)

/-- The entries with every key renamed and every value changed. -/
def translate (entries : Entries κ α) : Entries κ β :=
  entries.map fun entry => (rename entry.1, change entry.2)

variable {rename change}

omit [BEq κ] in
/-- The keys after a translation are the renamed keys, in their order. -/
theorem keys_translate (entries : Entries κ α) :
    keys (translate rename change entries) = (keys entries).map rename := by
  simp [keys, translate, Function.comp_def]

section

variable [LawfulBEq κ] (injective : Function.Injective rename)

include injective

/-- Under a renamed key the changed value is found. -/
theorem get?_translate (entries : Entries κ α) (key : κ) :
    get? (translate rename change entries) (rename key) = (get? entries key).map change := by
  induction entries with
  | nil => rfl
  | cons first rest ih =>
    obtain ⟨other, value⟩ := first
    simp only [translate, List.map_cons, get?] at ih ⊢
    by_cases same : other = key
    · simp [same]
    · have apart : rename other ≠ rename key := fun equal => same (injective equal)
      simpa [same, apart] using ih

/-- A renamed key is contained where the key was. -/
theorem contains_translate (entries : Entries κ α) (key : κ) :
    contains (translate rename change entries) (rename key) = contains entries key := by
  rw [contains, get?_translate injective, Option.isSome_map, contains]

/-- An insertion is made before or after the translation. -/
theorem insert_translate (entries : Entries κ α) (key : κ) (value : α) :
    insert (translate rename change entries) (rename key) (change value) =
      translate rename change (insert entries key value) := by
  induction entries with
  | nil => rfl
  | cons first rest ih =>
    obtain ⟨other, known⟩ := first
    simp only [insert, translate, List.map_cons, update] at ih ⊢
    by_cases same : other = key
    · simp [same]
    · have apart : rename other ≠ rename key := fun equal => same (injective equal)
      simpa [same, apart] using ih

/-- Pairs are put in before or after the translation. -/
theorem insertAll_translate (entries pairs : Entries κ α) :
    insertAll (translate rename change entries) (translate rename change pairs) =
      translate rename change (insertAll entries pairs) := by
  induction pairs generalizing entries with
  | nil => rfl
  | cons first rest ih =>
    have inserted : insert (translate rename change entries) (rename first.1) (change first.2) =
        translate rename change (insert entries first.1 first.2) :=
      insert_translate injective entries first.1 first.2
    rw [show insertAll entries (first :: rest) = insertAll (insert entries first.1 first.2) rest from
      rfl, ← ih, ← inserted]
    rfl

end

end Translation

end Glean.Entries
