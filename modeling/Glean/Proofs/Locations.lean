import Glean.Document

/-!
# Locations

A place in a text has a location exactly when it lies between two characters or at one of the ends
(`isSome_locate?_iff`), and a later place has a later location (`advance_strict`). References into a
document count from the first character behind a byte order mark, so this holds of their starts in the
text without the mark (`locates_unmarked`), and not in the text that the document was made from
(`not_locates_marked`).
-/

namespace Glean

namespace Text

/-- An earlier line, or the same line further to the left. -/
def Location.Before (place other : Location) : Prop :=
  place.line < other.line ∨ place.line = other.line ∧ place.column < other.column

section Places

variable {place other last : Location} {c : Char} {rest text : List Char} {count more : Nat}

/-- A location that is before one that is before a third is before the third. -/
theorem Location.Before.trans (first : place.Before other) (second : other.Before last) :
    place.Before last := by
  unfold Before at *
  omega

/-- Every character takes a unit at least. -/
theorem length_units_pos (c : Char) : 0 < (units c).length := by
  dsimp only [units]
  split <;> exact Nat.zero_lt_succ _

/-- Passing a character moves to the next line or to the right. -/
theorem Location.before_after (place : Location) (c : Char) (rest : List Char) :
    place.Before (place.after c rest) := by
  have wide := length_units_pos c
  unfold after
  split
  · exact .inl (Nat.lt_succ_self _)
  · exact .inr ⟨rfl, Nat.lt_add_of_pos_right wide⟩

/-- The bytes of a text are those of its first character and those of the rest. -/
theorem utf8ByteSize_cons (c : Char) (rest : List Char) :
    (String.ofList (c :: rest)).utf8ByteSize =
      c.utf8Size + (String.ofList rest).utf8ByteSize := by
  rw [String.ofList_cons, String.utf8ByteSize_append, String.utf8ByteSize_singleton]

/-- Some bytes are those of the first so many characters when they hold the first character and the
others are such bytes of the rest. -/
theorem exists_take_cons (count : Nat) (c : Char) (rest : List Char) :
    (∃ length, count + 1 = (String.ofList ((c :: rest).take length)).utf8ByteSize) ↔
      c.utf8Size ≤ count + 1 ∧
        ∃ length, count + 1 - c.utf8Size = (String.ofList (rest.take length)).utf8ByteSize := by
  constructor
  · rintro ⟨length, same⟩
    cases length with
    | zero => simp at same
    | succ length =>
      rw [List.take_succ_cons, utf8ByteSize_cons] at same
      exact ⟨by omega, length, by omega⟩
  · rintro ⟨fits, length, same⟩
    refine ⟨length + 1, ?_⟩
    rw [List.take_succ_cons, utf8ByteSize_cons]
    omega

/-- Some bytes end at a place exactly when they are those of the first so many characters. -/
theorem isSome_advance_iff (place : Location) (count : Nat) (text : List Char) :
    (advance place count text).isSome = true ↔
      ∃ length, count = (String.ofList (text.take length)).utf8ByteSize := by
  fun_induction advance place count text with
  | case1 place text => exact iff_of_true rfl ⟨0, by simp⟩
  | case2 place count => simp
  | case3 place count c rest fits ih =>
    rw [ih, exists_take_cons]
    exact ⟨fun bytes => ⟨fits, bytes⟩, fun bytes => bytes.2⟩
  | case4 place count c rest long =>
    rw [exists_take_cons]
    exact iff_of_false Bool.false_ne_true fun bytes => long bytes.1

/-- A place behind some bytes is later than the place before them. -/
theorem before_of_advance (found : advance place count text = some other) (some : 0 < count) :
    place.Before other := by
  fun_induction advance place count text with
  | case1 => cases some
  | case2 => cases found
  | case3 place count c rest fits ih =>
    have step := place.before_after c rest
    by_cases done : count + 1 - c.utf8Size = 0
    · rw [done, advance] at found
      obtain rfl := Option.some_inj.1 found
      exact step
    · exact step.trans (ih found (Nat.pos_of_ne_zero done))
  | case4 => cases found

/-- Of two places in a text the one behind more bytes is later. -/
theorem advance_strict (found : advance place count text = some other)
    (next : advance place more text = some last) (less : count < more) : other.Before last := by
  fun_induction advance place count text generalizing more with
  | case1 =>
    obtain rfl := Option.some_inj.1 found
    exact before_of_advance next less
  | case2 => cases found
  | case3 place count c rest fits ih =>
    obtain ⟨more, rfl⟩ := Nat.exists_eq_add_one_of_ne_zero (Nat.ne_zero_of_lt less)
    have wider : c.utf8Size ≤ more + 1 := by omega
    rw [advance, if_pos wider] at next
    exact ih found next (by omega)
  | case4 => cases found

end Places

/-- There are locations at the ends of a text and between its characters, and nowhere else. -/
theorem isSome_locate?_iff (text : String) (offset : Nat) :
    (locate? text offset).isSome = true ↔ String.Pos.Raw.IsValid text ⟨offset⟩ := by
  rw [locate?, isSome_advance_iff, String.Pos.Raw.isValid_iff_exists_take_toList]

end Text

namespace Document

/-- The locations that a document gives are those of the places in a text, counted in bytes from
one. -/
structure LocatesIn (file : Document) (text : String) : Prop where
  /-- There is a location exactly at the places that lie in the text, inside no character. -/
  isSome_iff : ∀ reference : Reference, (reference.file == file.path) = true →
    ((file.locate? reference).isSome = true ↔
      1 ≤ reference.span.start ∧ reference.span.start - 1 ≤ text.utf8ByteSize ∧
        String.Pos.Raw.IsValid text ⟨reference.span.start - 1⟩)
  /-- A later place has a later location. -/
  before : ∀ first second : Reference, (first.file == file.path) = true →
    (second.file == file.path) = true → first.span.start < second.span.start →
    ∀ place ∈ file.locate? first, ∀ other ∈ file.locate? second, place.Before other

/-- The location of a reference is that of its start in the text of the document. -/
theorem locate?_eq {file : Document} {reference : Reference}
    (here : (reference.file == file.path) = true) :
    file.locate? reference =
      if reference.span.start = 0 then none
      else Text.locate? file.text (reference.span.start - 1) := by
  rw [locate?, here, Bool.true_and]
  by_cases zero : reference.span.start = 0 <;> simp [zero]

/-- A document gives the locations of the places in its text. -/
theorem locatesIn_text (file : Document) : file.LocatesIn file.text where
  isSome_iff reference here := by
    rw [locate?_eq here]
    by_cases zero : reference.span.start = 0
    · simp [zero]
    · rw [if_neg zero, Text.isSome_locate?_iff]
      have some : 1 ≤ reference.span.start := Nat.one_le_iff_ne_zero.2 zero
      exact ⟨fun valid => ⟨some, valid.le_utf8ByteSize, valid⟩, fun inside => inside.2.2⟩
  before first second here there less place found other next := by
    rw [locate?_eq here] at found
    rw [locate?_eq there] at next
    by_cases zero : first.span.start = 0
    · simp [zero] at found
    · rw [if_neg zero] at found
      rw [if_neg (by omega)] at next
      exact Text.advance_strict found next (by omega)

/-- A text without the byte order mark that it may start with. -/
def unmarked (code : String) : String :=
  if code.toList.head? = some byteOrderMark then String.ofList code.toList.tail else code

/-- A document keeps the text of its code without the mark. -/
theorem text_make (path : Path) (code : String) (module : Syntax.Module) :
    (make path code module).text = unmarked code := by
  rw [make, unmarked]
  cases code.toList with
  | nil => rfl
  | cons first rest => simp

/-- For every source text and every reference into its document, with the text taken without a byte
order mark at its start: there is a location exactly when the reference starts at a boundary of
characters, and references that start later have later locations. -/
theorem locates_unmarked (path : Path) (code : String) (module : Syntax.Module) :
    (make path code module).LocatesIn (unmarked code) :=
  text_make path code module ▸ locatesIn_text _

example : (make ⟨"/a.ts"⟩ "é\r\nb" ⟨[]⟩).locate? ⟨⟨"/a.ts"⟩, ⟨5, 6⟩, .expr⟩ = some ⟨2, 1⟩ := by
  decide +kernel

/-- Behind a byte order mark a location is given for a start that, counted from the start of the
mark, would be inside it. -/
theorem not_locates_marked :
    ¬(make ⟨"/t.js"⟩ "\ufeffa.b" ⟨[.group [.expr (.member ⟨1, 4⟩ (.ident ⟨1, 2⟩ ⟨"a", 1⟩)
      (.name "b"))]]⟩).LocatesIn "\ufeffa.b" := by
  intro locates
  have here := (locates.isSome_iff ⟨⟨"/t.js"⟩, ⟨2, 4⟩, .expr⟩ (by decide)).1 (by decide +kernel)
  have inside : (Text.locate? "\ufeffa.b" 1).isSome = true :=
    (Text.isSome_locate?_iff _ _).2 here.2.2
  cases inside

end Document

end Glean
