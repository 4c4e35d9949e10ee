import Glean.Path
import Mathlib.Data.List.Basic

/-!
# Components of paths

The steps of a text are its components without any `.`; `.` makes no difference to where a path
leads. Joining a text to a directory appends steps (`Path.steps_join`), and components that were
joined by slashes have the steps that they are (`Path.steps_ofComponents`).
-/

namespace Glean

/-- A component that a path can have: a name is not empty, has no slash and is neither `.` nor
`..`. -/
def Component.IsProper : Component → Prop
  | name text => text.toList ≠ [] ∧ '/' ∉ text.toList ∧ text ≠ "." ∧ text ≠ ".."
  | _ => True

/-- What is written for a component other than the root. -/
theorem Component.text_of_isProper {component : Component} (proper : component.IsProper)
    (inner : component ≠ .root) :
    component.text.toList ≠ [] ∧ '/' ∉ component.text.toList := by
  cases component with
  | root => exact absurd rfl inner
  | current | parent => decide
  | name text => exact ⟨proper.1, proper.2.1⟩

namespace Path

/-! ### Pieces -/

/-- The pieces of a text are what the library cuts it into at its slashes. -/
theorem pieces_eq_splitOn (text : List Char) : pieces text = text.splitOn '/' := by
  induction text with
  | nil => rfl
  | cons c rest ih =>
    rw [pieces, List.splitOn_cons_eq_if_modifyHead, ih]
    by_cases slash : c = '/'
    · rw [if_pos slash, if_pos (beq_iff_eq.2 slash)]
    · rw [if_neg slash, if_neg (mt eq_of_beq slash)]
      cases split : rest.splitOn '/' with
      | nil => exact absurd split (List.splitOn_ne_nil '/' rest)
      | cons piece others => rfl

/-- Every text has a piece, if only an empty one. -/
theorem pieces_ne_nil (text : List Char) : pieces text ≠ [] := by
  rw [pieces_eq_splitOn]
  exact List.splitOn_ne_nil '/' text

/-- A slash ends a piece. -/
theorem pieces_append_slash (left right : List Char) :
    pieces (left ++ '/' :: right) = pieces left ++ pieces right := by
  rw [pieces_eq_splitOn, pieces_eq_splitOn, pieces_eq_splitOn, List.splitOn_append_cons_self]

/-- Pieces joined by slashes are read back. -/
theorem pieces_intercalate {texts : List (List Char)} (some : texts ≠ [])
    (inner : ∀ text ∈ texts, '/' ∉ text) : pieces (['/'].intercalate texts) = texts := by
  rw [pieces_eq_splitOn, List.splitOn_intercalate '/' inner some]

/-- No piece has a slash in it. -/
theorem slash_not_mem_of_mem_pieces {text piece : List Char} (listed : piece ∈ pieces text) :
    '/' ∉ piece := by
  induction text generalizing piece with
  | nil =>
    obtain rfl : piece = [] := List.mem_singleton.1 listed
    exact List.not_mem_nil
  | cons c rest ih =>
    unfold pieces at listed
    split at listed
    · rcases List.mem_cons.1 listed with rfl | later
      · exact List.not_mem_nil
      · exact ih later
    · rename_i other
      cases split : pieces rest with
      | nil =>
        rw [split] at listed
        obtain rfl : piece = [c] := List.mem_singleton.1 listed
        exact fun held => other (List.mem_singleton.1 held).symm
      | cons first others =>
        rw [split] at listed ih
        rcases List.mem_cons.1 listed with rfl | later
        · intro held
          rcases List.mem_cons.1 held with same | within
          · exact other same.symm
          · exact ih (List.mem_cons_self ..) within
        · exact ih (List.mem_cons_of_mem _ later)

/-- The first of several pieces is empty when a slash comes first. -/
theorem head?_eq_slash_iff {text piece : List Char} {others : List (List Char)}
    (cut : pieces text = piece :: others) :
    text.head? = some '/' ↔ piece = [] ∧ others ≠ [] := by
  cases text with
  | nil =>
    obtain ⟨rfl, rfl⟩ := List.cons.inj cut
    simp
  | cons c rest =>
    unfold pieces at cut
    by_cases slash : c = '/'
    · rw [if_pos slash] at cut
      obtain ⟨rfl, rfl⟩ := List.cons.inj cut
      simp [slash, pieces_ne_nil]
    · rw [if_neg slash] at cut
      have filled : piece ≠ [] := by
        intro empty
        subst empty
        split at cut <;> cases cut
      simp [slash, filled]

/-! ### Steps -/

/-- The components of a text without any `.`. -/
def steps (text : List Char) : List Component :=
  (if text.head? = some '/' then [.root] else []) ++ (pieces text).filterMap component?

/-- What is read from a piece is `..` or a name that is proper. -/
theorem component?_eq_some {piece : List Char} {component : Component}
    (read : component? piece = some component) :
    component ≠ .root ∧ component ≠ .current ∧ ('/' ∉ piece → component.IsProper) := by
  unfold component? at read
  split at read
  · cases read
  · rename_i filled
    split at read
    · cases read
      exact ⟨nofun, nofun, fun _ => trivial⟩
    · rename_i other
      cases read
      refine ⟨nofun, nofun, fun inner => ⟨?_, ?_, ?_, ?_⟩⟩
      · rw [String.toList_ofList]
        exact fun empty => filled (.inl empty)
      · rwa [String.toList_ofList]
      · exact fun same => filled (.inr (String.ofList_injective same))
      · exact fun same => other (String.ofList_injective same)

/-- Components are the steps, but for a `.` at the start. -/
theorem filter_componentsOf (text : List Char) :
    (componentsOf text).filter (· ≠ .current) = steps text := by
  cases cut : pieces text with
  | nil => exact absurd cut (pieces_ne_nil text)
  | cons piece others =>
    have kept : (others.filterMap component?).filter (· ≠ Component.current) =
        others.filterMap component? := by
      refine List.filter_eq_self.2 fun component listed => ?_
      obtain ⟨_, _, read⟩ := List.mem_filterMap.1 listed
      exact decide_eq_true (component?_eq_some read).2.1
    have starts := head?_eq_slash_iff cut
    unfold componentsOf steps
    simp only [cut, List.filter_append, kept, List.filterMap_cons, starts]
    by_cases dot : piece = ['.']
    · simp [dot, component?]
    · rw [if_neg dot]
      by_cases first : piece = [] ∧ others ≠ []
      · simp [first, component?]
      · rw [if_neg first, if_neg first]
        cases read : component? piece with
        | none => rfl
        | some component =>
          have apart : component ≠ .current := (component?_eq_some read).2.1
          simp [apart]

/-- Components as a path has them: proper ones, and the root in front if at all. -/
structure AreProper (components : List Component) : Prop where
  /-- Each can stand in a path. -/
  proper : ∀ component ∈ components, component.IsProper
  /-- The root has nothing before it. -/
  inner : ∀ component ∈ components.tail, component ≠ .root

/-- The components that a text is read into are proper. -/
theorem areProper_componentsOf (text : List Char) : AreProper (componentsOf text) := by
  cases cut : pieces text with
  | nil => exact absurd cut (pieces_ne_nil text)
  | cons piece others =>
    have slashes : ∀ piece ∈ pieces text, '/' ∉ piece := fun _ => slash_not_mem_of_mem_pieces
    rw [cut] at slashes
    have later : ∀ component ∈ others.filterMap component?,
        component.IsProper ∧ component ≠ .root := by
      intro component listed
      obtain ⟨next, held, read⟩ := List.mem_filterMap.1 listed
      have spec := component?_eq_some read
      exact ⟨spec.2.2 (slashes next (List.mem_cons_of_mem _ held)), spec.1⟩
    unfold componentsOf
    simp only [cut]
    generalize start : (if piece = ['.'] then some Component.current
      else if piece = [] ∧ others ≠ [] then some .root else component? piece) = first
    have here : ∀ component ∈ first, component.IsProper := by
      intro component same
      subst start
      split at same
      · cases same
        trivial
      · split at same
        · cases same
          trivial
        · exact (component?_eq_some same).2.2 (slashes piece (List.mem_cons_self ..))
    constructor
    · intro component listed
      rcases List.mem_append.1 listed with held | held
      · exact here component (Option.mem_toList.1 held)
      · exact (later component held).1
    · intro component listed
      cases first with
      | none => exact (later component (List.mem_of_mem_tail listed)).2
      | some _ => exact (later component listed).2

/-- Proper components stay proper without the last of them. -/
theorem AreProper.dropLast {components : List Component} (are : AreProper components) :
    AreProper components.dropLast := by
  constructor
  · exact fun component listed => are.proper component (((List.dropLast_sublist _).subset listed))
  · intro component listed
    rw [List.tail_dropLast] at listed
    exact are.inner component (((List.dropLast_sublist _).subset listed))

/-- Components have the root in front or nowhere. -/
theorem AreProper.inner_or_root {components : List Component} (are : AreProper components) :
    (∀ component ∈ components, component ≠ .root) ∨
      ∃ rest, components = .root :: rest ∧ (∀ component ∈ rest, component.IsProper) ∧
        ∀ component ∈ rest, component ≠ .root := by
  cases components with
  | nil => exact .inl nofun
  | cons first rest =>
    have proper : ∀ component ∈ rest, component.IsProper :=
      fun component listed => are.proper component (List.mem_cons_of_mem _ listed)
    by_cases root : first = .root
    · exact .inr ⟨rest, by rw [root], proper, are.inner⟩
    · left
      intro component listed
      rcases List.mem_cons.1 listed with rfl | later
      · exact root
      · exact are.inner component later

/-! ### Components with slashes between them -/

/-- Components with slashes between them. -/
def slashed (components : List Component) : String :=
  "/".intercalate (components.map Component.text)

/-- The text of an absolute path begins with a slash. -/
theorem text_ofComponents_root (rest : List Component) :
    (ofComponents (.root :: rest)).text = "/" ++ slashed rest := rfl

/-- The text of a relative path is its components with slashes between them. -/
theorem text_ofComponents_of_inner {components : List Component}
    (inner : ∀ component ∈ components, component ≠ .root) :
    (ofComponents components).text = slashed components := by
  cases components with
  | nil => rfl
  | cons first rest =>
    cases first with
    | root => exact absurd rfl (inner _ (List.mem_cons_self ..))
    | _ => rfl

/-- A last component is written behind a slash. -/
theorem slashed_concat {components : List Component} (some : components ≠ []) (last : Component) :
    slashed (components ++ [last]) = slashed components ++ "/" ++ last.text := by
  have texts : components.map Component.text ≠ [] := mt List.map_eq_nil_iff.1 some
  rw [slashed, List.map_append, List.map_singleton,
    String.intercalate_append_of_ne_nil texts (List.cons_ne_nil _ _), String.intercalate_singleton]
  rfl

section Proper

variable {components : List Component} (proper : ∀ component ∈ components, component.IsProper)
  (inner : ∀ component ∈ components, component ≠ .root)
include proper inner

/-- A proper component has a text that is not empty and has no slash in it. -/
theorem text_spec : ∀ component ∈ components,
    component.text.toList ≠ [] ∧ '/' ∉ component.text.toList :=
  fun component listed =>
    Component.text_of_isProper (proper component listed) (inner component listed)

/-- Components joined by slashes start as the first of them, with no slash. -/
theorem exists_head?_slashed (filled : components ≠ []) :
    ∃ c, (slashed components).toList.head? = some c ∧ c ≠ '/' := by
  obtain ⟨first, rest, rfl⟩ := List.exists_cons_of_ne_nil filled
  obtain ⟨written, slashless⟩ := text_spec proper inner first (List.mem_cons_self ..)
  obtain ⟨c, tail, text⟩ := List.exists_cons_of_ne_nil written
  have begins : ∃ more, (slashed (first :: rest)).toList = first.text.toList ++ more := by
    cases rest with
    | nil =>
      rw [slashed, List.map_singleton, String.intercalate_singleton]
      exact ⟨[], (List.append_nil _).symm⟩
    | cons next others =>
      have later : (next :: others).map Component.text ≠ [] := List.cons_ne_nil _ _
      rw [slashed, List.map_cons, String.intercalate_cons_of_ne_nil later, String.append_assoc,
        String.toList_append]
      exact ⟨_, rfl⟩
  obtain ⟨more, whole⟩ := begins
  refine ⟨c, by rw [whole, text]; rfl, fun slash => slashless ?_⟩
  rw [text, slash]
  exact List.mem_cons_self ..

/-- They end as the last of them, with no slash either. -/
theorem exists_getLast?_slashed (filled : components ≠ []) :
    ∃ c, (slashed components).toList.getLast? = some c ∧ c ≠ '/' := by
  obtain ⟨before, last, rfl⟩ := (List.eq_nil_or_concat' components).resolve_left filled
  have listed : last ∈ before ++ [last] := List.mem_append_right _ (List.mem_singleton_self _)
  obtain ⟨written, slashless⟩ := text_spec proper inner last listed
  have ends : (slashed (before ++ [last])).toList.getLast? = last.text.toList.getLast? := by
    by_cases alone : before = []
    · subst alone
      rw [List.nil_append, slashed, List.map_singleton, String.intercalate_singleton]
    · rw [slashed_concat alone, String.toList_append, List.getLast?_append_of_ne_nil _ written]
  have some := List.getLast?_eq_some_getLast written
  refine ⟨_, ends.trans some, fun slash => slashless ?_⟩
  rw [← slash]
  exact List.getLast_mem written

/-- Components joined by slashes do not start with a slash. -/
theorem head?_slashed : (slashed components).toList.head? ≠ some '/' := by
  by_cases filled : components = []
  · subst filled
    exact nofun
  · obtain ⟨c, starts, other⟩ := exists_head?_slashed proper inner filled
    rw [starts]
    exact fun same => other (Option.some_inj.1 same)

/-- Components that were joined by slashes are read back. -/
theorem filterMap_pieces_slashed :
    (pieces (slashed components).toList).filterMap component? =
      components.filter (· ≠ .current) := by
  have read : ∀ component ∈ components, component? component.text.toList =
      if component ≠ .current then some component else none := by
    intro component listed
    cases component with
    | root => exact absurd rfl (inner _ listed)
    | current | parent => decide
    | name text =>
      obtain ⟨filled, _, single, double⟩ := proper _ listed
      have one : text.toList ≠ ['.'] := fun same => single (String.toList_inj.1 same)
      have two : text.toList ≠ ['.', '.'] := fun same => double (String.toList_inj.1 same)
      simp [component?, Component.text, filled, one, two]
  by_cases empty : components = []
  · subst empty
    rfl
  · have slashes : ∀ text ∈ components.map fun component => component.text.toList, '/' ∉ text := by
      intro text listed
      obtain ⟨component, held, rfl⟩ := List.mem_map.1 listed
      exact (text_spec proper inner component held).2
    have texts : (slashed components).toList =
        ['/'].intercalate (components.map fun component => component.text.toList) := by
      rw [slashed, String.toList_intercalate, List.map_map]
      rfl
    rw [texts, pieces_intercalate (mt List.map_eq_nil_iff.1 empty) slashes, List.filterMap_map,
      ← List.filterMap_eq_filter]
    refine List.filterMap_congr fun component listed => ?_
    simp only [Function.comp_apply, read component listed, Option.guard, decide_eq_true_eq]

end Proper

/-- The steps of a path made of components are these, without any `.`. -/
theorem steps_ofComponents {components : List Component} (are : AreProper components) :
    steps (ofComponents components).text.toList = components.filter (· ≠ .current) := by
  rcases are.inner_or_root with inner | ⟨rest, rfl, proper, inner⟩
  · rw [text_ofComponents_of_inner inner, steps, if_neg (head?_slashed are.proper inner),
      filterMap_pieces_slashed are.proper inner]
    rfl
  · have text : (ofComponents (.root :: rest)).text.toList = '/' :: (slashed rest).toList := by
      rw [text_ofComponents_root, String.toList_append]
      rfl
    rw [steps, text, pieces, if_pos rfl, List.filterMap_cons, filterMap_pieces_slashed proper inner]
    rfl

/-! ### Joining -/

/-- A text starts with a slash when its first character is one. -/
theorem startsWith_slash_iff (text : String) :
    text.startsWith "/" = true ↔ text.toList.head? = some '/' := by
  rw [String.startsWith_string_iff, List.head?_eq_some_iff]
  constructor
  · rintro ⟨rest, same⟩
    exact ⟨rest, same.symm⟩
  · rintro ⟨rest, same⟩
    exact ⟨rest, same.symm⟩

/-- A text ends with a slash when its last character is one. -/
theorem endsWith_slash_iff (text : String) :
    text.endsWith "/" = true ↔ text.toList.getLast? = some '/' := by
  rw [String.endsWith_eq_endsWith_toSlice, String.Slice.endsWith_string_iff, String.copy_toSlice,
    List.getLast?_eq_some_iff]
  constructor
  · rintro ⟨front, same⟩
    exact ⟨front, same.symm⟩
  · rintro ⟨front, same⟩
    exact ⟨front, same.symm⟩

/-- A text that is joined to a directory continues its steps. -/
theorem steps_join (directory : Path) {text : String}
    (relative : ¬text.startsWith "/" = true) :
    steps (directory.join text).text.toList =
      steps directory.text.toList ++ steps text.toList := by
  have here : text.toList.head? ≠ some '/' := mt (startsWith_slash_iff text).2 relative
  have own : steps text.toList = (pieces text.toList).filterMap component? := by
    rw [steps, if_neg here]
    rfl
  rw [own, join, if_neg relative]
  by_cases empty : directory.text.toList = []
  · have blank : directory.text = "" := String.toList_inj.1 empty
    simp [blank, steps, here, pieces, component?]
  · obtain ⟨first, rest, cut⟩ := List.exists_cons_of_ne_nil empty
    have filled : directory.text.isEmpty = false := by
      rw [Bool.eq_false_iff]
      exact fun blank => empty (by rw [String.isEmpty_iff.1 blank]; rfl)
    rw [filled, Bool.false_or]
    by_cases ends : directory.text.endsWith "/" = true
    · obtain ⟨front, slash⟩ := List.getLast?_eq_some_iff.1 ((endsWith_slash_iff _).1 ends)
      have start : (directory.text.toList ++ text.toList).head? = directory.text.toList.head? := by
        rw [List.head?_append_of_ne_nil _ empty]
      have last : pieces (front ++ ['/']) = pieces front ++ [[]] := pieces_append_slash front []
      rw [if_pos ends, String.toList_append, steps, steps, start, slash, List.append_assoc,
        List.singleton_append, pieces_append_slash, last]
      simp [component?]
    · have start : (directory.text.toList ++ '/' :: text.toList).head? =
          directory.text.toList.head? := by
        rw [List.head?_append_of_ne_nil _ empty]
      have whole : (directory.text ++ "/" ++ text).toList =
          directory.text.toList ++ '/' :: text.toList := by
        rw [String.toList_append, String.toList_append, List.append_assoc]
        rfl
      rw [if_neg ends, whole, steps, steps, start, pieces_append_slash, List.filterMap_append,
        List.append_assoc]

/-- Joining to components with slashes between them. -/
theorem join_slashed {components : List Component}
    (proper : ∀ component ∈ components, component.IsProper)
    (inner : ∀ component ∈ components, component ≠ .root) {name : String} (start : String)
    (relative : ¬name.startsWith "/" = true) (filled : components ≠ []) :
    join ⟨start ++ slashed components⟩ name =
      ⟨start ++ slashed (components ++ [.name name])⟩ := by
  obtain ⟨last, ends, other⟩ := exists_getLast?_slashed proper inner filled
  have written : (slashed components).toList ≠ [] := by
    intro empty
    rw [empty] at ends
    cases ends
  have finish : (start ++ slashed components).toList.getLast? = some last := by
    rw [String.toList_append, List.getLast?_append_of_ne_nil _ written, ends]
  have open' : (start ++ slashed components).endsWith "/" = false := by
    rw [Bool.eq_false_iff, ne_eq, endsWith_slash_iff, finish]
    exact fun same => other (Option.some_inj.1 same)
  have nonempty : (start ++ slashed components).isEmpty = false := by
    rw [Bool.eq_false_iff, ne_eq, String.isEmpty_iff]
    intro empty
    rw [empty] at finish
    cases finish
  rw [join, if_neg relative]
  simp only [nonempty, open', Bool.or_false, Bool.false_eq_true, if_false]
  rw [slashed_concat filled, String.append_assoc, String.append_assoc, String.append_assoc]
  rfl

/-- A name that is joined to a path made of components is one more component. -/
theorem join_ofComponents {components : List Component} (are : AreProper components) {name : String}
    (relative : ¬name.startsWith "/" = true) :
    (ofComponents components).join name = ofComponents (components ++ [.name name]) := by
  rcases are.inner_or_root with inner | ⟨rest, rfl, proper, inner⟩
  · have longer : ∀ component ∈ components ++ [.name name], component ≠ .root := by
      intro component listed
      rcases List.mem_append.1 listed with held | held
      · exact inner component held
      · exact List.mem_singleton.1 held ▸ nofun
    have left : ofComponents components = ⟨"" ++ slashed components⟩ := by
      rw [String.empty_append, ← text_ofComponents_of_inner inner]
    have right : ofComponents (components ++ [.name name]) =
        ⟨"" ++ slashed (components ++ [.name name])⟩ := by
      rw [String.empty_append, ← text_ofComponents_of_inner longer]
    rw [left, right]
    by_cases filled : components = []
    · subst filled
      rw [join, if_neg relative]
      simp [slashed, Component.text]
    · exact join_slashed are.proper inner "" relative filled
  · change join ⟨"/" ++ slashed rest⟩ name = ⟨"/" ++ slashed (rest ++ [.name name])⟩
    by_cases filled : rest = []
    · subst filled
      have ends : ("/" ++ slashed []).endsWith "/" = true := (endsWith_slash_iff _).2 rfl
      rw [join, if_neg relative, ends, Bool.or_true, if_pos rfl]
      simp [slashed, Component.text]
    · exact join_slashed proper inner "/" relative filled

end Path

end Glean
