import Glean.Proofs.Entries
import Glean.Proofs.Evaluation.Comparison
import Glean.Proofs.Scope.Writes
import Mathlib.Data.List.Count

/-!
# Taking a value apart

`Pattern.Gives` is what a pattern gives to its names when it takes a value apart as the language does:
a default stands in for what is undefined, wherever it stands in the pattern.

A scope records for a name the steps to its part of the declared value and one default. That is
enough where each default is taken as a whole by a name or not at all (`Pattern.TakesWhole`): then the
recorded binding has the part that the pattern gives (`exists_binds_of_gives`).
-/

namespace Glean

open Syntax

namespace Box

/-- The box with a default in place of what is undefined, alternative by alternative. -/
def orDefault (box default : Box) : Box :=
  match box with
  | conditional whenTrue whenFalse condition node =>
    conditional (whenTrue.orDefault default) (whenFalse.orDefault default) condition node
  | literal .undefined _ => default
  | box => box

/-- No alternative of the box is undefined. -/
def Defined (box : Box) : Prop := ∀ value ∈ box.possible, value.literal? ≠ some .undefined

/-- What is defined needs no default. -/
theorem orDefault_of_defined {box : Box} (defined : box.Defined) (default : Box) :
    box.orDefault default = box := by
  fun_induction orDefault box default with
  | case1 whenTrue whenFalse condition node first second =>
    rw [first fun value listed => defined value (List.mem_append_left _ listed),
      second fun value listed => defined value (List.mem_append_right _ listed)]
  | case2 => exact absurd rfl (defined _ (List.mem_singleton.2 rfl))
  | case3 => rfl

/-- The part itself, or the value of the default when the part is undefined. -/
def chosen (value : Expr → Box) (fallback : Option Expr) (part : Box) : Box :=
  match fallback, part with
  | some fallback, .literal .undefined _ => value fallback
  | _, _ => part

/-- A part that is defined is chosen over any default. -/
theorem chosen_of_defined {part : Box} (defined : part.Defined) (value : Expr → Box)
    (fallback : Option Expr) : chosen value fallback part = part := by
  unfold chosen
  split
  · exact absurd rfl (defined _ (List.mem_singleton.2 rfl))
  · rfl

end Box

namespace Syntax.Pattern

/-- What a pattern gives to a name when it takes a box apart at a node, where `value` is what the
defaults come to. Every default that is passed must be admitted with the box that it stands by. Rest
elements and keys that are not written out give nothing. -/
inductive Gives (value : Expr → Box) (node : Reference) (admits : Pattern → Box → Prop) :
    Pattern → Box → Id → Box → Prop where
  | ident (id : Id) (box : Box) : Gives value node admits (.ident id) box id box
  | withDefault {inner : Pattern} {fallback : Expr} {box part : Box} {id : Id}
    (admitted : admits inner box)
    (gives : Gives value node admits inner (box.orDefault (value fallback)) id part) :
    Gives value node admits (.withDefault inner fallback) box id part
  | keyed {properties : List PatternProperty} {key : Key} {name : String} {inner : Pattern}
    {box part : Box} {id : Id} (listed : .keyed key inner ∈ properties)
    (written : key.written? = some name)
    (gives : Gives value node admits inner (box.read (.string name) node) id part) :
    Gives value node admits (.object properties) box id part
  | shorthand {properties : List PatternProperty} {id : Id} {box : Box}
    (listed : .shorthand id none ∈ properties) :
    Gives value node admits (.object properties) box id (box.read (.string id.name) node)
  | shorthandDefault {properties : List PatternProperty} {id : Id} {fallback : Expr} {box : Box}
    (listed : .shorthand id (some fallback) ∈ properties)
    (admitted : admits (.ident id) (box.read (.string id.name) node)) :
    Gives value node admits (.object properties) box id
      ((box.read (.string id.name) node).orDefault (value fallback))
  | element {elements : List (Option Pattern)} {position : Nat} {inner : Pattern} {box part : Box}
    {id : Id} (placed : elements[position]? = some (some inner))
    (gives : Gives value node admits inner (box.read (.number (.ofNat position)) node) id part) :
    Gives value node admits (.array elements) box id part

/-- A default before the pattern is taken as a whole by a name, or not at all. -/
def TakesWhole (inner : Pattern) (box : Box) : Prop :=
  box.Defined ∨ (∃ id, inner = .ident id) ∧ box.literal? = some .undefined

end Syntax.Pattern

namespace Finding

variable {init : Option Expr} {path : List Step} {finding : Finding}

/-- What the pattern of a keyed property finds is found by the properties. -/
theorem mem_ofProperties_of_keyed {properties : List PatternProperty} {key : Key} {name : String}
    {inner : Pattern} (listed : .keyed key inner ∈ properties) (written : key.written? = some name)
    (found : finding ∈ ofPattern init (path ++ [.key name]) none inner) :
    finding ∈ ofProperties init path properties := by
  induction properties with
  | nil => cases listed
  | cons first rest ih =>
    rcases List.mem_cons.1 listed with rfl | later
    · rw [ofProperties, written]
      exact List.mem_append_left _ found
    · cases first with
      | keyed | rest => exact List.mem_append_right _ (ih later)
      | shorthand => exact List.mem_cons_of_mem _ (ih later)

/-- A shorthand property binds its name to the part of that name, with its default. -/
theorem mem_ofProperties_of_shorthand {properties : List PatternProperty} {id : Id}
    {fallback : Option Expr} (listed : .shorthand id fallback ∈ properties) :
    .binds id (.variable ⟨init, path ++ [.key id.name], fallback⟩) ∈
      ofProperties init path properties := by
  induction properties with
  | nil => cases listed
  | cons first rest ih =>
    rcases List.mem_cons.1 listed with rfl | later
    · exact List.mem_cons_self ..
    · cases first with
      | keyed | rest => exact List.mem_append_right _ (ih later)
      | shorthand => exact List.mem_cons_of_mem _ (ih later)

/-- What the pattern of an element finds is found by the elements, at its position. -/
theorem mem_ofElements {elements : List (Option Pattern)} {position : Nat} {inner : Pattern}
    (before : Nat) (placed : elements[position]? = some (some inner))
    (found : finding ∈ ofPattern init (path ++ [.index (before + position)]) none inner) :
    finding ∈ ofElements init path before elements := by
  induction elements generalizing before position with
  | nil => simp at placed
  | cons first rest ih =>
    cases position with
    | zero =>
      obtain rfl : first = some inner := by simpa using placed
      exact List.mem_append_left _ found
    | succ position =>
      have later := ih (before + 1) (by simpa using placed) (by rwa [Nat.add_right_comm])
      cases first with
      | none => exact later
      | some => exact List.mem_append_right _ later

variable {value : Expr → Box} {node : Reference} {pattern : Pattern} {box part : Box} {id : Id}

/-- Where defaults are taken as a whole, a binding is found with the part that the pattern gives. A
default that stands before the whole pattern must make no difference. -/
theorem exists_binds_of_gives (init : Option Expr)
    (gives : pattern.Gives value node Pattern.TakesWhole box id part) (path : List Step)
    (outer : Option Expr) (idle : box.chosen value outer = box) :
    ∃ steps fallback,
      .binds id (.variable ⟨init, path ++ steps, fallback⟩) ∈ ofPattern init path outer pattern ∧
        (box.readAll node steps).chosen value fallback = part := by
  -- Along the pattern; `outer` is the default that was passed last and waits for a name.
  induction gives generalizing path outer with
  | ident id box => exact ⟨[], outer, by simp [ofPattern], idle⟩
  | @withDefault inner fallback box part id admitted gives ih =>
    rcases admitted with defined | ⟨⟨name, rfl⟩, undefined⟩
    · rw [Box.orDefault_of_defined defined] at ih
      exact ih path (some fallback) (Box.chosen_of_defined defined ..)
    · cases gives
      refine ⟨[], some fallback, by simp [ofPattern], ?_⟩
      cases box with
      | literal =>
        obtain rfl := Option.some_inj.1 undefined
        rfl
      | _ => cases undefined
  | @keyed properties key name inner box part id listed written _ ih =>
    obtain ⟨steps, fallback, found, same⟩ := ih (path ++ [.key name]) none rfl
    rw [List.append_assoc] at found
    exact ⟨.key name :: steps, fallback, mem_ofProperties_of_keyed listed written found, same⟩
  | @shorthand properties id box listed =>
    exact ⟨[.key id.name], none, mem_ofProperties_of_shorthand listed, rfl⟩
  | @shorthandDefault properties id fallback box listed admitted =>
    refine ⟨[.key id.name], some fallback, mem_ofProperties_of_shorthand listed, ?_⟩
    change (box.read (.string id.name) node).chosen value (some fallback) = _
    generalize box.read (.string id.name) node = read at admitted ⊢
    rcases admitted with defined | ⟨_, undefined⟩
    · rw [Box.orDefault_of_defined defined, Box.chosen_of_defined defined]
    · cases read with
      | literal =>
        obtain rfl := Option.some_inj.1 undefined
        rfl
      | _ => cases undefined
  | @element elements position inner box part id placed _ ih =>
    obtain ⟨steps, fallback, found, same⟩ := ih (path ++ [.index position]) none rfl
    rw [List.append_assoc] at found
    refine ⟨.index position :: steps, fallback, mem_ofElements 0 placed ?_, same⟩
    rw [Nat.zero_add]
    simpa using found

end Finding

/-- The names that a module declares, each as often as it is declared. -/
def Syntax.Module.declared (module : Module) : List Id :=
  Entries.keys ((Finding.ofModule module).filterMap Finding.made?)

/-- What is found for a name that is declared once is what the name stands for. -/
theorem Scope.binding?_of_single {file : Path} {module : Module} {id : Id} {binding : Binding}
    (found : .binds id binding ∈ Finding.ofModule module)
    (single : module.declared.count id ≤ 1) :
    (Scope.collect file module).binding? id = some binding :=
  Entries.get?_ofList_of_count (List.mem_filterMap.2 ⟨_, found, rfl⟩) single

end Glean
