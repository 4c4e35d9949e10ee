import Glean.Helper
import Glean.Proofs.Number.Position

/-!
# Largest and smallest arguments

The helpers for the largest and the smallest argument go through the arguments from an infinity on
and keep the better one of two. What they keep is the extreme of those arguments that are numbers;
the others are passed over, where the language has them decide (`math_extremes`).
-/

namespace Glean

open Number

/-- What the language has for the extreme of numbers: an undefined one decides, without any it is
the given start, and otherwise it is one of them that all are ordered before. -/
structure IsExtreme (order : Float → Float → Prop) (start : Float) (numbers : List Float)
    (extreme : Float) : Prop where
  /-- Nothing defined comes of an undefined number. -/
  undefined : (∃ x ∈ numbers, x.isNaN = true) → extreme.isNaN = true
  /-- Without any number the start is left. -/
  start : numbers = [] → extreme = start
  /-- Otherwise one of the numbers is taken. -/
  mem : numbers ≠ [] → (∀ x ∈ numbers, x.isNaN = false) → extreme ∈ numbers
  /-- No number is better. -/
  bound : (∀ x ∈ numbers, x.isNaN = false) → ∀ x ∈ numbers, order x extreme

/-- An operation that prefers the later one of two numbers in an order, and a number to what is none.
-/
structure Prefers (order : Float → Float → Prop) (keep : Float → Float → Float) : Prop where
  /-- The order goes on. -/
  trans : ∀ {x y z : Float}, x.isNaN = false → y.isNaN = false → z.isNaN = false →
    order x y → order y z → order x z
  /-- An undefined number is passed over. -/
  passed : ∀ {x y : Float}, x.isNaN = false → y.isNaN = true → keep x y = x
  /-- A later number is taken. -/
  taken : ∀ {x y : Float}, x.isNaN = false → y.isNaN = false → order x y → keep x y = y
  /-- An earlier number is left. -/
  left : ∀ {x y : Float}, x.isNaN = false → y.isNaN = false → ¬order x y →
    keep x y = x ∧ order y x

/-- The larger of two numbers is preferred by the order. -/
theorem prefers_larger : Prefers (· ≤ ·) larger where
  trans one two three first second := by
    rw [le_iff_position_le one two] at first
    rw [le_iff_position_le two three] at second
    rw [le_iff_position_le one three]
    exact first.trans second
  passed {x y} one other := by
    have unordered : ¬x ≤ y := not_le_of_isNaN (.inr other)
    simp only [larger, one, Bool.false_or, decide_eq_true_eq, if_neg unordered]
  taken one _ before := by
    simp only [larger, one, Bool.false_or, decide_eq_true_eq, if_pos before]
  left one two behind := by
    have swapped := behind
    rw [le_iff_position_le one two, not_le] at swapped
    rw [le_iff_position_le two one]
    exact ⟨by simp only [larger, one, Bool.false_or, decide_eq_true_eq, if_neg behind], swapped.le⟩

/-- The smaller of two numbers is preferred by the reversed order. -/
theorem prefers_smaller : Prefers (· ≥ ·) smaller where
  trans one two three first second := by
    rw [ge_iff_le, le_iff_position_le two one] at first
    rw [ge_iff_le, le_iff_position_le three two] at second
    rw [ge_iff_le, le_iff_position_le three one]
    exact second.trans first
  passed {x y} one other := by
    have unordered : ¬y ≤ x := not_le_of_isNaN (.inl other)
    simp only [smaller, one, Bool.false_or, decide_eq_true_eq, if_neg unordered]
  taken one _ before := by
    simp only [smaller, one, Bool.false_or, decide_eq_true_eq, if_pos (ge_iff_le.1 before)]
  left one two behind := by
    have swapped := behind
    rw [ge_iff_le, le_iff_position_le two one, not_le] at swapped
    rw [ge_iff_le, le_iff_position_le one two]
    exact ⟨by simp only [smaller, one, Bool.false_or, decide_eq_true_eq, if_neg behind], swapped.le⟩

section Folded

variable {order : Float → Float → Prop} {keep : Float → Float → Float}
  (prefers : Prefers order keep)
include prefers

/-- An order in which one of two numbers is kept relates each number to itself. -/
theorem Prefers.refl {x : Float} (defined : x.isNaN = false) : order x x := by
  by_contra unrelated
  exact unrelated (prefers.left defined defined unrelated).2

/-- What is kept is defined when the first number is, and none of both is better. -/
theorem Prefers.step {x y : Float} (defined : x.isNaN = false) :
    (keep x y).isNaN = false ∧ order x (keep x y) ∧ (y.isNaN = false → order y (keep x y)) := by
  by_cases undefined : y.isNaN = true
  · rw [prefers.passed defined undefined]
    exact ⟨defined, prefers.refl defined, fun other => absurd undefined (by rw [other]; nofun)⟩
  · rw [Bool.not_eq_true] at undefined
    by_cases before : order x y
    · rw [prefers.taken defined undefined before]
      exact ⟨undefined, before, fun _ => prefers.refl undefined⟩
    · obtain ⟨same, behind⟩ := prefers.left defined undefined before
      rw [same]
      exact ⟨defined, prefers.refl defined, fun _ => behind⟩

/-- What is kept in the end is defined, and neither the start nor a number on the way is better. -/
theorem Prefers.foldl_bound (numbers : List Float) {start : Float} (defined : start.isNaN = false) :
    (numbers.foldl keep start).isNaN = false ∧ order start (numbers.foldl keep start) ∧
      ∀ x ∈ numbers, x.isNaN = false → order x (numbers.foldl keep start) := by
  induction numbers generalizing start with
  | nil => exact ⟨defined, prefers.refl defined, nofun⟩
  | cons first rest ih =>
    obtain ⟨next, ahead, kept⟩ := prefers.step (y := first) defined
    obtain ⟨final, later, bound⟩ := ih next
    refine ⟨final, prefers.trans defined next final ahead later, fun x listed number => ?_⟩
    rcases List.mem_cons.1 listed with rfl | among
    · exact prefers.trans number next final (kept number) later
    · exact bound x among number

/-- What is kept in the end is the start or a number on the way. -/
theorem Prefers.foldl_mem (numbers : List Float) {start : Float} (defined : start.isNaN = false) :
    numbers.foldl keep start = start ∨
      numbers.foldl keep start ∈ numbers.filter (!·.isNaN) := by
  induction numbers generalizing start with
  | nil => exact .inl rfl
  | cons first rest ih =>
    rw [List.foldl_cons]
    by_cases undefined : first.isNaN = true
    · rw [prefers.passed defined undefined, List.filter_cons_of_neg (by rw [undefined]; decide)]
      exact ih defined
    · rw [Bool.not_eq_true] at undefined
      rw [List.filter_cons_of_pos (by rw [undefined]; rfl), List.mem_cons]
      by_cases before : order start first
      · rw [prefers.taken defined undefined before]
        exact .inr (ih undefined)
      · rw [(prefers.left defined undefined before).1]
        exact (ih defined).imp_right .inr

/-- From a start that no number is before, a number is kept as soon as there is one. -/
theorem Prefers.foldl_mem_of_first (numbers : List Float) {start : Float}
    (defined : start.isNaN = false) (least : ∀ x : Float, x.isNaN = false → order start x)
    (some : numbers.filter (!·.isNaN) ≠ []) :
    numbers.foldl keep start ∈ numbers.filter (!·.isNaN) := by
  induction numbers with
  | nil => exact absurd rfl some
  | cons first rest ih =>
    rw [List.foldl_cons]
    by_cases undefined : first.isNaN = true
    · rw [List.filter_cons_of_neg (by rw [undefined]; decide)] at some ⊢
      rw [prefers.passed defined undefined]
      exact ih some
    · rw [Bool.not_eq_true] at undefined
      rw [List.filter_cons_of_pos (by rw [undefined]; rfl), List.mem_cons,
        prefers.taken defined undefined (least first undefined)]
      exact prefers.foldl_mem rest undefined

/-- What is kept is the extreme of the numbers that are defined. -/
theorem Prefers.isExtreme (numbers : List Float) {start : Float} (defined : start.isNaN = false)
    (least : ∀ x : Float, x.isNaN = false → order start x) :
    IsExtreme order start (numbers.filter (!·.isNaN)) (numbers.foldl keep start) where
  undefined := by
    rintro ⟨x, listed, undefined⟩
    have number := (List.mem_filter.1 listed).2
    rw [undefined] at number
    cases number
  start nothing := by
    rcases prefers.foldl_mem numbers defined with same | listed
    · exact same
    · rw [nothing] at listed
      cases listed
  mem some _ := prefers.foldl_mem_of_first numbers defined least some
  bound _ x listed := by
    obtain ⟨among, number⟩ := List.mem_filter.1 listed
    exact (prefers.foldl_bound numbers defined).2.2 x among (by simpa using number)

/-- What is kept is the extreme of all the numbers only when all are defined. -/
theorem Prefers.isExtreme_iff (numbers : List Float) {start : Float} (defined : start.isNaN = false)
    (least : ∀ x : Float, x.isNaN = false → order start x) :
    IsExtreme order start numbers (numbers.foldl keep start) ↔
      ∀ x ∈ numbers, x.isNaN = false := by
  constructor
  · intro extreme x listed
    by_contra undefined
    have nothing := extreme.undefined ⟨x, listed, by simpa using undefined⟩
    rw [(prefers.foldl_bound numbers defined).1] at nothing
    cases nothing
  · intro numeric
    have all : numbers.filter (!·.isNaN) = numbers :=
      List.filter_eq_self.2 fun x listed => by rw [numeric x listed]; rfl
    have extreme := prefers.isExtreme numbers defined least
    rwa [all] at extreme

end Folded

/-! ### The helpers -/

/-- Nothing is before the infinity below. -/
theorem neg_infinity_le {x : Float} (defined : x.isNaN = false) : -infinity ≤ x := by
  have below : position (-infinity) = -horizon := by rfl
  rw [le_iff_position_le (by decide +kernel) defined, below]
  exact (abs_le.1 (abs_position_le x)).1

/-- Nothing is behind the infinity above. -/
theorem le_infinity {x : Float} (defined : x.isNaN = false) : x ≤ infinity := by
  have above : position infinity = horizon := by rfl
  rw [le_iff_position_le defined (by decide +kernel), above]
  exact (abs_le.1 (abs_position_le x)).2

/-- The helpers for the largest and the smallest argument have a result for all arguments. It is the
extreme of those that are numbers, or the infinity on the other side without any; where one is not a
number it is therefore never the result that the language has, which is undefined. -/
theorem math_extremes (arguments : List Primitive) :
    let numbers := arguments.map Primitive.toNumber
    ∃ greatest least : Float,
      (Entries.get? Helpers.math "Math.max").bind (· arguments) = some (.number greatest) ∧
      (Entries.get? Helpers.math "Math.min").bind (· arguments) = some (.number least) ∧
      IsExtreme (· ≤ ·) (-infinity) (numbers.filter (!·.isNaN)) greatest ∧
      IsExtreme (· ≥ ·) infinity (numbers.filter (!·.isNaN)) least ∧
      (IsExtreme (· ≤ ·) (-infinity) numbers greatest ↔ ∀ x ∈ numbers, x.isNaN = false) ∧
      (IsExtreme (· ≥ ·) infinity numbers least ↔ ∀ x ∈ numbers, x.isNaN = false) := by
  intro numbers
  have below : (-infinity).isNaN = false := by decide +kernel
  have above : infinity.isNaN = false := by decide +kernel
  refine ⟨numbers.foldl larger (-infinity), numbers.foldl smaller infinity, rfl, rfl,
    ?_, ?_, ?_, ?_⟩
  · exact prefers_larger.isExtreme numbers below fun x => neg_infinity_le
  · exact prefers_smaller.isExtreme numbers above fun x => le_infinity
  · exact prefers_larger.isExtreme_iff numbers below fun x => neg_infinity_le
  · exact prefers_smaller.isExtreme_iff numbers above fun x => le_infinity

/-- An undefined argument before a number decides neither of both helpers, where the extreme of both
is undefined. -/
theorem not_math_extremes :
    ∃ extreme : Float,
      (Entries.get? Helpers.math "Math.max").bind (· [.undefined, .number 1]) =
        some (.number extreme) ∧
      (Entries.get? Helpers.math "Math.min").bind (· [.undefined, .number 1]) =
        some (.number extreme) ∧
      ¬IsExtreme (· ≤ ·) (-infinity)
        ([.undefined, .number 1].map Primitive.toNumber) extreme ∧
      ¬IsExtreme (· ≥ ·) infinity
        ([.undefined, .number 1].map Primitive.toNumber) extreme := by
  have undefined : ∃ x ∈ [Primitive.undefined, .number 1].map Primitive.toNumber, x.isNaN = true :=
    ⟨notANumber, List.mem_cons_self, by decide +kernel⟩
  have number : (1 : Float).isNaN = false := by decide +kernel
  refine ⟨1, by decide +kernel, by decide +kernel, fun extreme => ?_, fun extreme => ?_⟩
  · rw [extreme.undefined undefined] at number
    cases number
  · rw [extreme.undefined undefined] at number
    cases number

end Glean
