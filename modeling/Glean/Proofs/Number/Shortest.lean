import Mathlib.Tactic.Ring
import Glean.Number.Decimal

/-!
# The shortest decimal reads back

A decimal reads back when it lies between the midpoints to the two neighbouring numbers. The search
of `shortest` comes to such a decimal, since with seventeen digits one of the two decimals around
the number always is one (`isSome_nearest?_around`, `admits_shortest`).

Below `2 ^ 53` the only integer between the midpoints is the number itself (`value_around_eq`).
So the shortest decimal of an integer is this integer (`shortest_of_whole`), and only the integer
itself has it (`value_of_shortest`).
-/

namespace Glean.Number

/-- Powers of ten are those of the library. -/
@[simp]
theorem tenTo_eq (exponent : Nat) : tenTo exponent = 10 ^ exponent := rfl

namespace Interval

variable {interval : Interval} {tie : Tie} {digits : Nat} {exponent : Int} {decimal : Decimal}

/-- A decimal that reads back lies between the midpoints. -/
theorem le_of_admits (admitted : interval.admits digits exponent) :
    interval.lower * 10 ^ (-exponent).toNat ≤ digits * 10 ^ exponent.toNat * interval.scale ∧
      digits * 10 ^ exponent.toNat * interval.scale ≤ interval.upper * 10 ^ (-exponent).toNat := by
  dsimp only [admits] at admitted
  split at admitted <;> obtain ⟨above, below⟩ := Bool.and_eq_true_iff.1 admitted
  · exact ⟨of_decide_eq_true above, of_decide_eq_true below⟩
  · exact ⟨Nat.le_of_lt (of_decide_eq_true above), Nat.le_of_lt (of_decide_eq_true below)⟩

/-- A decimal strictly between the midpoints reads back. -/
theorem admits_of_lt
    (above : interval.lower * 10 ^ (-exponent).toNat <
      digits * 10 ^ exponent.toNat * interval.scale)
    (below : digits * 10 ^ exponent.toNat * interval.scale <
      interval.upper * 10 ^ (-exponent).toNat) :
    interval.admits digits exponent := by
  dsimp only [admits]
  split <;> refine Bool.and_eq_true_iff.2 ⟨decide_eq_true ?_, decide_eq_true ?_⟩
  · exact Nat.le_of_lt above
  · exact Nat.le_of_lt below
  · exact above
  · exact below

/-- What is found at an exponent has this exponent and reads back. -/
theorem admits_of_nearest? (found : interval.nearest? tie exponent = some decimal) :
    decimal.exponent = exponent ∧ interval.admits decimal.digits decimal.exponent := by
  unfold nearest? at found
  dsimp only at found
  split at found
  · rename_i below above
    cases found
    refine ⟨rfl, ?_⟩
    unfold nearer
    dsimp only
    split
    · exact below
    · exact above
  · rename_i below _
    cases found
    exact ⟨rfl, below⟩
  · rename_i _ above
    cases found
    exact ⟨rfl, above⟩
  · cases found

/-- Nothing is found where neither of the two decimals around the number reads back. -/
theorem isSome_nearest? : (interval.nearest? tie exponent).isSome =
    (interval.admits (interval.units exponent) exponent ||
      interval.admits (interval.units exponent + 1) exponent) := by
  unfold nearest?
  dsimp only
  split <;> rename_i below above <;> rw [below, above] <;> rfl

/-- When something is found at an exponent on the way, the search ends there or before, with a
decimal that reads back. -/
theorem firstFit_of_isSome {steps : Nat} {start : Int}
    (found : (interval.nearest? tie exponent).isSome) (before : exponent ≤ start)
    (within : start < exponent + steps) :
    let fit := interval.firstFit tie steps start
    exponent ≤ fit.exponent ∧ interval.admits fit.digits fit.exponent := by
  induction steps generalizing start with
  | zero => omega
  | succ steps ih =>
    unfold firstFit
    cases here : interval.nearest? tie start with
    | some decimal =>
      obtain ⟨same, admitted⟩ := admits_of_nearest? here
      exact ⟨by simpa [same] using before, admitted⟩
    | none =>
      have other : exponent ≠ start := by
        rintro rfl
        simp [here] at found
      exact ih (by omega) (by omega)

/-- Multiplying by ten goes on until the number reaches one. -/
theorem descend_spec {fuel numerator : Nat} (count : Nat)
    (reaches : interval.scale ≤ 10 ^ fuel * numerator) :
    let result := places.descend interval fuel numerator count
    count ≤ result ∧ interval.scale ≤ 10 ^ (result - count) * numerator := by
  induction fuel generalizing numerator count with
  | zero => simpa [places.descend] using reaches
  | succ fuel ih =>
    unfold places.descend
    split
    · rename_i reached
      exact ⟨Nat.le_refl _, by simpa using reached⟩
    · have later : interval.scale ≤ 10 ^ fuel * (10 * numerator) := by
        rwa [← Nat.mul_assoc, ← Nat.pow_succ]
      obtain ⟨more, reached⟩ := ih (count + 1) later
      refine ⟨Nat.le_of_succ_le more, ?_⟩
      rwa [← Nat.mul_assoc, ← Nat.pow_succ, Nat.succ_eq_add_one, Nat.sub_add_eq,
        Nat.sub_add_cancel (by omega)] at reached

/-- A numeral of so many digits stands for at least the power of ten at its first place. -/
theorem pow_length_le {whole : Nat} (nonzero : whole ≠ 0) :
    10 ^ ((Nat.toDigits 10 whole).length - 1) ≤ whole := by
  have long : 0 < (Nat.toDigits 10 whole).length := Nat.length_toDigits_pos
  rcases Nat.eq_zero_or_pos ((Nat.toDigits 10 whole).length - 1) with short | more
  · rw [short]
    omega
  · have exceeds := (Nat.length_toDigits_le_iff (n := whole) (by decide : 1 < 10) more).not.1
    omega

/-- A number is at least the power of ten at its first place. -/
theorem ten_pow_places_le (reaches : interval.scale ≤ 10 ^ 400 * interval.value) :
    10 ^ (interval.places - 1).toNat * interval.scale ≤
      interval.value * 10 ^ (-(interval.places - 1)).toNat := by
  unfold places
  dsimp only
  split
  · rename_i nonzero
    have least := Nat.mul_le_mul_right interval.scale (pow_length_le nonzero)
    have long : 0 < (Nat.toDigits 10 (interval.value / interval.scale)).length :=
      Nat.length_toDigits_pos
    generalize (Nat.toDigits 10 (interval.value / interval.scale)).length = length at least long ⊢
    rw [show (-((length : Int) - 1)).toNat = 0 by omega,
      show ((length : Int) - 1).toNat = length - 1 by omega, Nat.pow_zero, Nat.mul_one]
    exact Nat.le_trans least (Nat.div_mul_le_self ..)
  · obtain ⟨_, reached⟩ := descend_spec 0 reaches
    generalize places.descend interval 400 interval.value 0 = count at reached ⊢
    rw [show (1 - (count : Int) - 1).toNat = 0 by omega,
      show (-(1 - (count : Int) - 1)).toNat = count by omega, Nat.pow_zero, Nat.one_mul,
      Nat.mul_comm]
    exact reached

/-- Where one unit is less than the distance of the midpoints, a decimal next to the number reads
back. -/
theorem isSome_nearest?_of_width (below : interval.lower < interval.value)
    (above : interval.value < interval.upper) (positive : 0 < interval.scale)
    (wide : 10 ^ exponent.toNat * interval.scale + interval.lower * 10 ^ (-exponent).toNat <
      interval.upper * 10 ^ (-exponent).toNat) :
    (interval.nearest? tie exponent).isSome := by
  have tens : 0 < 10 ^ (-exponent).toNat := Nat.pow_pos (by decide)
  have unit : 0 < 10 ^ exponent.toNat * interval.scale :=
    Nat.mul_pos (Nat.pow_pos (by decide)) positive
  have lower := Nat.mul_lt_mul_of_pos_right below tens
  have upper := Nat.mul_lt_mul_of_pos_right above tens
  have least : interval.units exponent * (10 ^ exponent.toNat * interval.scale) ≤
      interval.value * 10 ^ (-exponent).toNat := Nat.div_mul_le_self ..
  have most : interval.value * 10 ^ (-exponent).toNat <
      (interval.units exponent + 1) * (10 ^ exponent.toNat * interval.scale) := by
    rw [Nat.mul_comm (_ + 1)]
    exact Nat.lt_mul_div_succ _ unit
  rw [isSome_nearest?, Bool.or_eq_true]
  generalize interval.units exponent = units at least most ⊢
  rw [Nat.add_mul, Nat.one_mul] at most
  by_cases first : interval.lower * 10 ^ (-exponent).toNat <
      units * (10 ^ exponent.toNat * interval.scale)
  · refine .inl (admits_of_lt ?_ ?_) <;> rw [Nat.mul_assoc] <;> omega
  · refine .inr (admits_of_lt ?_ ?_) <;> rw [Nat.mul_assoc, Nat.add_mul, Nat.one_mul] <;> omega

end Interval

section Around

variable {significand : Nat} {exponent : Int} {tie : Tie}

/-- A number with seventeen places is worth at least `10 ^ 16` of their units. -/
theorem Interval.ten_pow_mul_unit_le {interval : Interval}
    (reaches : interval.scale ≤ 10 ^ 400 * interval.value) :
    let exponent := interval.places - 17
    10 ^ 16 * (10 ^ exponent.toNat * interval.scale) ≤
      interval.value * 10 ^ (-exponent).toNat := by
  intro exponent
  have least := Interval.ten_pow_places_le reaches
  have first : interval.places - 1 = exponent + 16 := by omega
  rw [first] at least
  have balanced : 10 ^ (exponent + 16).toNat * 10 ^ (-exponent).toNat =
      10 ^ 16 * 10 ^ exponent.toNat * 10 ^ (-(exponent + 16)).toNat := by
    rw [← Nat.pow_add, ← Nat.pow_add, ← Nat.pow_add]
    congr 1
    omega
  have tens : 0 < 10 ^ (-(exponent + 16)).toNat := Nat.pow_pos (by decide)
  refine Nat.le_of_mul_le_mul_right ?_ tens
  calc 10 ^ 16 * (10 ^ exponent.toNat * interval.scale) * 10 ^ (-(exponent + 16)).toNat
      = 10 ^ (exponent + 16).toNat * interval.scale * 10 ^ (-exponent).toNat := by
        rw [Nat.mul_right_comm (10 ^ (exponent + 16).toNat), balanced]
        ring
    _ ≤ interval.value * 10 ^ (-(exponent + 16)).toNat * 10 ^ (-exponent).toNat :=
        Nat.mul_le_mul_right _ least
    _ = interval.value * 10 ^ (-exponent).toNat * 10 ^ (-(exponent + 16)).toNat :=
        Nat.mul_right_comm ..

/-- Below a power of two the lower midpoint is nearer, but the significand is then the least one. -/
theorem Interval.lower_around (significand : Nat) (exponent : Int) :
    ∃ distance, (Interval.around significand exponent).lower =
        (4 * significand - distance) * 2 ^ (exponent - 2).toNat ∧
      (distance = 2 ∧ (significand = 2 ^ 52 → exponent ≤ -1074) ∨
        distance = 1 ∧ significand = 2 ^ 52) := by
  by_cases narrow : significand = twoTo 52 ∧ -1074 < exponent
  · refine ⟨1, ?_, .inr ⟨rfl, narrow.1⟩⟩
    simp only [Interval.around, if_pos narrow]
    rfl
  · refine ⟨2, ?_, .inl ⟨rfl, fun least => not_lt.1 fun more => narrow ⟨least, more⟩⟩⟩
    simp only [Interval.around, if_neg narrow]
    rfl

/-- A positive number lies strictly between the midpoints. -/
theorem lower_lt_value_lt_upper (positive : 0 < significand) (exponent : Int) :
    let interval := Interval.around significand exponent
    interval.lower < interval.value ∧ interval.value < interval.upper := by
  intro interval
  have unit : 0 < 2 ^ (exponent - 2).toNat := Nat.two_pow_pos _
  obtain ⟨distance, lower, either⟩ := Interval.lower_around significand exponent
  constructor
  · rw [show interval.lower = _ from lower]
    have below : 4 * significand - distance < 4 * significand := by omega
    exact Nat.mul_lt_mul_of_pos_right below unit
  · have above : 4 * significand < 4 * significand + 2 := by omega
    exact Nat.mul_lt_mul_of_pos_right above unit

/-- Three bits are no more than one decimal place. -/
theorem two_pow_le_ten_pow {bits places : Nat} (enough : bits ≤ 3 * places) :
    2 ^ bits ≤ 10 ^ places :=
  calc 2 ^ bits ≤ 2 ^ (3 * places) := Nat.pow_le_pow_right Nat.two_pos enough
    _ = (2 ^ 3) ^ places := Nat.pow_mul ..
    _ ≤ 10 ^ places := Nat.pow_le_pow_left (by decide) places

/-- Seventeen digits suffice: a decimal with so many digits reads back. -/
theorem isSome_nearest?_around (positive : 0 < significand) (most : significand < 2 ^ 53)
    (least : -1074 ≤ exponent) :
    let interval := Interval.around significand exponent
    (interval.nearest? tie (interval.places - 17)).isSome := by
  intro interval
  let unit := 2 ^ (exponent - 2).toNat
  have units : 0 < unit := Nat.two_pow_pos _
  have scale : interval.scale = 2 ^ (2 - exponent).toNat := rfl
  have value : interval.value = 4 * significand * unit := rfl
  have upper : interval.upper = (4 * significand + 2) * unit := rfl
  have reaches : interval.scale ≤ 10 ^ 400 * interval.value := by
    have small : interval.scale ≤ 10 ^ 400 := two_pow_le_ten_pow (by omega)
    have some : 0 < interval.value := Nat.mul_pos (by omega) units
    exact Nat.le_trans small (Nat.le_mul_of_pos_right _ some)
  have tens := Interval.ten_pow_mul_unit_le reaches
  dsimp only at tens
  generalize interval.places - 17 = place at tens ⊢
  have positiveScale : 0 < interval.scale := Nat.two_pow_pos _
  obtain ⟨below, above⟩ := lower_lt_value_lt_upper positive exponent
  refine Interval.isSome_nearest?_of_width below above positiveScale ?_
  -- The midpoints are at least three quarters of a bit apart, a unit is less than `10⁻¹⁶` of the
  -- number, and the number has at most 53 bits.
  obtain ⟨distance, lower, either⟩ := Interval.lower_around significand exponent
  rw [value] at tens
  rw [lower, upper]
  rw [Nat.mul_assoc] at tens ⊢
  rw [Nat.mul_assoc (_ + 2)]
  have heavy : 0 < unit * 10 ^ (-place).toNat := Nat.mul_pos units (Nat.pow_pos (by decide))
  generalize unit * 10 ^ (-place).toNat = weight at tens heavy ⊢
  generalize 10 ^ place.toNat * interval.scale = point at tens ⊢
  have bounded := Nat.mul_le_mul_right weight (Nat.le_of_lt_succ most)
  have taken := Nat.mul_le_mul_right weight (Nat.sub_le (4 * significand) distance)
  rw [Nat.sub_mul, Nat.add_mul]
  rw [Nat.mul_assoc 4] at tens ⊢
  rcases either with ⟨rfl, _⟩ | ⟨rfl, rfl⟩ <;> omega

/-- An integer between the midpoints is the number itself, when one of both is less than
`2 ^ 53`. -/
theorem value_around_eq {whole : Nat}
    (complete : significand < 2 ^ 52 → exponent = -1074) :
    let interval := Interval.around significand exponent
    interval.lower ≤ whole * interval.scale → whole * interval.scale ≤ interval.upper →
      (whole < 2 ^ 53 ∨ interval.value < 2 ^ 53 * interval.scale) →
      interval.value = whole * interval.scale := by
  intro interval above below small
  have scale : interval.scale = 2 ^ (2 - exponent).toNat := rfl
  have value : interval.value = 4 * significand * 2 ^ (exponent - 2).toNat := rfl
  have upper : interval.upper = (4 * significand + 2) * 2 ^ (exponent - 2).toNat := rfl
  obtain ⟨distance, lower, either⟩ := Interval.lower_around significand exponent
  rw [show interval.lower = _ from lower] at above
  rw [scale] at above below small ⊢
  rw [upper] at below
  rw [value] at small ⊢
  rcases lt_or_ge 0 exponent with coarse | fine
  · -- The number is `2 ^ 53` at least, and an integer below that does not reach the midpoint.
    exfalso
    have complete : 2 ^ 52 ≤ significand := by omega
    rcases eq_or_ne exponent 1 with rfl | more
    · have unit : 2 ^ ((1 : Int) - 2).toNat = 1 := rfl
      have fraction : 2 ^ (2 - (1 : Int)).toNat = 2 := rfl
      rw [unit, fraction] at above small
      omega
    · have fraction : 2 ^ (2 - exponent).toNat = 1 := by
        rw [show (2 - exponent).toNat = 0 by omega, Nat.pow_zero]
      have unit : 0 < 2 ^ (exponent - 2).toNat := Nat.two_pow_pos _
      rw [fraction] at above small
      generalize 2 ^ (exponent - 2).toNat = unit at above small unit
      have value := Nat.mul_le_mul (show 2 ^ 54 ≤ 4 * significand by omega) unit
      have midpoint := Nat.mul_le_mul (show 2 ^ 54 - 2 ≤ 4 * significand - distance by omega) unit
      omega
  · -- Both are multiples of one fraction, of which the midpoints are half a multiple away.
    have unit : 2 ^ (exponent - 2).toNat = 1 := by
      rw [show (exponent - 2).toNat = 0 by omega, Nat.pow_zero]
    have parts : whole * 2 ^ (2 - exponent).toNat = 4 * (whole * 2 ^ (-exponent).toNat) := by
      rw [show (2 - exponent).toNat = (-exponent).toNat + 2 by omega, Nat.pow_add]
      ring
    rw [parts, unit] at above below
    rw [parts, unit]
    omega

/-- The shortest decimal reads back. -/
theorem admits_shortest (positive : 0 < significand) (most : significand < 2 ^ 53)
    (least : -1074 ≤ exponent) :
    let decimal := shortest tie significand exponent
    (Interval.around significand exponent).admits decimal.digits decimal.exponent :=
  (Interval.firstFit_of_isSome (isSome_nearest?_around positive most least) (by omega)
    (by omega)).2

/-- The shortest decimal of an integer less than `2 ^ 53` is this integer, in whole units. -/
theorem shortest_of_whole (tie : Tie) {whole : Nat} (positive : 0 < whole) (small : whole < 2 ^ 53)
    (complete : significand < 2 ^ 52 → exponent = -1074) (some : 0 < significand)
    (same : (Interval.around significand exponent).value =
      whole * (Interval.around significand exponent).scale) :
    let decimal := shortest tie significand exponent
    0 ≤ decimal.exponent ∧ decimal.digits * 10 ^ decimal.exponent.toNat = whole := by
  let interval := Interval.around significand exponent
  have same : interval.value = whole * interval.scale := same
  have scale : 0 < interval.scale := Nat.two_pow_pos _
  have divided : interval.value / interval.scale = whole := by
    rw [same, Nat.mul_div_cancel _ scale]
  have reads : (interval.nearest? tie 0).isSome := by
    have units : interval.units 0 = whole := by
      simp [Interval.units, divided]
    obtain ⟨below, above⟩ := lower_lt_value_lt_upper some exponent
    rw [Interval.isSome_nearest?, units, Interval.admits_of_lt, Bool.true_or]
    · simpa [← same] using below
    · simpa [← same] using above
  have places : interval.places = (Nat.toDigits 10 whole).length := by
    rw [Interval.places, divided, if_pos positive.ne']
  have long : 0 < (Nat.toDigits 10 whole).length := Nat.length_toDigits_pos
  have short : (Nat.toDigits 10 whole).length ≤ 16 :=
    (Nat.length_toDigits_le_iff (by decide) (by decide)).2 (Nat.lt_trans small (by decide))
  obtain ⟨first, admitted⟩ := Interval.firstFit_of_isSome reads
    (show 0 ≤ interval.places - 1 by omega) (show interval.places - 1 < 0 + (17 : Nat) by omega)
  refine ⟨first, ?_⟩
  obtain ⟨above, below⟩ := Interval.le_of_admits admitted
  have natural : (-(interval.firstFit tie 17 (interval.places - 1)).exponent).toNat = 0 := by omega
  rw [natural, Nat.pow_zero, Nat.mul_one] at above below
  have value := value_around_eq complete above below
    (.inr (show interval.value < 2 ^ 53 * interval.scale by
      rw [same]
      exact Nat.mul_lt_mul_of_pos_right small scale))
  exact Nat.eq_of_mul_eq_mul_right scale (value.symm.trans same)

/-- A number whose shortest decimal is an integer less than `2 ^ 53` is this integer. -/
theorem value_of_shortest {whole : Nat} (small : whole < 2 ^ 53) (positive : 0 < significand)
    (most : significand < 2 ^ 53) (least : -1074 ≤ exponent)
    (complete : significand < 2 ^ 52 → exponent = -1074)
    (same : let decimal := shortest tie significand exponent
      decimal.digits * 10 ^ decimal.exponent.toNat = whole * 10 ^ (-decimal.exponent).toNat) :
    (Interval.around significand exponent).value =
      whole * (Interval.around significand exponent).scale := by
  have admitted : (Interval.around significand exponent).admits
      (shortest tie significand exponent).digits (shortest tie significand exponent).exponent :=
    admits_shortest positive most least
  obtain ⟨above, below⟩ := Interval.le_of_admits admitted
  have tens : 0 < 10 ^ (-(shortest tie significand exponent).exponent).toNat :=
    Nat.pow_pos (by decide)
  dsimp only at same
  rw [same, Nat.mul_right_comm] at above below
  exact value_around_eq complete (Nat.le_of_mul_le_mul_right above tens)
    (Nat.le_of_mul_le_mul_right below tens) (.inl small)

end Around

end Glean.Number
