import BlockProgram.Proofs.Number.Magnitude

/-!
The total order of IEEE 754 (§5.10 `totalOrder`), without the equality of equal bits:

    -NaN quiet, signaling   -inf  ...  -0   0  ...  inf   signaling, quiet NaN
           greater payload first                      smaller payload first

Numbers are ordered by value; the standard then lists the zeros and the NaNs by sign, by kind and by payload
(`Precedes`). All of it is the order of one integer (`precedes_iff`), so the order is linear.
-/

namespace BlockProgram
namespace Binary64

variable {x y z : Binary64}

/-! ### The order of the standard -/

/-- The value of a number in units of `2 ^ (-1074)`. The infinities stand at `± 2 ^ 1024`, beyond all
finite ones. -/
def value (x : Binary64) : Int :=
  if x.isNegative then -(units x.magnitude : Int) else units x.magnitude

/-- Whether a NaN is quiet, rather than signaling. -/
def isQuiet (x : Binary64) : Bool :=
  2 ^ 51 ≤ x.magnitude % 2 ^ 52

/-- The number that a NaN carries. -/
def payload (x : Binary64) : Nat :=
  x.magnitude % 2 ^ 51

/-- Signaling NaNs are below quiet ones, and those of a kind are ordered by payload. -/
def BelowAsNaN (x y : Binary64) : Prop :=
  x.isQuiet < y.isQuiet ∨ x.isQuiet = y.isQuiet ∧ x.payload < y.payload

/-- One double stands before another in the total order. -/
inductive Precedes (x y : Binary64) : Prop
  /-- Numbers are ordered by value. -/
  | value (hx : x.isNaN = false) (hy : y.isNaN = false) (h : x.value < y.value)
  /-- Of the two zeros the negative one comes first. -/
  | zero (hx : x.isZero = true) (hy : y.isZero = true) (hminus : x.isNegative = true)
    (hplus : y.isNegative = false)
  /-- A negative NaN stands before all numbers. -/
  | negativeNaN (hx : x.isNaN = true) (hminus : x.isNegative = true) (hy : y.isNaN = false)
  /-- A positive NaN stands after all numbers. -/
  | positiveNaN (hx : x.isNaN = false) (hy : y.isNaN = true) (hplus : y.isNegative = false)
  /-- A negative NaN stands before a positive one. -/
  | signs (hx : x.isNaN = true) (hy : y.isNaN = true) (hminus : x.isNegative = true)
    (hplus : y.isNegative = false)
  /-- Positive NaNs are ordered by kind and payload. -/
  | positiveNaNs (hx : x.isNaN = true) (hy : y.isNaN = true) (hplus : x.isNegative = false)
    (hplus' : y.isNegative = false) (h : x.BelowAsNaN y)
  /-- Negative NaNs are ordered the other way round. -/
  | negativeNaNs (hx : x.isNaN = true) (hy : y.isNaN = true) (hminus : x.isNegative = true)
    (hminus' : y.isNegative = true) (h : y.BelowAsNaN x)

/-! ### The order of keys -/

theorem isNaN_iff : x.isNaN = true ↔ infinity < x.magnitude := by
  rw [isNaN, decide_eq_true_eq]

theorem isNaN_eq_false_iff : x.isNaN = false ↔ x.magnitude ≤ infinity := by
  rw [isNaN, decide_eq_false_iff_not, Nat.not_lt]

theorem orderKey_negative (h : x.isNegative = true) : x.orderKey = -(x.magnitude : Int) - 1 := by
  rw [orderKey, if_pos h]

theorem orderKey_positive (h : x.isNegative = false) : x.orderKey = x.magnitude := by
  rw [orderKey, h, if_neg Bool.false_ne_true]

theorem value_negative (h : x.isNegative = true) : x.value = -(units x.magnitude : Int) := by
  rw [value, if_pos h]

theorem value_positive (h : x.isNegative = false) : x.value = units x.magnitude := by
  rw [value, h, if_neg Bool.false_ne_true]

/-- The order of numbers by value is that of their keys, up to the zeros. -/
theorem orderKey_lt_of_value_lt (h : x.value < y.value) : x.orderKey < y.orderKey := by
  cases hx : x.isNegative <;> cases hy : y.isNegative
  · rw [value_positive hx, value_positive hy, Nat.cast_lt, units_lt_units_iff] at h
    rw [orderKey_positive hx, orderKey_positive hy]
    omega
  · rw [value_positive hx, value_negative hy] at h
    omega
  · rw [orderKey_negative hx, orderKey_positive hy]
    omega
  · rw [value_negative hx, value_negative hy, neg_lt_neg_iff, Nat.cast_lt, units_lt_units_iff] at h
    rw [orderKey_negative hx, orderKey_negative hy]
    omega

/-- NaNs are ordered by magnitude: its highest bit below the exponent tells their kind. -/
theorem belowAsNaN_iff (hx : x.isNaN = true) (hy : y.isNaN = true) :
    x.BelowAsNaN y ↔ x.magnitude < y.magnitude := by
  have hxlt := x.magnitude_lt
  have hylt := y.magnitude_lt
  rw [isNaN_iff, infinity] at hx hy
  simp only [BelowAsNaN, isQuiet, payload, Bool.lt_iff, decide_eq_true_eq, decide_eq_false_iff_not,
    decide_eq_decide]
  omega

theorem Precedes.orderKey_lt (h : Precedes x y) : x.orderKey < y.orderKey := by
  cases h with
  | value _ _ h => exact orderKey_lt_of_value_lt h
  | zero _ _ hminus hplus | signs _ _ hminus hplus =>
    rw [orderKey_negative hminus, orderKey_positive hplus]
    omega
  | negativeNaN hx hminus hy =>
    rw [isNaN_iff] at hx
    rw [isNaN_eq_false_iff] at hy
    rw [orderKey_negative hminus, orderKey]
    split <;> omega
  | positiveNaN hx hy hplus =>
    rw [isNaN_eq_false_iff] at hx
    rw [isNaN_iff] at hy
    rw [orderKey_positive hplus, orderKey]
    split <;> omega
  | positiveNaNs hx hy hplus hplus' h =>
    rw [belowAsNaN_iff hx hy] at h
    rw [orderKey_positive hplus, orderKey_positive hplus']
    omega
  | negativeNaNs hx hy hminus hminus' h =>
    rw [belowAsNaN_iff hy hx] at h
    rw [orderKey_negative hminus, orderKey_negative hminus']
    omega

/-- Two numbers that are ordered by their keys are ordered by value, or they are the two zeros. -/
theorem precedes_of_numbers (hx : x.isNaN = false) (hy : y.isNaN = false)
    (h : x.orderKey < y.orderKey) : Precedes x y := by
  cases hsx : x.isNegative <;> cases hsy : y.isNegative
  · refine .value hx hy ?_
    rw [orderKey_positive hsx, orderKey_positive hsy] at h
    rw [value_positive hsx, value_positive hsy, Nat.cast_lt, units_lt_units_iff]
    omega
  · rw [orderKey_positive hsx, orderKey_negative hsy] at h
    omega
  · rcases Nat.eq_zero_or_pos (x.magnitude + y.magnitude) with hzero | hpos
    · obtain ⟨hxzero, hyzero⟩ := Nat.add_eq_zero_iff.1 hzero
      exact .zero (decide_eq_true hxzero) (decide_eq_true hyzero) hsx hsy
    · refine .value hx hy ?_
      rw [value_negative hsx, value_positive hsy]
      rcases Nat.add_pos_iff_pos_or_pos.1 hpos with hpos | hpos
      · have := units_pos hpos
        omega
      · have := units_pos hpos
        omega
  · refine .value hx hy ?_
    rw [orderKey_negative hsx, orderKey_negative hsy] at h
    rw [value_negative hsx, value_negative hsy, neg_lt_neg_iff, Nat.cast_lt, units_lt_units_iff]
    omega

/-- The total order of doubles is the order of their keys. -/
theorem precedes_iff : Precedes x y ↔ x.orderKey < y.orderKey := by
  refine ⟨Precedes.orderKey_lt, fun h => ?_⟩
  cases hx : x.isNaN <;> cases hy : y.isNaN
  · exact precedes_of_numbers hx hy h
  · cases hsy : y.isNegative with
    | false => exact .positiveNaN hx hy hsy
    | true =>
      rw [isNaN_eq_false_iff] at hx
      rw [isNaN_iff] at hy
      rw [orderKey_negative hsy, orderKey] at h
      split at h <;> omega
  · cases hsx : x.isNegative with
    | true => exact .negativeNaN hx hsx hy
    | false =>
      rw [isNaN_iff] at hx
      rw [isNaN_eq_false_iff] at hy
      rw [orderKey_positive hsx, orderKey] at h
      split at h <;> omega
  · cases hsx : x.isNegative <;> cases hsy : y.isNegative
    · rw [orderKey_positive hsx, orderKey_positive hsy, Nat.cast_lt] at h
      exact .positiveNaNs hx hy hsx hsy ((belowAsNaN_iff hx hy).2 h)
    · rw [orderKey_positive hsx, orderKey_negative hsy] at h
      omega
    · exact .signs hx hy hsx hsy
    · rw [orderKey_negative hsx, orderKey_negative hsy] at h
      exact .negativeNaNs hx hy hsx hsy ((belowAsNaN_iff hy hx).2 (by omega))

/-- Doubles of the same key have the same bits. -/
theorem orderKey_injective : Function.Injective orderKey := by
  intro x y h
  have hsign : x.isNegative = y.isNegative := by
    cases hsx : x.isNegative <;> cases hsy : y.isNegative
    · rfl
    · rw [orderKey_positive hsx, orderKey_negative hsy] at h
      omega
    · rw [orderKey_negative hsx, orderKey_positive hsy] at h
      omega
    · rfl
  refine ext_parts hsign ?_
  rw [orderKey, orderKey, hsign] at h
  split at h <;> omega

end Binary64
end BlockProgram
