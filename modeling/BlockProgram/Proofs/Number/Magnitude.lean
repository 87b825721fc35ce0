import BlockProgram.Number.Binary64
import Mathlib.Order.Monotone.Basic
import Mathlib.Tactic.Ring

/-!
Magnitudes. A double is its sign and its magnitude, and a greater magnitude stands for a greater value
(`units_strictMono`). Values that follow each other are a power of two apart (`units_succ`):

    exponent      0            1            2                3
    value         0 ... 2^52   ... 2^53     ... 2^54         ... 2^55
    gap           1            1            2                4
-/

namespace BlockProgram
namespace Binary64

variable {x y : Binary64} {m n : Nat}

/-! ### Sign and magnitude -/

theorem magnitude_lt (x : Binary64) : x.magnitude < 2 ^ 63 :=
  Nat.mod_lt _ (by decide)

theorem toNat_bits (x : Binary64) :
    x.bits.toNat = (if x.isNegative then 2 ^ 63 else 0) + x.magnitude := by
  have hbits : x.bits.toNat < 2 ^ 64 := x.bits.toNat_lt
  simp only [isNegative, magnitude, Nat.pow_eq, decide_eq_true_eq]
  split <;> omega

theorem ext_parts (hsign : x.isNegative = y.isNegative) (hmagnitude : x.magnitude = y.magnitude) :
    x = y := by
  have hbits : x.bits.toNat = y.bits.toNat := by
    rw [toNat_bits, toNat_bits, hsign, hmagnitude]
  cases x
  cases y
  exact congrArg _ (UInt64.toNat_inj.1 hbits)

/-! ### Values -/

/-- How far the value of a magnitude is from the next. -/
def gap (m : Nat) : Nat :=
  2 ^ (m / 2 ^ 52 - 1)

theorem gap_pos (m : Nat) : 0 < gap m :=
  Nat.pow_pos Nat.two_pos

theorem units_succ (m : Nat) : units (m + 1) = units m + gap m := by
  simp only [units, gap, Nat.pow_eq]
  have hpos : 0 < 2 ^ 52 := by decide
  generalize 2 ^ 52 = p at hpos ⊢
  have hm := Nat.mod_add_div m p
  have hlt := Nat.mod_lt m hpos
  generalize m / p = e at hm ⊢
  generalize m % p = f at hm hlt ⊢
  rcases (show f + 1 ≤ p from hlt).lt_or_eq with hnext | hlast
  · obtain ⟨hdiv, hmod⟩ := (Nat.div_mod_unique hpos).2
      (⟨by omega, hnext⟩ : f + 1 + p * e = m + 1 ∧ f + 1 < p)
    rw [hdiv, hmod]
    split
    · rename_i hzero
      rw [hzero]
      rfl
    · ring
  · -- The last magnitude of its exponent: the next has the next exponent and no fraction.
    obtain ⟨hdiv, hmod⟩ := (Nat.div_mod_unique hpos).2
      (⟨by rw [Nat.mul_succ]; omega, hpos⟩ : 0 + p * (e + 1) = m + 1 ∧ 0 < p)
    rw [hdiv, hmod, if_neg (Nat.succ_ne_zero e), Nat.add_sub_cancel, Nat.add_zero]
    cases e with
    | zero => rw [if_pos rfl, ← hlast, pow_zero, Nat.mul_one]
    | succ e =>
      rw [if_neg (Nat.succ_ne_zero e), Nat.add_sub_cancel, ← hlast]
      ring

theorem units_strictMono : StrictMono units :=
  strictMono_nat_of_lt_succ fun m => by
    rw [units_succ]
    exact Nat.lt_add_of_pos_right (gap_pos m)

@[simp]
theorem units_lt_units_iff : units m < units n ↔ m < n :=
  units_strictMono.lt_iff_lt

@[simp]
theorem units_le_units_iff : units m ≤ units n ↔ m ≤ n :=
  units_strictMono.le_iff_le

@[simp]
theorem units_zero : units 0 = 0 :=
  rfl

theorem units_pos (h : 0 < m) : 0 < units m :=
  units_zero ▸ units_strictMono h

end Binary64
end BlockProgram
