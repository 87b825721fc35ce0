import BlockProgram.Number.Decimal
import BlockProgram.Proofs.Number.Magnitude
import Mathlib

/-!
Rounding to the nearest double. The bisection finds the last magnitude that is not above a ratio
(`bisect_eq`), so a ratio less than half a gap from the value of a magnitude rounds to that magnitude
(`nearest_eq`):

    m - 1           m                 m + 1
      |-------|-----*--------|----------|
              (  rounds to m )

What a ratio rounds to depends on its value only, so decimals may be compared as rational numbers
(`nearestDecimal_congr`).
-/

namespace BlockProgram
namespace Binary64

variable {num den num' den' m n found : Nat} {d d' : Decimal}

/-! ### Bisection -/

/-- The bisection finds the last magnitude that fits, wherever the search for it stands. -/
theorem bisect_eq (hfit : ∀ k, k ≤ infinity ∧ units k * den ≤ num ↔ k ≤ m) (hlow : found ≤ m)
    (hhigh : m < found + 2 ^ n) : bisect num den n found = m := by
  induction n generalizing found with
  | zero =>
    rw [bisect]
    omega
  | succ n ih =>
    rw [Nat.pow_succ] at hhigh
    simp only [bisect, Nat.pow_eq]
    by_cases hnext : found + 2 ^ n ≤ m
    · rw [if_pos ((hfit _).2 hnext)]
      exact ih hnext (by omega)
    · rw [if_neg (mt (hfit _).1 hnext)]
      exact ih hlow (by omega)

/-- Between the values of two magnitudes the bisection finds the lower one. -/
theorem bisect_eq_of_lt (hm : m < infinity) (hlow : units m * den ≤ num)
    (hhigh : num < units (m + 1) * den) : bisect num den 63 0 = m := by
  refine bisect_eq (fun k => ⟨fun ⟨_, hk⟩ => ?_, fun hk => ⟨hk.trans hm.le, ?_⟩⟩) (Nat.zero_le m) ?_
  · exact Nat.lt_succ_iff.1 (units_lt_units_iff.1 (Nat.lt_of_mul_lt_mul_right (hk.trans_lt hhigh)))
  · exact (Nat.mul_le_mul_right den (units_le_units_iff.2 hk)).trans hlow
  · rw [infinity] at hm
    omega

/-- A ratio that is less than half a gap away from the value of a magnitude is rounded to it. -/
theorem nearest_eq (hm : m < infinity) (hlow : 2 * units m * den < 2 * num + gap (m - 1) * den)
    (hhigh : 2 * num < (2 * units m + gap m) * den) : nearest num den = m := by
  rw [Nat.add_mul] at hhigh
  rcases Nat.lt_or_ge num (units m * den) with hlt | hle
  · -- Below the value: the bisection stops one magnitude short, and the middle lies between.
    cases m with
    | zero => simp at hlt
    | succ k =>
      rw [Nat.add_sub_cancel] at hlow
      rw [units_succ, Nat.add_mul] at hlt
      rw [units_succ, Nat.mul_add, Nat.add_mul] at hlow
      have hbisect : bisect num den 63 0 = k := by
        refine bisect_eq_of_lt (by omega) ?_ ?_
        · nlinarith
        · rw [units_succ, Nat.add_mul]
          exact hlt
      rw [nearest, hbisect, units_succ, if_neg, if_pos]
      · linarith
      · rintro (heq | hbelow)
        · omega
        · linarith
  · have hbisect : bisect num den 63 0 = m := by
      refine bisect_eq_of_lt hm hle ?_
      rw [units_succ, Nat.add_mul]
      nlinarith
    have hbelow : 2 * num < (units m + (units m + gap m)) * den := by linarith
    rw [nearest, hbisect, units_succ, if_pos (.inr hbelow)]

/-! ### Ratios of one value -/

theorem bisect_mul {k : Nat} (hk : 0 < k) :
    bisect (num * k) (den * k) n found = bisect num den n found := by
  induction n generalizing found with
  | zero => rfl
  | succ n ih =>
    have hfit (next : Nat) : units next * (den * k) ≤ num * k ↔ units next * den ≤ num := by
      rw [← Nat.mul_assoc, Nat.mul_le_mul_right_iff hk]
    simp only [bisect, hfit, ih]

theorem nearest_mul {k : Nat} (hk : 0 < k) : nearest (num * k) (den * k) = nearest num den := by
  have hlt (low : Nat) : 2 * (num * k) < low * (den * k) ↔ 2 * num < low * den := by
    rw [← Nat.mul_assoc, ← Nat.mul_assoc, Nat.mul_lt_mul_right hk]
  have hgt (low : Nat) : low * (den * k) < 2 * (num * k) ↔ low * den < 2 * num := by
    rw [← Nat.mul_assoc, ← Nat.mul_assoc, Nat.mul_lt_mul_right hk]
  simp only [nearest, bisect_mul hk, hlt, hgt]

/-- Ratios of one value are rounded to one magnitude. -/
theorem nearest_congr (hden : 0 < den) (hden' : 0 < den')
    (h : (num : ℚ) / den = (num' : ℚ) / den') : nearest num den = nearest num' den' := by
  have hcross : num * den' = num' * den := by
    rw [div_eq_div_iff (by positivity) (by positivity)] at h
    exact_mod_cast h
  calc nearest num den = nearest (num * den') (den * den') := (nearest_mul hden').symm
    _ = nearest (num' * den) (den' * den) := by rw [hcross, Nat.mul_comm den]
    _ = nearest num' den' := nearest_mul hden

end Binary64

/-! ### Decimals -/

/-- The number that a decimal stands for. -/
def Decimal.value (d : Decimal) : ℚ :=
  d.digits * (10 : ℚ) ^ d.exponent

theorem Decimal.value_nonneg (d : Decimal) : 0 ≤ d.value := by
  rw [value]
  positivity

namespace Binary64

variable {m : Nat} {d d' : Decimal}

/-- A decimal is rounded as a ratio of its value in units. -/
theorem exists_ratio (d : Decimal) : ∃ num den, 0 < den ∧ nearestDecimal d = nearest num den ∧
    (num : ℚ) / den = d.value * one := by
  by_cases hsign : 0 ≤ d.exponent
  · obtain ⟨n, hn⟩ := Int.eq_ofNat_of_zero_le hsign
    refine ⟨d.digits * 10 ^ n * one, 1, Nat.one_pos, ?_, ?_⟩
    · rw [nearestDecimal, if_pos hsign, hn]
      rfl
    · rw [Decimal.value, hn, zpow_natCast]
      push_cast
      ring
  · obtain ⟨n, hn⟩ : ∃ n : Nat, d.exponent = -n := ⟨d.exponent.natAbs, by omega⟩
    refine ⟨d.digits * one, 10 ^ n, by positivity, ?_, ?_⟩
    · rw [nearestDecimal, if_neg hsign, hn, Int.natAbs_neg]
      rfl
    · rw [Decimal.value, hn, zpow_neg, zpow_natCast]
      push_cast
      ring

/-- Decimals of one value are rounded to one magnitude. -/
theorem nearestDecimal_congr (h : d.value = d'.value) : nearestDecimal d = nearestDecimal d' := by
  obtain ⟨num, den, hden, hnearest, hvalue⟩ := exists_ratio d
  obtain ⟨num', den', hden', hnearest', hvalue'⟩ := exists_ratio d'
  rw [hnearest, hnearest', nearest_congr hden hden' (by rw [hvalue, hvalue', h])]

/-- A decimal that is less than half a gap away from the value of a magnitude is rounded to it. -/
theorem nearestDecimal_eq (hm : m < infinity) (hlow : units m < d.value * one + gap (m - 1) / 2)
    (hhigh : d.value * one < units m + gap m / 2) : nearestDecimal d = m := by
  obtain ⟨num, den, hden, hnearest, hvalue⟩ := exists_ratio d
  have hpos : (0 : ℚ) < den := by exact_mod_cast hden
  rw [← hvalue] at hlow hhigh
  rw [hnearest]
  refine nearest_eq hm ?_ ?_
  · have hscaled := mul_lt_mul_of_pos_right hlow hpos
    rw [add_mul, div_mul_cancel₀ _ hpos.ne'] at hscaled
    have hcast : (2 * units m * den : ℚ) < 2 * num + gap (m - 1) * den := by linarith
    exact_mod_cast hcast
  · have hscaled := mul_lt_mul_of_pos_right hhigh hpos
    rw [div_mul_cancel₀ _ hpos.ne'] at hscaled
    have hcast : (2 * num : ℚ) < (2 * units m + gap m) * den := by linarith
    exact_mod_cast hcast

end Binary64
end BlockProgram
