import BlockProgram.Proofs.Number.Nearest

/-!
The shortest decimal of a double reads back (`nearestDecimal_shortest`). Each number of digits gives two
candidates, one on either side of the value. With seventeen digits they are less than a gap apart, so the
nearer one is less than half a gap from the value:

    10 ^ 16 spacings  ≤  value  ≤  2 ^ 53 gaps        spacing < gap, since 2 ^ 53 < 10 ^ 16

The first number of digits for which one of the candidates reads back is therefore found.
-/

namespace BlockProgram

/-- The decimal after another one of as many digits. -/
theorem Decimal.value_next (d : Decimal) :
    ({ d with digits := d.digits + 1 } : Decimal).value = d.value + (10 : ℚ) ^ d.exponent := by
  rw [value, value]
  push_cast
  ring

namespace Binary64

variable {m n v : Nat} {d : Decimal}

/-! ### Gaps -/

theorem gap_mono (h : m ≤ n) : gap m ≤ gap n :=
  Nat.pow_le_pow_right Nat.two_pos (Nat.sub_le_sub_right (Nat.div_le_div_right h) 1)

/-- A value has at most fifty-three bits above its gap. -/
theorem units_succ_le (m : Nat) : units (m + 1) ≤ 2 ^ 53 * gap m := by
  have hunits : units m ≤ (2 ^ 53 - 1) * gap m := by
    simp only [units, gap, Nat.pow_eq]
    have hfraction : m % 2 ^ 52 < 2 ^ 52 := Nat.mod_lt _ (by decide)
    split
    · rename_i hzero
      rw [hzero]
      omega
    · exact Nat.mul_le_mul_right _ (by omega)
  rw [units_succ]
  omega

/-! ### Leading digits -/

theorem one_pos : 0 < one := by
  decide +kernel

/-- The digits of a ratio that is scaled by a power of ten tell how great the ratio is. -/
theorem pow_length_le {u w k : Nat} {e : Int} (he : e = k + 1) (hw : 0 < w) (hk : w ≤ Nat.pow 10 k)
    (hu : 0 < u) :
    (10 : ℚ) ^ (((Nat.toDigits 10 (u * Nat.pow 10 k / w)).length : Int) - e) * w ≤ u := by
  rw [Nat.pow_eq] at hk ⊢
  have hscaled : 0 < u * 10 ^ k / w := Nat.div_pos (hk.trans (Nat.le_mul_of_pos_left _ hu)) hw
  obtain ⟨n, hn⟩ := Nat.exists_eq_succ_of_ne_zero (Nat.length_toDigits_pos (b := 10)
    (n := u * 10 ^ k / w)).ne'
  have hlength : 10 ^ n ≤ u * 10 ^ k / w := by
    cases n with
    | zero => exact hscaled
    | succ n =>
      refine Nat.not_lt.1 fun hlt => ?_
      rw [← Nat.length_toDigits_le_iff (by decide) n.succ_pos, hn] at hlt
      omega
  have hpower : (10 : ℚ) ^ (((n + 1 : Nat) : Int) - e) = 10 ^ n / 10 ^ k := by
    rw [he, ← zpow_natCast, ← zpow_natCast, ← zpow_sub₀ (by norm_num)]
    congr 1
    push_cast
    ring
  have hcast : (10 : ℚ) ^ n * w ≤ u * 10 ^ k := by
    exact_mod_cast (Nat.le_div_iff_mul_le hw).1 hlength
  rw [hn, hpower, div_mul_eq_mul_div, div_le_iff₀ (by positivity)]
  exact hcast

/-- A value is at least as great as the power of ten with its leading exponent. -/
theorem leadingExponent_le (hv : 0 < v) : (10 : ℚ) ^ leadingExponent v * one ≤ v := by
  have hscale : one ≤ Nat.pow 10 400 := by decide +kernel
  rw [leadingExponent]
  -- With a name for the exponent nothing tries to evaluate the power.
  generalize hk : 400 = k at hscale ⊢
  exact pow_length_le (by omega) one_pos hscale hv

/-! ### Candidates -/

theorem digits_truncate (m n : Nat) : (truncate m n).digits =
    ⌊(units m : ℚ) / ((10 : ℚ) ^ (truncate m n).exponent * one)⌋₊ := by
  rw [truncate]
  dsimp only
  generalize leadingExponent (units m) - n + 1 = e
  generalize one = w
  split
  · rename_i he
    obtain ⟨k, rfl⟩ := Int.eq_ofNat_of_zero_le he
    rw [zpow_natCast, Int.toNat_natCast, Nat.pow_eq, ← Nat.floor_div_eq_div (K := ℚ)]
    push_cast
    rw [mul_comm]
  · rename_i he
    obtain ⟨k, rfl⟩ : ∃ k : Nat, e = -k := ⟨e.natAbs, by omega⟩
    rw [zpow_neg, zpow_natCast, Int.natAbs_neg, Int.natAbs_natCast, Nat.pow_eq,
      ← Nat.floor_div_eq_div (K := ℚ)]
    push_cast
    congr 1
    field_simp

/-- The truncated decimal is not above the value, and the next one is. -/
theorem truncate_bounds (m n : Nat) : (truncate m n).value * one ≤ units m ∧
    units m < ((truncate m n).value + (10 : ℚ) ^ (truncate m n).exponent) * one := by
  have hone : (0 : ℚ) < one := by exact_mod_cast one_pos
  have hspacing : (0 : ℚ) < (10 : ℚ) ^ (truncate m n).exponent * one := by positivity
  rw [Decimal.value, digits_truncate]
  generalize (one : ℚ) = w at hspacing ⊢
  generalize (10 : ℚ) ^ (truncate m n).exponent = spacing at hspacing ⊢
  have hfloor := Nat.floor_le (div_nonneg (units m).cast_nonneg hspacing.le)
  have hnext := Nat.lt_floor_add_one ((units m : ℚ) / (spacing * w))
  rw [le_div_iff₀ hspacing] at hfloor
  rw [div_lt_iff₀ hspacing] at hnext
  exact ⟨by linarith, by linarith⟩

/-- Seventeen digits are spaced more closely than the doubles. -/
theorem spacing_lt_gap (m : Nat) : (10 : ℚ) ^ (truncate (m + 1) 17).exponent * one < gap m := by
  have hleading := leadingExponent_le (units_pos m.succ_pos)
  have hexponent : leadingExponent (units (m + 1)) = (truncate (m + 1) 17).exponent + 16 := by
    simp only [truncate]
    ring
  have hunits : (units (m + 1) : ℚ) ≤ 2 ^ 53 * gap m := by exact_mod_cast units_succ_le m
  have hgap : (0 : ℚ) < gap m := by exact_mod_cast gap_pos m
  rw [Nat.succ_eq_add_one, hexponent, zpow_add₀ (by norm_num)] at hleading
  generalize (10 : ℚ) ^ (truncate (m + 1) 17).exponent = spacing at hleading ⊢
  generalize (one : ℚ) = w at hleading ⊢
  norm_num at hleading
  linarith

/-- With seventeen digits one of the candidates reads back: the nearer one is less than half a gap away. -/
theorem seventeen_digits (hpos : 0 < m) (hm : m < infinity) :
    nearestDecimal (truncate m 17) = m ∨
      nearestDecimal { truncate m 17 with digits := (truncate m 17).digits + 1 } = m := by
  obtain ⟨k, rfl⟩ := Nat.exists_eq_succ_of_ne_zero hpos.ne'
  rw [Nat.succ_eq_add_one] at hm ⊢
  obtain ⟨hlow, hhigh⟩ := truncate_bounds (k + 1) 17
  have hspacing := spacing_lt_gap k
  have hgap : (gap k : ℚ) ≤ gap (k + 1) := by exact_mod_cast gap_mono k.le_succ
  have hlower := @nearestDecimal_eq (k + 1) (truncate (k + 1) 17) hm
  have hupper := @nearestDecimal_eq (k + 1)
    { truncate (k + 1) 17 with digits := (truncate (k + 1) 17).digits + 1 } hm
  rw [Nat.add_sub_cancel] at hlower hupper
  rw [Decimal.value_next] at hupper
  generalize (10 : ℚ) ^ (truncate (k + 1) 17).exponent = spacing at hhigh hspacing hupper
  generalize (truncate (k + 1) 17).value = low at hlow hhigh hlower hupper
  generalize (one : ℚ) = w at hlow hhigh hspacing hlower hupper
  rw [add_mul] at hhigh hupper
  rcases le_total (2 * (units (k + 1) - low * w)) (spacing * w) with hnear | hnear
  · exact .inl (hlower (by linarith) (by linarith))
  · exact .inr (hupper (by linarith) (by linarith))

theorem nearestDecimal_of_withDigits? (h : withDigits? m n = some d) : nearestDecimal d = m := by
  simp only [withDigits?] at h
  split at h
  · rename_i hreads
    cases h
    exact of_decide_eq_true (Bool.and_eq_true_iff.1 hreads).1
  · split at h
    · rename_i hreads
      cases h
      exact hreads
    · cases h

/-- If one of the candidates reads back, there is a decimal. -/
theorem withDigits?_isSome (h : nearestDecimal (truncate m n) = m ∨
    nearestDecimal { truncate m n with digits := (truncate m n).digits + 1 } = m) :
    (withDigits? m n).isSome := by
  simp only [withDigits?]
  rcases h with hlow | hhigh
  · by_cases hhigh : nearestDecimal { truncate m n with digits := (truncate m n).digits + 1 } = m
    · simp only [hhigh, if_true]
      split <;> rfl
    · simp [hlow, hhigh]
  · simp only [hhigh, if_true]
    split <;> rfl

/-- The shortest decimal reads back. -/
theorem nearestDecimal_shortest (hpos : 0 < m) (hm : m < infinity) :
    nearestDecimal (shortest m) = m := by
  have hfound : ((List.range 17).findSome? fun n => withDigits? m (n + 1)).isSome :=
    List.findSome?_isSome_iff.2 ⟨16, by decide, withDigits?_isSome (seventeen_digits hpos hm)⟩
  obtain ⟨d, hd⟩ := Option.isSome_iff_exists.1 hfound
  obtain ⟨n, -, hn⟩ := List.exists_of_findSome?_eq_some hd
  rw [shortest, hd, Option.getD_some]
  exact nearestDecimal_of_withDigits? hn

end Binary64
end BlockProgram
