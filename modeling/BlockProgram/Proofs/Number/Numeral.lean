import BlockProgram.Proofs.Number.Shortest
import BlockProgram.Text.Blank

/-!
Doubles in writing. A double is written as a numeral (`decimalText_numeral`), which has one value:

    plain        digits . digits
    scientific   digits [. digits] e sign digits

The value is rounded to the double again, so different finite doubles have different texts
(`toText_injective`).
-/

namespace BlockProgram
namespace Binary64

variable {t whole fraction : Text} {q : ℚ} {x y : Binary64} {m : Nat}

/-! ### Numerals -/

def IsDigits (t : Text) : Prop :=
  ∀ c ∈ t, c.isDigit = true

/-- The number with the given digits before and after its point. -/
def pointValue (whole fraction : Text) : ℚ :=
  Nat.ofDigitChars 10 (whole ++ fraction) 0 / 10 ^ fraction.length

/-- The point and the digits after it; neither when there are no digits. -/
def pointText (fraction : Text) : Text :=
  if fraction.isEmpty then [] else '.' :: fraction

/-- A text is a numeral, with its value. -/
inductive Numeral : Text → ℚ → Prop
  | plain {whole fraction : Text} (hwhole : whole ≠ []) (hdigits : IsDigits (whole ++ fraction)) :
    Numeral (whole ++ '.' :: fraction) (pointValue whole fraction)
  | scientific {whole fraction : Text} (hwhole : whole ≠ []) (hdigits : IsDigits (whole ++ fraction))
    (negative : Bool) (exponent : Nat) :
    Numeral (whole ++ pointText fraction ++
        'e' :: (if negative then '-' else '+') :: Nat.toDigits 10 exponent)
      (pointValue whole fraction * 10 ^ (if negative then -(exponent : Int) else exponent))

theorem isDigits_toDigits (n : Nat) : IsDigits (Nat.toDigits 10 n) :=
  fun _ => Nat.isDigit_of_mem_toDigits (by decide) (by decide)

/-- A numeral starts with a digit. -/
theorem Numeral.exists_cons (h : Numeral t q) : ∃ c rest, t = c :: rest ∧ c.isDigit = true := by
  cases h with
  | plain hwhole hdigits | scientific hwhole hdigits =>
    obtain ⟨c, rest, rfl⟩ := List.exists_cons_of_ne_nil hwhole
    exact ⟨c, _, rfl, hdigits c (by simp)⟩

/-- A numeral has a point or an exponent. -/
theorem Numeral.point_or_exponent (h : Numeral t q) : '.' ∈ t ∨ 'e' ∈ t := by
  cases h with
  | plain => exact .inl (by simp)
  | scientific => exact .inr (by simp)

/-- The characters of a numeral. -/
def isNumeralChar (c : Char) : Bool :=
  c.isDigit || c = '.' || c = 'e' || c = '+' || c = '-'

theorem IsDigits.all (h : IsDigits t) : t.all isNumeralChar :=
  List.all_eq_true.2 fun c hc => by simp [isNumeralChar, h c hc]

theorem Numeral.all (h : Numeral t q) : t.all isNumeralChar := by
  cases h with
  | @plain whole fraction _ hdigits =>
    have hall := hdigits.all
    rw [List.all_append, Bool.and_eq_true] at hall
    simp [hall, isNumeralChar]
  | @scientific whole fraction _ hdigits negative exponent =>
    have hall := hdigits.all
    rw [List.all_append, Bool.and_eq_true] at hall
    have hpoint : (pointText fraction).all isNumeralChar := by
      rw [pointText]
      split
      · rfl
      · simp [hall, isNumeralChar]
    have hexponent := (isDigits_toDigits exponent).all
    rw [List.all_append, List.all_append, List.all_cons, List.all_cons, hall.1, hpoint, hexponent]
    cases negative <;> rfl

/-! ### Reading a numeral -/

/-- The value of digits with or without a point among them. -/
def readPoint (t : Text) : ℚ :=
  pointValue (t.takeWhile (· ≠ '.')) ((t.dropWhile (· ≠ '.')).drop 1)

/-- The number after the sign of an exponent; zero without one. -/
def readExponent : Text → Int
  | 'e' :: '-' :: digits => -(Nat.ofDigitChars 10 digits 0 : Int)
  | 'e' :: _ :: digits => Nat.ofDigitChars 10 digits 0
  | _ => 0

def readNumeral (t : Text) : ℚ :=
  readPoint (t.takeWhile (· ≠ 'e')) * 10 ^ readExponent (t.dropWhile (· ≠ 'e'))

/-- A text that lacks a character ends at the first of them after it. -/
theorem span_append {c : Char} (h : c ∉ t) (rest : Text) :
    (t ++ rest).takeWhile (· ≠ c) = t ++ rest.takeWhile (· ≠ c) ∧
      (t ++ rest).dropWhile (· ≠ c) = rest.dropWhile (· ≠ c) := by
  have hne : ∀ d ∈ t, decide (d ≠ c) = true := by
    intro d hd
    exact decide_eq_true fun heq => h (heq ▸ hd)
  exact ⟨List.takeWhile_append_of_pos hne, List.dropWhile_append_of_pos hne⟩

theorem IsDigits.notMem (h : IsDigits t) {c : Char} (hc : c.isDigit = false) : c ∉ t :=
  fun hmem => Bool.false_ne_true (hc.symm.trans (h c hmem))

theorem isDigits_append_iff : IsDigits (whole ++ fraction) ↔ IsDigits whole ∧ IsDigits fraction :=
  List.forall_mem_append

theorem readPoint_append (h : IsDigits whole) :
    readPoint (whole ++ '.' :: fraction) = pointValue whole fraction := by
  obtain ⟨htake, hdrop⟩ := span_append (h.notMem (by decide : '.'.isDigit = false)) ('.' :: fraction)
  rw [readPoint, htake, hdrop]
  simp

theorem readPoint_pointText (h : IsDigits whole) :
    readPoint (whole ++ pointText fraction) = pointValue whole fraction := by
  cases fraction with
  | nil =>
    obtain ⟨htake, hdrop⟩ := span_append (h.notMem (by decide : '.'.isDigit = false)) []
    rw [pointText, if_pos List.isEmpty_nil, readPoint, htake, hdrop]
    simp
  | cons c rest => exact readPoint_append h

/-- Reading a numeral gives its value. -/
theorem Numeral.read (h : Numeral t q) : readNumeral t = q := by
  have hnot : 'e'.isDigit = false := by decide
  cases h with
  | @plain whole fraction _ hdigits =>
    obtain ⟨hwhole, hfraction⟩ := isDigits_append_iff.1 hdigits
    have hexponent : 'e' ∉ whole ++ '.' :: fraction := by
      simp [hwhole.notMem hnot, hfraction.notMem hnot]
    obtain ⟨htake, hdrop⟩ := span_append hexponent []
    rw [List.append_nil] at htake hdrop
    rw [readNumeral, htake, hdrop, List.takeWhile_nil, List.append_nil, readPoint_append hwhole]
    simp [readExponent]
  | @scientific whole fraction _ hdigits negative exponent =>
    obtain ⟨hwhole, hfraction⟩ := isDigits_append_iff.1 hdigits
    have hexponent : 'e' ∉ whole ++ pointText fraction := by
      rw [pointText]
      split <;> simp [hwhole.notMem hnot, hfraction.notMem hnot]
    obtain ⟨htake, hdrop⟩ := span_append hexponent
      ('e' :: (if negative then '-' else '+') :: Nat.toDigits 10 exponent)
    rw [readNumeral, htake, hdrop]
    cases negative <;> simp [readExponent, readPoint_pointText hwhole]

/-! ### Decimals as numerals -/

/-- As many zeros as stand at the end of a number, so often ten divides it. -/
theorem pow_zeros_dvd (n : Nat) :
    10 ^ ((Nat.toDigits 10 n).reverse.takeWhile (· = '0')).length ∣ n := by
  generalize hzeros : (Nat.toDigits 10 n).reverse.takeWhile (· = '0') = zeros
  have hreplicate : zeros = List.replicate zeros.length '0' := by
    refine List.eq_replicate_iff.2 ⟨rfl, fun c hc => ?_⟩
    rw [← hzeros] at hc
    simpa using List.mem_takeWhile_imp hc
  have hsplit := List.takeWhile_append_dropWhile (p := (· = '0')) (l := (Nat.toDigits 10 n).reverse)
  rw [hzeros, hreplicate] at hsplit
  have hdigits := congrArg List.reverse hsplit
  rw [List.reverse_append, List.reverse_reverse, List.reverse_replicate] at hdigits
  have hvalue := congrArg (fun digits => Nat.ofDigitChars 10 digits 0) hdigits
  rw [Nat.ofDigitChars_append, Nat.ofDigitChars_replicate_zero, Nat.ofDigitChars_ten_toDigits] at hvalue
  exact ⟨_, hvalue.symm⟩

theorem value_dropZeros (d : Decimal) : (dropZeros d).value = d.value := by
  obtain ⟨k, hk⟩ := pow_zeros_dvd d.digits
  rw [dropZeros, Decimal.value, Decimal.value]
  dsimp only
  generalize ((Nat.toDigits 10 d.digits).reverse.takeWhile (· = '0')).length = zeros at hk ⊢
  rw [Nat.pow_eq, hk, Nat.mul_div_cancel_left _ (by positivity), zpow_add₀ (by norm_num),
    zpow_natCast]
  push_cast
  ring

/-- Digits with a point before the last of them. -/
theorem pointValue_eq (whole fraction : Text) : pointValue whole fraction =
    Nat.ofDigitChars 10 (whole ++ fraction) 0 * 10 ^ (-fraction.length : Int) := by
  rw [pointValue, zpow_neg, zpow_natCast, div_eq_mul_inv]

theorem Numeral.of_eq {t' : Text} {q' : ℚ} (h : Numeral t q) (ht : t' = t) (hq : q' = q) :
    Numeral t' q' :=
  ht ▸ hq ▸ h

theorem ofDigitChars_zeros (n : Nat) (digits : Text) :
    Nat.ofDigitChars 10 (List.replicate n '0' ++ digits) 0 = Nat.ofDigitChars 10 digits 0 := by
  rw [Nat.ofDigitChars_append, Nat.ofDigitChars_replicate_zero, Nat.mul_zero]

theorem isDigits_zeros (n : Nat) : IsDigits (List.replicate n '0') :=
  fun c hc => by rw [List.eq_of_mem_replicate hc]; decide

section

variable {digits : Text}

/-- Digits behind the point, after more zeros. -/
theorem numeral_below (h : IsDigits digits) (n : Nat) :
    Numeral ('0' :: '.' :: (List.replicate n '0' ++ digits))
      (Nat.ofDigitChars 10 digits 0 * 10 ^ (-(n + digits.length : Nat) : Int)) := by
  have hall : IsDigits (List.replicate 1 '0' ++ (List.replicate n '0' ++ digits)) :=
    isDigits_append_iff.2 ⟨isDigits_zeros 1, isDigits_append_iff.2 ⟨isDigits_zeros n, h⟩⟩
  have hwhole : List.replicate 1 '0' ≠ [] := List.cons_ne_nil '0' []
  refine (Numeral.plain hwhole hall).of_eq rfl ?_
  rw [pointValue_eq, ofDigitChars_zeros, ofDigitChars_zeros, List.length_append,
    List.length_replicate]

/-- Digits with the point after `n` of them, or after zeros that fill up to `n`. -/
theorem numeral_above (h : IsDigits digits) {n : Nat} (hn : 0 < n) {padded : Text}
    (hpadded : padded = digits ++ List.replicate (n - digits.length) '0') :
    Numeral (padded.take n ++ '.' :: (if (padded.drop n).isEmpty then ['0'] else padded.drop n))
      (Nat.ofDigitChars 10 digits 0 * 10 ^ (n - digits.length : Int)) := by
  have hall : IsDigits padded := hpadded ▸ isDigits_append_iff.2 ⟨h, isDigits_zeros _⟩
  have hlength : padded.length = digits.length + (n - digits.length) := by
    rw [hpadded, List.length_append, List.length_replicate]
  rcases Nat.lt_or_ge n digits.length with hlt | hge
  · rw [Nat.sub_eq_zero_of_le hlt.le, List.replicate_zero, List.append_nil] at hpadded
    have hdrop : padded.drop n ≠ [] := List.drop_eq_nil_iff.not.2 (by omega)
    rw [if_neg (by simpa using hdrop)]
    refine (Numeral.plain ?_ (by rwa [List.take_append_drop])).of_eq rfl ?_
    · exact List.take_eq_nil_iff.not.2 (by simp only [← List.length_eq_zero_iff]; omega)
    · rw [pointValue_eq, List.take_append_drop, List.length_drop, hpadded]
      congr 2
      omega
  · rw [List.take_of_length_le (by omega), List.drop_eq_nil_of_le (by omega), if_pos List.isEmpty_nil]
    refine (Numeral.plain (List.ne_nil_of_length_pos (by omega))
      (isDigits_append_iff.2 ⟨hall, isDigits_zeros 1⟩)).of_eq rfl ?_
    have hzeros : Nat.ofDigitChars 10 (padded ++ ['0']) 0 =
        10 ^ (n - digits.length + 1) * Nat.ofDigitChars 10 digits 0 := by
      rw [hpadded, List.append_assoc, ← List.replicate_succ', Nat.ofDigitChars_append,
        Nat.ofDigitChars_replicate_zero]
    rw [pointValue, List.replicate_one, hzeros, List.length_singleton, pow_one, pow_succ,
      ← Nat.cast_sub hge, zpow_natCast]
    push_cast
    ring

/-- Digits with the point after the first of them, and an exponent. -/
theorem numeral_scientific (h : IsDigits digits) (hlength : 0 < digits.length) (e : Int) :
    Numeral (digits.take 1 ++ (if digits.length = 1 then [] else '.' :: digits.drop 1) ++
        'e' :: (if e < 0 then '-' else '+') :: Nat.toDigits 10 e.natAbs)
      (Nat.ofDigitChars 10 digits 0 * 10 ^ (e - (digits.length - 1 : Nat))) := by
  have hpoint : (if digits.length = 1 then [] else '.' :: digits.drop 1) = pointText (digits.drop 1) := by
    rw [pointText]
    refine if_congr ?_ rfl rfl
    rw [List.isEmpty_iff, List.drop_eq_nil_iff]
    omega
  have hwhole : digits.take 1 ≠ [] :=
    List.take_eq_nil_iff.not.2 (by simp only [← List.length_eq_zero_iff]; omega)
  have hall : IsDigits (digits.take 1 ++ digits.drop 1) := by
    rwa [List.take_append_drop]
  refine (Numeral.scientific hwhole hall (e < 0) e.natAbs).of_eq ?_ ?_
  · rw [hpoint]
    simp only [decide_eq_true_eq]
  · have he : (if decide (e < 0) then -(e.natAbs : Int) else e.natAbs) = e := by
      simp only [decide_eq_true_eq]
      split <;> omega
    rw [pointValue_eq, List.take_append_drop, List.length_drop, he, sub_eq_add_neg,
      zpow_add₀ (by norm_num)]
    ring

end

/-- A decimal is written as a numeral of its value. -/
theorem decimalText_numeral (d : Decimal) : Numeral (decimalText d).toList d.value := by
  have hdigits := isDigits_toDigits d.digits
  have hvalue : Nat.ofDigitChars 10 (Nat.toDigits 10 d.digits) 0 = d.digits :=
    Nat.ofDigitChars_ten_toDigits
  have hlength : 0 < (Nat.toDigits 10 d.digits).length := Nat.length_toDigits_pos
  rw [decimalText, Decimal.value]
  generalize Nat.toDigits 10 d.digits = digits at *
  generalize hexponent : d.exponent + digits.length - 1 = exponent
  dsimp only
  split
  · split
    · refine (numeral_below hdigits (exponent.natAbs - 1)).of_eq (by simp) ?_
      rw [hvalue]
      congr 2
      omega
    · refine (numeral_above hdigits exponent.toNat.succ_pos rfl).of_eq (by simp) ?_
      rw [hvalue]
      congr 2
      omega
  · refine (numeral_scientific hdigits hlength exponent).of_eq ?_ ?_
    · have hsign : (if exponent < 0 then "-" else "+").toList = [if exponent < 0 then '-' else '+'] := by
        split <;> rfl
      simp [hsign, Nat.toString_eq_repr]
    · rw [hvalue]
      congr 2
      omega

/-! ### Doubles as numerals -/

/-- The magnitude nearest to a number. -/
def nearestRational (q : ℚ) : Nat :=
  nearest (q.num.natAbs * one) q.den

theorem nearestDecimal_eq_nearestRational (d : Decimal) :
    nearestDecimal d = nearestRational d.value := by
  obtain ⟨num, den, hden, hnearest, hvalue⟩ := exists_ratio d
  have hnum : (d.value.num.natAbs : ℚ) = d.value.num := by
    rw [← Int.cast_natCast, Int.natAbs_of_nonneg (Rat.num_nonneg.2 d.value_nonneg)]
  rw [hnearest, nearestRational]
  refine nearest_congr hden d.value.den_pos ?_
  rw [hvalue, Nat.cast_mul, hnum, mul_div_right_comm, Rat.num_div_den]

theorem nearestRational_zero : nearestRational 0 = 0 := by
  rw [nearestRational, Rat.num_zero, Rat.den_zero, Int.natAbs_zero, Nat.zero_mul]
  exact nearest_eq (by decide) (by decide) (by decide)

/-- A magnitude in writing. -/
def magnitudeText (m : Nat) : String :=
  if m = 0 then "0.0" else decimalText (dropZeros (shortest m))

theorem toText_eq (h : x.isFinite = true) :
    x.toText = (if x.isNegative then "-" else "") ++ magnitudeText x.magnitude := by
  have hlt : x.magnitude < infinity := of_decide_eq_true h
  have hnan : ¬ infinity < x.magnitude := hlt.not_gt
  simp only [toText, isNaN, isInfinite, isZero, magnitudeText, decide_eq_true_eq, hnan, hlt.ne,
    if_false]

/-- A finite magnitude is written as a numeral whose value is rounded to it. -/
theorem exists_numeral (h : m < infinity) :
    ∃ q, Numeral (magnitudeText m).toList q ∧ nearestRational q = m := by
  rw [magnitudeText]
  split
  · rename_i hzero
    have hvalue : pointValue (List.replicate 1 '0') (List.replicate 1 '0') = 0 := by
      rw [pointValue, List.replicate_append_replicate, Nat.ofDigitChars_replicate_zero, Nat.mul_zero,
        Nat.cast_zero, zero_div]
    have hnumeral := Numeral.plain (List.cons_ne_nil '0' [] : List.replicate 1 '0' ≠ [])
      (isDigits_append_iff.2 ⟨isDigits_zeros 1, isDigits_zeros 1⟩)
    exact ⟨0, hnumeral.of_eq rfl hvalue.symm, nearestRational_zero.trans hzero.symm⟩
  · rename_i hne
    refine ⟨_, decimalText_numeral _, ?_⟩
    rw [← nearestDecimal_eq_nearestRational, nearestDecimal_congr (value_dropZeros _),
      nearestDecimal_shortest (Nat.pos_of_ne_zero hne) h]

theorem magnitudeText_injective {n : Nat} (hm : m < infinity) (hn : n < infinity)
    (h : magnitudeText m = magnitudeText n) : m = n := by
  obtain ⟨q, hq, hnearest⟩ := exists_numeral hm
  obtain ⟨r, hr, hnearest'⟩ := exists_numeral hn
  rw [h] at hq
  rw [← hnearest, ← hnearest', ← hq.read, hr.read]

/-- The sign of a double is the first character of its text. -/
theorem isNegative_iff (h : x.isFinite = true) :
    x.isNegative = true ↔ x.toText.toList.head? = some '-' := by
  obtain ⟨q, hq, -⟩ := exists_numeral (of_decide_eq_true h)
  obtain ⟨c, rest, htext, hdigit⟩ := hq.exists_cons
  rw [toText_eq h, String.toList_append, htext]
  cases x.isNegative with
  | true => simp
  | false =>
    have hc : c ≠ '-' := by
      rintro rfl
      exact absurd hdigit (by decide)
    simp [hc]

/-- Different finite doubles have different texts. -/
theorem toText_injective (hx : x.isFinite = true) (hy : y.isFinite = true)
    (h : x.toText = y.toText) : x = y := by
  have hsign : x.isNegative = y.isNegative := by
    rw [Bool.eq_iff_iff, isNegative_iff hx, isNegative_iff hy, h]
  rw [toText_eq hx, toText_eq hy, hsign, String.append_right_inj] at h
  exact ext_parts hsign (magnitudeText_injective (of_decide_eq_true hx) (of_decide_eq_true hy) h)

end Binary64
end BlockProgram
