import BlockProgram.Text.Blank
import Mathlib.Data.List.Lex
import Mathlib.Data.String.Basic
import Mathlib.Tactic.SplitIfs

/-!
The order of texts. Texts are compared character by character, their UTF-8 forms byte by byte, and it is
one order (`lt_iff_bytes_lt`):

    characters     v     <      w
    bytes        v v v v . .   w w w w . .     the first of them that differ

The byte that tells how long a character is comes first and is greater for longer ones, so only characters
of one length are told apart by the digits of base 64 that follow (`charBytes_append_lt`).
-/

namespace BlockProgram
namespace Text

/-- The UTF-8 form of a character. -/
def charBytes (c : Char) : List Nat :=
  (String.utf8EncodeChar c).map UInt8.toNat

/-- The UTF-8 form of a text. -/
def bytes (s : String) : List Nat :=
  s.toUTF8.data.toList.map UInt8.toNat

theorem bytes_eq (s : String) : bytes s = s.toList.flatMap charBytes := by
  conv_lhs => rw [← String.ofList_toList (s := s)]
  rw [bytes, String.toUTF8_eq_toByteArray, String.toByteArray_ofList, List.utf8Encode,
    List.toList_data_toByteArray, List.map_flatMap]
  rfl

/-! ### One character -/

/-- The smaller of two numbers has the smaller quotient, or the same one and the smaller remainder. -/
theorem div_lt_or_mod_lt {v w : Nat} (h : v < w) (n : Nat) :
    v / n < w / n ∨ v / n = w / n ∧ v % n < w % n := by
  rcases (Nat.div_le_div_right h.le : v / n ≤ w / n).lt_or_eq with hlt | heq
  · exact .inl hlt
  · have hv := Nat.div_add_mod v n
    have hw := Nat.div_add_mod w n
    rw [heq] at hv
    exact .inr ⟨heq, by omega⟩

/-- Numbers are told apart by the first of their digits of base 64 that differ. -/
theorem digits_lt {v w : Nat} (h : v < w) :
    v / 262144 < w / 262144 ∨ v / 262144 = w / 262144 ∧
      (v / 4096 % 64 < w / 4096 % 64 ∨ v / 4096 % 64 = w / 4096 % 64 ∧
        (v / 64 % 64 < w / 64 % 64 ∨ v / 64 % 64 = w / 64 % 64 ∧ v % 64 < w % 64)) := by
  have hdiv (n : Nat) : n / 4096 = n / 64 / 64 ∧ n / 262144 = n / 64 / 64 / 64 := by
    rw [Nat.div_div_eq_div_mul, Nat.div_div_eq_div_mul]
    exact ⟨rfl, rfl⟩
  rw [(hdiv v).1, (hdiv v).2, (hdiv w).1, (hdiv w).2]
  rcases div_lt_or_mod_lt h 64 with h | ⟨heq, h⟩
  · rcases div_lt_or_mod_lt h 64 with h | ⟨heq, h⟩
    · rcases div_lt_or_mod_lt h 64 with h | ⟨heq, h⟩
      · exact .inl h
      · exact .inr ⟨heq, .inl h⟩
    · rw [heq]
      exact .inr ⟨rfl, .inr ⟨rfl, .inl h⟩⟩
  · rw [heq]
    exact .inr ⟨rfl, .inr ⟨rfl, .inr ⟨rfl, h⟩⟩⟩

/-- The form of the smaller of two characters comes first, whatever follows. -/
theorem charBytes_append_lt {c d : Char} (h : c < d) (more more' : List Nat) :
    charBytes c ++ more < charBytes d ++ more' := by
  have hlt : c.val.toNat < d.val.toNat := h
  have hbound : d.val.toNat < 0x110000 := by
    have hvalid := d.valid
    simp only [UInt32.isValidChar, Nat.isValidChar] at hvalid
    omega
  simp only [charBytes, String.utf8EncodeChar]
  generalize c.val.toNat = v at hlt ⊢
  generalize d.val.toNat = w at hlt hbound ⊢
  by_cases hlong : v ≤ 65535
  · split_ifs <;> simp only [List.map_cons, List.map_nil, List.cons_append, List.nil_append,
      List.cons_lt_cons_iff, UInt8.toNat_ofNat'] <;> omega
  · -- Both take four bytes. Here the digits are named, which is what omega needs help with.
    have hv : ¬ v ≤ 127 ∧ ¬ v ≤ 2047 ∧ ¬ v ≤ 65535 := by omega
    have hw : ¬ w ≤ 127 ∧ ¬ w ≤ 2047 ∧ ¬ w ≤ 65535 := by omega
    have hfirst (n : Nat) (h : n < 0x110000) : (n / 262144 % 8 + 240) % 2 ^ 8 = n / 262144 + 240 := by
      omega
    have hmore (n : Nat) : (n % 64 + 128) % 2 ^ 8 = n % 64 + 128 := by
      omega
    simp only [hv, hw, if_false, List.map_cons, List.map_nil, List.cons_append, List.nil_append,
      List.cons_lt_cons_iff, UInt8.toNat_ofNat', hmore, hfirst v (hlt.trans hbound), hfirst w hbound]
    rcases digits_lt hlt with h | ⟨_, h | ⟨_, h | ⟨_, h⟩⟩⟩ <;> omega

theorem charBytes_ne_nil (c : Char) : charBytes c ≠ [] := by
  rw [charBytes, Ne, List.map_eq_nil_iff]
  exact fun h => absurd (congrArg List.length h) (by
    rw [String.length_utf8EncodeChar]
    exact c.utf8Size_pos.ne')

/-! ### Texts -/

theorem bytes_lt_of_lt {l m : List Char} (h : l < m) :
    l.flatMap charBytes < m.flatMap charBytes := by
  induction h with
  | @nil c m =>
    rw [List.flatMap_nil, List.flatMap_cons]
    obtain ⟨first, rest, hbytes⟩ := List.exists_cons_of_ne_nil (charBytes_ne_nil c)
    rw [hbytes]
    exact List.nil_lt_cons first _
  | cons h ih =>
    rw [List.flatMap_cons, List.flatMap_cons]
    exact List.append_left_lt ih
  | rel h =>
    rw [List.flatMap_cons, List.flatMap_cons]
    exact charBytes_append_lt h ..

/-- The order of texts is the order of their UTF-8 forms. -/
theorem lt_iff_bytes_lt {s t : String} : s < t ↔ bytes s < bytes t := by
  have hmono : StrictMono bytes := by
    intro s t h
    rw [bytes_eq, bytes_eq]
    exact bytes_lt_of_lt h
  exact hmono.lt_iff_lt.symm

end Text
end BlockProgram
