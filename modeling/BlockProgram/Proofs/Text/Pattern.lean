import BlockProgram.Text.Blank
import Mathlib

/-!
Texts with holes for a name. The generator cuts and joins texts at white space and at a few punctuation
marks; a name without any of these is never cut, so a text with holes is cut at the same places whatever
the name is.
-/

namespace BlockProgram

namespace Text

/-- The punctuation marks at which texts are cut, and the mark of an escape. -/
def marks : List Char :=
  ['"', ',', '(', ')', ';', '{', '}', '\\']

/-- Neither white space nor a mark; letters and digits of any script are plain. -/
def isPlainChar (c : Char) : Bool :=
  !isBlankChar c && !marks.contains c

/-- A text of plain characters that is not empty. -/
structure IsPlain (text : Text) : Prop where
  ne_nil : text ≠ []
  plain : ∀ c ∈ text, isPlainChar c = true

theorem isPlainChar_of_isAlphanum {c : Char} (h : c.isAlphanum = true) : isPlainChar c = true := by
  have hrange : 48 ≤ c.toNat ∧ c.toNat ≤ 122 := by
    simp only [Char.isAlphanum, Char.isAlpha, Char.isUpper, Char.isLower, Char.isDigit,
      Bool.or_eq_true, Bool.and_eq_true, decide_eq_true_eq] at h
    rcases h with (⟨hlow, hhigh⟩ | ⟨hlow, hhigh⟩) | ⟨hlow, hhigh⟩
    all_goals exact ⟨Nat.le_trans (by decide) (UInt32.le_iff_toNat_le.1 hlow),
      Nat.le_trans (UInt32.le_iff_toNat_le.1 hhigh) (by decide)⟩
  have hblank : isBlankChar c = false := by
    rw [← Bool.not_eq_true, isBlankChar, List.any_eq_true]
    rintro ⟨range, hmem, hin⟩
    simp only [Bool.and_eq_true, decide_eq_true_eq] at hin
    simp only [blankRanges] at hmem
    fin_cases hmem <;> simp only at hin <;> omega
  have hmark : c ∉ marks := by
    intro hmark
    simp only [marks, List.mem_cons, List.not_mem_nil, or_false] at hmark
    rcases hmark with rfl | rfl | rfl | rfl | rfl | rfl | rfl | rfl <;> revert h <;> decide
  simp [isPlainChar, hblank, hmark]

theorem isPlain_of_isAlphanum {name : Text} (hne : name ≠ []) (h : name.all Char.isAlphanum = true) :
    IsPlain name :=
  ⟨hne, fun c hc => isPlainChar_of_isAlphanum (List.all_eq_true.1 h c hc)⟩

theorem not_blank_of_plain {c : Char} (h : isPlainChar c = true) : isBlankChar c = false := by
  simp only [isPlainChar, Bool.and_eq_true, Bool.not_eq_true'] at h
  exact h.1

/-- A mark is not a plain character. -/
theorem ne_of_plain {c mark : Char} (h : isPlainChar c = true) (hmark : isPlainChar mark = false) :
    c ≠ mark := by
  rintro rfl
  rw [h] at hmark
  cases hmark

theorem IsPlain.head {name : Text} (h : IsPlain name) :
    ∃ c rest, name = c :: rest ∧ isPlainChar c = true := by
  obtain ⟨c, rest, rfl⟩ := List.exists_cons_of_ne_nil h.ne_nil
  exact ⟨c, rest, rfl, h.plain c (List.mem_cons_self ..)⟩

theorem IsPlain.last {name : Text} (h : IsPlain name) :
    ∃ init c, name = init ++ [c] ∧ isPlainChar c = true := by
  rcases List.eq_nil_or_concat name with rfl | ⟨init, c, rfl⟩
  · exact absurd rfl h.ne_nil
  · exact ⟨init, c, by simp, h.plain c (by simp)⟩

end Text

open Text

/-- A text with holes. -/
abbrev Pattern := List (Option Char)

namespace Pattern

variable {P : Char → Prop} {name : Text} {p q : Pattern} {text : Text}

/-- The text with a name in each hole. -/
def fill (name : Text) : Pattern → Text
  | [] => []
  | none :: rest => name ++ fill name rest
  | some c :: rest => c :: fill name rest

/-- How many holes there are. -/
def holes (p : Pattern) : Nat :=
  p.count none

/-- All characters outside the holes are in `P`. -/
def Spells (P : Char → Prop) (p : Pattern) : Prop :=
  ∀ c, some c ∈ p → P c

/-- A text without holes. -/
def ofText (text : Text) : Pattern :=
  text.map some

@[simp]
theorem fill_nil (name : Text) : fill name [] = [] :=
  rfl

@[simp]
theorem fill_hole (name : Text) (p : Pattern) : fill name (none :: p) = name ++ fill name p :=
  rfl

@[simp]
theorem fill_char (name : Text) (c : Char) (p : Pattern) : fill name (some c :: p) = c :: fill name p :=
  rfl

@[simp]
theorem holes_nil : holes [] = 0 :=
  rfl

@[simp]
theorem holes_hole (p : Pattern) : holes (none :: p) = holes p + 1 := by
  simp [holes]

@[simp]
theorem holes_char (c : Char) (p : Pattern) : holes (some c :: p) = holes p := by
  simp [holes]

@[simp]
theorem fill_append (name : Text) (p q : Pattern) : fill name (p ++ q) = fill name p ++ fill name q := by
  induction p with
  | nil => rfl
  | cons o rest ih => cases o <;> simp [ih]

@[simp]
theorem fill_ofText (name text : Text) : fill name (ofText text) = text := by
  induction text with
  | nil => rfl
  | cons c rest ih =>
    rw [ofText, List.map_cons, fill_char, ← ofText, ih]

@[simp]
theorem holes_append (p q : Pattern) : holes (p ++ q) = holes p + holes q :=
  List.count_append ..

@[simp]
theorem holes_ofText (text : Text) : holes (ofText text) = 0 := by
  simp [holes, ofText, List.count_eq_zero]

@[simp]
theorem spells_nil : Spells P [] := by
  simp [Spells]

@[simp]
theorem spells_hole : Spells P (none :: p) ↔ Spells P p := by
  simp [Spells]

@[simp]
theorem spells_char {c : Char} : Spells P (some c :: p) ↔ P c ∧ Spells P p := by
  simp [Spells]

@[simp]
theorem spells_append : Spells P (p ++ q) ↔ Spells P p ∧ Spells P q := by
  simp only [Spells, List.mem_append]
  constructor
  · exact fun h => ⟨fun c hc => h c (.inl hc), fun c hc => h c (.inr hc)⟩
  · rintro ⟨hp, hq⟩ c (hc | hc)
    · exact hp c hc
    · exact hq c hc

@[simp]
theorem spells_ofText : Spells P (ofText text) ↔ ∀ c ∈ text, P c := by
  simp [Spells, ofText]

/-- A text with holes is empty whatever the name if it is empty for one. -/
theorem fill_eq_nil_iff (hname : IsPlain name) : fill name p = [] ↔ p = [] := by
  cases p with
  | nil => simp
  | cons o rest => cases o <;> simp [hname.ne_nil]

/-! ### Where texts are cut -/

/-- The characters of a class at the start of a text are the same for every plain name, if no plain
character is in the class. -/
theorem exists_span {blank : Char → Bool} (hblank : ∀ c, isPlainChar c = true → blank c = false)
    (p : Pattern) : ∃ cut rest, p = ofText cut ++ rest ∧ ∀ name, IsPlain name →
      (fill name p).takeWhile blank = cut ∧ (fill name p).dropWhile blank = fill name rest := by
  induction p with
  | nil => exact ⟨[], [], rfl, fun _ _ => ⟨rfl, rfl⟩⟩
  | cons o rest ih =>
    cases o with
    | none =>
      refine ⟨[], none :: rest, rfl, ?_⟩
      intro name hname
      obtain ⟨c, more, rfl, hc⟩ := hname.head
      simp [hblank c hc]
    | some c =>
      cases hc : blank c with
      | true =>
        obtain ⟨cut, last, rfl, hspan⟩ := ih
        refine ⟨c :: cut, last, rfl, ?_⟩
        intro name hname
        obtain ⟨htake, hdrop⟩ := hspan name hname
        rw [fill_char, List.takeWhile_cons_of_pos hc, List.dropWhile_cons_of_pos hc, htake, hdrop]
        exact ⟨rfl, rfl⟩
      | false =>
        refine ⟨[], some c :: rest, rfl, ?_⟩
        intro name _
        simp [hc]

/-- The characters of a class at the end of a text are the same for every plain name. -/
theorem exists_span_end {blank : Char → Bool} (hblank : ∀ c, isPlainChar c = true → blank c = false)
    (p : Pattern) : ∃ rest cut, p = rest ++ ofText cut ∧ ∀ name, IsPlain name →
      ((fill name p).reverse.takeWhile blank).reverse = cut ∧
        ((fill name p).reverse.dropWhile blank).reverse = fill name rest := by
  induction p using List.reverseRecOn with
  | nil => exact ⟨[], [], rfl, fun _ _ => ⟨rfl, rfl⟩⟩
  | append_singleton init o ih =>
    cases o with
    | none =>
      refine ⟨init ++ [none], [], by simp [ofText], ?_⟩
      intro name hname
      obtain ⟨more, c, rfl, hc⟩ := hname.last
      simp [hblank c hc]
    | some c =>
      cases hc : blank c with
      | true =>
        obtain ⟨first, cut, rfl, hspan⟩ := ih
        refine ⟨first, cut ++ [c], by simp [ofText], ?_⟩
        intro name hname
        obtain ⟨htake, hdrop⟩ := hspan name hname
        rw [fill_append, List.reverse_append]
        simp only [fill_char, fill_nil, List.reverse_singleton, List.singleton_append]
        rw [List.takeWhile_cons_of_pos hc, List.dropWhile_cons_of_pos hc, List.reverse_cons, htake,
          hdrop]
        exact ⟨rfl, rfl⟩
      | false =>
        refine ⟨init ++ [some c], [], by simp [ofText], ?_⟩
        intro name _
        simp [hc]

theorem exists_last (p : Pattern) :
    p = [] ∨ (∃ init c, p = init ++ [some c]) ∨ ∃ init, p = init ++ [none] := by
  rcases List.eq_nil_or_concat p with rfl | ⟨init, o, rfl⟩
  · exact .inl rfl
  · cases o with
    | none => exact .inr (.inr ⟨init, by simp⟩)
    | some c => exact .inr (.inl ⟨init, c, by simp⟩)

/-- A text that ends in a hole ends in a plain character. -/
theorem getLast?_fill_hole (hname : IsPlain name) (init : Pattern) :
    ∃ c, (fill name (init ++ [none])).getLast? = some c ∧ isPlainChar c = true := by
  obtain ⟨more, c, rfl, hc⟩ := hname.last
  exact ⟨c, by simp, hc⟩

/-! ### Where the name stands -/

theorem eq_ofText_of_holes (h : holes p = 0) : ∃ text, p = ofText text := by
  induction p with
  | nil => exact ⟨[], rfl⟩
  | cons o rest ih =>
    cases o with
    | none => simp at h
    | some c =>
      rw [holes_char] at h
      obtain ⟨text, rfl⟩ := ih h
      exact ⟨c :: text, rfl⟩

/-- The first hole of a text. -/
theorem exists_first_hole (h : holes p ≠ 0) :
    ∃ text rest, p = ofText text ++ none :: rest ∧ holes p = holes rest + 1 := by
  induction p with
  | nil => simp at h
  | cons o rest ih =>
    cases o with
    | none => exact ⟨[], rest, rfl, holes_hole rest⟩
    | some c =>
      rw [holes_char] at h
      obtain ⟨text, more, rfl, hholes⟩ := ih h
      exact ⟨c :: text, more, rfl, by rw [holes_char, hholes]⟩

theorem length_fill (name : Text) (p : Pattern) :
    (fill name p).length + holes p = p.length + holes p * name.length := by
  induction p with
  | nil => simp
  | cons o rest ih =>
    cases o with
    | none =>
      rw [fill_hole, holes_hole, List.length_append, List.length_cons, Nat.succ_mul]
      omega
    | some c =>
      rw [fill_char, holes_char, List.length_cons, List.length_cons]
      omega

/-- A text has one hole if the same text is around all its names. -/
theorem holes_eq_one_iff :
    holes p = 1 ↔ ∃ before after, ∀ name, IsPlain name → fill name p = before ++ name ++ after := by
  constructor
  · intro hone
    obtain ⟨before, rest, rfl, hrest⟩ := exists_first_hole (p := p) (by omega)
    obtain ⟨after, rfl⟩ := eq_ofText_of_holes (p := rest) (by omega)
    exact ⟨before, after, fun name _ => by simp⟩
  · rintro ⟨before, after, hfill⟩
    -- a longer name makes the text longer by as much as there are holes
    have hshort := length_fill ['a'] p
    have hlong := length_fill ['a', 'a'] p
    rw [hfill _ (isPlain_of_isAlphanum (by simp) rfl), List.length_append, List.length_append]
      at hshort
    rw [hfill _ (isPlain_of_isAlphanum (by simp) rfl), List.length_append, List.length_append]
      at hlong
    simp only [List.length_cons, List.length_nil] at hshort hlong
    omega

/-- A character that occurs in the name alone tells where the name stands. -/
theorem eq_of_append_eq {c : Char} (hc : c ∈ name) {before before' after after' : Text}
    (hbefore : c ∉ before) (hbefore' : c ∉ before')
    (h : before ++ name ++ after = before' ++ name ++ after') : before = before' := by
  have hindex (text more : Text) (htext : c ∉ text) :
      (text ++ name ++ more).idxOf c = text.length + name.idxOf c := by
    rw [List.append_assoc, List.idxOf_append_of_notMem htext, List.idxOf_append_of_mem hc]
  have hlength : before.length = before'.length := by
    have := hindex before after hbefore
    rw [h, hindex before' after' hbefore'] at this
    omega
  rw [List.append_assoc, List.append_assoc] at h
  exact (List.append_inj h hlength).1

theorem count_fill (name : Text) {c : Char} (hp : Spells (· ≠ c) p) :
    (fill name p).count c = holes p * name.count c := by
  induction p with
  | nil => simp
  | cons o rest ih =>
    cases o with
    | none =>
      rw [fill_hole, holes_hole, List.count_append, ih (spells_hole.1 hp), Nat.succ_mul, Nat.add_comm]
    | some d =>
      obtain ⟨hd, hrest⟩ := spells_char.1 hp
      rw [fill_char, holes_char, List.count_cons_of_ne hd, ih hrest]

/-- The name stands at one place in a text with one hole, provided that some character occurs in the name
alone. -/
theorem existsUnique_of_holes {c : Char} (hc : c ∈ name) (hp : Spells (· ≠ c) p) (hone : holes p = 1) :
    ∃! before, ∃ after, fill name p = before ++ name ++ after := by
  obtain ⟨before, rest, rfl, hrest⟩ := exists_first_hole (p := p) (by omega)
  obtain ⟨after, rfl⟩ := eq_ofText_of_holes (p := rest) (by omega)
  have hbefore : c ∉ before := by
    intro hmem
    rw [spells_append, spells_ofText] at hp
    exact hp.1 c hmem rfl
  have htext : fill name (ofText before ++ none :: ofText after) = before ++ name ++ after := by
    simp
  refine ⟨before, ⟨after, htext⟩, ?_⟩
  rintro before' ⟨after', hfill⟩
  have hcount := count_fill name hp
  rw [hone, hfill, List.count_append, List.count_append] at hcount
  have hbefore' : c ∉ before' := List.count_eq_zero.1 (by omega)
  exact eq_of_append_eq hc hbefore' hbefore (hfill.symm.trans htext)

/-- The name stands at several places in a text with several holes. -/
theorem not_existsUnique_of_holes (hname : name ≠ []) (hholes : 1 < holes p) :
    ¬ ∃! before, ∃ after, fill name p = before ++ name ++ after := by
  obtain ⟨first, rest, rfl, hrest⟩ := exists_first_hole (p := p) (by omega)
  obtain ⟨second, more, rfl, -⟩ := exists_first_hole (p := rest) (by omega)
  rintro ⟨before, -, hunique⟩
  have hfirst := hunique first ⟨second ++ name ++ fill name more, by simp⟩
  have hsecond := hunique (first ++ name ++ second) ⟨fill name more, by simp⟩
  rw [← hsecond, List.append_assoc, List.self_eq_append_right, List.append_eq_nil_iff] at hfirst
  exact hname hfirst.1

end Pattern

end BlockProgram
