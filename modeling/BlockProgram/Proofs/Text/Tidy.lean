import BlockProgram.Proofs.Text.Line

/-!
Tidying, line by line. What is dropped before the code ends at a newline, and what is dropped after it
starts behind one, so both cuts are made between lines; the third step shortens each line but the last.

    blank ++ newline ++ rest      the rest, if no newline stands in the white space before its code
    code ++ newline ++ blank      the code and one newline, likewise
    line ++ newline ++ rest       the line without spaces and tabs at its end, and the rest, shortened
-/

namespace BlockProgram
namespace Text

variable {text blank line rest : Text}

/-! ### Before the code -/

theorem dropLeadingBlank_of_not_mem (h : '\n' ∉ (text.takeWhile isBlankChar).drop 1) :
    dropLeadingBlank text = text := by
  rw [dropLeadingBlank, afterLastNewline?, if_neg h]

theorem takeWhile_append_of_blank (hblank : isBlank blank = true) (rest : Text) :
    (blank ++ rest).takeWhile isBlankChar = blank ++ rest.takeWhile isBlankChar :=
  List.takeWhile_append_of_pos (List.all_eq_true.1 hblank)

/-- A newline behind white space is in the white space before the code. -/
theorem newline_mem_takeWhile (hblank : isBlank blank = true) (rest : Text) :
    '\n' ∈ (blank ++ '\n' :: rest).takeWhile isBlankChar := by
  rw [takeWhile_append_of_blank hblank, List.takeWhile_cons_of_pos newline_blank]
  simp

theorem newline_mem_drop_takeWhile (hne : blank ≠ []) (hblank : isBlank blank = true) (rest : Text) :
    '\n' ∈ ((blank ++ '\n' :: rest).takeWhile isBlankChar).drop 1 := by
  obtain ⟨c, more, rfl⟩ := List.exists_cons_of_ne_nil hne
  rw [takeWhile_append_of_blank hblank, List.takeWhile_cons_of_pos newline_blank]
  simp

theorem dropLeadingBlank_append (hne : blank ≠ []) (hblank : isBlank blank = true)
    (hrest : '\n' ∉ rest.takeWhile isBlankChar) : dropLeadingBlank (blank ++ '\n' :: rest) = rest := by
  obtain ⟨c, more, rfl⟩ := List.exists_cons_of_ne_nil hne
  have htake : ((c :: more) ++ '\n' :: rest).takeWhile isBlankChar =
      c :: (more ++ '\n' :: rest.takeWhile isBlankChar) := by
    rw [takeWhile_append_of_blank hblank, List.takeWhile_cons_of_pos newline_blank, List.cons_append]
  have hdrop : ((c :: more) ++ '\n' :: rest).dropWhile isBlankChar = rest.dropWhile isBlankChar := by
    rw [List.dropWhile_append_of_pos (List.all_eq_true.1 hblank), List.dropWhile_cons_of_pos newline_blank]
  -- the last newline of the white space is the one that is written out
  have hlast : afterLastNewline? (more ++ '\n' :: rest.takeWhile isBlankChar) =
      some (rest.takeWhile isBlankChar) := by
    have hkeep : ∀ d ∈ (rest.takeWhile isBlankChar).reverse, decide (d ≠ '\n') = true := by
      intro d hd
      rw [decide_eq_true_eq]
      rintro rfl
      exact hrest (List.mem_reverse.1 hd)
    rw [afterLastNewline?, if_pos (by simp), List.reverse_append, List.reverse_cons, List.append_assoc,
      List.takeWhile_append_of_pos hkeep]
    simp
  rw [dropLeadingBlank, htake, hdrop, List.drop_one, List.tail_cons, hlast]
  exact List.takeWhile_append_dropWhile

/-- The blank lines before a text are dropped, or there is nothing to drop. -/
theorem leading_cases (text : Text) :
    '\n' ∉ (text.takeWhile isBlankChar).drop 1 ∨
      ∃ blank rest, text = blank ++ '\n' :: rest ∧ blank ≠ [] ∧ isBlank blank = true ∧
        '\n' ∉ rest.takeWhile isBlankChar := by
  by_cases h : '\n' ∈ (text.takeWhile isBlankChar).drop 1
  · right
    obtain ⟨c, more, hcons⟩ := List.exists_cons_of_ne_nil (List.ne_nil_of_mem (List.mem_of_mem_drop h))
    rw [hcons, List.drop_one, List.tail_cons] at h
    -- the last newline of the white space after the first character
    obtain ⟨after, before, hmore, hafter⟩ := List.eq_append_cons_of_mem (List.mem_reverse.2 h)
    have hblank : ∀ d ∈ text.takeWhile isBlankChar, isBlankChar d = true :=
      fun d hd => List.mem_takeWhile_imp hd
    have hsplit : text.takeWhile isBlankChar = (c :: before.reverse) ++ '\n' :: after.reverse := by
      rw [hcons, ← List.reverse_reverse more, hmore]
      simp
    have htext : text =
        (c :: before.reverse) ++ '\n' :: (after.reverse ++ text.dropWhile isBlankChar) := by
      conv_lhs => rw [← List.takeWhile_append_dropWhile (p := isBlankChar) (l := text), hsplit]
      simp
    refine ⟨c :: before.reverse, after.reverse ++ text.dropWhile isBlankChar, htext, by simp, ?_, ?_⟩
    · rw [isBlank, List.all_eq_true]
      exact fun d hd => hblank d (by rw [hsplit]; exact List.mem_append_left _ hd)
    · have hall : isBlank after.reverse = true := by
        rw [isBlank, List.all_eq_true]
        exact fun d hd => hblank d (by rw [hsplit]; simp [List.mem_reverse.1 hd])
      have hnone : (text.dropWhile isBlankChar).takeWhile isBlankChar = [] := by
        rw [List.takeWhile_eq_nil_iff]
        intro hlength
        simpa using List.dropWhile_get_zero_not isBlankChar text hlength
      rw [takeWhile_append_of_blank hall, hnone, List.append_nil, List.mem_reverse]
      exact hafter
  · exact .inl h

/-! ### After the code -/

theorem dropTrailingBlank_eq (text : Text) :
    dropTrailingBlank text =
      if '\n' ∈ text.rtakeWhile isBlankChar then
        trimEnd text ++ (text.rtakeWhile isBlankChar).takeWhile (· ≠ '\n') ++ ['\n']
      else text := rfl

theorem dropTrailingBlank_of_not_mem (h : '\n' ∉ text.rtakeWhile isBlankChar) :
    dropTrailingBlank text = text := by
  rw [dropTrailingBlank_eq, if_neg h]

theorem forall_blank_line (hblank : isBlank blank = true) : ∀ c ∈ '\n' :: blank, isBlankChar c = true :=
  List.forall_mem_cons.2 ⟨newline_blank, List.all_eq_true.1 hblank⟩

/-- A newline before white space is in the white space after the code. -/
theorem newline_mem_rtakeWhile_append (hblank : isBlank blank = true) (text : Text) :
    '\n' ∈ (text ++ '\n' :: blank).rtakeWhile isBlankChar := by
  rw [rtakeWhile_append_of_all (forall_blank_line hblank)]
  simp

theorem dropTrailingBlank_append (hline : '\n' ∉ text.rtakeWhile isBlankChar)
    (hblank : isBlank blank = true) : dropTrailingBlank (text ++ '\n' :: blank) = text ++ ['\n'] := by
  have hall := forall_blank_line hblank
  have hkeep : ∀ c ∈ text.rtakeWhile isBlankChar, decide (c ≠ '\n') = true := by
    intro c hc
    rw [decide_eq_true_eq]
    rintro rfl
    exact hline hc
  rw [dropTrailingBlank_eq, trimEnd_eq, rtakeWhile_append_of_all hall, rdropWhile_append_of_all hall,
    if_pos (by simp), List.takeWhile_append_of_pos hkeep, List.takeWhile_cons_of_neg (by simp),
    List.append_nil, List.rdropWhile_append_rtakeWhile]

/-- The blank lines after a text are dropped, or there is nothing to drop. -/
theorem trailing_cases (text : Text) :
    '\n' ∉ text.rtakeWhile isBlankChar ∨
      ∃ code blank, text = code ++ '\n' :: blank ∧ '\n' ∉ code.rtakeWhile isBlankChar ∧
        isBlank blank = true := by
  by_cases h : '\n' ∈ text.rtakeWhile isBlankChar
  · right
    obtain ⟨before, after, hsplit, hbefore⟩ := List.eq_append_cons_of_mem h
    have hblank : ∀ c ∈ text.rtakeWhile isBlankChar, isBlankChar c = true :=
      fun c hc => List.mem_rtakeWhile_imp hc
    have hall : ∀ c ∈ before, isBlankChar c = true :=
      fun c hc => hblank c (by rw [hsplit]; exact List.mem_append_left _ hc)
    have hnone : (text.rdropWhile isBlankChar).rtakeWhile isBlankChar = [] := by
      rw [List.rtakeWhile_eq_nil_iff]
      exact List.rdropWhile_last_not isBlankChar text
    refine ⟨text.rdropWhile isBlankChar ++ before, after, ?_, ?_, ?_⟩
    · rw [List.append_assoc, ← hsplit, List.rdropWhile_append_rtakeWhile]
    · rw [rtakeWhile_append_of_all hall, hnone]
      exact hbefore
    · rw [isBlank, List.all_eq_true]
      exact fun c hc => hblank c (by rw [hsplit]; simp [hc])
  · exact .inl h

/-! ### Within the lines -/

/-- The characters that are dropped before a newline. -/
def isSpaceOrTab (c : Char) : Bool :=
  c = ' ' || c = '\t'

theorem dropTrailingSpaces_cons (c : Char) (rest : Text) :
    dropTrailingSpaces (c :: rest) = dropBeforeNewline c (dropTrailingSpaces rest) := rfl

theorem dropTrailingSpaces_of_not_mem (h : '\n' ∉ text) : dropTrailingSpaces text = text := by
  induction text with
  | nil => rfl
  | cons c rest ih =>
    obtain ⟨-, hrest⟩ := not_or.1 (List.mem_cons.not.1 h)
    rw [dropTrailingSpaces_cons, ih hrest, dropBeforeNewline, if_neg]
    rintro ⟨-, hhead⟩
    exact hrest (List.mem_of_mem_head? hhead)

/-- At a newline, the line before it is shortened. -/
theorem dropTrailingSpaces_line (hline : '\n' ∉ line) (rest : Text) :
    dropTrailingSpaces (line ++ '\n' :: rest) =
      line.rdropWhile isSpaceOrTab ++ '\n' :: dropTrailingSpaces rest := by
  induction line with
  | nil => rw [List.nil_append, dropTrailingSpaces_cons, dropBeforeNewline, if_neg (by simp)]; rfl
  | cons c line ih =>
    obtain ⟨-, hrest⟩ := not_or.1 (List.mem_cons.not.1 hline)
    rw [List.cons_append, dropTrailingSpaces_cons, ih hrest, dropBeforeNewline, rdropWhile_cons]
    cases hshort : line.rdropWhile isSpaceOrTab with
    | nil => by_cases hc : c = ' ' ∨ c = '\t' <;> simp [hc, List.rdropWhile_singleton, isSpaceOrTab]
    | cons d more =>
      have hd : d ≠ '\n' := by
        rintro rfl
        exact hrest ((List.rdropWhile_prefix _ _).subset (hshort ▸ List.mem_cons_self ..))
      simp [hd]

end Text
end BlockProgram
