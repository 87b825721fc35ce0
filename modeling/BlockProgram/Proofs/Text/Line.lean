import BlockProgram.Text.Lines
import Mathlib

/-!
A text as its lines. A newline stands between two lines, so a text is its first line alone, or its first
line, a newline and the text of the other lines (`line_induction`). What works on lines is described by
what it does at a newline, and on a text without one.
-/

namespace BlockProgram
namespace Text

variable {text line rest : Text} {ls : List Text}

/-! ### Lines -/

theorem lines_eq_splitOn (text : Text) : lines text = text.splitOn '\n' := by
  induction text with
  | nil => rfl
  | cons c rest ih =>
    have hcons : lines (c :: rest) = addToLines c (lines rest) := rfl
    obtain ⟨first, others, hlines⟩ := List.exists_cons_of_ne_nil (List.splitOn_ne_nil '\n' rest)
    have hsplit := List.splitOnP_cons_eq_if_modifyHead (p := (· == '\n')) c rest
    rw [← List.splitOn, ← List.splitOn, hlines] at hsplit
    rw [hcons, ih, hsplit, addToLines, hlines]
    by_cases hc : c = '\n' <;> simp [hc]

/-- The lines of a text, joined, are the text. -/
theorem unlines_lines (text : Text) : unlines (lines text) = text := by
  rw [lines_eq_splitOn, unlines, List.intercalate_splitOn]

/-- Joined lines can be told apart again. -/
theorem lines_unlines (hls : ∀ line ∈ ls, '\n' ∉ line) (hne : ls ≠ []) : lines (unlines ls) = ls := by
  rw [lines_eq_splitOn, unlines, List.splitOn_intercalate _ hls hne]

theorem lines_of_not_mem (h : '\n' ∉ text) : lines text = [text] := by
  rw [lines_eq_splitOn, List.splitOn, List.splitOnP_eq_singleton]
  intro c hc
  rw [beq_eq_false_iff_ne]
  rintro rfl
  exact h hc

theorem lines_append_newline (text more : Text) :
    lines (text ++ '\n' :: more) = lines text ++ lines more := by
  simp only [lines_eq_splitOn, List.splitOn]
  exact List.splitOnP_append_cons text more (beq_self_eq_true '\n')

/-- The first line ends at the first newline. -/
theorem lines_line (hline : '\n' ∉ line) (rest : Text) :
    lines (line ++ '\n' :: rest) = line :: lines rest := by
  rw [lines_append_newline, lines_of_not_mem hline, List.singleton_append]

/-- The first newline stands at one place. -/
theorem line_unique {line' rest' : Text} (hline : '\n' ∉ line) (hline' : '\n' ∉ line')
    (h : line ++ '\n' :: rest = line' ++ '\n' :: rest') : line = line' := by
  have hlines := congrArg lines h
  rw [lines_line hline, lines_line hline'] at hlines
  exact (List.cons.inj hlines).1

theorem lines_ne_nil (text : Text) : lines text ≠ [] := by
  rw [lines_eq_splitOn]
  exact List.splitOn_ne_nil _ _

theorem unlines_cons (line : Text) (hne : ls ≠ []) : unlines (line :: ls) = line ++ '\n' :: unlines ls := by
  obtain ⟨next, others, rfl⟩ := List.exists_cons_of_ne_nil hne
  rw [unlines, List.intercalate_cons_cons, List.append_assoc, ← unlines, List.singleton_append]

/-- What holds of a text without newlines, and of a line before a text of which it holds, holds of every
text. -/
@[elab_as_elim]
theorem line_induction {motive : Text → Prop} (last : ∀ line, '\n' ∉ line → motive line)
    (line : ∀ line rest, '\n' ∉ line → motive rest → motive (line ++ '\n' :: rest)) (text : Text) :
    motive text := by
  by_cases h : '\n' ∈ text
  · obtain ⟨before, after, htext, hbefore⟩ := List.eq_append_cons_of_mem h
    rw [htext]
    exact line before after hbefore (line_induction last line after)
  · exact last text h
termination_by text.length
decreasing_by simp [htext]; omega

theorem newline_not_mem_of_mem_lines (h : line ∈ lines text) : '\n' ∉ line := by
  induction text using line_induction with
  | last only honly =>
    rw [lines_of_not_mem honly, List.mem_singleton] at h
    rwa [h]
  | line first rest hfirst ih =>
    rw [lines_line hfirst] at h
    rcases List.mem_cons.1 h with rfl | hrest
    · exact hfirst
    · exact ih hrest

/-! ### Trailing characters -/

section

variable {p : Char → Bool} {more : Text}

theorem rdropWhile_append_of_all (h : ∀ c ∈ more, p c = true) (text : Text) :
    (text ++ more).rdropWhile p = text.rdropWhile p := by
  induction more using List.reverseRecOn with
  | nil => rw [List.append_nil]
  | append_singleton more c ih =>
    rw [← List.append_assoc, List.rdropWhile_concat_pos _ _ _ (h c (by simp)),
      ih fun d hd => h d (by simp [hd])]

theorem rtakeWhile_append_of_all (h : ∀ c ∈ more, p c = true) (text : Text) :
    (text ++ more).rtakeWhile p = text.rtakeWhile p ++ more := by
  induction more using List.reverseRecOn with
  | nil => rw [List.append_nil, List.append_nil]
  | append_singleton more c ih =>
    rw [← List.append_assoc, List.rtakeWhile_concat_pos _ _ _ (h c (by simp)),
      ih fun d hd => h d (by simp [hd]), List.append_assoc]

/-- A line that loses characters at its end is still a line. -/
theorem newline_not_mem_rdropWhile (hline : '\n' ∉ line) (p : Char → Bool) : '\n' ∉ line.rdropWhile p :=
  fun hmem => hline ((List.rdropWhile_prefix p line).subset hmem)

/-- The first character stays if another one does, or by itself. -/
theorem rdropWhile_cons (p : Char → Bool) (c : Char) (text : Text) :
    (c :: text).rdropWhile p =
      if text.rdropWhile p = [] then [c].rdropWhile p else c :: text.rdropWhile p := by
  simp only [List.rdropWhile, List.reverse_cons, List.dropWhile_append, List.reverse_eq_nil_iff,
    List.isEmpty_iff]
  split <;> simp

end

theorem trimEnd_eq (text : Text) : trimEnd text = text.rdropWhile isBlankChar := rfl

/-- The last character of a text that is trimmed at the end is no white space. -/
theorem not_blank_of_getLast?_trimEnd {c : Char} (h : (trimEnd text).getLast? = some c) :
    isBlankChar c = false := by
  obtain ⟨init, hinit⟩ := List.getLast?_eq_some_iff.1 h
  rw [trimEnd_eq] at hinit
  simpa [hinit] using List.rdropWhile_last_not isBlankChar text (by rw [hinit]; simp)

end Text
end BlockProgram
