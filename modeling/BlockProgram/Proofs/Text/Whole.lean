import BlockProgram.Proofs.Text.Margin
import BlockProgram.Proofs.Text.Verbatim

/-!
Texts of whole lines. Every line of such a text is closed and has a newline after it, so there is nothing to
terminate and nothing to tidy, and putting an indent before each line is one more step to the right for every
line.

    row           depth 2, text `res x;`
    line          indent indent `res x;`
    indented      indent indent indent `res x;`
-/

namespace BlockProgram
namespace Text

theorem not_blank_of_isTerminator {c : Char} (h : isTerminator c = true) : isBlankChar c = false := by
  simp only [isTerminator, Bool.or_eq_true, decide_eq_true_eq] at h
  rcases h with (rfl | rfl) | rfl <;> decide

/-! ### Whole lines -/

section

variable {text more line : Text}

/-- A line is empty, or closed by its last character. -/
def ClosedLine (line : Text) : Prop :=
  line = [] ∨ ∃ init c, line = init ++ [c] ∧ isTerminator c = true

theorem ClosedLine.isTerminated (h : ClosedLine line) : isTerminated line = true := by
  rcases h with rfl | ⟨init, c, rfl, hc⟩
  · exact isTerminated_nil
  · have htrim : trimEnd (init ++ [c]) = init ++ [c] :=
      List.rdropWhile_concat_neg _ _ _ (by simp [not_blank_of_isTerminator hc])
    exact isTerminated_iff.2 (.inr ⟨c, by rw [htrim, List.getLast?_concat]; rfl, hc⟩)

theorem ClosedLine.rdropWhile (h : ClosedLine line) : line.rdropWhile isSpaceOrTab = line := by
  rcases h with rfl | ⟨init, c, rfl, hc⟩
  · rfl
  · refine List.rdropWhile_concat_neg _ _ _ fun hspace => ?_
    have hblank := not_blank_of_isTerminator hc
    simp only [isSpaceOrTab, Bool.or_eq_true, decide_eq_true_eq] at hspace
    rcases hspace with rfl | rfl <;> revert hblank <;> decide

/-- A text of closed lines, the first of which starts with a visible character and the last of which has a
newline after it. -/
structure Whole (text : Text) : Prop where
  opens : ∃ c rest, text = c :: rest ∧ isBlankChar c = false
  closes : ∃ init c, text = init ++ [c, '\n'] ∧ isTerminator c = true
  closed : ∀ line ∈ lines text, ClosedLine line

theorem Whole.append_newline (h : Whole text) (hmore : Whole more) : Whole (text ++ '\n' :: more) where
  opens := by
    obtain ⟨c, rest, rfl, hc⟩ := h.opens
    exact ⟨c, rest ++ '\n' :: more, rfl, hc⟩
  closes := by
    obtain ⟨init, c, rfl, hc⟩ := hmore.closes
    exact ⟨text ++ '\n' :: init, c, by simp, hc⟩
  closed := by
    intro line hline
    rw [lines_append_newline, List.mem_append] at hline
    exact hline.elim (h.closed line) (hmore.closed line)

theorem whole_unlines {texts : List Text} (h : ∀ text ∈ texts, Whole text) (hne : texts ≠ []) :
    Whole (unlines texts) := by
  induction texts with
  | nil => exact absurd rfl hne
  | cons text rest ih =>
    rw [List.forall_mem_cons] at h
    rcases eq_or_ne rest [] with rfl | hrest
    · rw [unlines, List.intercalate_singleton]
      exact h.1
    · rw [unlines_cons text hrest]
      exact h.1.append_newline (ih h.2 hrest)

theorem Whole.terminate (h : Whole text) : terminate text = text :=
  terminate_eq_self_iff.2 fun line hline => (h.closed line hline).isTerminated

theorem Whole.dropTrailingSpaces (h : Whole text) : dropTrailingSpaces text = text := by
  have hshort : (lines text).dropLast.map (·.rdropWhile isSpaceOrTab) = (lines text).dropLast.map id :=
    List.map_congr_left fun line hline => (h.closed line (List.mem_of_mem_dropLast hline)).rdropWhile
  have hlines : lines (Text.dropTrailingSpaces text) = lines text := by
    rw [lines_dropTrailingSpaces, hshort, List.map_id, List.getLast?_eq_some_getLast (lines_ne_nil text)]
    exact List.dropLast_append_getLast (lines_ne_nil text)
  rw [← unlines_lines (Text.dropTrailingSpaces text), hlines, unlines_lines]

theorem Whole.tidy (h : Whole text) : tidy text = text := by
  obtain ⟨c, rest, hopens, hc⟩ := h.opens
  obtain ⟨init, d, hcloses, hd⟩ := h.closes
  have hleading : dropLeadingBlank text = text := by
    refine dropLeadingBlank_of_not_mem ?_
    rw [hopens, List.takeWhile_cons_of_neg (by simp [hc])]
    simp
  have htrailing : dropTrailingBlank text = text := by
    rw [hcloses, ← List.singleton_append, ← List.append_assoc]
    have hblank : isBlank [] = true := rfl
    refine dropTrailingBlank_append ?_ hblank
    rw [List.rtakeWhile_concat_neg _ _ _ (by simp [not_blank_of_isTerminator hd])]
    simp
  rw [Text.tidy, hleading, htrailing, h.dropTrailingSpaces]

end

/-! ### Rows -/

/-- What stands on a line, and how deep it is nested. -/
structure Row where
  depth : Nat
  text : Text
  deriving DecidableEq, Repr

variable {indent : Text}

namespace Row

/-- One copy of the indent for each level, and what stands on the line. -/
def line (indent : Text) (row : Row) : Text :=
  (List.replicate row.depth indent).flatten ++ row.text

/-- The row one level deeper. -/
def deepen (row : Row) : Row :=
  { row with depth := row.depth + 1 }

/-- A row holds a line that starts with a visible character and is closed by the last one. -/
structure Proper (row : Row) : Prop where
  single : '\n' ∉ row.text
  opens : ∃ c rest, row.text = c :: rest ∧ isBlankChar c = false
  closes : ∃ init c, row.text = init ++ [c] ∧ isTerminator c = true

theorem line_deepen (indent : Text) (row : Row) : row.deepen.line indent = indent ++ row.line indent := by
  rw [line, line, deepen, List.replicate_succ, List.flatten_cons, List.append_assoc]

theorem Proper.deepen {row : Row} (h : row.Proper) : row.deepen.Proper :=
  ⟨h.single, h.opens, h.closes⟩

theorem Proper.newline_not_mem {row : Row} (h : row.Proper) (hindent : '\n' ∉ indent) :
    '\n' ∉ row.line indent := by
  rw [line, List.mem_append, not_or]
  refine ⟨fun hmem => ?_, h.single⟩
  obtain ⟨copy, hcopy, hmem⟩ := List.mem_flatten.1 hmem
  rw [List.eq_of_mem_replicate hcopy] at hmem
  exact hindent hmem

theorem Proper.closedLine {row : Row} (h : row.Proper) (indent : Text) : ClosedLine (row.line indent) := by
  obtain ⟨init, c, htext, hc⟩ := h.closes
  exact .inr ⟨_, c, by rw [line, htext, List.append_assoc], hc⟩

end Row

/-- The rows as lines, each with a newline after it. -/
def ofRows (indent : Text) (rows : List Row) : Text :=
  rows.flatMap fun row => row.line indent ++ ['\n']

variable {row : Row} {rows : List Row}

theorem ofRows_cons (indent : Text) (row : Row) (rows : List Row) :
    ofRows indent (row :: rows) = row.line indent ++ '\n' :: ofRows indent rows := by
  rw [ofRows, List.flatMap_cons, List.append_assoc]
  rfl

theorem ofRows_append (indent : Text) (rows more : List Row) :
    ofRows indent (rows ++ more) = ofRows indent rows ++ ofRows indent more :=
  List.flatMap_append

theorem lines_ofRows (hindent : '\n' ∉ indent) (h : ∀ row ∈ rows, row.Proper) :
    lines (ofRows indent rows) = rows.map (Row.line indent) ++ [[]] := by
  induction rows with
  | nil => rfl
  | cons row rest ih =>
    rw [List.forall_mem_cons] at h
    rw [ofRows_cons, lines_line (h.1.newline_not_mem hindent), ih h.2, List.map_cons, List.cons_append]

/-- An indent before each line takes every row one level deeper. -/
theorem indentLines_ofRows (hindent : '\n' ∉ indent) (h : ∀ row ∈ rows, row.Proper) :
    indentLines indent (ofRows indent rows) = ofRows indent (rows.map Row.deepen) := by
  induction rows with
  | nil => rfl
  | cons row rest ih =>
    rw [List.forall_mem_cons] at h
    have hne : ¬ (row.line indent ++ '\n' :: ofRows indent rest).isEmpty = true := by simp
    rw [ofRows_cons, indentLines, if_neg hne, indentAfterNewlines_line indent (h.1.newline_not_mem hindent),
      ih h.2, List.map_cons, ofRows_cons, Row.line_deepen, List.append_assoc]

/-- Rows that start at the margin are whole lines. -/
theorem whole_ofRows (hindent : '\n' ∉ indent) (h : ∀ row ∈ rows, row.Proper)
    (hfirst : ∃ row rest, rows = row :: rest ∧ row.depth = 0) : Whole (ofRows indent rows) where
  opens := by
    obtain ⟨row, rest, rfl, hdepth⟩ := hfirst
    obtain ⟨c, more, htext, hc⟩ := (h row (List.mem_cons_self ..)).opens
    exact ⟨c, _, by rw [ofRows_cons, Row.line, hdepth, htext]; rfl, hc⟩
  closes := by
    obtain ⟨row, rest, rfl, -⟩ := hfirst
    obtain ⟨front, last, hlast⟩ : ∃ front last, row :: rest = front ++ [last] :=
      ⟨_, _, (List.dropLast_append_getLast (List.cons_ne_nil row rest)).symm⟩
    rw [hlast] at h ⊢
    obtain ⟨init, c, htext, hc⟩ := (h last (by simp)).closes
    refine ⟨ofRows indent front ++ (List.replicate last.depth indent).flatten ++ init, c, ?_, hc⟩
    rw [ofRows_append, ofRows_cons, Row.line, htext]
    simp [ofRows]
  closed := by
    intro line hline
    rw [lines_ofRows hindent h, List.mem_append, List.mem_singleton] at hline
    rcases hline with hline | rfl
    · obtain ⟨row, hrow, rfl⟩ := List.mem_map.1 hline
      exact (h row hrow).closedLine indent
    · exact .inl rfl

/-- The lines of rows under each other: a blank line stands between any two of them. -/
theorem lines_unlines_ofRows (hindent : '\n' ∉ indent) {outlines : List (List Row)}
    (h : ∀ rows ∈ outlines, ∀ row ∈ rows, row.Proper) :
    lines (unlines (outlines.map (ofRows indent))) =
      [[]].intercalate (outlines.map fun rows => rows.map (Row.line indent)) ++ [[]] := by
  induction outlines with
  | nil => rfl
  | cons rows rest ih =>
    rw [List.forall_mem_cons] at h
    rw [List.map_cons, List.map_cons]
    cases rest with
    | nil =>
      rw [List.map_nil, List.map_nil, unlines, List.intercalate_singleton, List.intercalate_singleton,
        lines_ofRows hindent h.1]
    | cons next others =>
      rw [unlines_cons _ (by simp), lines_append_newline, ih h.2, lines_ofRows hindent h.1, List.map_cons,
        List.intercalate_cons_cons]
      simp

end Text
end BlockProgram
