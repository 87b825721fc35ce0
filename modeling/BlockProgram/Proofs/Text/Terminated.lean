import BlockProgram.Proofs.Rendering.Triple
import BlockProgram.Proofs.Text.Tidy

/-!
Terminated lines. A program is terminated line by line before it is tidied, and tidying keeps that: it
drops blank lines and white space at the end of a line, and neither is looked at when it is asked whether
a line is terminated. So a program is what it is terminated to (`Generator.generate_terminated`).
-/

namespace BlockProgram
namespace Text

variable {text line : Text}

/-! ### One line -/

/-- White space at the end of a line does not count. -/
theorem isTerminated_congr {line' : Text} (h : trimEnd line = trimEnd line') :
    isTerminated line = isTerminated line' := by
  rw [isTerminated, isTerminated, h]

theorem isTerminated_nil : isTerminated [] = true := rfl

theorem isBlank_iff_trimEnd : isBlank line = true ↔ trimEnd line = [] := by
  rw [isBlank, List.all_eq_true, trimEnd_eq, List.rdropWhile_eq_nil_iff]

/-- A line is terminated if it is blank, or if its last character but white space closes it. -/
theorem isTerminated_iff : isTerminated line = true ↔
    isBlank line = true ∨ ∃ c ∈ (trimEnd line).getLast?, isTerminator c = true := by
  rw [isTerminated, isBlank_iff_trimEnd]
  rcases List.eq_nil_or_concat (trimEnd line) with h | ⟨init, c, h⟩
  · simp [h]
  · simp [h]

theorem isTerminated_terminateLine (line : Text) : isTerminated (terminateLine line) = true := by
  rw [terminateLine]
  split
  · assumption
  · have htrim : trimEnd (line ++ [';']) = line ++ [';'] :=
      List.rdropWhile_concat_neg _ _ _ (by decide)
    rw [isTerminated, htrim, List.getLast?_concat]
    rfl

theorem newline_not_mem_terminateLine (h : '\n' ∉ line) : '\n' ∉ terminateLine line := by
  rw [terminateLine]
  split
  · exact h
  · simpa using h

/-! ### All lines -/

/-- Every line of the text is terminated. -/
def Terminated (text : Text) : Prop :=
  ∀ line ∈ lines text, isTerminated line = true

/-- Each line is terminated by itself. -/
theorem lines_terminate (text : Text) : lines (terminate text) = (lines text).map terminateLine := by
  refine lines_unlines (fun line hline => ?_) (by simpa using lines_ne_nil text)
  obtain ⟨other, hother, rfl⟩ := List.mem_map.1 hline
  exact newline_not_mem_terminateLine (newline_not_mem_of_mem_lines hother)

theorem terminate_of_not_mem (h : '\n' ∉ text) : terminate text = terminateLine text := by
  rw [terminate, lines_of_not_mem h, List.map_singleton, unlines, List.intercalate_singleton]

theorem terminate_line (hline : '\n' ∉ line) (rest : Text) :
    terminate (line ++ '\n' :: rest) = terminateLine line ++ '\n' :: terminate rest := by
  rw [terminate, lines_line hline, List.map_cons, unlines_cons _ (by simpa using lines_ne_nil rest),
    ← terminate]

theorem terminated_terminate (text : Text) : Terminated (terminate text) := by
  intro line hline
  rw [lines_terminate] at hline
  obtain ⟨other, -, rfl⟩ := List.mem_map.1 hline
  exact isTerminated_terminateLine other

/-- A text whose lines are terminated is left as it is, and no other text is. -/
theorem terminate_eq_self_iff : terminate text = text ↔ Terminated text := by
  constructor
  · intro h
    rw [← h]
    exact terminated_terminate text
  · intro h
    have hlines : (lines text).map terminateLine = (lines text).map id :=
      List.map_congr_left fun line hline => if_pos (h line hline)
    rw [terminate, hlines, List.map_id, unlines_lines]

/-! ### Tidy texts -/

theorem Terminated.dropLeadingBlank (h : Terminated text) : Terminated (dropLeadingBlank text) := by
  rcases leading_cases text with hnone | ⟨blank, rest, rfl, hne, hblank, hrest⟩
  · rwa [dropLeadingBlank_of_not_mem hnone]
  · rw [dropLeadingBlank_append hne hblank hrest]
    intro line hline
    refine h line ?_
    rw [lines_append_newline]
    exact List.mem_append_right _ hline

theorem Terminated.dropTrailingBlank (h : Terminated text) : Terminated (dropTrailingBlank text) := by
  rcases trailing_cases text with hnone | ⟨code, blank, rfl, hcode, hblank⟩
  · rwa [dropTrailingBlank_of_not_mem hnone]
  · rw [dropTrailingBlank_append hcode hblank]
    intro line hline
    rw [lines_append_newline, List.mem_append] at hline
    rcases hline with hline | hline
    · refine h line ?_
      rw [lines_append_newline]
      exact List.mem_append_left _ hline
    · rw [List.mem_singleton.1 hline]
      exact isTerminated_nil

theorem trimEnd_rdropWhile (line : Text) :
    trimEnd (line.rdropWhile isSpaceOrTab) = trimEnd line := by
  have hblank : ∀ c ∈ line.rtakeWhile isSpaceOrTab, isBlankChar c = true := by
    intro c hc
    have hspace := List.mem_rtakeWhile_imp hc
    simp only [isSpaceOrTab, Bool.or_eq_true, decide_eq_true_eq] at hspace
    rcases hspace with rfl | rfl
    · exact space_blank
    · exact tab_blank
  rw [trimEnd_eq, trimEnd_eq, ← rdropWhile_append_of_all hblank, List.rdropWhile_append_rtakeWhile]

/-- A line without the spaces and tabs at its end is terminated as it was. -/
theorem isTerminated_rdropWhile (line : Text) :
    isTerminated (line.rdropWhile isSpaceOrTab) = isTerminated line :=
  isTerminated_congr (trimEnd_rdropWhile line)

theorem Terminated.dropTrailingSpaces (h : Terminated text) : Terminated (dropTrailingSpaces text) := by
  induction text using line_induction with
  | last line hline => rwa [dropTrailingSpaces_of_not_mem hline]
  | line line rest hline ih =>
    rw [Terminated, lines_line hline, List.forall_mem_cons] at h
    have hshort := newline_not_mem_rdropWhile hline isSpaceOrTab
    rw [dropTrailingSpaces_line hline, Terminated, lines_line hshort, List.forall_mem_cons,
      isTerminated_rdropWhile]
    exact ⟨h.1, ih h.2⟩

theorem Terminated.tidy (h : Terminated text) : Terminated (tidy text) :=
  h.dropLeadingBlank.dropTrailingBlank.dropTrailingSpaces

end Text

/-! ### Programs -/

/-- Every line of a program is terminated: it is blank, or it ends in `;`, in an opening or in a closing
brace, whatever white space follows. So terminating the program once more changes nothing. -/
theorem Generator.generate_terminated {g : Generator} {ws : Workspace} {code : String}
    (h : g.generate ws = .ok code) :
    Text.terminate code.toList = code.toList ∧
      ∀ line ∈ Text.lines code.toList,
        Text.isBlank line = true ∨
          ∃ c ∈ (Text.trimEnd line).getLast?, c = ';' ∨ c = '\x7b' ∨ c = '\x7d' := by
  have hterminated : Text.Terminated code.toList := by
    obtain ⟨texts, -, hcode⟩ := exists_texts_of_generate h
    rw [hcode]
    exact (Text.terminated_terminate _).tidy
  refine ⟨Text.terminate_eq_self_iff.2 hterminated, ?_⟩
  intro line hline
  rcases Text.isTerminated_iff.1 (hterminated line hline) with hblank | ⟨c, hlast, hc⟩
  · exact .inl hblank
  · simp only [Text.isTerminator, Bool.or_eq_true, decide_eq_true_eq, or_assoc] at hc
    exact .inr ⟨c, hlast, hc⟩

/-- A condition with a body, before a variable whose name has two lines and a wide space in the first. -/
def brokenName : Workspace where
  blocks :=
    #[{ id := "b0", kind := .ifStatement, inputs := [("DO", ⟨1⟩)], next := some ⟨2⟩ },
      { id := "b1", kind := .returnStatement },
      { id := "b2", kind := .variableReference, fields := [("VAR_NAME", "x\u3000\n y")] }]
  top := [⟨0⟩]

theorem brokenName_terminated :
    Generator.generate {} brokenName = .ok "if true \x7b\n  res null;\n\x7d\nx\u3000;\n y;" ∧
      Text.terminate "if true \x7b\n  res null;\n\x7d\nx\u3000;\n y;".toList =
        "if true \x7b\n  res null;\n\x7d\nx\u3000;\n y;".toList := by
  have hcode : Generator.generate {} brokenName =
      .ok "if true \x7b\n  res null;\n\x7d\nx\u3000;\n y;" := by
    cbv
  exact ⟨hcode, (Generator.generate_terminated hcode).1⟩

end BlockProgram
