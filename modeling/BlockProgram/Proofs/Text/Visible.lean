import BlockProgram.Proofs.Text.Margin

/-!
What can be seen of a text: its lines of code, and the last character that is no white space.

    lines              a;      (blank)      loop i in x {     }   (blank)
    lines of code      a;      loop i in x {     }
    last visible                                 }

Tidying leaves the lines of code as they are. A line is terminated by its last visible character, and so
is a text by that of its last line of code.
-/

namespace BlockProgram
namespace Text

variable {text line more : Text}

theorem isBlank_append (text more : Text) : isBlank (text ++ more) = (isBlank text && isBlank more) :=
  List.all_append

/-! ### The last visible character -/

/-- The last character of a text that is no white space. -/
def lastVisible? (text : Text) : Option Char :=
  (trimEnd text).getLast?

theorem lastVisible?_eq_none_iff : lastVisible? text = none ↔ isBlank text = true := by
  rw [lastVisible?, List.getLast?_eq_none_iff, isBlank_iff_trimEnd]

theorem exists_lastVisible? (h : isBlank text = false) : ∃ c, lastVisible? text = some c := by
  rwa [← Option.ne_none_iff_exists', Ne, lastVisible?_eq_none_iff, Bool.not_eq_true]

theorem lastVisible?_concat (text : Text) (c : Char) :
    lastVisible? (text ++ [c]) = if isBlankChar c = true then lastVisible? text else some c := by
  rw [lastVisible?, trimEnd_eq, List.rdropWhile_concat]
  split
  · rfl
  · rw [List.getLast?_concat]

theorem lastVisible?_append (text more : Text) :
    lastVisible? (text ++ more) = (lastVisible? more).or (lastVisible? text) := by
  induction more using List.reverseRecOn with
  | nil => rw [List.append_nil]; rfl
  | append_singleton more c ih =>
    rw [← List.append_assoc, lastVisible?_concat, lastVisible?_concat]
    split
    · exact ih
    · rfl

/-- A newline ends what is visible before it. -/
theorem lastVisible?_line (line rest : Text) :
    lastVisible? (line ++ '\n' :: rest) = (lastVisible? rest).or (lastVisible? line) := by
  rw [List.append_cons, lastVisible?_append, lastVisible?_concat, if_pos newline_blank]

theorem lastVisible?_rdropWhile (line : Text) :
    lastVisible? (line.rdropWhile isSpaceOrTab) = lastVisible? line := by
  rw [lastVisible?, trimEnd_rdropWhile, lastVisible?]

/-- Whether the last visible character is an opening or a closing brace. -/
def endsInBrace (text : Text) : Bool :=
  (lastVisible? text).any fun c => c = '\x7b' || c = '\x7d'

/-- White space after a text does not count. -/
theorem endsInBrace_append (text more : Text) : endsInBrace (text ++ more) =
    if isBlank more = true then endsInBrace text else endsInBrace more := by
  rw [endsInBrace, lastVisible?_append]
  cases hmore : lastVisible? more with
  | none => rw [if_pos (lastVisible?_eq_none_iff.1 hmore), Option.none_or, endsInBrace]
  | some c =>
    have hvisible : ¬ isBlank more = true := by
      rw [← lastVisible?_eq_none_iff, hmore]
      exact Option.some_ne_none c
    rw [if_neg hvisible, Option.some_or, endsInBrace, hmore]

/-- Something can be seen of a text, and a brace is not the last of it. -/
def EndsOpen (text : Text) : Prop :=
  isBlank text = false ∧ endsInBrace text = false

instance (text : Text) : Decidable (EndsOpen text) :=
  inferInstanceAs (Decidable (_ ∧ _))

theorem EndsOpen.append_right (h : EndsOpen more) (text : Text) : EndsOpen (text ++ more) := by
  refine ⟨by rw [isBlank_append, h.1, Bool.and_false], ?_⟩
  rw [endsInBrace_append, if_neg (by simp [h.1]), h.2]

/-! ### Terminated texts -/

/-- The last visible character of a line that is terminated, by that of the line. -/
def closing (c : Char) : Char :=
  if isTerminator c then c else ';'

theorem lastVisible?_terminateLine (line : Text) :
    lastVisible? (terminateLine line) = (lastVisible? line).map closing := by
  rw [terminateLine, isTerminated, ← lastVisible?]
  cases hlast : lastVisible? line with
  | none => simp [hlast]
  | some c =>
    by_cases hc : isTerminator c = true
    · simp [hc, hlast, closing]
    · simp [hc, closing, lastVisible?_concat, show isBlankChar ';' = false from by decide]

/-- A text is terminated as its last line of code is. -/
theorem lastVisible?_terminate (text : Text) :
    lastVisible? (terminate text) = (lastVisible? text).map closing := by
  induction text using line_induction with
  | last line hline => rw [terminate_of_not_mem hline, lastVisible?_terminateLine]
  | line line rest hline ih =>
    rw [terminate_line hline, lastVisible?_line, lastVisible?_line, ih, lastVisible?_terminateLine]
    cases lastVisible? rest <;> rfl

theorem terminate_append_newline (text more : Text) :
    terminate (text ++ '\n' :: more) = terminate text ++ '\n' :: terminate more := by
  induction text using line_induction with
  | last line hline => rw [terminate_line hline, terminate_of_not_mem hline]
  | line line rest hline ih =>
    rw [List.append_assoc, List.cons_append, terminate_line hline, ih, terminate_line hline,
      List.append_assoc, List.cons_append]

/-- A line that is blank, or whose last visible character is a `;` or a brace. -/
def IsClosedLine (line : Text) : Prop :=
  isBlank line = true ∨ ∃ c, lastVisible? line = some c ∧ (c = ';' ∨ c = '\x7b' ∨ c = '\x7d')

theorem isClosedLine_iff : IsClosedLine line ↔ isTerminated line = true := by
  rw [isTerminated_iff, IsClosedLine, lastVisible?]
  simp only [Option.mem_def, isTerminator, Bool.or_eq_true, decide_eq_true_eq, or_assoc]

/-- What becomes of a line: it stays as it is if it is closed, and gets one `;` at its end if it is not. -/
inductive Closes : Text → Text → Prop where
  | keep {line : Text} (h : IsClosedLine line) : Closes line line
  | close {line : Text} (h : ¬ IsClosedLine line) : Closes line (line ++ [';'])

theorem closes_terminateLine (line : Text) : Closes line (terminateLine line) := by
  rw [terminateLine]
  split
  · rename_i hterminated
    exact .keep (isClosedLine_iff.2 hterminated)
  · rename_i hopen
    exact .close (mt isClosedLine_iff.1 hopen)

/-- **Terminating is done line by line, and once.** It is the same before and after each newline; the text has as
many lines as before, each as it was if it is closed, and else with one `;` at its end; after that all lines are
closed, and terminating the text once more changes nothing. -/
theorem terminate_by_line (text more : Text) :
    terminate (text ++ '\n' :: more) = terminate text ++ '\n' :: terminate more ∧
      (lines (terminate text)).length = (lines text).length ∧
      List.Forall₂ Closes (lines text) (lines (terminate text)) ∧
      (∀ line ∈ lines (terminate text), IsClosedLine line) ∧
      terminate (terminate text) = terminate text := by
  have hlines : List.Forall₂ Closes (lines text) (lines (terminate text)) := by
    rw [lines_terminate, List.forall₂_map_right_iff, List.forall₂_same]
    exact fun line _ => closes_terminateLine line
  have hterminated : Terminated (terminate text) := terminated_terminate text
  refine ⟨terminate_append_newline text more, hlines.length_eq.symm, hlines, ?_, ?_⟩
  · intro line hline
    exact isClosedLine_iff.2 (hterminated line hline)
  · exact terminate_eq_self_iff.2 hterminated

/-- White space stays where it is: the `;` comes after it, and blank lines get none. -/
example : terminate "a\u00a0\r\n\u3000\nb; \n\x7d".toList =
    "a\u00a0\r;\n\u3000\nb; \n\x7d".toList := by
  decide

/-! ### Lines of code -/

/-- The lines of a text that are not blank, without the spaces and tabs at their ends. -/
def codeLines (text : Text) : List Text :=
  ((lines text).filter fun line => !isBlank line).map (·.rdropWhile isSpaceOrTab)

theorem codeLines_append_newline (text more : Text) :
    codeLines (text ++ '\n' :: more) = codeLines text ++ codeLines more := by
  rw [codeLines, lines_append_newline, List.filter_append, List.map_append, codeLines, codeLines]

/-- A line is a line of code unless it is blank. -/
theorem codeLines_of_not_mem (hline : '\n' ∉ line) :
    codeLines line = if isBlank line = true then [] else [line.rdropWhile isSpaceOrTab] := by
  rw [codeLines, lines_of_not_mem hline]
  split <;> simp [*]

theorem codeLines_of_blank (hblank : isBlank text = true) : codeLines text = [] := by
  induction text using line_induction with
  | last line hline => rw [codeLines_of_not_mem hline, if_pos hblank]
  | line line rest hline ih =>
    rw [List.append_cons, isBlank_append, isBlank_append, Bool.and_eq_true, Bool.and_eq_true] at hblank
    rw [codeLines_append_newline, ih hblank.2, codeLines_of_not_mem hline, if_pos hblank.1.1,
      List.append_nil]

theorem not_blank_of_mem_codeLines (h : line ∈ codeLines text) : isBlank line = false := by
  obtain ⟨whole, hwhole, rfl⟩ := List.mem_map.1 h
  rw [isBlank_rdropWhile]
  simpa using (List.mem_filter.1 hwhole).2

theorem lastVisible?_getLast_codeLines_line (hline : '\n' ∉ line) :
    (codeLines line).getLast?.bind lastVisible? = lastVisible? line := by
  rw [codeLines_of_not_mem hline]
  split
  · rename_i hblank
    rw [lastVisible?_eq_none_iff.2 hblank]
    rfl
  · exact lastVisible?_rdropWhile line

/-- The last visible character of a text is that of its last line of code. -/
theorem lastVisible?_getLast_codeLines (text : Text) :
    (codeLines text).getLast?.bind lastVisible? = lastVisible? text := by
  induction text using line_induction with
  | last line hline => exact lastVisible?_getLast_codeLines_line hline
  | line line rest hline ih =>
    rw [codeLines_append_newline, lastVisible?_line, ← ih, List.getLast?_append]
    cases hlast : (codeLines rest).getLast? with
    | none =>
      rw [Option.none_or, Option.bind_none, Option.none_or]
      exact lastVisible?_getLast_codeLines_line hline
    | some last =>
      obtain ⟨c, hc⟩ := exists_lastVisible? (not_blank_of_mem_codeLines (List.mem_of_getLast? hlast))
      rw [Option.some_or, Option.bind_some, hc, Option.some_or]

/-- The last line of code of a terminated text ends in `;`, unless the text ends in a brace. -/
theorem exists_lastLine_terminate (h : isBlank text = false) :
    ∃ line, (codeLines (terminate text)).getLast? = some line ∧
      (lastVisible? line = some ';' ↔ endsInBrace text = false) := by
  obtain ⟨c, hc⟩ := exists_lastVisible? h
  have hlast := lastVisible?_getLast_codeLines (terminate text)
  rw [lastVisible?_terminate, hc, Option.map_some] at hlast
  obtain ⟨line, hline, hclosed⟩ := Option.bind_eq_some_iff.1 hlast
  refine ⟨line, hline, ?_⟩
  rw [hclosed, endsInBrace, hc, closing, isTerminator]
  by_cases hbrace : c = '\x7b' ∨ c = '\x7d'
  · rcases hbrace with rfl | rfl <;> decide
  · obtain ⟨hopening, hclosing⟩ := not_or.1 hbrace
    by_cases hsemicolon : c = ';' <;> simp [hopening, hclosing, hsemicolon]

/-! ### Tidy texts -/

theorem codeLines_dropLeadingBlank (text : Text) : codeLines (dropLeadingBlank text) = codeLines text := by
  rcases leading_cases text with hnone | ⟨blank, rest, rfl, hne, hblank, hrest⟩
  · rw [dropLeadingBlank_of_not_mem hnone]
  · rw [dropLeadingBlank_append hne hblank hrest, codeLines_append_newline, codeLines_of_blank hblank,
      List.nil_append]

theorem codeLines_dropTrailingBlank (text : Text) : codeLines (dropTrailingBlank text) = codeLines text := by
  rcases trailing_cases text with hnone | ⟨code, blank, rfl, hcode, hblank⟩
  · rw [dropTrailingBlank_of_not_mem hnone]
  · rw [dropTrailingBlank_append hcode hblank, codeLines_append_newline, codeLines_append_newline,
      codeLines_of_blank hblank]
    rfl

theorem codeLines_dropTrailingSpaces (text : Text) :
    codeLines (dropTrailingSpaces text) = codeLines text := by
  induction text using line_induction with
  | last line hline => rw [dropTrailingSpaces_of_not_mem hline]
  | line line rest hline ih =>
    have hshort := newline_not_mem_rdropWhile hline isSpaceOrTab
    rw [dropTrailingSpaces_line hline, codeLines_append_newline, codeLines_append_newline, ih,
      codeLines_of_not_mem hshort, codeLines_of_not_mem hline, isBlank_rdropWhile,
      List.rdropWhile_idempotent]

/-- Tidying changes no line of code. -/
theorem codeLines_tidy (text : Text) : codeLines (tidy text) = codeLines text := by
  rw [tidy, codeLines_dropTrailingSpaces, codeLines_dropTrailingBlank, codeLines_dropLeadingBlank]

/-- The lines of code of texts under each other are those of the texts. -/
theorem codeLines_terminate_unlines (texts : List Text) :
    codeLines (terminate (unlines texts)) = texts.flatMap fun text => codeLines (terminate text) := by
  induction texts with
  | nil => rfl
  | cons text rest ih =>
    rcases eq_or_ne rest [] with rfl | hrest
    · rw [unlines, List.intercalate_singleton, List.flatMap_singleton]
    · rw [unlines_cons text hrest, terminate_append_newline, codeLines_append_newline, ih,
        List.flatMap_cons]

/-- Texts without characters have no lines of code. -/
theorem flatMap_codeLines_filter (texts : List Text) :
    ((texts.filter fun text => !text.isEmpty).flatMap fun text => codeLines (terminate text)) =
      texts.flatMap fun text => codeLines (terminate text) := by
  induction texts with
  | nil => rfl
  | cons text rest ih =>
    rw [List.flatMap_cons, ← ih]
    cases text with
    | nil =>
      rw [List.filter_cons_of_neg (by simp)]
      rfl
    | cons c more => rw [List.filter_cons_of_pos (by simp), List.flatMap_cons]

end Text
end BlockProgram
