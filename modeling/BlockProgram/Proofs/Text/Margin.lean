import BlockProgram.Proofs.Text.Terminated

/-!
The first and the last lines of a program. Tidying drops the blank lines before the code and those after
it, and shortens the lines that it keeps. It does not look at lines between others: the texts of the blocks
on the canvas stay a blank line apart.

    blank                      dropped, with the newline after it
    first                      some code, unless no line follows it or a newline opens the text
    ...
    before                     may be blank if code follows it
    last                       some code or nothing; if nothing, then `before` has some code

A single newline before the code stays where it is.
-/

namespace BlockProgram
namespace Text

variable {text line blank : Text} {ls : List Text}

/-! ### The first line -/

/-- The first of several lines is empty or has some code. -/
def OpensWithCode (ls : List Text) : Prop :=
  ∀ first rest, ls = first :: rest → rest ≠ [] → first = [] ∨ isBlank first = false

theorem newline_not_mem_dropLeadingBlank (text : Text) :
    '\n' ∉ ((dropLeadingBlank text).takeWhile isBlankChar).drop 1 := by
  rcases leading_cases text with hnone | ⟨blank, rest, rfl, hne, hblank, hrest⟩
  · rwa [dropLeadingBlank_of_not_mem hnone]
  · rw [dropLeadingBlank_append hne hblank hrest]
    exact fun hmem => hrest (List.mem_of_mem_drop hmem)

theorem opensWithCode_of_not_mem (h : '\n' ∉ (text.takeWhile isBlankChar).drop 1) :
    OpensWithCode (lines text) := by
  intro first rest hlines hrest
  have hjoined : text = first ++ '\n' :: unlines rest := by
    rw [← unlines_lines text, hlines, unlines_cons first hrest]
  cases first with
  | nil => exact .inl rfl
  | cons c first =>
    refine .inr (Bool.eq_false_iff.2 fun hblank => h ?_)
    rw [hjoined]
    exact newline_mem_drop_takeWhile (List.cons_ne_nil c first) hblank (unlines rest)

/-! ### The last lines -/

/-- The last of several lines has some code, or it is empty and the one before it has; a text of one
newline aside. -/
def ClosesWithCode (ls : List Text) : Prop :=
  ∀ init before last, ls = init ++ [before, last] →
    isBlank last = false ∨ last = [] ∧ (isBlank before = false ∨ init = [] ∧ before = [])

theorem unlines_concat (hls : ls ≠ []) (line : Text) : unlines (ls ++ [line]) = unlines ls ++ '\n' :: line := by
  induction ls with
  | nil => exact absurd rfl hls
  | cons first rest ih =>
    rw [List.cons_append, unlines_cons first (by simp)]
    rcases eq_or_ne rest [] with rfl | hrest
    · rw [List.nil_append, unlines, unlines, List.intercalate_singleton, List.intercalate_singleton]
    · rw [ih hrest, unlines_cons first hrest, List.append_assoc, List.cons_append]

/-- If the last of several lines is blank, the white space that ends the text holds a newline. -/
theorem newline_mem_rtakeWhile (hls : ls ≠ []) (hlines : lines text = ls ++ [line])
    (hblank : isBlank line = true) : '\n' ∈ text.rtakeWhile isBlankChar := by
  rw [← unlines_lines text, hlines, unlines_concat hls]
  exact newline_mem_rtakeWhile_append hblank (unlines ls)

theorem ClosesWithCode.of_not_mem (h : '\n' ∉ text.rtakeWhile isBlankChar) :
    ClosesWithCode (lines text) := by
  intro init before last hlines
  have hconcat : lines text = (init ++ [before]) ++ [last] := by
    rw [hlines, List.append_assoc]
    rfl
  exact .inl (Bool.eq_false_iff.2 fun hblank => h (newline_mem_rtakeWhile (by simp) hconcat hblank))

/-- The white space after the code is cut down to one newline. -/
theorem OpensWithCode.closesWithCode_dropTrailingBlank (h : OpensWithCode (lines text)) :
    ClosesWithCode (lines (dropTrailingBlank text)) := by
  rcases trailing_cases text with hnone | ⟨code, blank, rfl, hcode, hblank⟩
  · rw [dropTrailingBlank_of_not_mem hnone]
    exact .of_not_mem hnone
  · rw [dropTrailingBlank_append hcode hblank, lines_append_newline]
    intro init before last hlines
    rw [List.append_cons init before [last]] at hlines
    obtain ⟨hcodeLines, hlast⟩ := List.append_inj' hlines rfl
    refine .inr ⟨(List.cons.inj hlast).1.symm, ?_⟩
    rcases eq_or_ne init [] with rfl | hinit
    · -- the text before the newline is one line, so it opens the text
      have hfirst := h before (lines blank) (by rw [lines_append_newline, hcodeLines]; rfl)
        (lines_ne_nil blank)
      exact hfirst.symm.imp_right fun hbefore => ⟨rfl, hbefore⟩
    · refine .inl (Bool.eq_false_iff.2 fun hbefore => hcode ?_)
      exact newline_mem_rtakeWhile hinit hcodeLines hbefore

theorem OpensWithCode.dropTrailingBlank (h : OpensWithCode (lines text)) :
    OpensWithCode (lines (dropTrailingBlank text)) := by
  rcases trailing_cases text with hnone | ⟨code, blank, rfl, hcode, hblank⟩
  · rwa [dropTrailingBlank_of_not_mem hnone]
  · rw [dropTrailingBlank_append hcode hblank, lines_append_newline]
    rw [lines_append_newline] at h
    intro first rest hlines _
    obtain ⟨others, hothers⟩ : ∃ others, lines code = first :: others := by
      obtain ⟨line, others, hline⟩ := List.exists_cons_of_ne_nil (lines_ne_nil code)
      rw [hline, List.cons_append, List.cons.injEq] at hlines
      exact ⟨others, by rw [hline, hlines.1]⟩
    refine h first (others ++ lines blank) (by rw [hothers, List.cons_append]) ?_
    simp [lines_ne_nil]

/-! ### Shortened lines -/

/-- Each line but the last loses the spaces and tabs at its end. -/
theorem lines_dropTrailingSpaces (text : Text) : lines (dropTrailingSpaces text) =
    (lines text).dropLast.map (·.rdropWhile isSpaceOrTab) ++ (lines text).getLast?.toList := by
  induction text using line_induction with
  | last line hline => rw [dropTrailingSpaces_of_not_mem hline, lines_of_not_mem hline]; rfl
  | line line rest hline ih =>
    have hshort := newline_not_mem_rdropWhile hline isSpaceOrTab
    rw [dropTrailingSpaces_line hline, lines_line hshort, lines_line hline, ih,
      List.dropLast_cons_of_ne_nil (lines_ne_nil rest), List.map_cons, List.cons_append]
    rw [List.getLast?_cons_of_ne_nil (lines_ne_nil rest)]

theorem isBlank_rdropWhile (line : Text) :
    isBlank (line.rdropWhile isSpaceOrTab) = isBlank line := by
  rw [Bool.eq_iff_iff, isBlank_iff_trimEnd, isBlank_iff_trimEnd, trimEnd_rdropWhile]

theorem OpensWithCode.dropTrailingSpaces (h : OpensWithCode (lines text)) :
    OpensWithCode (lines (dropTrailingSpaces text)) := by
  intro first rest hlines hrest
  rw [lines_dropTrailingSpaces] at hlines
  obtain ⟨line, others, htext⟩ := List.exists_cons_of_ne_nil (lines_ne_nil text)
  rcases eq_or_ne others [] with rfl | hothers
  · -- the only line is the last one
    rw [htext] at hlines
    exact absurd (List.cons.inj hlines).2.symm hrest
  · rw [htext, List.dropLast_cons_of_ne_nil hothers, List.map_cons, List.cons_append] at hlines
    obtain ⟨rfl, -⟩ := List.cons.inj hlines
    rw [isBlank_rdropWhile]
    rcases h line others htext hothers with rfl | hline
    · exact .inl rfl
    · exact .inr hline

theorem ClosesWithCode.dropTrailingSpaces (h : ClosesWithCode (lines text)) :
    ClosesWithCode (lines (dropTrailingSpaces text)) := by
  intro init before last hlines
  rw [lines_dropTrailingSpaces] at hlines
  obtain ⟨front, final, htext⟩ : ∃ front final, lines text = front ++ [final] :=
    ⟨_, _, (List.dropLast_append_getLast (lines_ne_nil text)).symm⟩
  rw [htext, List.dropLast_concat, List.getLast?_concat, Option.toList_some,
    List.append_cons init before [last]] at hlines
  obtain ⟨hfront, hlast⟩ := List.append_inj' hlines rfl
  obtain ⟨rfl, -⟩ := List.cons.inj hlast
  obtain ⟨earlier, middle, rfl, rfl, hmiddle⟩ := List.map_eq_append_iff.1 hfront
  obtain ⟨line, others, rfl, rfl, hothers⟩ := List.map_eq_cons_iff.1 hmiddle
  obtain rfl := List.map_eq_nil_iff.1 hothers
  rw [isBlank_rdropWhile]
  refine (h earlier line final (by rw [htext, List.append_assoc]; rfl)).imp_right fun hfinal => ?_
  refine ⟨hfinal.1, hfinal.2.imp_right fun halone => ?_⟩
  rw [halone.1, halone.2]
  exact ⟨rfl, rfl⟩

/-- No space and no tab is left before a newline. -/
theorem not_isSpaceOrTab_of_dropTrailingSpaces {before after : Text}
    (h : dropTrailingSpaces text = before ++ '\n' :: after) :
    ∀ c ∈ before.getLast?, isSpaceOrTab c = false := by
  induction text generalizing before with
  | nil => simp [dropTrailingSpaces] at h
  | cons c rest ih =>
    rw [dropTrailingSpaces_cons, dropBeforeNewline] at h
    split at h
    · exact ih h
    · rename_i hkept
      cases before with
      | nil => simp
      | cons d more =>
        obtain ⟨rfl, hrest⟩ := List.cons.inj h
        cases more with
        | cons e more => rw [List.getLast?_cons_cons]; exact ih hrest
        | nil => simpa [hrest, isSpaceOrTab] using hkept

/-! ### Tidy texts -/

theorem opensWithCode_tidy (text : Text) : OpensWithCode (lines (tidy text)) :=
  (opensWithCode_of_not_mem (newline_not_mem_dropLeadingBlank text)).dropTrailingBlank.dropTrailingSpaces

theorem closesWithCode_tidy (text : Text) : ClosesWithCode (lines (tidy text)) :=
  (opensWithCode_of_not_mem
    (newline_not_mem_dropLeadingBlank text)).closesWithCode_dropTrailingBlank.dropTrailingSpaces

end Text

/-! ### Programs -/

variable {g : Generator} {ws : Workspace} {code : String}

/-- A program of several lines starts with a line that has some code, unless it starts with a newline. It
ends with a line that has some code, or with the newline after one, unless it is a single newline. And
none of its newlines has a space or a tab before it. -/
theorem Generator.generate_framed (h : g.generate ws = .ok code) :
    (∀ first rest, Text.lines code.toList = first :: rest → rest ≠ [] →
        first = [] ∨ Text.isBlank first = false) ∧
      (∀ init before last, Text.lines code.toList = init ++ [before, last] →
        Text.isBlank last = false ∨
          last = [] ∧ (Text.isBlank before = false ∨ init = [] ∧ before = [])) ∧
      ∀ before after, code.toList = before ++ '\n' :: after →
        ∀ c ∈ before.getLast?, c ≠ ' ' ∧ c ≠ '\t' := by
  obtain ⟨texts, -, hcode⟩ := exists_texts_of_generate h
  rw [hcode]
  refine ⟨Text.opensWithCode_tidy _, Text.closesWithCode_tidy _, fun before after hsplit c hc => ?_⟩
  simpa [Text.isSpaceOrTab] using Text.not_isSpaceOrTab_of_dropTrailingSpaces hsplit c hc

/-- A declaration and a call that is no part of it, one after the other on the canvas. -/
def declarationAndCall : Workspace where
  blocks :=
    #[{ id := "b0", kind := .variableDeclaration, fields := [("VAR_NAME", "ready")],
        inputs := [("VALUE", ⟨1⟩)], position := some ⟨.zero, .zero⟩ },
      { id := "b1", kind := .booleanLiteral, fields := [("BOOL", "true")] },
      { id := "b2", kind := .functionCall, inputs := [("FUNCTION_NAME", ⟨3⟩)],
        position := some ⟨.zero, .zero⟩ },
      { id := "b3", kind := .stringLiteral, fields := [("TEXT", "init")] }]
  top := [⟨0⟩, ⟨2⟩]

theorem declarationAndCall_topBlocks : declarationAndCall.topBlocks = [⟨0⟩, ⟨2⟩] := by
  have hkeys : (declarationAndCall.canvasKey ⟨0⟩).le (declarationAndCall.canvasKey ⟨2⟩) = true := by decide
  rw [Workspace.topBlocks, show declarationAndCall.top = [⟨0⟩, ⟨2⟩] from rfl, List.mergeSort]
  simp [List.MergeSort.Internal.splitInTwo, hkeys]

theorem declarationAndCall_code :
    Generator.generate {} declarationAndCall = .ok "vl ready = true;\n\ninit();" := by
  rw [Generator.generate, Setting.program_eq, declarationAndCall_topBlocks]
  cbv

/-- The first and the last line of the program have code, and no space stands before the blank line. -/
theorem declarationAndCall_framed :
    Generator.generate {} declarationAndCall = .ok "vl ready = true;\n\ninit();" ∧
      Text.isBlank "vl ready = true;".toList = false ∧ Text.isBlank "init();".toList = false ∧
      ∀ c ∈ "vl ready = true;\n".toList.getLast?, c ≠ ' ' ∧ c ≠ '\t' := by
  have hlines : Text.lines "vl ready = true;\n\ninit();".toList =
      ["vl ready = true;".toList] ++ [[], "init();".toList] := by
    decide
  obtain ⟨hfirst, hlast, hbefore⟩ := Generator.generate_framed declarationAndCall_code
  refine ⟨declarationAndCall_code, ?_, ?_, hbefore _ "init();".toList rfl⟩
  · exact (hfirst _ _ hlines (List.cons_ne_nil _ _)).resolve_left (by decide)
  · exact (hlast _ _ _ hlines).resolve_right fun h => absurd h.1 (by decide)

/-- A variable by itself. -/
def loneVariable (name : String) : Workspace where
  blocks := #[{ id := "b0", kind := .variableReference, fields := [("VAR_NAME", name)] }]
  top := [⟨0⟩]

/-- The line before the last newline may be blank, even if nothing follows; and so may the only line, and the
first one. -/
theorem declarationAndCall_apart :
    (∃ code, Generator.generate {} declarationAndCall = .ok code ∧
      ∃ init before last, Text.lines code.toList = init ++ [before, last] ∧
        Text.isBlank before = true) ∧
      (∃ code, Generator.generate {} (loneVariable "\n") = .ok code ∧
        ∃ before, Text.lines code.toList = [before, []] ∧ Text.isBlank before = true) ∧
      (∃ code, Generator.generate {} (loneVariable " ") = .ok code ∧ code ≠ "" ∧
        ∃ line, Text.lines code.toList = [line] ∧ Text.isBlank line = true) ∧
      ∃ code, Generator.generate {} (loneVariable "\nx") = .ok code ∧
        ∃ first rest, Text.lines code.toList = first :: rest ∧ Text.isBlank first = true := by
  refine ⟨⟨_, declarationAndCall_code, ["vl ready = true;".toList], [], "init();".toList, ?_, rfl⟩, ?_⟩
  · decide
  · exact ⟨⟨"\n", by cbv, [], by decide, rfl⟩, ⟨" ", by cbv, by decide, [' '], by decide, by decide⟩,
      "\nx;", by cbv, [], ["x;".toList], by decide, rfl⟩

end BlockProgram
