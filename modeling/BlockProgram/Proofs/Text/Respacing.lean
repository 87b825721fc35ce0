import BlockProgram.Proofs.Text.Bracket
import BlockProgram.Proofs.Text.Tidy

/-!
Respaced texts. What trims, terminates, indents or tidies a text takes out white space and separators and
puts others in, and touches nothing else. `Respaced text text'` says so character by character; it keeps
the delimiters of a text, and it takes no escape apart, since nothing is put in before the letter of one unless
a line has just ended.
-/

namespace BlockProgram
namespace Text

variable {c : Char} {text text' more : Text}

/-- A character that is not the letter of an escape either. -/
def isSpacing (c : Char) : Bool :=
  isBareChar c && !isEscapeLetter c

theorem isSpacing_iff : isSpacing c = true ↔ isBareChar c = true ∧ isEscapeLetter c = false := by
  simp [isSpacing]

theorem isSpacing_of_blank (h : isBlankChar c = true) : isSpacing c = true := by
  by_contra hspacing
  have hmem : c ∈ ['"', '(', ')', '[', ']', '{', '}', '\\', 'n', 'r', 't'] := by
    simp [isSpacing, isBareChar, isDelimiter, isEscapeLetter] at hspacing ⊢
    tauto
  fin_cases hmem <;> revert h <;> decide

/-- The second text is the first one with other white space and other separators. -/
inductive Respaced : Text → Text → Prop where
  | nil : Respaced [] []
  | keep {text text' : Text} (c : Char) (h : Respaced text text') : Respaced (c :: text) (c :: text')
  | drop {c : Char} {text text' : Text} (hc : isSpacing c = true) (h : Respaced text text') :
    Respaced (c :: text) text'
  /-- A separator is put in at the end or before another one. -/
  | add {c : Char} {text text' : Text} (hc : isBareChar c = true)
    (hnext : ∀ d ∈ text.head?, isSpacing d = true) (h : Respaced text text') :
    Respaced text (c :: text')
  /-- A line is indented. -/
  | indent {indent text text' : Text} (hindent : Bare indent) (h : Respaced text text') :
    Respaced ('\n' :: text) ('\n' :: (indent ++ text'))

namespace Respaced

theorem refl (text : Text) : Respaced text text := by
  induction text with
  | nil => exact .nil
  | cons c rest ih => exact .keep c ih

theorem keep_prefix (before : Text) (h : Respaced text text') :
    Respaced (before ++ text) (before ++ text') := by
  induction before with
  | nil => exact h
  | cons c rest ih => exact .keep c ih

theorem drop_prefix {before : Text} (hbefore : ∀ c ∈ before, isSpacing c = true)
    (h : Respaced text text') : Respaced (before ++ text) text' := by
  induction before with
  | nil => exact h
  | cons c rest ih =>
    exact .drop (hbefore c (List.mem_cons_self ..)) (ih fun d hd => hbefore d (List.mem_cons_of_mem _ hd))

theorem drop_suffix {after : Text} (hafter : ∀ c ∈ after, isSpacing c = true) (text : Text) :
    Respaced (text ++ after) text := by
  have h : Respaced (after ++ []) [] := drop_prefix hafter .nil
  simpa using keep_prefix text h

/-! ### What is kept -/

theorem delimiters_eq (h : Respaced text text') : delimiters text' = delimiters text := by
  induction h with
  | nil => rfl
  | keep c _ ih => rw [← List.singleton_append, delimiters_append, ih, ← delimiters_append, List.singleton_append]
  | drop hc _ ih =>
    rw [ih, delimiters_cons_of_not_delimiter (isBareChar_iff.1 (isSpacing_iff.1 hc).1).1]
  | add hc _ _ ih => rw [delimiters_cons_of_not_delimiter (isBareChar_iff.1 hc).1, ih]
  | indent hindent _ ih =>
    rw [delimiters_cons_of_not_delimiter (by decide), delimiters_cons_of_not_delimiter (by decide), delimiters_append,
      delimiters_of_bare hindent, List.nil_append, ih]

/-- Before the letter of an escape nothing is put in, nor is the letter taken out. -/
theorem exists_of_letter (h : Respaced (c :: text) text') (hc : isEscapeLetter c = true) :
    ∃ rest, text' = c :: rest := by
  cases h with
  | keep _ h => exact ⟨_, rfl⟩
  | drop hspacing _ =>
    rw [(isSpacing_iff.1 hspacing).2] at hc
    cases hc
  | add _ hnext _ =>
    rw [(isSpacing_iff.1 (hnext c rfl)).2] at hc
    cases hc
  | indent => exact absurd hc (by decide)

theorem escapes (h : Respaced text text') (hescapes : Escapes text) : Escapes text' := by
  induction h with
  | nil => exact .nil
  | @keep text text' c h ih =>
    cases hescapes with
    | plain hc hescapes => exact .plain hc (ih hescapes)
    | escape hletter hescapes =>
      have hne := ne_backslash_of_letter hletter
      obtain ⟨rest, rfl⟩ := h.exists_of_letter hletter
      exact .escape hletter ((escapes_cons_iff hne).1 (ih (.plain hne hescapes)))
  | drop hc _ ih =>
    exact ih ((escapes_cons_iff (isBareChar_iff.1 (isSpacing_iff.1 hc).1).2).1 hescapes)
  | add hc _ _ ih => exact .plain (isBareChar_iff.1 hc).2 (ih hescapes)
  | indent hindent _ ih =>
    refine .plain (by decide) ((escapes_of_bare hindent).append (ih ?_))
    exact (escapes_cons_iff (by decide)).1 hescapes

end Respaced

/-- A sound text stays sound when it is respaced. -/
theorem Sound.respaced (h : Sound text) (hspaced : Respaced text text') : Sound text' := by
  refine ⟨hspaced.escapes h.escapes, ?_⟩
  rw [Balanced, hspaced.delimiters_eq]
  exact h.balanced

/-! ### Trimmed texts -/

theorem respaced_trimStart (text : Text) : Respaced text (trimStart text) := by
  have hblank : ∀ c ∈ text.takeWhile isBlankChar, isSpacing c = true :=
    fun c hc => isSpacing_of_blank (List.mem_takeWhile_imp hc)
  have h := Respaced.drop_prefix hblank (Respaced.refl (text.dropWhile isBlankChar))
  rwa [List.takeWhile_append_dropWhile] at h

theorem respaced_trimEnd (text : Text) : Respaced text (trimEnd text) := by
  have hblank : ∀ c ∈ (text.reverse.takeWhile isBlankChar).reverse, isSpacing c = true :=
    fun c hc => isSpacing_of_blank (List.mem_takeWhile_imp (List.mem_reverse.1 hc))
  have h := Respaced.drop_suffix hblank (trimEnd text)
  rwa [trimEnd, ← List.reverse_append, List.takeWhile_append_dropWhile, List.reverse_reverse] at h

theorem respaced_dropComma (text : Text) : Respaced text (dropComma text) := by
  rw [dropComma]
  split
  · rename_i hlast
    have hcomma : ∀ c ∈ [','], isSpacing c = true := by
      intro c hc
      rw [List.mem_singleton.1 hc]
      decide
    have h := Respaced.drop_suffix hcomma text.dropLast
    rwa [List.dropLast_append_getLast? _ hlast] at h
  · exact .refl text

/-! ### Lines -/

theorem respaced_indentAfterNewlines {indent : Text} (hindent : Bare indent) (text : Text) :
    Respaced text (indentAfterNewlines indent text) := by
  induction text with
  | nil => exact .nil
  | cons c rest ih =>
    rw [indentAfterNewlines_cons, addIndented]
    split
    · rename_i hline
      rw [hline.1]
      exact .indent hindent ih
    · exact .keep c ih

theorem respaced_unlines (ls : List Text) : Respaced (unlines ls) (unlines (ls.map terminateLine)) := by
  have hline (line : Text) {more more' : Text} (hnext : ∀ d ∈ more.head?, isSpacing d = true)
      (h : Respaced more more') : Respaced (line ++ more) (terminateLine line ++ more') := by
    rw [terminateLine]
    split
    · exact h.keep_prefix line
    · rw [List.append_assoc, List.singleton_append]
      exact Respaced.keep_prefix line (.add (by decide) hnext h)
  induction ls with
  | nil => exact .nil
  | cons line rest ih =>
    cases rest with
    | nil =>
      simpa [unlines] using hline line (by simp) Respaced.nil
    | cons next rest =>
      rw [unlines_cons line (by simp), List.map_cons, unlines_cons (terminateLine line) (by simp)]
      exact hline line (by simpa using isSpacing_of_blank newline_blank) (.keep '\n' ih)

theorem respaced_terminate (text : Text) : Respaced text (terminate text) := by
  have h := respaced_unlines (lines text)
  rwa [unlines_lines] at h

/-! ### Tidy texts -/

theorem isSpacing_of_isBlank {blank : Text} (h : isBlank blank = true) : ∀ c ∈ blank, isSpacing c = true :=
  fun c hc => isSpacing_of_blank (List.all_eq_true.1 h c hc)

theorem respaced_dropLeadingBlank (text : Text) : Respaced text (dropLeadingBlank text) := by
  rcases leading_cases text with hnone | ⟨blank, rest, rfl, hne, hblank, hrest⟩
  · rw [dropLeadingBlank_of_not_mem hnone]
    exact .refl text
  · rw [dropLeadingBlank_append hne hblank hrest]
    have hnewline : Respaced ('\n' :: rest) rest := .drop (isSpacing_of_blank newline_blank) (.refl rest)
    exact hnewline.drop_prefix (isSpacing_of_isBlank hblank)

theorem respaced_dropTrailingBlank (text : Text) : Respaced text (dropTrailingBlank text) := by
  rcases trailing_cases text with hnone | ⟨code, blank, rfl, hcode, hblank⟩
  · rw [dropTrailingBlank_of_not_mem hnone]
    exact .refl text
  · rw [dropTrailingBlank_append hcode hblank]
    simpa using Respaced.drop_suffix (isSpacing_of_isBlank hblank) (code ++ ['\n'])

theorem respaced_dropTrailingSpaces (text : Text) : Respaced text (dropTrailingSpaces text) := by
  induction text with
  | nil => exact .nil
  | cons c rest ih =>
    show Respaced _ (dropBeforeNewline c (dropTrailingSpaces rest))
    rw [dropBeforeNewline]
    split
    · rename_i hdrop
      refine .drop ?_ ih
      rcases hdrop.1 with rfl | rfl <;> decide
    · exact .keep c ih

end Text
end BlockProgram
