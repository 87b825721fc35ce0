import BlockProgram.Proofs.Text.Replacement
import BlockProgram.Proofs.Text.Visible

/-!
Tidy texts. Each of the three replacements of tidying leaves no match of its pattern, and the ones after it
bring none back: cutting off the end of a text and shortening its lines put no new newline next to white space.
So a text is tidy if and only if tidying leaves it as it is (`tidy_eq_self_iff`).

    step                   opens     closes    trimmed
    dropLeadingBlank       set up
    dropTrailingBlank      kept      set up
    dropTrailingSpaces     kept      kept      set up
-/

namespace BlockProgram
namespace Text

variable {text before after : Text}

/-- No newline has only white space before it, unless it is the first character. -/
def OpensTidily (text : Text) : Prop :=
  ∀ blank rest, text = blank ++ '\n' :: rest → isBlank blank = true → blank = []

/-- No newline has only white space after it, unless it is the last character. -/
def ClosesTidily (text : Text) : Prop :=
  ∀ code blank, text = code ++ '\n' :: blank → isBlank blank = true → blank = []

/-- A text in which tidying finds nothing to replace. -/
structure IsTidy (text : Text) : Prop where
  opens : OpensTidily text
  closes : ClosesTidily text
  trimmed : ∀ before c after, text = before ++ c :: '\n' :: after → isSpaceOrTab c = false

/-! ### Tidying leaves tidy texts as they are -/

theorem OpensTidily.dropLeadingBlank_eq_self (h : OpensTidily text) : dropLeadingBlank text = text := by
  rcases leading_cases text with hnone | ⟨blank, rest, htext, hne, hblank, -⟩
  · exact dropLeadingBlank_of_not_mem hnone
  · exact absurd (h blank rest htext hblank) hne

theorem ClosesTidily.dropTrailingBlank_eq_self (h : ClosesTidily text) : dropTrailingBlank text = text := by
  rcases trailing_cases text with hnone | ⟨code, blank, htext, hcode, hblank⟩
  · exact dropTrailingBlank_of_not_mem hnone
  · obtain rfl := h code blank htext hblank
    rw [htext, dropTrailingBlank_append hcode hblank]

theorem dropTrailingSpaces_eq_self
    (h : ∀ before c after, text = before ++ c :: '\n' :: after → isSpaceOrTab c = false) :
    dropTrailingSpaces text = text := by
  induction text with
  | nil => rfl
  | cons c rest ih =>
    have hrest : dropTrailingSpaces rest = rest :=
      ih fun before d after htext => h (c :: before) d after (by rw [htext, List.cons_append])
    rw [dropTrailingSpaces_cons, hrest, dropBeforeNewline, if_neg]
    rintro ⟨hc, hhead⟩
    obtain ⟨more, rfl⟩ := List.head?_eq_some_iff.1 hhead
    have hkept := h [] c more rfl
    rcases hc with rfl | rfl <;> revert hkept <;> decide

theorem IsTidy.tidy_eq_self (h : IsTidy text) : tidy text = text := by
  rw [tidy, h.opens.dropLeadingBlank_eq_self, h.closes.dropTrailingBlank_eq_self,
    dropTrailingSpaces_eq_self h.trimmed]

/-! ### The first two steps -/

theorem opensTidily_dropLeadingBlank (text : Text) : OpensTidily (dropLeadingBlank text) := by
  intro blank rest htext hblank
  by_contra hne
  have hmem := newline_mem_drop_takeWhile hne hblank rest
  rw [← htext] at hmem
  exact newline_not_mem_dropLeadingBlank text hmem

theorem dropTrailingBlank_prefix (text : Text) : dropTrailingBlank text <+: text := by
  rcases trailing_cases text with hnone | ⟨code, blank, rfl, hcode, hblank⟩
  · rw [dropTrailingBlank_of_not_mem hnone]
  · rw [dropTrailingBlank_append hcode hblank]
    exact ⟨blank, by simp⟩

theorem OpensTidily.dropTrailingBlank (h : OpensTidily text) : OpensTidily (dropTrailingBlank text) := by
  intro blank rest htext hblank
  obtain ⟨more, hmore⟩ := dropTrailingBlank_prefix text
  refine h blank (rest ++ more) ?_ hblank
  rw [← hmore, htext, List.append_assoc, List.cons_append]

theorem closesTidily_dropTrailingBlank (text : Text) : ClosesTidily (dropTrailingBlank text) := by
  intro code blank htext hblank
  rcases trailing_cases text with hnone | ⟨front, more, rfl, hfront, hmore⟩
  · rw [dropTrailingBlank_of_not_mem hnone] at htext
    exact absurd (htext ▸ newline_mem_rtakeWhile_append hblank code) hnone
  · rw [dropTrailingBlank_append hfront hmore] at htext
    rcases List.eq_nil_or_concat blank with rfl | ⟨init, last, rfl⟩
    · rfl
    · -- the newline before `init` would stand among the white space that ends `front`
      rw [List.concat_eq_append, ← List.cons_append, ← List.append_assoc] at htext
      obtain ⟨rfl, -⟩ := List.append_inj' htext rfl
      rw [List.concat_eq_append, isBlank_append, Bool.and_eq_true] at hblank
      exact absurd (newline_mem_rtakeWhile_append hblank.1 code) hfront

/-! ### Shortened lines -/

theorem isBlank_dropTrailingSpaces (text : Text) : isBlank (dropTrailingSpaces text) = isBlank text := by
  induction text with
  | nil => rfl
  | cons c rest ih =>
    have hcons (more : Text) : isBlank (c :: more) = (isBlankChar c && isBlank more) := List.all_cons
    rw [dropTrailingSpaces_cons, dropBeforeNewline]
    split
    · rename_i hdropped
      have hc : isBlankChar c = true := by
        rcases hdropped.1 with rfl | rfl
        · exact space_blank
        · exact tab_blank
      rw [ih, hcons, hc, Bool.true_and]
    · rw [hcons, hcons, ih]

/-- A newline that is left stands where one was: what is before it and what is after it are shortened each by
itself. -/
theorem exists_of_dropTrailingSpaces_eq (h : dropTrailingSpaces text = before ++ '\n' :: after) :
    ∃ front back, text = front ++ '\n' :: back ∧
      dropTrailingSpaces (front ++ ['\n']) = before ++ ['\n'] ∧ dropTrailingSpaces back = after := by
  induction text generalizing before with
  | nil => simp [dropTrailingSpaces] at h
  | cons c rest ih =>
    have hhead (more : Text) : (more ++ '\n' :: after).head? = (more ++ ['\n']).head? := by
      cases more <;> rfl
    rw [dropTrailingSpaces_cons, dropBeforeNewline] at h
    split at h
    · rename_i hdropped
      obtain ⟨front, back, rfl, hfront, hback⟩ := ih h
      refine ⟨c :: front, back, rfl, ?_, hback⟩
      rw [h, hhead] at hdropped
      rw [List.cons_append, dropTrailingSpaces_cons, hfront, dropBeforeNewline, if_pos hdropped]
    · rename_i hkept
      cases before with
      | nil =>
        obtain ⟨rfl, hrest⟩ := List.cons.inj h
        exact ⟨[], rest, rfl, rfl, hrest⟩
      | cons d more =>
        obtain ⟨rfl, hrest⟩ : c = d ∧ dropTrailingSpaces rest = more ++ '\n' :: after := List.cons.inj h
        obtain ⟨front, back, rfl, hfront, hback⟩ := ih hrest
        refine ⟨c :: front, back, rfl, ?_, hback⟩
        rw [hrest, hhead] at hkept
        rw [List.cons_append, dropTrailingSpaces_cons, hfront, dropBeforeNewline, if_neg hkept, List.cons_append]

theorem OpensTidily.dropTrailingSpaces (h : OpensTidily text) : OpensTidily (dropTrailingSpaces text) := by
  intro blank rest htext hblank
  obtain ⟨front, back, rfl, hfront, -⟩ := exists_of_dropTrailingSpaces_eq htext
  have hnewline : isBlank ['\n'] = true := by decide
  have hwhite : isBlank (front ++ ['\n']) = true := by
    rw [← isBlank_dropTrailingSpaces, hfront, isBlank_append, hblank, hnewline, Bool.and_self]
  rw [isBlank_append, Bool.and_eq_true] at hwhite
  obtain rfl := h front back rfl hwhite.1
  exact List.append_cancel_right hfront.symm

theorem ClosesTidily.dropTrailingSpaces (h : ClosesTidily text) : ClosesTidily (dropTrailingSpaces text) := by
  intro code blank htext hblank
  obtain ⟨front, back, rfl, -, rfl⟩ := exists_of_dropTrailingSpaces_eq htext
  rw [isBlank_dropTrailingSpaces] at hblank
  rw [h front back rfl hblank]
  rfl

/-! ### Tidying leaves a tidy text -/

theorem isTidy_tidy (text : Text) : IsTidy (tidy text) where
  opens := (opensTidily_dropLeadingBlank text).dropTrailingBlank.dropTrailingSpaces
  closes := (closesTidily_dropTrailingBlank (dropLeadingBlank text)).dropTrailingSpaces
  trimmed := by
    intro before c after htext
    rw [List.append_cons] at htext
    exact not_isSpaceOrTab_of_dropTrailingSpaces htext c (by simp)

/-- The tidy texts are those that tidying leaves as they are. -/
theorem tidy_eq_self_iff : tidy text = text ↔ IsTidy text := by
  constructor
  · intro h
    rw [← h]
    exact isTidy_tidy text
  · exact IsTidy.tidy_eq_self

/-- **Tidying loses no code, and is done once.** It is three replacements in a row: the first one by nothing, the
second and the third by a newline, and the third one everywhere. The lines that are not blank stay the same and in
the same order, up to the spaces and tabs at their ends; and tidying the text once more changes nothing. -/
theorem tidy_lossless_once (text : Text) :
    tidy text =
        spacedNewline.replaceAll ['\n'] (blankEnd.replace ['\n'] (blankStart.replace [] text)) ∧
      codeLines (tidy text) = codeLines text ∧
      tidy (tidy text) = tidy text :=
  ⟨tidy_eq_replacements text, codeLines_tidy text, (isTidy_tidy text).tidy_eq_self⟩

end Text
end BlockProgram
