import BlockProgram.Generator.Fragment
import BlockProgram.Proofs.Text.Terminated

/-!
Texts that differ in their indentation alone. `unindent` takes the spaces at the start of each line off a
text; those of the first line it takes off only if the text is told to start a line, since a part of a text
may be put behind other characters. Two texts are aligned if they are the same then.

    "if a {\n"  ++  "  res 1;\n"  ++  "}\n"         the second part starts a line
    "if a {\n"  ++  "    res 1;\n"  ++  "}\n"       aligned with the text above

Whatever the generator does to a text, it does to the unindented text too; so aligned texts stay aligned.
-/

namespace BlockProgram
namespace Text

/-- A line without the spaces before its first other character. -/
def dropSpaces (line : Text) : Text :=
  line.dropWhile (· = ' ')

/-- The text without the spaces at the start of its lines; those of its first line are taken off if `start`
is set. -/
def unindent : Bool → Text → Text
  | _, [] => []
  | start, c :: rest => if start && c = ' ' then unindent true rest else c :: unindent (c = '\n') rest

/-- Whether what is put behind a text stands at the start of a line or behind spaces at its start. -/
def endsLine : Bool → Text → Bool
  | start, [] => start
  | start, c :: rest => endsLine (c = '\n' || start && c = ' ') rest

variable {start : Bool} {c : Char} {text text' more more' line rest : Text}

/-! ### Unindented texts -/

@[simp]
theorem unindent_nil (start : Bool) : unindent start [] = [] := by
  rw [unindent]

@[simp]
theorem endsLine_nil (start : Bool) : endsLine start [] = start := by
  rw [endsLine]

theorem unindent_cons (start : Bool) (c : Char) (rest : Text) :
    unindent start (c :: rest) =
      if start && c = ' ' then unindent true rest else c :: unindent (c = '\n') rest := by
  rw [unindent]

theorem endsLine_cons (start : Bool) (c : Char) (rest : Text) :
    endsLine start (c :: rest) = endsLine (c = '\n' || start && c = ' ') rest := by
  rw [endsLine]

theorem unindent_cons_of_ne (hc : c ≠ ' ') (start : Bool) (rest : Text) :
    unindent start (c :: rest) = c :: unindent (c = '\n') rest := by
  rw [unindent_cons, if_neg (by simp [hc])]

/-- The first character of a text that starts no line stays. -/
theorem unindent_false_cons (c : Char) (rest : Text) :
    unindent false (c :: rest) = c :: unindent (c = '\n') rest := by
  rw [unindent_cons, if_neg (by simp)]

theorem unindent_append (start : Bool) (text more : Text) :
    unindent start (text ++ more) = unindent start text ++ unindent (endsLine start text) more := by
  induction text generalizing start with
  | nil => simp
  | cons c rest ih =>
    rw [List.cons_append, unindent_cons, unindent_cons, endsLine_cons]
    by_cases hdrop : start && c = ' '
    · rw [if_pos hdrop, if_pos hdrop, ih, hdrop, Bool.or_true]
    · rw [if_neg hdrop, if_neg hdrop, ih, List.cons_append, Bool.eq_false_iff.2 hdrop, Bool.or_false]

theorem endsLine_append (start : Bool) (text more : Text) :
    endsLine start (text ++ more) = endsLine (endsLine start text) more := by
  induction text generalizing start with
  | nil => rfl
  | cons c rest ih => rw [List.cons_append, endsLine_cons, endsLine_cons, ih]

/-- A text ends a line all the more if it begins one. -/
theorem endsLine_mono {start' : Bool} (h : start ≤ start') (text : Text) :
    endsLine start text ≤ endsLine start' text := by
  induction text generalizing start start' with
  | nil => simpa using h
  | cons c rest ih =>
    rw [endsLine_cons, endsLine_cons]
    exact ih (sup_le_sup_left (inf_le_inf_right _ h) _)

/-- A second time there is nothing to take off but, at most, the spaces of the first line. -/
theorem unindent_unindent (start start' : Bool) (text : Text) :
    unindent start (unindent start' text) = unindent (start || start') text := by
  induction text generalizing start start' with
  | nil => simp
  | cons c rest ih =>
    by_cases hc : c = ' '
    · subst hc
      cases start' <;> cases start <;> simp [unindent_cons, ih]
    · rw [unindent_cons_of_ne hc, unindent_cons_of_ne hc, unindent_cons_of_ne hc, ih, Bool.or_self]

/-- How a text ends can be told from the unindented text. -/
theorem endsLine_unindent (start : Bool) (text : Text) :
    endsLine start (unindent start text) = endsLine start text := by
  induction text generalizing start with
  | nil => simp
  | cons c rest ih =>
    by_cases hdrop : start && c = ' '
    · obtain ⟨rfl, hc⟩ : start = true ∧ c = ' ' := by simpa using hdrop
      rw [unindent_cons, if_pos hdrop, ih, endsLine_cons, hdrop, Bool.or_true]
    · rw [unindent_cons, if_neg hdrop, endsLine_cons, endsLine_cons, Bool.eq_false_iff.2 hdrop,
        Bool.or_false, ih]

theorem unindent_concat (hc : c ≠ ' ') (start : Bool) (text : Text) :
    unindent start (text ++ [c]) = unindent start text ++ [c] := by
  rw [unindent_append, unindent_cons_of_ne hc, unindent_nil]

/-- At its end a text loses a space or nothing. -/
theorem unindent_concat_subset (start : Bool) (text : Text) (c : Char) :
    ∃ last ⊆ [c], unindent start (text ++ [c]) = unindent start text ++ last := by
  refine ⟨unindent (endsLine start text) [c], ?_, unindent_append ..⟩
  rw [unindent_cons]
  split <;> simp

theorem isEmpty_unindent (text : Text) : (unindent false text).isEmpty = text.isEmpty := by
  cases text with
  | nil => simp
  | cons c rest => rw [unindent_false_cons]; rfl

theorem unindent_subset (start : Bool) (text : Text) : unindent start text ⊆ text := by
  induction text generalizing start with
  | nil => simp
  | cons c rest ih =>
    rw [unindent_cons]
    split
    · exact fun d hd => List.mem_cons_of_mem _ (ih _ hd)
    · exact List.cons_subset_cons _ (ih _)

theorem isBlank_unindent (h : isBlank text = true) (start : Bool) :
    isBlank (unindent start text) = true := by
  rw [isBlank, List.all_eq_true] at h ⊢
  exact fun d hd => h d (unindent_subset start text hd)

/-! ### Lines -/

/-- After a newline the spaces go. -/
theorem unindent_newline (start : Bool) (text rest : Text) :
    unindent start (text ++ '\n' :: rest) = unindent start text ++ '\n' :: unindent true rest := by
  rw [unindent_append, unindent_cons_of_ne (by decide)]
  rfl

/-- Behind the start of its line, a text without newlines stays as it is. -/
theorem unindent_false_of_not_mem (h : '\n' ∉ line) : unindent false line = line := by
  induction line with
  | nil => simp
  | cons c rest ih =>
    obtain ⟨hc, hrest⟩ := not_or.1 (List.mem_cons.not.1 h)
    rw [unindent_false_cons, decide_eq_false (Ne.symm hc), ih hrest]

theorem unindent_of_not_mem (h : '\n' ∉ line) : unindent true line = dropSpaces line := by
  induction line with
  | nil => simp [dropSpaces]
  | cons c rest ih =>
    obtain ⟨hc, hrest⟩ := not_or.1 (List.mem_cons.not.1 h)
    rw [unindent_cons, dropSpaces, List.dropWhile_cons, ← dropSpaces, decide_eq_false (Ne.symm hc),
      unindent_false_of_not_mem hrest, ih hrest, Bool.true_and]

/-- The lines of the unindented text are those of the text, each without the spaces before it. -/
theorem lines_unindent (text : Text) : lines (unindent true text) = (lines text).map dropSpaces := by
  induction text using line_induction with
  | last line hline =>
    have hshort : '\n' ∉ dropSpaces line := fun h => hline (List.dropWhile_subset _ h)
    rw [unindent_of_not_mem hline, lines_of_not_mem hline, lines_of_not_mem hshort, List.map_singleton]
  | line line rest hline ih =>
    have hshort : '\n' ∉ dropSpaces line := fun h => hline (List.dropWhile_subset _ h)
    rw [unindent_newline, unindent_of_not_mem hline, lines_line hline, lines_line hshort, ih,
      List.map_cons]

/-! ### Trimmed texts

Where all spaces are dropped, it makes no difference whether some of them are dropped before.
-/

section

variable {p : Char → Bool}

theorem dropWhile_unindent (hp : p ' ' = true) (start : Bool) (text : Text) :
    (unindent start text).dropWhile p = unindent false (text.dropWhile p) := by
  induction text generalizing start with
  | nil => simp
  | cons c rest ih =>
    cases hc : p c with
    | true =>
      rw [List.dropWhile_cons_of_pos hc, unindent_cons]
      split
      · rw [ih]
      · rw [List.dropWhile_cons_of_pos hc, ih]
    | false =>
      have hne : c ≠ ' ' := by rintro rfl; simp [hp] at hc
      rw [unindent_cons_of_ne hne, List.dropWhile_cons_of_neg (by simp [hc]),
        List.dropWhile_cons_of_neg (by simp [hc]), unindent_cons_of_ne hne]

theorem takeWhile_unindent (hp : p ' ' = true) (start : Bool) (text : Text) :
    (unindent start text).takeWhile p = unindent start (text.takeWhile p) := by
  induction text generalizing start with
  | nil => simp
  | cons c rest ih =>
    cases hc : p c with
    | true =>
      rw [List.takeWhile_cons_of_pos hc, unindent_cons, unindent_cons]
      split
      · rw [ih]
      · rw [List.takeWhile_cons_of_pos hc, ih]
    | false =>
      have hne : c ≠ ' ' := by rintro rfl; simp [hp] at hc
      rw [unindent_cons_of_ne hne, List.takeWhile_cons_of_neg (by simp [hc]),
        List.takeWhile_cons_of_neg (by simp [hc]), unindent_nil]

theorem rdropWhile_unindent (hp : p ' ' = true) (start : Bool) (text : Text) :
    (unindent start text).rdropWhile p = unindent start (text.rdropWhile p) := by
  induction text using List.reverseRecOn with
  | nil => simp
  | append_singleton text c ih =>
    cases hc : p c with
    | true =>
      obtain ⟨last, hlast, happend⟩ := unindent_concat_subset start text c
      have hall : ∀ d ∈ last, p d = true := fun d hd => List.mem_singleton.1 (hlast hd) ▸ hc
      rw [happend, rdropWhile_append_of_all hall, ih, List.rdropWhile_concat_pos _ _ _ hc]
    | false =>
      have hne : c ≠ ' ' := by rintro rfl; simp [hp] at hc
      rw [unindent_concat hne, List.rdropWhile_concat_neg _ _ _ (by simp [hc]),
        List.rdropWhile_concat_neg _ _ _ (by simp [hc]), unindent_concat hne]

theorem rtakeWhile_unindent_subset (hp : p ' ' = true) (start : Bool) (text : Text) :
    (unindent start text).rtakeWhile p ⊆ text.rtakeWhile p := by
  induction text using List.reverseRecOn with
  | nil => simp
  | append_singleton text c ih =>
    cases hc : p c with
    | true =>
      obtain ⟨last, hlast, happend⟩ := unindent_concat_subset start text c
      have hall : ∀ d ∈ last, p d = true := fun d hd => List.mem_singleton.1 (hlast hd) ▸ hc
      rw [happend, rtakeWhile_append_of_all hall, List.rtakeWhile_concat_pos _ _ _ hc]
      exact List.append_subset.2 ⟨fun _ hd => List.mem_append_left _ (ih hd),
        fun _ hd => List.mem_append_right _ (hlast hd)⟩
    | false =>
      have hne : c ≠ ' ' := by rintro rfl; simp [hp] at hc
      rw [unindent_concat hne, List.rtakeWhile_concat_neg _ _ _ (by simp [hc])]
      exact List.nil_subset _

end

theorem trim_unindent (start : Bool) (text : Text) :
    trim (unindent start text) = unindent false (trim text) := by
  rw [trim, trim, trimStart, trimStart, dropWhile_unindent space_blank, trimEnd_eq, trimEnd_eq,
    rdropWhile_unindent space_blank]

/-! ### Fragments -/

/-- A text that ends a line has a newline at its end, spaces aside. -/
theorem newline_of_endsLine (h : endsLine start text = true) :
    ∀ d ∈ (unindent start text).getLast?, d = '\n' := by
  induction text using List.reverseRecOn with
  | nil => simp
  | append_singleton text c ih =>
    rw [endsLine_append, endsLine_cons, endsLine_nil, Bool.or_eq_true, Bool.and_eq_true] at h
    rcases h with hc | ⟨hends, hc⟩
    · rw [decide_eq_true_eq] at hc
      rw [unindent_concat (by simp [hc]), List.getLast?_concat, hc]
      simp
    · rw [unindent_append, hends, unindent_cons, if_pos (by simpa using hc), unindent_nil,
        List.append_nil]
      exact ih hends

/-- Taking off spaces leaves any other character where it was at the end. -/
theorem getLast?_unindent (hspace : c ≠ ' ') (hline : c ≠ '\n') (start : Bool) (text : Text) :
    (unindent start text).getLast? = some c ↔ text.getLast? = some c := by
  rcases List.eq_nil_or_concat text with rfl | ⟨init, d, rfl⟩
  · simp
  · rw [List.concat_eq_append, List.getLast?_concat]
    by_cases hd : d = ' '
    · subst hd
      rw [unindent_append, unindent_cons]
      split
      · rename_i hdrop
        rw [unindent_nil, List.append_nil]
        refine iff_of_false (fun hlast => hline ?_) (by simpa using Ne.symm hspace)
        exact newline_of_endsLine (by simpa using hdrop) c hlast
      · rw [unindent_nil, List.getLast?_concat]
    · rw [unindent_concat hd, List.getLast?_concat]

theorem dropComma_unindent (start : Bool) (text : Text) :
    dropComma (unindent start text) = unindent start (dropComma text) := by
  have hlast := getLast?_unindent (c := ',') (by decide) (by decide) start text
  rw [dropComma, dropComma]
  by_cases h : text.getLast? = some ','
  · obtain ⟨init, rfl⟩ := List.getLast?_eq_some_iff.1 h
    rw [if_pos h, if_pos (hlast.2 h), unindent_concat (by decide), List.dropLast_concat,
      List.dropLast_concat]
  · rw [if_neg h, if_neg fun h' => h (hlast.1 h')]

theorem bareItem_unindent (text : Text) :
    bareItem (unindent false text) = unindent false (bareItem text) := by
  rw [bareItem, bareItem, trim_unindent, dropComma_unindent, trim_unindent]

theorem unwrap_unindent {opening closing : Char} (hspace : closing ≠ ' ') (hline : closing ≠ '\n')
    (text : Text) : unwrap opening closing (unindent false text) = unindent false (unwrap opening closing text) := by
  cases text with
  | nil => simp [unwrap, between?]
  | cons c rest =>
    have hlast (start : Bool) := getLast?_unindent hspace hline start rest
    rw [unindent_false_cons, unwrap, unwrap, between?, between?]
    by_cases h : c = opening ∧ rest.getLast? = some closing
    · obtain ⟨init, rfl⟩ := List.getLast?_eq_some_iff.1 h.2
      rw [if_pos h, if_pos ⟨h.1, (hlast _).2 h.2⟩, unindent_concat hspace, List.dropLast_concat,
        List.dropLast_concat]
      exact trim_unindent ..
    · rw [if_neg h, if_neg fun h' => h ⟨h'.1, (hlast _).1 h'.2⟩]
      exact (unindent_false_cons ..).symm

theorem bareCallee_unindent (text : Text) :
    bareCallee (unindent false text) = unindent false (bareCallee text) := by
  rw [bareCallee, bareCallee, trim_unindent, unwrap_unindent (by decide) (by decide),
    unwrap_unindent (by decide) (by decide)]

/-! ### Indented texts -/

theorem unindent_spaces (width : Nat) (text : Text) :
    unindent true (List.replicate width ' ' ++ text) = unindent true text := by
  induction width with
  | zero => rfl
  | succ width ih => rw [List.replicate_succ, List.cons_append, unindent_cons, if_pos (by decide), ih]

theorem unindent_indentAfterNewlines (width : Nat) (start : Bool) (text : Text) :
    unindent start (indentAfterNewlines (List.replicate width ' ') text) = unindent start text := by
  induction text generalizing start with
  | nil => rfl
  | cons c rest ih =>
    rw [indentAfterNewlines_cons, addIndented]
    split
    · rename_i hline
      rw [hline.1, unindent_cons_of_ne (by decide), unindent_cons_of_ne (by decide),
        decide_eq_true rfl, unindent_spaces, ih]
    · rw [unindent_cons, unindent_cons, ih, ih]

/-- An indent of spaces is taken off again. -/
theorem unindent_indentLines (width : Nat) (text : Text) :
    unindent true (indentLines (List.replicate width ' ') text) = unindent true text := by
  rw [indentLines]
  split
  · rename_i hempty
    rw [List.isEmpty_iff.1 hempty]
  · rw [unindent_spaces, unindent_indentAfterNewlines]

/-! ### Aligned texts -/

/-- The texts differ in nothing but the spaces at the start of their lines. -/
def Aligned (start : Bool) (text text' : Text) : Prop :=
  unindent start text = unindent start text'

theorem Aligned.refl (start : Bool) (text : Text) : Aligned start text text :=
  rfl

/-- Texts that are aligned anywhere in a line are aligned at its start. -/
theorem Aligned.weaken (h : Aligned false text text') (start : Bool) : Aligned start text text' := by
  have hstart := congrArg (unindent start) h
  rwa [unindent_unindent, unindent_unindent, Bool.or_false] at hstart

theorem Aligned.endsLine (h : Aligned start text text') :
    endsLine start text = Text.endsLine start text' := by
  rw [← endsLine_unindent, h, endsLine_unindent]

/-- Texts are put behind texts that are aligned with each other. -/
theorem Aligned.append (h : Aligned start text text')
    (hmore : Aligned (Text.endsLine start text) more more') :
    Aligned start (text ++ more) (text' ++ more') := by
  rw [Aligned, unindent_append, unindent_append, ← h.endsLine, hmore, h]

/-- An operation that may as well be done on the unindented text keeps texts aligned. -/
theorem Aligned.map {op : Text → Text} (hop : ∀ text, op (unindent false text) = unindent false (op text))
    (h : Aligned false text text') : Aligned false (op text) (op text') := by
  rw [Aligned, ← hop, h, hop]

theorem Aligned.isEmpty (h : Aligned false text text') : text.isEmpty = text'.isEmpty := by
  rw [← isEmpty_unindent, h, isEmpty_unindent]

theorem Aligned.parenthesize (h : Aligned false text text') :
    Aligned false (parenthesize text) (parenthesize text') := by
  have hopen : Aligned false ['('] ['('] := .refl ..
  exact (hopen.append h).append (.refl _ [')'])

/-- The texts of two lists are aligned, one by one. -/
abbrev AllAligned : List Text → List Text → Prop :=
  List.Forall₂ (Aligned false)

variable {texts texts' : List Text}

theorem AllAligned.intercalate (h : AllAligned texts texts') (separator : Text) (start : Bool) :
    Aligned start (separator.intercalate texts) (separator.intercalate texts') := by
  induction h generalizing start with
  | nil => exact .refl ..
  | @cons text text' rest rest' htext hrest ih =>
    cases hrest with
    | nil => simpa using htext.weaken start
    | cons hnext hmore =>
      rw [List.intercalate_cons_cons, List.intercalate_cons_cons]
      exact ((htext.weaken start).append (.refl _ separator)).append (ih _)

theorem AllAligned.map {op : Text → Text}
    (hop : ∀ text, op (unindent false text) = unindent false (op text)) (h : AllAligned texts texts') :
    AllAligned (texts.map op) (texts'.map op) := by
  induction h with
  | nil => exact .nil
  | cons htext _ ih => exact .cons (htext.map hop) ih

theorem AllAligned.nonempty (h : AllAligned texts texts') :
    AllAligned (texts.filter fun text => !text.isEmpty) (texts'.filter fun text => !text.isEmpty) := by
  induction h with
  | nil => exact .nil
  | cons htext _ ih =>
    rw [List.filter_cons, List.filter_cons, htext.isEmpty]
    split
    · exact .cons htext ih
    · exact ih

theorem AllAligned.commaSeparated (h : AllAligned texts texts') :
    Aligned false (commaSeparated texts) (commaSeparated texts') :=
  (h.map bareItem_unindent).nonempty.intercalate _ _

theorem AllAligned.braced (h : AllAligned texts texts') : Aligned false (braced texts) (braced texts') := by
  have hproperties := (h.map (trim_unindent false)).nonempty
  rw [Text.braced, Text.braced]
  revert hproperties
  generalize (texts.map trim).filter _ = properties
  generalize (texts'.map trim).filter _ = properties'
  intro hproperties
  cases hproperties with
  | nil => exact .refl ..
  | cons hproperty hrest =>
    have hjoined := AllAligned.intercalate (.cons hproperty hrest) [' '] (endsLine false ['{', ' '])
    have hopen : Aligned false ['{', ' '] ['{', ' '] := .refl ..
    exact (hopen.append hjoined).append (.refl _ [' ', '}'])

/-- Aligned texts are indented by spaces; the indented texts are aligned at the start of a line. -/
theorem Aligned.indentLines (h : Aligned false text text') (width width' : Nat) :
    Aligned true (indentLines (List.replicate width ' ') text)
      (indentLines (List.replicate width' ' ') text') := by
  rw [Aligned, unindent_indentLines, unindent_indentLines]
  exact h.weaken true

/-! ### Programs -/

theorem isTerminated_unindent (start : Bool) (text : Text) :
    isTerminated (unindent start text) = isTerminated text := by
  rw [isTerminated, isTerminated, trimEnd_eq, rdropWhile_unindent space_blank, ← trimEnd_eq]
  rcases List.eq_nil_or_concat (trimEnd text) with h | ⟨init, c, h⟩
  · rw [h, unindent_nil]
  · have hc : c ≠ ' ' := by
      rintro rfl
      have hblank := not_blank_of_getLast?_trimEnd (by rw [h, List.concat_eq_append, List.getLast?_concat])
      rw [space_blank] at hblank
      cases hblank
    rw [h, List.concat_eq_append, unindent_concat hc, List.getLast?_concat, List.getLast?_concat]

theorem terminateLine_unindent (start : Bool) (line : Text) :
    terminateLine (unindent start line) = unindent start (terminateLine line) := by
  rw [terminateLine, terminateLine, isTerminated_unindent]
  split
  · rfl
  · rw [unindent_concat (by decide)]

theorem terminate_unindent (start : Bool) (text : Text) :
    terminate (unindent start text) = unindent start (terminate text) := by
  induction text using line_induction generalizing start with
  | last line hline =>
    rw [terminate_of_not_mem hline, terminate_of_not_mem fun h => hline (unindent_subset _ _ h),
      terminateLine_unindent]
  | line line rest hline ih =>
    rw [terminate_line hline, unindent_newline, unindent_newline, ← terminateLine_unindent, ← ih,
      terminate_line fun h => hline (unindent_subset _ _ h)]

/-- What is left when the blank lines before the code are dropped may start with spaces, which stood at the
start of a line before. -/
theorem dropLeadingBlank_unindent (text : Text) :
    unindent true (dropLeadingBlank (unindent false text)) = unindent true (dropLeadingBlank text) := by
  rcases leading_cases text with hnone | ⟨blank, rest, rfl, hne, hblank, hrest⟩
  · have hnone' : '\n' ∉ ((unindent false text).takeWhile isBlankChar).drop 1 := by
      rw [takeWhile_unindent space_blank]
      revert hnone
      cases text.takeWhile isBlankChar with
      | nil => simp
      | cons c more =>
        rw [unindent_false_cons, List.drop_one, List.drop_one]
        exact fun hnone h => hnone (unindent_subset _ _ h)
    rw [dropLeadingBlank_of_not_mem hnone, dropLeadingBlank_of_not_mem hnone', unindent_unindent]
    rfl
  · have hne' : unindent false blank ≠ [] := by
      rw [← List.isEmpty_eq_false_iff, isEmpty_unindent, List.isEmpty_eq_false_iff]
      exact hne
    have hrest' : '\n' ∉ (unindent true rest).takeWhile isBlankChar := by
      rw [takeWhile_unindent space_blank]
      exact fun h => hrest (unindent_subset _ _ h)
    rw [dropLeadingBlank_append hne hblank hrest, unindent_newline,
      dropLeadingBlank_append hne' (isBlank_unindent hblank _) hrest', unindent_unindent]
    rfl

theorem dropTrailingBlank_unindent (text : Text) :
    dropTrailingBlank (unindent true text) = unindent true (dropTrailingBlank text) := by
  rcases trailing_cases text with hnone | ⟨code, blank, rfl, hcode, hblank⟩
  · rw [dropTrailingBlank_of_not_mem hnone, dropTrailingBlank_of_not_mem
      fun h => hnone (rtakeWhile_unindent_subset space_blank _ _ h)]
  · rw [dropTrailingBlank_append hcode hblank, unindent_newline, unindent_newline, unindent_nil,
      dropTrailingBlank_append (fun h => hcode (rtakeWhile_unindent_subset space_blank _ _ h))
        (isBlank_unindent hblank _)]

theorem dropTrailingSpaces_unindent (text : Text) :
    dropTrailingSpaces (unindent true text) = unindent true (dropTrailingSpaces text) := by
  induction text using line_induction with
  | last line hline =>
    rw [dropTrailingSpaces_of_not_mem hline,
      dropTrailingSpaces_of_not_mem fun h => hline (unindent_subset _ _ h)]
  | line line rest hline ih =>
    rw [dropTrailingSpaces_line hline, unindent_newline, unindent_newline,
      dropTrailingSpaces_line fun h => hline (unindent_subset _ _ h), rdropWhile_unindent rfl, ih]

/-- Aligned texts become programs that are aligned line by line. -/
theorem Aligned.tidy_terminate (h : Aligned false text text') :
    Aligned true (tidy (terminate text)) (tidy (terminate text')) := by
  have hleading : Aligned true (dropLeadingBlank (terminate text)) (dropLeadingBlank (terminate text')) := by
    have hterminated := h.map (terminate_unindent false)
    rw [Aligned, ← dropLeadingBlank_unindent, hterminated, dropLeadingBlank_unindent]
  rw [Aligned, tidy, tidy, ← dropTrailingSpaces_unindent, ← dropTrailingBlank_unindent, hleading,
    dropTrailingBlank_unindent, dropTrailingSpaces_unindent]

theorem Aligned.lines (h : Aligned true text text') :
    (lines text).map dropSpaces = (Text.lines text').map dropSpaces := by
  rw [← lines_unindent, h, lines_unindent]

end Text
end BlockProgram
