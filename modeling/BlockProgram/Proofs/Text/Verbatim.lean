import BlockProgram.Generator.Fragment
import BlockProgram.Proofs.Text.Quoted
import BlockProgram.Proofs.Text.Terminated

/-!
Texts that survive in what they are put into. Code is trimmed, loses commas at its end, is indented, terminated
and tidied, and all of this works on raw text. What it cuts off are white space and commas at an end, of the
whole text or of one of its lines, and what it puts in stands at an end of a line. So a text that lies in one
line, and neither starts nor ends in what may be cut off, is still there afterwards (`Solid`):

    blank ... inner ... , newline          cut and moved as a whole, never inside
-/

namespace BlockProgram
namespace Text

/-- A text in one line that starts with a character that is no white space, and ends in one that is neither
white space nor a comma. -/
structure Solid (inner : Text) : Prop where
  line : '\n' ∉ inner
  first : ∃ c rest, inner = c :: rest ∧ isBlankChar c = false
  last : ∃ init c, inner = init ++ [c] ∧ isBlankChar c = false ∧ c ≠ ','

/-! ### Literals -/

theorem solid_quote (text : Text) : Solid (quote text) where
  line hmem := (quote_unbroken text _ hmem).1 rfl
  first := ⟨'"', _, rfl, by decide⟩
  last := ⟨'"' :: text.flatMap escape, '"', rfl, by decide, by decide⟩

variable {inner text before after more : Text}

theorem Solid.ne_nil (h : Solid inner) : inner ≠ [] := by
  obtain ⟨c, rest, rfl, -⟩ := h.first
  exact List.cons_ne_nil _ _

/-! ### Cutting at the ends -/

theorem infix_dropWhile {p : Char → Bool} (hfirst : ∃ c rest, inner = c :: rest ∧ p c = false)
    (h : inner <:+: text) : inner <:+: text.dropWhile p := by
  obtain ⟨before, after, rfl⟩ := h
  obtain ⟨c, rest, rfl, hc⟩ := hfirst
  rw [List.append_assoc, List.dropWhile_append]
  split
  · rw [List.cons_append, List.dropWhile_cons_of_neg (by simp [hc])]
    exact (List.prefix_append (c :: rest) after).isInfix
  · exact List.infix_append' ..

theorem infix_rdropWhile {p : Char → Bool} (hlast : ∃ init c, inner = init ++ [c] ∧ p c = false)
    (h : inner <:+: text) : inner <:+: text.rdropWhile p := by
  obtain ⟨init, c, rfl, hc⟩ := hlast
  rw [← List.reverse_infix, List.rdropWhile, List.reverse_reverse]
  exact infix_dropWhile ⟨c, init.reverse, by simp, hc⟩ (List.reverse_infix.2 h)

theorem Solid.last_kept (h : Solid inner) {p : Char → Bool} (hp : ∀ c, p c = true → isBlankChar c = true) :
    ∃ init c, inner = init ++ [c] ∧ p c = false := by
  obtain ⟨init, c, heq, hc, -⟩ := h.last
  exact ⟨init, c, heq, Bool.eq_false_iff.2 fun hpc => by simp [hp c hpc] at hc⟩

theorem Solid.trim (hinner : Solid inner) (h : inner <:+: text) : inner <:+: trim text :=
  infix_rdropWhile (hinner.last_kept fun _ => id) (infix_dropWhile hinner.first h)

theorem Solid.dropComma (hinner : Solid inner) (h : inner <:+: text) : inner <:+: dropComma text := by
  rw [Text.dropComma]
  split
  · rename_i hcomma
    obtain ⟨init, rfl⟩ := List.getLast?_eq_some_iff.1 hcomma
    rw [List.dropLast_concat]
    rcases List.infix_concat_iff.1 h with ⟨front, hsuffix⟩ | hinit
    · obtain ⟨start, c, rfl, -, hc⟩ := hinner.last
      rw [← List.append_assoc] at hsuffix
      exact absurd (List.singleton_inj.1 (List.append_inj' hsuffix rfl).2) hc
    · exact hinit
  · exact h

theorem Solid.bareItem (hinner : Solid inner) (h : inner <:+: text) : inner <:+: bareItem text :=
  hinner.trim (hinner.dropComma (hinner.trim h))

/-! ### Joined texts -/

theorem infix_intercalate {separator : Text} {texts : List Text} (hmem : text ∈ texts) (h : inner <:+: text) :
    inner <:+: separator.intercalate texts := by
  induction texts with
  | nil => cases hmem
  | cons first rest ih =>
    cases rest with
    | nil =>
      rw [List.mem_singleton.1 hmem] at h
      rwa [List.intercalate_singleton]
    | cons next others =>
      rw [List.intercalate_cons_cons]
      rcases List.mem_cons.1 hmem with rfl | hmem
      · exact List.infix_append_of_infix_left (List.infix_append_of_infix_left h)
      · exact List.infix_append_of_infix_right (ih hmem)

/-- Of what is left of items without the empty ones, one holds the text. -/
theorem Solid.mem_nonempty (hinner : Solid inner) {items : List Text} {op : Text → Text}
    (hmem : text ∈ items) (h : inner <:+: op text) :
    op text ∈ (items.map op).filter fun item => !item.isEmpty := by
  refine List.mem_filter.2 ⟨List.mem_map_of_mem hmem, ?_⟩
  have hne : op text ≠ [] := by
    intro hnil
    rw [hnil, List.infix_nil] at h
    exact hinner.ne_nil h
  simpa using hne

theorem Solid.commaSeparated (hinner : Solid inner) {items : List Text} (hmem : text ∈ items)
    (h : inner <:+: text) : inner <:+: commaSeparated items :=
  infix_intercalate (hinner.mem_nonempty hmem (hinner.bareItem h)) (hinner.bareItem h)

theorem Solid.braced (hinner : Solid inner) {items : List Text} (hmem : text ∈ items) (h : inner <:+: text) :
    inner <:+: braced items := by
  have hkept := hinner.mem_nonempty hmem (hinner.trim h)
  rw [Text.braced]
  rw [if_neg (by rw [List.isEmpty_iff]; exact List.ne_nil_of_mem hkept)]
  exact List.infix_append_of_infix_left
    (List.infix_append_of_infix_right (infix_intercalate hkept (hinner.trim h)))

theorem infix_parenthesize (h : inner <:+: text) : inner <:+: parenthesize text :=
  List.infix_cons (List.infix_append_of_infix_left h)

/-! ### Lines -/

/-- What lies in one line lies on one side of a newline. -/
theorem infix_newline (hline : '\n' ∉ inner) (h : inner <:+: before ++ '\n' :: after) :
    inner <:+: before ∨ inner <:+: after := by
  rcases List.infix_append_iff.1 h with hbefore | hafter | ⟨front, back, rfl, hfront, hback⟩
  · exact .inl hbefore
  · rcases List.infix_cons_iff.1 hafter with hback | hafter
    · rcases List.prefix_cons_iff.1 hback with rfl | ⟨rest, rfl, -⟩
      · exact .inl List.nil_infix
      · exact absurd (List.mem_cons_self ..) hline
    · exact .inr hafter
  · rcases List.prefix_cons_iff.1 hback with rfl | ⟨rest, rfl, -⟩
    · rw [List.append_nil]
      exact .inl hfront.isInfix
    · exact absurd (List.mem_append_right _ (List.mem_cons_self ..)) hline

theorem infix_terminateLine (h : inner <:+: text) : inner <:+: terminateLine text := by
  rw [terminateLine]
  split
  · exact h
  · exact List.infix_append_of_infix_left h

theorem infix_append_line {line rest : Text} (h : inner <:+: line ∨ inner <:+: rest) :
    inner <:+: line ++ '\n' :: rest := by
  rcases h with h | h
  · exact List.infix_append_of_infix_left h
  · exact List.infix_append_of_infix_right (List.infix_cons h)

theorem Solid.terminate (hinner : Solid inner) (h : inner <:+: text) : inner <:+: terminate text := by
  induction text using line_induction with
  | last line hline =>
    rw [terminate_of_not_mem hline]
    exact infix_terminateLine h
  | line line rest hline ih =>
    rw [terminate_line hline]
    exact infix_append_line ((infix_newline hinner.line h).imp infix_terminateLine ih)

theorem Solid.dropTrailingSpaces (hinner : Solid inner) (h : inner <:+: text) :
    inner <:+: dropTrailingSpaces text := by
  have hblank (c : Char) (hc : isSpaceOrTab c = true) : isBlankChar c = true := by
    rw [isSpaceOrTab, Bool.or_eq_true, decide_eq_true_eq, decide_eq_true_eq] at hc
    rcases hc with rfl | rfl
    · exact space_blank
    · exact tab_blank
  induction text using line_induction with
  | last line hline => rwa [dropTrailingSpaces_of_not_mem hline]
  | line line rest hline ih =>
    rw [dropTrailingSpaces_line hline]
    exact infix_append_line
      ((infix_newline hinner.line h).imp (infix_rdropWhile (hinner.last_kept hblank)) ih)

/-- Nothing solid lies in white space. -/
theorem Solid.not_infix_blank (hinner : Solid inner) (hblank : isBlank text = true) : ¬ inner <:+: text := by
  intro h
  obtain ⟨c, rest, rfl, hc⟩ := hinner.first
  have hmem : c ∈ text := h.subset (List.mem_cons_self ..)
  rw [List.all_eq_true.1 hblank c hmem] at hc
  cases hc

theorem Solid.dropLeadingBlank (hinner : Solid inner) (h : inner <:+: text) :
    inner <:+: dropLeadingBlank text := by
  rcases leading_cases text with hnone | ⟨blank, rest, rfl, hne, hblank, hrest⟩
  · rwa [dropLeadingBlank_of_not_mem hnone]
  · rw [dropLeadingBlank_append hne hblank hrest]
    exact (infix_newline hinner.line h).resolve_left (hinner.not_infix_blank hblank)

theorem Solid.dropTrailingBlank (hinner : Solid inner) (h : inner <:+: text) :
    inner <:+: dropTrailingBlank text := by
  rcases trailing_cases text with hnone | ⟨code, blank, rfl, hcode, hblank⟩
  · rwa [dropTrailingBlank_of_not_mem hnone]
  · rw [dropTrailingBlank_append hcode hblank]
    exact List.infix_append_of_infix_left
      ((infix_newline hinner.line h).resolve_right (hinner.not_infix_blank hblank))

theorem Solid.tidy (hinner : Solid inner) (h : inner <:+: text) : inner <:+: tidy text :=
  hinner.dropTrailingSpaces (hinner.dropTrailingBlank (hinner.dropLeadingBlank h))

/-! ### Indents -/

theorem indentAfterNewlines_line (indent : Text) {line : Text} (hline : '\n' ∉ line) (rest : Text) :
    indentAfterNewlines indent (line ++ '\n' :: rest) = line ++ '\n' :: indentLines indent rest := by
  induction line with
  | nil =>
    have hempty := isEmpty_indentAfterNewlines indent rest
    rw [List.nil_append, indentAfterNewlines_cons, addIndented, hempty, indentLines]
    cases rest <;> rfl
  | cons c line ih =>
    obtain ⟨hc, hline⟩ := not_or.1 (List.mem_cons.not.1 hline)
    rw [List.cons_append, indentAfterNewlines_cons, ih hline, addIndented, if_neg fun h => hc h.1.symm]
    rfl

theorem indentAfterNewlines_of_not_mem (indent : Text) (h : '\n' ∉ text) :
    indentAfterNewlines indent text = text := by
  induction text with
  | nil => rfl
  | cons c rest ih =>
    obtain ⟨hc, hrest⟩ := not_or.1 (List.mem_cons.not.1 h)
    rw [indentAfterNewlines_cons, ih hrest, addIndented, if_neg fun h => hc h.1.symm]

theorem infix_indentLines (indent : Text) (h : inner <:+: indentAfterNewlines indent text) :
    inner <:+: indentLines indent text := by
  cases text with
  | nil => exact h
  | cons c rest => exact List.infix_append_of_infix_right h

theorem Solid.indentLines (hinner : Solid inner) (indent : Text) (h : inner <:+: text) :
    inner <:+: indentLines indent text := by
  refine infix_indentLines indent ?_
  induction text using line_induction with
  | last line hline => rwa [indentAfterNewlines_of_not_mem indent hline]
  | line line rest hline ih =>
    rw [indentAfterNewlines_line indent hline]
    exact infix_append_line ((infix_newline hinner.line h).imp id fun hrest => infix_indentLines indent (ih hrest))

end Text
end BlockProgram
