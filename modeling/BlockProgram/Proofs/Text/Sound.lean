import BlockProgram.Proofs.Text.Respacing

/-!
What the generator does to sound texts. Joining, quoting, bracketing and spacing them gives sound texts
again, and so does taking off quotes. Taking off parentheses does if they are a pair that match each other,
and only then: `(a + b).c()` starts and ends with a parenthesis, too, and without them it is not nested.
-/

namespace BlockProgram
namespace Text

variable {text inner : Text} {texts : List Text}

/-! ### Joined texts -/

theorem sound_intercalate {separator : Text} (hseparator : Sound separator)
    (h : ∀ text ∈ texts, Sound text) : Sound (separator.intercalate texts) := by
  induction texts with
  | nil => exact sound_nil
  | cons text rest ih =>
    have hrest := ih fun other hother => h other (List.mem_cons_of_mem _ hother)
    have htext := h text (List.mem_cons_self ..)
    cases rest with
    | nil => simpa using htext
    | cons next rest =>
      rw [List.intercalate_cons_cons]
      exact (htext.append hseparator).append hrest

/-- A sound text between brackets that close each other. -/
theorem Sound.enclose {opening closing : Char} (hpair : closing? opening = some closing)
    (h : Sound text) : Sound (opening :: (text ++ [closing])) := by
  have hmarks : isDelimiter opening = true ∧ isDelimiter closing = true ∧ opening ≠ '"' ∧
      closing ≠ '"' ∧ closing? closing = none ∧ isClosing closing = true := by
    unfold closing? at hpair
    split at hpair <;> cases hpair <;> decide
  obtain ⟨hopening, hclosing, hquote, hquote', hnone, hcloses⟩ := hmarks
  constructor
  · refine .plain (ne_backslash_of_delimiter hopening) (h.escapes.append ?_)
    exact .plain (ne_backslash_of_delimiter hclosing) .nil
  · rintro ⟨mode, awaited⟩ hr
    rw [delimiters_cons_of_delimiter hopening, delimiters_append, delimiters_cons_of_delimiter hclosing,
      delimiters_nil]
    cases mode with
    | code =>
      have hopen : Reading.step ⟨.code, awaited⟩ opening = some ⟨.code, closing :: awaited⟩ := by
        simp [Reading.step, Reading.stepCode, hquote, hpair]
      have hclose : Reading.step ⟨.code, closing :: awaited⟩ closing = some ⟨.code, awaited⟩ := by
        simp [Reading.step, Reading.stepCode, hquote', hnone, hcloses]
      simp [hopen, hclose, h.balanced ⟨.code, closing :: awaited⟩ Mode.noConfusion]
    | literal =>
      have hopen : Reading.step ⟨.literal, awaited⟩ opening = some ⟨.literal, awaited⟩ := by
        simp [Reading.step, hquote, ne_backslash_of_delimiter hopening]
      have hclose : Reading.step ⟨.literal, awaited⟩ closing = some ⟨.literal, awaited⟩ := by
        simp [Reading.step, hquote', ne_backslash_of_delimiter hclosing]
      simp [hopen, hclose, h.balanced ⟨.literal, awaited⟩ Mode.noConfusion]
    | escape => exact absurd rfl hr

theorem Sound.parenthesize (h : Sound text) : Sound (parenthesize text) :=
  h.enclose rfl

theorem respaced_trim_delimiters (text : Text) : delimiters (trim text) = delimiters text :=
  (respaced_trimEnd _).delimiters_eq.trans (respaced_trimStart _).delimiters_eq

theorem Sound.trim (h : Sound text) : Sound (trim text) :=
  (h.respaced (respaced_trimStart _)).respaced (respaced_trimEnd _)

theorem Sound.bareItem (h : Sound text) : Sound (bareItem text) :=
  (h.trim.respaced (respaced_dropComma _)).trim

theorem sound_commaSeparated (h : ∀ item ∈ texts, Sound item) : Sound (commaSeparated texts) := by
  refine sound_intercalate (sound_of_bare (by decide)) fun text htext => ?_
  obtain ⟨item, hitem, rfl⟩ := List.mem_map.1 (List.mem_of_mem_filter htext)
  exact (h item hitem).bareItem

theorem sound_braced (h : ∀ item ∈ texts, Sound item) : Sound (braced texts) := by
  have hspace : Sound [' '] := sound_of_bare (by decide)
  rw [braced]
  split
  · exact sound_nil.enclose rfl
  · have hproperties : ∀ text ∈ (texts.map Text.trim).filter fun item => !item.isEmpty, Sound text := by
      intro text htext
      obtain ⟨item, hitem, rfl⟩ := List.mem_map.1 (List.mem_of_mem_filter htext)
      exact (h item hitem).trim
    have hjoined := (hspace.append (sound_intercalate hspace hproperties)).append hspace
    simpa using hjoined.enclose (show closing? '{' = some '}' from rfl)

theorem Sound.indentLines {indent : Text} (hindent : Bare indent) (h : Sound text) :
    Sound (indentLines indent text) := by
  rw [Text.indentLines]
  split
  · exact sound_nil
  · exact (sound_of_bare hindent).append (h.respaced (respaced_indentAfterNewlines hindent _))

theorem sound_unlines (h : ∀ text ∈ texts, Sound text) : Sound (unlines texts) :=
  sound_intercalate (sound_of_bare (by decide)) h

theorem Sound.terminate (h : Sound text) : Sound (terminate text) :=
  h.respaced (respaced_terminate _)

theorem Sound.tidy (h : Sound text) : Sound (tidy text) :=
  ((h.respaced (respaced_dropLeadingBlank _)).respaced (respaced_dropTrailingBlank _)).respaced
    (respaced_dropTrailingSpaces _)

/-! ### Quoted texts -/

/-- A quote takes a reading into a literal or out of it, and back again. -/
theorem exists_step_quote {r : Reading} (hr : r.Steady) :
    ∃ s : Reading, s.Steady ∧ r.step '"' = some s ∧ s.step '"' = some r := by
  obtain ⟨mode, awaited⟩ := r
  cases mode with
  | code => exact ⟨⟨.literal, awaited⟩, Mode.noConfusion, rfl, rfl⟩
  | literal => exact ⟨⟨.code, awaited⟩, Mode.noConfusion, rfl, rfl⟩
  | escape => exact absurd rfl hr

/-- A bare text has no delimiters when it is escaped. -/
theorem escaped_of_bare (h : Bare text) :
    Escapes (text.flatMap escape) ∧ delimiters (text.flatMap escape) = [] := by
  have hescape (c : Char) (hc : isBareChar c = true) :
      Escapes (escape c) ∧ delimiters (escape c) = [] := by
    obtain ⟨hdelimiter, hne⟩ := isBareChar_iff.1 hc
    unfold escape
    split
    · exact absurd hdelimiter (by decide)
    · exact absurd rfl hne
    · exact ⟨.escape rfl .nil, rfl⟩
    · exact ⟨.escape rfl .nil, rfl⟩
    · exact ⟨.escape rfl .nil, rfl⟩
    · exact ⟨.plain hne .nil, by rw [delimiters_cons_of_not_delimiter hdelimiter, delimiters_nil]⟩
  induction text with
  | nil => exact ⟨.nil, rfl⟩
  | cons c rest ih =>
    obtain ⟨hrest, hnone⟩ := ih fun d hd => h d (List.mem_cons_of_mem _ hd)
    obtain ⟨hc, hnone'⟩ := hescape c (h c (List.mem_cons_self ..))
    rw [List.flatMap_cons]
    exact ⟨hc.append hrest, by rw [delimiters_append, hnone', hnone, List.append_nil]⟩

theorem sound_quote (h : Bare text) : Sound (quote text) := by
  obtain ⟨hescapes, hnone⟩ := escaped_of_bare h
  constructor
  · exact .plain (by decide) (hescapes.append (.plain (by decide) .nil))
  · intro r hr
    have hquotes : delimiters (quote text) = ['"', '"'] := by
      rw [quote, delimiters_cons_of_delimiter (by decide), delimiters_append, hnone]
      rfl
    obtain ⟨s, -, hopen, hclose⟩ := exists_step_quote hr
    simp [hquotes, hopen, hclose]

/-! ### Texts without what encloses them -/

theorem between?_eq_some {opening closing : Char} (h : between? opening closing text = some inner) :
    text = opening :: (inner ++ [closing]) := by
  cases text with
  | nil => cases h
  | cons c rest =>
    rw [between?] at h
    split at h
    · rename_i hends
      cases h
      rw [hends.1, List.dropLast_append_getLast? _ hends.2]
    · cases h

theorem Sound.escapes_inner {opening closing : Char} (h : Sound (opening :: (inner ++ [closing])))
    (hopening : opening ≠ '\\') (hclosing : isEscapeLetter closing = false) : Escapes inner := by
  refine Escapes.of_append ((escapes_cons_iff hopening).1 h.escapes) ?_
  simpa using hclosing

/-- Without its quotes, a text is read in code as it was in a literal, and the other way round. -/
theorem Sound.of_quoted (h : Sound ('"' :: (inner ++ ['"']))) : Sound inner := by
  refine ⟨h.escapes_inner (by decide) (by decide), ?_⟩
  have hbalanced := h.balanced
  rw [Balanced, delimiters_cons_of_delimiter (by decide), delimiters_append] at hbalanced
  intro r hr
  obtain ⟨s, hs, hopen, hclose⟩ := exists_step_quote hr
  have hread := hbalanced s hs
  rw [read_cons, hclose, Option.bind_some, read_append] at hread
  obtain ⟨t, hinner, hlast⟩ := Option.bind_eq_some_iff.1 hread
  -- the last quote leads back to where the first one came from, so it was read where that one led to
  obtain ⟨s', -, hopen', hclose'⟩ := exists_step_quote (hr.read_delimiters hinner)
  rw [delimiters_cons_of_delimiter (by decide), delimiters_nil, read_cons, hopen'] at hlast
  cases hlast
  cases hclose'.symm.trans hclose
  exact hinner

/-- Without its parentheses, a text is sound if what is between them is nested. -/
theorem Sound.of_parenthesized (h : Sound ('(' :: (inner ++ [')']))) (hinner : Nested inner) :
    Sound inner := by
  have hescapes : Escapes inner := h.escapes_inner (by decide) (by decide)
  refine ⟨hescapes, balanced_iff.2 ⟨?_, ?_⟩⟩
  · rwa [← hescapes.read_eq steady_start]
  -- inside of a literal the parentheses are characters like others
  · have hread := h.balanced ⟨.literal, []⟩ Mode.noConfusion
    rw [delimiters_cons_of_delimiter (by decide), delimiters_append, read_cons,
      show Reading.step ⟨.literal, []⟩ '(' = some ⟨.literal, []⟩ from rfl, Option.bind_some,
      read_append] at hread
    obtain ⟨⟨mode, awaited⟩, hmid, hlast⟩ := Option.bind_eq_some_iff.1 hread
    rw [delimiters_cons_of_delimiter (by decide), delimiters_nil, read_cons] at hlast
    obtain ⟨s, hstep, hs⟩ := Option.bind_eq_some_iff.1 hlast
    cases hs
    cases mode with
    | code =>
      simp only [Reading.step, Reading.stepCode] at hstep
      grind
    | literal =>
      cases hstep
      exact hmid
    | escape =>
      have hsteady : Reading.Steady ⟨.literal, []⟩ := Mode.noConfusion
      exact absurd rfl (hsteady.read_delimiters hmid)

/-! ### Callees -/

/-- If the first and the last character of a callee are parentheses, they match each other: what is
between them is nested. -/
def ParensMatch (text : Text) : Prop :=
  ∀ inner, between? '(' ')' (unwrap '"' '"' (trim text)) = some inner → Nested inner

theorem Sound.unwrap_quotes (h : Sound text) : Sound (unwrap '"' '"' text) := by
  rw [unwrap]
  split
  · rename_i inner hinner
    rw [between?_eq_some hinner] at h
    exact h.of_quoted.trim
  · exact h

/-- The parentheses around a callee can be taken off if they match. -/
theorem Sound.bareCallee (h : Sound text) (hmatch : ParensMatch text) : Sound (bareCallee text) := by
  have hunquoted := h.trim.unwrap_quotes
  rw [Text.bareCallee, unwrap]
  split
  · rename_i inner hinner
    rw [between?_eq_some hinner] at hunquoted
    exact (hunquoted.of_parenthesized (hmatch inner hinner)).trim
  · exact hunquoted

theorem escapes_trim (h : Escapes text) : Escapes (trim text) :=
  (respaced_trimEnd _).escapes ((respaced_trimStart _).escapes h)

theorem escapes_bareCallee (h : Sound text) : Escapes (Text.bareCallee text) := by
  have hunquoted := h.trim.unwrap_quotes
  rw [Text.bareCallee, unwrap]
  split
  · rename_i inner hinner
    rw [between?_eq_some hinner] at hunquoted
    exact escapes_trim (hunquoted.escapes_inner (by decide) (by decide))
  · exact hunquoted.escapes

/-- The bare callee is nested only if the parentheses that were taken off match. -/
theorem parensMatch_of_nested (h : Sound text) (hnested : Nested (Text.bareCallee text)) :
    ParensMatch text := by
  intro inner hinner
  have hunquoted := h.trim.unwrap_quotes
  have hescapes := escapes_bareCallee h
  have hbare : Text.bareCallee text = trim inner := by rw [Text.bareCallee, unwrap, hinner]
  rw [between?_eq_some hinner] at hunquoted
  rw [hbare] at hnested hescapes
  rw [Nested, hescapes.read_eq steady_start, respaced_trim_delimiters] at hnested
  rwa [Nested, (hunquoted.escapes_inner (by decide) (by decide)).read_eq steady_start]

/-! ### Callees that lose a pair or nothing -/

theorem trim_enclosed {opening closing : Char} (hopening : isBlankChar opening = false)
    (hclosing : isBlankChar closing = false) (inner : Text) :
    trim (opening :: (inner ++ [closing])) = opening :: (inner ++ [closing]) := by
  have hstart : trimStart (opening :: (inner ++ [closing])) = opening :: (inner ++ [closing]) := by
    rw [trimStart, List.dropWhile_cons_of_neg (by rw [hopening]; exact Bool.false_ne_true)]
  rw [Text.trim, hstart, trimEnd, ← List.cons_append, List.reverse_append, List.reverse_singleton,
    List.singleton_append, List.dropWhile_cons_of_neg (by rw [hclosing]; exact Bool.false_ne_true)]
  simp

theorem between?_enclosed (opening closing : Char) (inner : Text) :
    between? opening closing (opening :: (inner ++ [closing])) = some inner := by
  simp [between?]

theorem unwrap_of_none {opening closing : Char} (h : between? opening closing text = none) :
    unwrap opening closing text = text := by
  rw [unwrap, h]

/-- A text in parentheses loses these. -/
theorem parensMatch_parenthesize (h : Nested inner) : ParensMatch (Text.parenthesize inner) := by
  intro inner' hinner
  have hquotes : between? '"' '"' ('(' :: (inner ++ [')'])) = none := by simp [between?]
  rw [Text.parenthesize, trim_enclosed (by decide) (by decide), unwrap_of_none hquotes,
    between?_enclosed] at hinner
  cases hinner
  exact h

/-- A quoted text without brackets loses its quotes only. -/
theorem parensMatch_quote (h : Bare text) : ParensMatch (quote text) := by
  intro inner hinner
  have hunquoted : unwrap '"' '"' (quote text) = trim (text.flatMap escape) := by
    rw [unwrap, quote, between?_enclosed]
  rw [show trim (quote text) = quote text from trim_enclosed (by decide) (by decide) _, hunquoted] at hinner
  have hnone := (escaped_of_bare h).2
  rw [← respaced_trim_delimiters, between?_eq_some hinner, delimiters_cons_of_delimiter (by decide)] at hnone
  cases hnone

/-- Trimming keeps the last character that is not blank. -/
theorem getLast?_trim (text : Text) :
    (trim text).getLast? = text.reverse.find? fun c => !isBlankChar c := by
  have hblank : (text.takeWhile isBlankChar).reverse.find? (fun c => !isBlankChar c) = none := by
    refine List.find?_eq_none.2 fun c hc => ?_
    rw [List.mem_takeWhile_imp (List.mem_reverse.1 hc)]
    exact Bool.false_ne_true
  conv_rhs =>
    rw [← List.takeWhile_append_dropWhile (p := isBlankChar) (l := text), List.reverse_append, List.find?_append, hblank,
      Option.or_none]
  rw [Text.trim, trimEnd, List.getLast?_reverse, trimStart, List.find?_not_eq_head?_dropWhile]

/-- A text that ends in neither a parenthesis nor a quote loses nothing. -/
theorem parensMatch_of_end {front part : Text} (hpart : ∀ c ∈ part, c ≠ ')' ∧ c ≠ '"')
    (hvisible : front = [] ∨ ∃ c ∈ part, isBlankChar c = false) : ParensMatch (front ++ part) := by
  have hlast (c : Char) (hc : (trim (front ++ part)).getLast? = some c) : c ∈ part := by
    rw [getLast?_trim, List.reverse_append, List.find?_append] at hc
    rcases hvisible with rfl | ⟨d, hd, hdark⟩
    · rw [List.reverse_nil, List.find?_nil, Option.or_none] at hc
      exact List.mem_reverse.1 (List.mem_of_find?_eq_some hc)
    · cases hfind : part.reverse.find? (fun c => !isBlankChar c) with
      | none =>
        have := List.find?_eq_none.1 hfind d (List.mem_reverse.2 hd)
        rw [hdark] at this
        exact absurd rfl this
      | some e =>
        rw [hfind, Option.some_or] at hc
        cases hc
        exact List.mem_reverse.1 (List.mem_of_find?_eq_some hfind)
  have hnone (opening closing : Char) (hne : ∀ c ∈ part, c ≠ closing) :
      between? opening closing (trim (front ++ part)) = none := by
    refine Option.eq_none_iff_forall_ne_some.2 fun inner hinner => ?_
    refine hne closing (hlast closing ?_) rfl
    rw [between?_eq_some hinner, ← List.cons_append, List.getLast?_concat]
  intro inner hinner
  rw [unwrap_of_none (hnone '"' '"' fun c hc => (hpart c hc).2), hnone '(' ')' fun c hc => (hpart c hc).1] at hinner
  cases hinner

theorem ne_of_bare (h : Bare text) : ∀ c ∈ text, c ≠ ')' ∧ c ≠ '"' := by
  intro c hc
  have hbare := h c hc
  constructor <;> rintro rfl <;> exact absurd hbare (by decide)

/-- A text without brackets and quotes loses nothing. -/
theorem parensMatch_of_bare (h : Bare text) : ParensMatch text := by
  show ParensMatch ([] ++ text)
  exact parensMatch_of_end (ne_of_bare h) (.inl rfl)

theorem parensMatch_nil : ParensMatch [] :=
  parensMatch_of_bare (by decide)

theorem parensMatch_braced (items : List Text) : ParensMatch (braced items) := by
  have hend : ∃ front, braced items = front ++ ['}'] := by
    rw [braced]
    split
    · exact ⟨['{'], rfl⟩
    · rw [show [' ', '}'] = [' '] ++ ['}'] from rfl, ← List.append_assoc]
      exact ⟨_, rfl⟩
  obtain ⟨front, hfront⟩ := hend
  rw [hfront]
  refine parensMatch_of_end (fun c hc => ?_) (.inr ⟨'}', List.mem_singleton_self _, by decide⟩)
  rw [List.mem_singleton.1 hc]
  decide

end Text
end BlockProgram
