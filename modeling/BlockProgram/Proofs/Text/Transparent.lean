import BlockProgram.Generator.Fragment
import BlockProgram.Proofs.Text.Pattern
import BlockProgram.Text.Lines

/-!
Operations that a plain name goes through untouched. An operation is transparent if what it makes of a
text with holes is a text with as many holes, for the same names; the other characters of that text were
there before, or are in the set `P` of the characters that the generator may write by itself.
-/

namespace BlockProgram

namespace Text

open Pattern

/-- What the operation makes of a text with holes is a text with as many holes, for the same names. -/
def Transparent (P : Char → Prop) (op : Text → Text) : Prop :=
  ∀ p : Pattern, Spells P p → ∃ q : Pattern, holes q = holes p ∧ Spells P q ∧
    ∀ name, IsPlain name → op (fill name p) = fill name q

variable {P : Char → Prop} {op op' : Text → Text}

theorem Transparent.comp (h : Transparent P op) (h' : Transparent P op') :
    Transparent P fun text => op' (op text) := by
  intro p hp
  obtain ⟨q, hholes, hq, hfill⟩ := h p hp
  obtain ⟨r, hholes', hr, hfill'⟩ := h' q hq
  refine ⟨r, hholes'.trans hholes, hr, ?_⟩
  intro name hname
  dsimp only
  rw [hfill name hname, hfill' name hname]

/-- Adding the same text before and after. -/
theorem transparent_surround {before after : Text} (hbefore : ∀ c ∈ before, P c)
    (hafter : ∀ c ∈ after, P c) : Transparent P fun text => before ++ text ++ after := by
  intro p hp
  refine ⟨ofText before ++ p ++ ofText after, by simp, ?_, fun name _ => by simp⟩
  simp only [spells_append, spells_ofText]
  exact ⟨⟨hbefore, hp⟩, hafter⟩

theorem transparent_trimStart : Transparent P trimStart := by
  intro p hp
  obtain ⟨cut, rest, rfl, hspan⟩ := exists_span (fun _ => not_blank_of_plain) p
  exact ⟨rest, by simp, (spells_append.1 hp).2, fun name hname => (hspan name hname).2⟩

theorem transparent_trimEnd : Transparent P trimEnd := by
  intro p hp
  obtain ⟨rest, cut, rfl, hspan⟩ := exists_span_end (fun _ => not_blank_of_plain) p
  exact ⟨rest, by simp, (spells_append.1 hp).1, fun name hname => (hspan name hname).2⟩

theorem transparent_trim : Transparent P trim :=
  transparent_trimStart.comp transparent_trimEnd

theorem transparent_dropComma : Transparent P dropComma := by
  intro p hp
  rcases exists_last p with rfl | ⟨init, c, rfl⟩ | ⟨init, rfl⟩
  · exact ⟨[], rfl, hp, fun _ _ => rfl⟩
  · by_cases hc : c = ','
    · refine ⟨init, by simp, (spells_append.1 hp).1, ?_⟩
      intro name _
      simp [dropComma, hc]
    · refine ⟨init ++ [some c], rfl, hp, ?_⟩
      intro name _
      simp [dropComma, hc]
  · refine ⟨init ++ [none], rfl, hp, ?_⟩
    intro name hname
    obtain ⟨c, hlast, hc⟩ := getLast?_fill_hole hname init
    rw [dropComma, hlast, if_neg]
    simpa using ne_of_plain hc (by decide)

theorem transparent_bareItem : Transparent P bareItem :=
  (transparent_trim.comp transparent_dropComma).comp transparent_trim

/-- Taking off a pair of marks. -/
theorem transparent_unwrap {opening closing : Char} (hopening : isPlainChar opening = false)
    (hclosing : isPlainChar closing = false) : Transparent P (unwrap opening closing) := by
  intro p hp
  have hsame (hnone : ∀ name, IsPlain name → between? opening closing (fill name p) = none) :
      ∃ q : Pattern, holes q = holes p ∧ Spells P q ∧
        ∀ name, IsPlain name → unwrap opening closing (fill name p) = fill name q := by
    refine ⟨p, rfl, hp, ?_⟩
    intro name hname
    rw [unwrap, hnone name hname]
  match p with
  | [] => exact hsame fun _ _ => rfl
  | none :: rest =>
    refine hsame ?_
    intro name hname
    obtain ⟨c, more, rfl, hc⟩ := hname.head
    rw [fill_hole, List.cons_append, between?, if_neg fun h => ne_of_plain hc hopening h.1]
  | some c :: rest =>
    rcases exists_last rest with rfl | ⟨init, d, rfl⟩ | ⟨init, rfl⟩
    · exact hsame fun name _ => by simp [between?]
    · by_cases hmarks : c = opening ∧ d = closing
      · have hinit : Spells P init := fun e he => hp e (by simp [he])
        obtain ⟨q, hholes, hq, hfill⟩ := transparent_trim init hinit
        refine ⟨q, by simp [hholes], hq, ?_⟩
        intro name hname
        simp [unwrap, between?, hmarks, hfill name hname]
      · refine hsame ?_
        intro name _
        simpa [between?] using hmarks
    · refine hsame ?_
      intro name hname
      obtain ⟨d, hlast, hd⟩ := getLast?_fill_hole hname init
      rw [fill_char, between?, hlast, if_neg]
      rintro ⟨-, heq⟩
      exact ne_of_plain hd hclosing (Option.some.inj heq)

theorem transparent_bareCallee : Transparent P bareCallee :=
  (transparent_trim.comp (transparent_unwrap (by decide) (by decide))).comp
    (transparent_unwrap (by decide) (by decide))

/-! ### Lists of texts -/

/-- The holes of several texts. -/
def allHoles (ps : List Pattern) : Nat :=
  (ps.map holes).sum

@[simp]
theorem allHoles_nil : allHoles [] = 0 :=
  rfl

@[simp]
theorem allHoles_cons (p : Pattern) (ps : List Pattern) : allHoles (p :: ps) = holes p + allHoles ps :=
  rfl

/-- What the operation makes of texts with holes is a text with as many holes. -/
def TransparentJoin (P : Char → Prop) (op : List Text → Text) : Prop :=
  ∀ ps : List Pattern, (∀ p ∈ ps, Spells P p) → ∃ q : Pattern, holes q = allHoles ps ∧ Spells P q ∧
    ∀ name, IsPlain name → op (ps.map (fill name)) = fill name q

theorem TransparentJoin.comp {join : List Text → Text} (h : TransparentJoin P join)
    (h' : Transparent P op) : TransparentJoin P fun texts => op (join texts) := by
  intro ps hps
  obtain ⟨q, hholes, hq, hfill⟩ := h ps hps
  obtain ⟨r, hholes', hr, hfill'⟩ := h' q hq
  refine ⟨r, hholes'.trans hholes, hr, ?_⟩
  intro name hname
  dsimp only
  rw [hfill name hname, hfill' name hname]

theorem Transparent.map {join : List Text → Text} (h : Transparent P op) (h' : TransparentJoin P join) :
    TransparentJoin P fun texts => join (texts.map op) := by
  have hmap (ps : List Pattern) (hps : ∀ p ∈ ps, Spells P p) :
      ∃ qs : List Pattern, allHoles qs = allHoles ps ∧ (∀ q ∈ qs, Spells P q) ∧
        ∀ name, IsPlain name → (ps.map (fill name)).map op = qs.map (fill name) := by
    induction ps with
    | nil => exact ⟨[], rfl, by simp, fun _ _ => rfl⟩
    | cons p rest ih =>
      obtain ⟨q, hholes, hq, hfill⟩ := h p (hps p (List.mem_cons_self ..))
      obtain ⟨qs, hall, hqs, hfills⟩ := ih fun other hother => hps other (List.mem_cons_of_mem _ hother)
      refine ⟨q :: qs, by simp [hholes, hall], ?_, fun name hname => ?_⟩
      · rintro other (_ | ⟨_, hother⟩)
        · exact hq
        · exact hqs other hother
      · simp only [List.map_cons, hfill name hname, hfills name hname]
  intro ps hps
  obtain ⟨qs, hall, hqs, hfills⟩ := hmap ps hps
  obtain ⟨r, hholes, hr, hfill⟩ := h' qs hqs
  refine ⟨r, hholes.trans hall, hr, ?_⟩
  intro name hname
  dsimp only
  rw [hfills name hname, hfill name hname]

/-- Leaving out the empty texts leaves out no hole. -/
theorem TransparentJoin.nonempty {join : List Text → Text} (h : TransparentJoin P join) :
    TransparentJoin P fun texts => join (texts.filter fun text => !text.isEmpty) := by
  intro ps hps
  obtain ⟨q, hholes, hq, hfill⟩ :=
    h (ps.filter fun p => !p.isEmpty) fun p hp => hps p (List.mem_of_mem_filter hp)
  refine ⟨q, ?_, hq, fun name hname => ?_⟩
  · rw [hholes]
    clear hps hfill hholes
    induction ps with
    | nil => rfl
    | cons p rest ih => cases p <;> simp [ih]
  · have hempty : ((fun text : Text => !text.isEmpty) ∘ fill name) = fun p => !p.isEmpty := by
      funext p
      rw [Function.comp_apply, Bool.eq_iff_iff]
      simp [fill_eq_nil_iff hname]
    dsimp only
    rw [← hfill name hname, List.filter_map, hempty]

theorem transparent_intercalate {separator : Text} (hseparator : ∀ c ∈ separator, P c) :
    TransparentJoin P separator.intercalate := by
  intro ps hps
  induction ps with
  | nil => exact ⟨[], rfl, spells_nil, fun _ _ => rfl⟩
  | cons p rest ih =>
    cases rest with
    | nil => exact ⟨p, by simp, hps p (List.mem_cons_self ..), fun name _ => by simp⟩
    | cons next rest =>
      obtain ⟨q, hholes, hq, hfill⟩ := ih fun other hother => hps other (List.mem_cons_of_mem _ hother)
      refine ⟨p ++ ofText separator ++ q, ?_, ?_, fun name hname => ?_⟩
      · rw [allHoles_cons, ← hholes]
        simp
      · simp only [spells_append, spells_ofText]
        exact ⟨⟨hps p (List.mem_cons_self ..), hseparator⟩, hq⟩
      · have hrest := hfill name hname
        simp only [List.map_cons] at hrest ⊢
        rw [List.intercalate_cons_cons, hrest]
        simp

section

variable (hmarks : ∀ c, isPlainChar c = false → P c)

include hmarks

theorem forall_of_marks {text : Text} (h : text.all (fun c => !isPlainChar c) = true) :
    ∀ c ∈ text, P c := by
  intro c hc
  refine hmarks c ?_
  simpa using List.all_eq_true.1 h c hc

theorem transparent_parenthesize : Transparent P parenthesize := by
  have hsurround : Transparent P fun text => ['('] ++ text ++ [')'] :=
    transparent_surround (forall_of_marks hmarks (by decide)) (forall_of_marks hmarks (by decide))
  exact hsurround

theorem transparent_commaSeparated : TransparentJoin P commaSeparated :=
  transparent_bareItem.map
    (transparent_intercalate (forall_of_marks hmarks (by decide))).nonempty

theorem transparent_braced : TransparentJoin P braced := by
  have hjoin : TransparentJoin P fun properties =>
      if properties.isEmpty then ['{', '}']
      else ['{', ' '] ++ [' '].intercalate properties ++ [' ', '}'] := by
    intro ps hps
    cases ps with
    | nil =>
      refine ⟨ofText ['{', '}'], rfl, ?_, fun _ _ => rfl⟩
      exact spells_ofText.2 (forall_of_marks hmarks (by decide))
    | cons p rest =>
      exact (transparent_intercalate (forall_of_marks hmarks (by decide))).comp
        (transparent_surround (forall_of_marks hmarks (by decide)) (forall_of_marks hmarks (by decide)))
        (p :: rest) hps
  exact transparent_trim.map hjoin.nonempty

end

/-! ### Texts character by character -/

/-- A fold over the characters of a text is transparent if it leaves plain characters alone, and if what
it makes of any other character does not depend on a name. -/
theorem transparent_foldr {step : Char → Text → Text}
    (hplain : ∀ c rest, isPlainChar c = true → step c rest = c :: rest)
    (hstep : ∀ c p, P c → Spells P p → ∃ q : Pattern, holes q = holes p ∧ Spells P q ∧
      ∀ name, IsPlain name → step c (fill name p) = fill name q) :
    Transparent P fun text => text.foldr step [] := by
  have hname (name rest : Text) (hname : ∀ c ∈ name, isPlainChar c = true) :
      name.foldr step rest = name ++ rest := by
    induction name with
    | nil => rfl
    | cons c more ih =>
      rw [List.foldr_cons, ih fun d hd => hname d (List.mem_cons_of_mem _ hd),
        hplain c _ (hname c (List.mem_cons_self ..)), List.cons_append]
  intro p hp
  induction p with
  | nil => exact ⟨[], rfl, hp, fun _ _ => rfl⟩
  | cons o rest ih =>
    obtain ⟨q, hholes, hq, hfill⟩ := ih fun c hc => hp c (List.mem_cons_of_mem _ hc)
    cases o with
    | none =>
      refine ⟨none :: q, by simp [hholes], spells_hole.2 hq, ?_⟩
      intro name h
      dsimp only at hfill ⊢
      rw [fill_hole, List.foldr_append, hfill name h, hname _ _ h.plain, fill_hole]
    | some c =>
      obtain ⟨r, hholes', hr, hfill'⟩ := hstep c q (hp c (List.mem_cons_self ..)) hq
      refine ⟨r, by simp [hholes, hholes'], hr, ?_⟩
      intro name h
      dsimp only at hfill ⊢
      rw [fill_char, List.foldr_cons, hfill name h, hfill' name h]

theorem transparent_indentLines {indent : Text} (hindent : ∀ c ∈ indent, P c) :
    Transparent P (indentLines indent) := by
  have hafter : Transparent P (indentAfterNewlines indent) := by
    refine transparent_foldr (fun c rest hc => ?_) fun c p hc hp => ?_
    · rw [addIndented, if_neg]
      exact fun h => ne_of_plain hc (by decide) h.1
    · by_cases hline : c = '\n' ∧ p ≠ []
      · refine ⟨some c :: (ofText indent ++ p), by simp, by simpa [hc, hp] using hindent,
          fun name hname => ?_⟩
        rw [addIndented, if_pos (by simpa [fill_eq_nil_iff hname] using hline)]
        simp
      · refine ⟨some c :: p, by simp, spells_char.2 ⟨hc, hp⟩, ?_⟩
        intro name hname
        rw [addIndented, if_neg (by simpa [fill_eq_nil_iff hname] using hline)]
        simp
  intro p hp
  by_cases hempty : p = []
  · exact ⟨[], by simp [hempty], spells_nil, fun name _ => by simp [hempty, indentLines]⟩
  · obtain ⟨q, hholes, hq, hfill⟩ := hafter p hp
    refine ⟨ofText indent ++ q, by simp [hholes], ?_, fun name hname => ?_⟩
    · exact spells_append.2 ⟨spells_ofText.2 hindent, hq⟩
    · rw [indentLines, if_neg (by simpa [fill_eq_nil_iff hname] using hempty), hfill name hname]
      simp

theorem transparent_dropTrailingSpaces : Transparent P dropTrailingSpaces := by
  refine transparent_foldr (fun c rest hc => ?_) fun c p hc hp => ?_
  · rw [dropBeforeNewline, if_neg]
    rintro ⟨rfl | rfl, -⟩ <;> revert hc <;> decide
  · have hhead (name : Text) (hname : IsPlain name) :
        (fill name p).head? = some '\n' ↔ p.head? = some (some '\n') := by
      cases p with
      | nil => simp
      | cons o rest =>
        cases o with
        | none =>
          obtain ⟨d, more, rfl, hd⟩ := hname.head
          simpa using ne_of_plain hd (by decide)
        | some d => simp
    by_cases hdrop : (c = ' ' ∨ c = '\t') ∧ p.head? = some (some '\n')
    · refine ⟨p, rfl, hp, ?_⟩
      intro name hname
      rw [dropBeforeNewline, if_pos]
      exact ⟨hdrop.1, (hhead name hname).2 hdrop.2⟩
    · refine ⟨some c :: p, by simp, spells_char.2 ⟨hc, hp⟩, ?_⟩
      intro name hname
      rw [dropBeforeNewline, if_neg, fill_char]
      exact fun h => hdrop ⟨h.1, (hhead name hname).1 h.2⟩

/-! ### Lines -/

/-- No plain character ends a line, so a name stays on the line that it starts on. -/
theorem foldr_addToLines {name : Text} (hname : ∀ c ∈ name, isPlainChar c = true) (first : Text)
    (others : List Text) : name.foldr addToLines (first :: others) = (name ++ first) :: others := by
  induction name with
  | nil => rfl
  | cons c rest ih =>
    have hc : c ≠ '\n' := ne_of_plain (hname c (List.mem_cons_self ..)) (by decide)
    rw [List.foldr_cons, ih fun d hd => hname d (List.mem_cons_of_mem _ hd), addToLines, if_neg hc]
    rfl

theorem exists_lines {p : Pattern} (hp : Spells P p) :
    ∃ first others, allHoles (first :: others) = holes p ∧ (∀ q ∈ first :: others, Spells P q) ∧
      ∀ name, IsPlain name → lines (fill name p) = (first :: others).map (fill name) := by
  induction p with
  | nil => exact ⟨[], [], rfl, by simp, fun _ _ => rfl⟩
  | cons o rest ih =>
    obtain ⟨first, others, hholes, hspells, hfill⟩ := ih fun c hc => hp c (List.mem_cons_of_mem _ hc)
    have hfirst := hspells first (List.mem_cons_self ..)
    have hothers (q : Pattern) (hq : q ∈ others) := hspells q (List.mem_cons_of_mem _ hq)
    cases o with
    | none =>
      refine ⟨none :: first, others, ?_, ?_, fun name hname => ?_⟩
      · simp only [allHoles_cons, holes_hole] at hholes ⊢
        omega
      · simpa using ⟨hfirst, hothers⟩
      · rw [lines, fill_hole, List.foldr_append, ← lines, hfill name hname, List.map_cons,
          foldr_addToLines hname.plain]
        simp
    | some c =>
      by_cases hc : c = '\n'
      · refine ⟨[], first :: others, by simpa using hholes, by simpa using ⟨hfirst, hothers⟩,
          fun name hname => ?_⟩
        rw [lines, fill_char, List.foldr_cons, ← lines, hfill name hname, addToLines, if_pos hc]
        simp
      · refine ⟨some c :: first, others, by simpa using hholes, ?_, fun name hname => ?_⟩
        · simpa using ⟨⟨hp c (List.mem_cons_self ..), hfirst⟩, hothers⟩
        · rw [lines, fill_char, List.foldr_cons, ← lines, hfill name hname, addToLines, if_neg hc]
          simp

/-- Whether a line is terminated does not depend on a name in it. -/
theorem isTerminated_fill (p : Pattern) :
    ∃ terminated, ∀ name, IsPlain name → isTerminated (fill name p) = terminated := by
  obtain ⟨q, -, -, hfill⟩ := transparent_trimEnd (P := fun _ => True) p fun _ _ => trivial
  rcases exists_last q with rfl | ⟨init, c, rfl⟩ | ⟨init, rfl⟩
  · refine ⟨true, ?_⟩
    intro name hname
    rw [isTerminated, hfill name hname]
    rfl
  · refine ⟨isTerminator c, ?_⟩
    intro name hname
    rw [isTerminated, hfill name hname]
    simp
  · refine ⟨false, ?_⟩
    intro name hname
    obtain ⟨c, hlast, hc⟩ := getLast?_fill_hole hname init
    rw [isTerminated, hfill name hname, hlast]
    have hsemicolon : c ≠ ';' := ne_of_plain hc (by decide)
    have hopening : c ≠ '\x7b' := ne_of_plain hc (by decide)
    have hclosing : c ≠ '\x7d' := ne_of_plain hc (by decide)
    simp [isTerminator, hsemicolon, hopening, hclosing]

theorem transparent_terminateLine (hmarks : ∀ c, isPlainChar c = false → P c) :
    Transparent P terminateLine := by
  intro p hp
  obtain ⟨terminated, hterminated⟩ := isTerminated_fill p
  cases terminated with
  | true =>
    refine ⟨p, rfl, hp, ?_⟩
    intro name hname
    rw [terminateLine, hterminated name hname, if_pos rfl]
  | false =>
    refine ⟨p ++ [some ';'], by simp, by simpa using ⟨hp, hmarks _ (by decide)⟩, ?_⟩
    intro name hname
    rw [terminateLine, hterminated name hname, if_neg (by decide)]
    simp

theorem transparent_unlines (hmarks : ∀ c, isPlainChar c = false → P c) : TransparentJoin P unlines :=
  transparent_intercalate (forall_of_marks hmarks (by decide))

theorem transparent_terminate (hmarks : ∀ c, isPlainChar c = false → P c) : Transparent P terminate := by
  intro p hp
  obtain ⟨first, others, hholes, hspells, hlines⟩ := exists_lines hp
  obtain ⟨q, hall, hq, hfill⟩ :=
    (transparent_terminateLine hmarks).map (transparent_unlines hmarks) (first :: others) hspells
  refine ⟨q, hall.trans hholes, hq, ?_⟩
  intro name hname
  rw [terminate, hlines name hname, ← hfill name hname]

/-! ### Blank lines around a text -/

theorem subset_of_afterLastNewline? {text rest : Text} (h : afterLastNewline? text = some rest) :
    rest ⊆ text := by
  intro c hc
  rw [afterLastNewline?] at h
  split_ifs at h
  cases h
  exact List.mem_reverse.1 (List.takeWhile_subset _ (List.mem_reverse.1 hc))

theorem transparent_dropLeadingBlank : Transparent P dropLeadingBlank := by
  intro p hp
  obtain ⟨cut, rest, rfl, hspan⟩ := exists_span (fun _ => not_blank_of_plain) p
  rw [spells_append, spells_ofText] at hp
  cases hafter : afterLastNewline? (cut.drop 1) with
  | none =>
    refine ⟨ofText cut ++ rest, rfl, by simpa using hp, ?_⟩
    intro name hname
    rw [dropLeadingBlank, (hspan name hname).1, hafter]
  | some kept =>
    have hkept (c : Char) (hc : c ∈ kept) : P c :=
      hp.1 c (List.mem_of_mem_drop (subset_of_afterLastNewline? hafter hc))
    refine ⟨ofText kept ++ rest, by simp, by simpa using ⟨hkept, hp.2⟩, ?_⟩
    intro name hname
    rw [dropLeadingBlank, (hspan name hname).1, (hspan name hname).2, hafter]
    simp

theorem transparent_dropTrailingBlank (hmarks : ∀ c, isPlainChar c = false → P c) :
    Transparent P dropTrailingBlank := by
  intro p hp
  obtain ⟨rest, cut, rfl, hspan⟩ := exists_span_end (fun _ => not_blank_of_plain) p
  rw [spells_append, spells_ofText] at hp
  by_cases hnewline : '\n' ∈ cut
  · have hkept (c : Char) (hc : c ∈ cut.takeWhile (· ≠ '\n')) : P c :=
      hp.2 c (List.takeWhile_subset _ hc)
    refine ⟨rest ++ ofText (cut.takeWhile (· ≠ '\n')) ++ [some '\n'], by simp, ?_, fun name hname => ?_⟩
    · rw [spells_append, spells_append, spells_ofText]
      exact ⟨⟨hp.1, hkept⟩, by simpa using hmarks _ (by decide)⟩
    · rw [dropTrailingBlank, (hspan name hname).1, (hspan name hname).2, if_pos hnewline]
      simp
  · refine ⟨rest ++ ofText cut, rfl, by simpa using hp, ?_⟩
    intro name hname
    rw [dropTrailingBlank, (hspan name hname).1, if_neg hnewline]

theorem transparent_tidy (hmarks : ∀ c, isPlainChar c = false → P c) : Transparent P tidy :=
  (transparent_dropLeadingBlank.comp (transparent_dropTrailingBlank hmarks)).comp
    transparent_dropTrailingSpaces

end Text
end BlockProgram
