import BlockProgram.Proofs.Text.Quoted
import BlockProgram.Proofs.Text.Sound

/-!
The name of a called function. What is shown as the callee is trimmed and loses one pair of quotes, and what is
left of it is trimmed and loses one pair of parentheses:

    blank " inner " blank      ⟶   inner, trimmed        blank ( inner ) blank      ⟶   inner, trimmed

Nothing is left exactly of a hollow text: white space that stands in such pairs (`bareCallee_eq_nil_iff`). A
literal loses its quotes and keeps its escapes, so it is left as its own text exactly if it has none
(`trim_escaped_eq_trim_iff`).
-/

namespace BlockProgram
namespace Text

variable {text inner before after : Text} {opening closing : Char}

/-! ### Trimmed texts -/

theorem trim_eq (text : Text) : trim text = (text.dropWhile isBlankChar).rdropWhile isBlankChar := rfl

/-- A text is what it is trimmed to, with white space around it. -/
theorem exists_trim (text : Text) :
    ∃ before after, isBlank before = true ∧ isBlank after = true ∧ text = before ++ trim text ++ after := by
  refine ⟨text.takeWhile isBlankChar, (text.dropWhile isBlankChar).rtakeWhile isBlankChar, ?_, ?_, ?_⟩
  · exact List.all_eq_true.2 fun c hc => List.mem_takeWhile_imp hc
  · exact List.all_eq_true.2 fun c hc => List.mem_rtakeWhile_imp hc
  · rw [List.append_assoc, trim_eq, List.rdropWhile_append_rtakeWhile, List.takeWhile_append_dropWhile]

theorem trim_blank_append (hbefore : isBlank before = true) (text : Text) :
    trim (before ++ text) = trim text := by
  rw [trim_eq, trim_eq, List.dropWhile_append_of_pos (List.all_eq_true.1 hbefore)]

theorem trim_append_blank (hafter : isBlank after = true) (text : Text) : trim (text ++ after) = trim text := by
  rw [trim_eq, trim_eq, List.dropWhile_append]
  split
  · rename_i hnone
    rw [List.isEmpty_iff.1 hnone, List.dropWhile_eq_nil_iff.2 (List.all_eq_true.1 hafter)]
  · exact rdropWhile_append_of_all (List.all_eq_true.1 hafter) _

theorem trim_eq_nil_iff : trim text = [] ↔ isBlank text = true := by
  constructor
  · intro h
    obtain ⟨before, after, hbefore, hafter, htext⟩ := exists_trim text
    rw [htext, h, List.append_nil, isBlank, List.all_append, ← isBlank, ← isBlank, hbefore, hafter]
    rfl
  · intro h
    rw [← List.nil_append text, trim_append_blank h]
    rfl

/-- What is trimmed is blank only if it is empty. -/
theorem isBlank_trim_iff : isBlank (trim text) = true ↔ trim text = [] := by
  constructor
  · intro h
    obtain ⟨before, after, hbefore, hafter, htext⟩ := exists_trim text
    rw [trim_eq_nil_iff, htext, isBlank, List.all_append, List.all_append, ← isBlank, ← isBlank, ← isBlank, hbefore, h,
      hafter]
    rfl
  · intro h
    rw [h]
    rfl

/-! ### Pairs of delimiters -/

/-- The text is `inner` between two delimiters, with white space around them. -/
def Wraps (opening closing : Char) (inner text : Text) : Prop :=
  ∃ before after, isBlank before = true ∧ isBlank after = true ∧
    text = before ++ opening :: (inner ++ closing :: after)

/-- White space, which may stand in parentheses. -/
def Vacant (text : Text) : Prop :=
  isBlank text = true ∨ ∃ inner, Wraps '(' ')' inner text ∧ isBlank inner = true

/-- White space, which may stand in quotes, and in parentheses inside of these. -/
def Hollow (text : Text) : Prop :=
  Vacant text ∨ ∃ inner, Wraps '"' '"' inner text ∧ Vacant inner

theorem between?_trim_iff (hopening : isBlankChar opening = false) (hclosing : isBlankChar closing = false) :
    between? opening closing (trim text) = some inner ↔ Wraps opening closing inner text := by
  constructor
  · intro h
    obtain ⟨before, after, hbefore, hafter, htext⟩ := exists_trim text
    rw [between?_eq_some h] at htext
    exact ⟨before, after, hbefore, hafter, by simpa using htext⟩
  · rintro ⟨before, after, hbefore, hafter, rfl⟩
    have hsplit : opening :: (inner ++ closing :: after) = (opening :: (inner ++ [closing])) ++ after := by simp
    rw [hsplit, trim_blank_append hbefore, trim_append_blank hafter, trim_enclosed hopening hclosing,
      between?_enclosed]

/-- A trimmed text loses a pair of delimiters and is trimmed again, or it has none and stays as it is. -/
theorem unwrap_trim_cases (opening closing : Char) (hopening : isBlankChar opening = false)
    (hclosing : isBlankChar closing = false) (text : Text) :
    (∃ inner, Wraps opening closing inner text ∧ unwrap opening closing (trim text) = trim inner) ∨
      (∀ inner, ¬ Wraps opening closing inner text) ∧ unwrap opening closing (trim text) = trim text := by
  rw [unwrap]
  cases h : between? opening closing (trim text) with
  | none => exact .inr ⟨fun inner hinner => by simp [(between?_trim_iff hopening hclosing).2 hinner] at h, rfl⟩
  | some inner => exact .inl ⟨inner, (between?_trim_iff hopening hclosing).1 h, rfl⟩

/-- A text stands in one pair of delimiters in one way. -/
theorem Wraps.unique {opening' closing' : Char} {inner' : Text} (h : Wraps opening closing inner text)
    (h' : Wraps opening' closing' inner' text) (hopening : isBlankChar opening = false)
    (hclosing : isBlankChar closing = false) (hopening' : isBlankChar opening' = false)
    (hclosing' : isBlankChar closing' = false) : opening = opening' ∧ inner = inner' := by
  have htrim := between?_eq_some ((between?_trim_iff hopening hclosing).2 h)
  have htrim' := between?_eq_some ((between?_trim_iff hopening' hclosing').2 h')
  obtain ⟨hhead, htail⟩ := List.cons.inj (htrim.symm.trans htrim')
  exact ⟨hhead, (List.append_inj' htail rfl).1⟩

theorem Wraps.not_isBlank (h : Wraps opening closing inner text) (hopening : isBlankChar opening = false) :
    isBlank text ≠ true := by
  obtain ⟨before, after, -, -, rfl⟩ := h
  intro hblank
  have := List.all_eq_true.1 hblank opening (by simp)
  simp [hopening] at this

theorem unwrap_trim_eq_nil_iff : unwrap '(' ')' (trim text) = [] ↔ Vacant text := by
  rcases unwrap_trim_cases '(' ')' (by decide) (by decide) text with
    ⟨inner, hwraps, heq⟩ | ⟨hnone, heq⟩
  · rw [heq, trim_eq_nil_iff]
    constructor
    · exact fun h => .inr ⟨inner, hwraps, h⟩
    · rintro (h | ⟨other, hother, h⟩)
      · exact absurd h (hwraps.not_isBlank (by decide))
      · rwa [(hwraps.unique hother (by decide) (by decide) (by decide) (by decide)).2]
  · rw [heq, trim_eq_nil_iff]
    constructor
    · exact .inl
    · rintro (h | ⟨other, hother, -⟩)
      · exact h
      · exact absurd hother (hnone other)

/-- Nothing is left of a callee exactly if it is hollow. -/
theorem bareCallee_eq_nil_iff : bareCallee text = [] ↔ Hollow text := by
  rw [bareCallee]
  rcases unwrap_trim_cases '"' '"' (by decide) (by decide) text with
    ⟨inner, hwraps, heq⟩ | ⟨hnone, heq⟩
  · rw [heq, unwrap_trim_eq_nil_iff]
    constructor
    · exact fun h => .inr ⟨inner, hwraps, h⟩
    · rintro ((h | ⟨other, hother, -⟩) | ⟨other, hother, h⟩)
      · exact absurd h (hwraps.not_isBlank (by decide))
      · exact absurd (hwraps.unique hother (by decide) (by decide) (by decide) (by decide)).1 (by decide)
      · rwa [(hwraps.unique hother (by decide) (by decide) (by decide) (by decide)).2]
  · rw [heq, unwrap_trim_eq_nil_iff]
    constructor
    · exact .inl
    · rintro (h | ⟨other, hother, -⟩)
      · exact h
      · exact absurd hother (hnone other)

/-- What is left of a callee is trimmed. -/
theorem exists_bareCallee_eq_trim (text : Text) : ∃ inner, bareCallee text = trim inner := by
  have hunquoted : ∃ unquoted, unwrap '"' '"' (trim text) = trim unquoted := by
    rcases unwrap_trim_cases '"' '"' (by decide) (by decide) text with
      ⟨inner, -, heq⟩ | ⟨-, heq⟩
    · exact ⟨inner, heq⟩
    · exact ⟨text, heq⟩
  obtain ⟨unquoted, hunquoted⟩ := hunquoted
  rw [bareCallee, hunquoted]
  rcases unwrap_trim_cases '(' ')' (by decide) (by decide) unquoted with
    ⟨inner, -, heq⟩ | ⟨-, heq⟩
  · exact ⟨inner, heq⟩
  · exact ⟨unquoted, heq⟩

/-- A callee is left blank exactly if it is hollow. -/
theorem isBlank_bareCallee_iff : isBlank (bareCallee text) = true ↔ Hollow text := by
  rw [← bareCallee_eq_nil_iff]
  obtain ⟨inner, hinner⟩ := exists_bareCallee_eq_trim text
  rw [hinner, isBlank_trim_iff]

/-! ### Literals -/

/-- Escaping adds a backslash for each character that does not stand for itself. -/
theorem count_escaped (text : Text) :
    (text.flatMap escape).count '\\' = text.count '\\' + text.countP (· ∈ escapedChars) := by
  induction text with
  | nil => rfl
  | cons c rest ih =>
    rw [List.flatMap_cons, List.count_append, ih, List.count_cons, List.countP_cons]
    rcases escape_cases c with ⟨hc, heq⟩ | ⟨hc, letter, hletter, heq⟩
    · rw [heq, decide_eq_false hc, List.count_singleton]
      simp only [Bool.false_eq_true, if_false]
      omega
    · have hcount : (escape c).count '\\' = (if (c == '\\') = true then 1 else 0) + 1 := by
        simp only [escapedChars, List.mem_cons, List.not_mem_nil, or_false] at hc
        rcases hc with rfl | rfl | rfl | rfl | rfl <;> decide
      rw [hcount, decide_eq_true hc]
      simp only [if_true]
      omega

theorem count_backslash_trim (text : Text) : (trim text).count '\\' = text.count '\\' := by
  obtain ⟨before, after, hbefore, hafter, htext⟩ := exists_trim text
  have hnone {blank : Text} (hblank : isBlank blank = true) : blank.count '\\' = 0 := by
    refine List.count_eq_zero.2 fun hmem => ?_
    exact absurd (List.all_eq_true.1 hblank _ hmem) (by decide)
  conv_rhs => rw [htext, List.count_append, List.count_append, hnone hbefore, hnone hafter]
  omega

/-- Between the quotes of a literal its own text is found exactly if none of its characters is escaped. -/
theorem trim_escaped_eq_trim_iff :
    trim (text.flatMap escape) = trim text ↔ ∀ c ∈ text, c ∉ escapedChars := by
  constructor
  · intro h
    have hcount := congrArg (List.count '\\') h
    rw [count_backslash_trim, count_backslash_trim, count_escaped] at hcount
    simpa using List.countP_eq_zero.1 (Nat.left_eq_add.1 hcount.symm)
  · intro h
    have hself : text.flatMap escape = text := by
      induction text with
      | nil => rfl
      | cons c rest ih =>
        obtain ⟨hc, hrest⟩ := List.forall_mem_cons.1 h
        rw [List.flatMap_cons, ih hrest]
        rcases escape_cases c with ⟨-, heq⟩ | ⟨hmem, -⟩
        · rw [heq, List.singleton_append]
        · exact absurd hmem hc
    rw [hself]

/-- What is found first among replaced characters is found first among the characters themselves, if it is in no
replacement. -/
theorem find?_of_find?_flatMap {p : Char → Bool} {f : Char → Text} {c : Char}
    (hf : ∀ d, f d = [d] ∨ ∃ e, (f d).find? p = some e ∧ e ≠ c) (h : (text.flatMap f).find? p = some c) :
    text.find? p = some c := by
  induction text with
  | nil => exact h
  | cons d rest ih =>
    rw [List.flatMap_cons, List.find?_append] at h
    rcases hf d with hself | ⟨e, he, hne⟩
    · rw [hself] at h
      by_cases hd : p d = true
      · simpa [hd] using h
      · simp only [List.find?_cons_of_neg hd, List.find?_nil, Option.none_or] at h ⊢
        exact ih h
    · rw [he, Option.some_or, Option.some.injEq] at h
      exact absurd h hne

theorem head?_trim (text : Text) : (trim text).head? = text.find? fun c => !isBlankChar c := by
  rw [List.find?_not_eq_head?_dropWhile, trim_eq]
  cases h : text.dropWhile isBlankChar with
  | nil => rfl
  | cons c rest =>
    have hc : isBlankChar c = false := by
      have hhead := List.head?_dropWhile_not isBlankChar text
      rw [h] at hhead
      simpa using hhead
    rw [rdropWhile_cons]
    split
    · rw [List.rdropWhile_singleton, hc]
      rfl
    · rfl

/-- A text that starts and ends with other characters than those of a pair is in no such pair. -/
theorem between?_eq_none_iff (hne : opening ≠ closing) :
    between? opening closing text = none ↔ ¬ (text.head? = some opening ∧ text.getLast? = some closing) := by
  cases text with
  | nil => simp [between?]
  | cons c rest =>
    rw [between?, ite_eq_right_iff]
    cases rest with
    | nil =>
      have hnot : ¬ (c = opening ∧ c = closing) := fun h => hne (h.1.symm.trans h.2)
      simpa using hnot
    | cons d more => simp [List.getLast?_cons_cons]

/-- Escaping a text puts it into no parentheses. -/
theorem between?_trim_escaped (h : between? '(' ')' (trim text) = none) :
    between? '(' ')' (trim (text.flatMap escape)) = none := by
  rw [between?_eq_none_iff (by decide), head?_trim, getLast?_trim] at h ⊢
  rw [List.reverse_flatMap]
  rintro ⟨hhead, hlast⟩
  refine h ⟨find?_of_find?_flatMap (fun d => ?_) hhead, find?_of_find?_flatMap (fun d => ?_) hlast⟩
  · rcases escape_cases d with ⟨-, heq⟩ | ⟨-, letter, -, heq⟩
    · exact .inl heq
    · exact .inr ⟨'\\', by rw [heq]; rfl, by decide⟩
  · rcases escape_cases d with ⟨-, heq⟩ | ⟨-, letter, hletter, heq⟩
    · exact .inl (by rw [Function.comp_apply, heq]; rfl)
    · have hvisible : isBlankChar letter = false ∧ letter ≠ ')' := by fin_cases hletter <;> decide
      exact .inr ⟨letter, by simp [heq, hvisible.1], hvisible.2⟩

/-- A literal that is called loses its quotes, and keeps its escapes. -/
theorem bareCallee_quote (h : between? '(' ')' (trim text) = none) :
    bareCallee (quote text) = trim (text.flatMap escape) := by
  have hunquoted : unwrap '"' '"' (trim (quote text)) = trim (text.flatMap escape) := by
    rw [quote, trim_enclosed (by decide) (by decide), unwrap, between?_enclosed]
  rw [bareCallee, hunquoted, unwrap_of_none (between?_trim_escaped h)]

end Text
end BlockProgram
