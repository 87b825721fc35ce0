import BlockProgram.Proofs.Text.Tidy

/-!
Search and replacement. A search looks at each place of a text in turn, from the left. There may be several
matches at one place: they are tried in an order, and a repetition takes as many characters as it can before
it gives one back. The match that counts is the first one at the leftmost place.

Tidying is three replacements in a row (`tidy_eq_replacements`).

    blankStart       ^\s+\n      nothing instead, once            dropLeadingBlank
    blankEnd         \n\s+$      a newline instead, once          dropTrailingBlank
    spacedNewline    [ \t]+\n    a newline instead, everywhere    dropTrailingSpaces
-/

namespace BlockProgram

/-- What to search for. No match is empty. -/
inductive Regex where
  /-- One character of a class. -/
  | one (p : Char → Bool)
  /-- One or more characters of a class, as many as possible. -/
  | many (p : Char → Bool)
  | seq (first second : Regex)
  /-- Only where the text starts. -/
  | atStart (inner : Regex)
  /-- Only if the text ends there. -/
  | atEnd (inner : Regex)

namespace Regex

open Text

variable {p : Char → Bool} {r : Regex} {opens : Bool} {c : Char} {text before after run rest : Text}

/-! ### Matches at one place -/

/-- What is left after one character of a class. -/
def afterOne (p : Char → Bool) : Text → List Text
  | [] => []
  | c :: rest => if p c then [rest] else []

/-- What is left after one or more characters of a class; the longest match comes first. -/
def afterMany (p : Char → Bool) : Text → List Text
  | [] => []
  | c :: rest => if p c then afterMany p rest ++ [rest] else []

/-- What is left after each match at the first place of a text, in the order in which they are tried. The
whole text starts at this place if `opens`. -/
def remainders : Regex → Bool → Text → List Text
  | one p, _, text => afterOne p text
  | many p, _, text => afterMany p text
  -- the first part has taken a character, so the second one is not where the text starts
  | seq first second, opens, text => (first.remainders opens text).flatMap (second.remainders false)
  | atStart inner, opens, text => if opens then inner.remainders opens text else []
  | atEnd inner, opens, text => (inner.remainders opens text).filter (·.isEmpty)

theorem mem_afterOne : after ∈ afterOne p text ↔ ∃ c, p c = true ∧ text = c :: after := by
  cases text with
  | nil => simp [afterOne]
  | cons c rest =>
    rw [afterOne]
    constructor
    · intro h
      split at h
      · rename_i hc
        exact ⟨c, hc, by rw [List.mem_singleton.1 h]⟩
      · exact absurd h List.not_mem_nil
    · rintro ⟨d, hd, htext⟩
      obtain ⟨rfl, rfl⟩ := List.cons.inj htext
      rw [if_pos hd, List.mem_singleton]

theorem mem_afterMany : after ∈ afterMany p text ↔
    ∃ run, run ≠ [] ∧ (∀ c ∈ run, p c = true) ∧ text = run ++ after := by
  induction text with
  | nil => simp [afterMany]
  | cons c rest ih =>
    by_cases hc : p c = true
    · rw [afterMany, if_pos hc, List.mem_append, List.mem_singleton, ih]
      constructor
      · rintro (⟨run, -, hall, rfl⟩ | rfl)
        · exact ⟨c :: run, by simp, List.forall_mem_cons.2 ⟨hc, hall⟩, rfl⟩
        · exact ⟨[c], by simp, by simpa using hc, rfl⟩
      · rintro ⟨_ | ⟨d, run⟩, hne, hall, htext⟩
        · exact absurd rfl hne
        · obtain ⟨rfl, rfl⟩ := List.cons.inj htext
          rcases eq_or_ne run [] with rfl | hrun
          · exact .inr rfl
          · exact .inl ⟨run, hrun, (List.forall_mem_cons.1 hall).2, rfl⟩
    · rw [afterMany, if_neg hc]
      refine iff_of_false List.not_mem_nil ?_
      rintro ⟨_ | ⟨d, run⟩, hne, hall, htext⟩
      · exact hne rfl
      · obtain ⟨rfl, -⟩ := List.cons.inj htext
        exact hc (List.forall_mem_cons.1 hall).1

/-- No match is empty. -/
theorem length_lt_of_mem_remainders (h : after ∈ r.remainders opens text) : after.length < text.length := by
  induction r generalizing opens text after with
  | one p =>
    obtain ⟨c, -, rfl⟩ := mem_afterOne.1 h
    simp
  | many p =>
    obtain ⟨run, hrun, -, rfl⟩ := mem_afterMany.1 h
    simpa [List.length_pos_iff] using hrun
  | seq first second ihfirst ihsecond =>
    obtain ⟨middle, hfirst, hsecond⟩ := List.mem_flatMap.1 h
    exact (ihsecond hsecond).trans (ihfirst hfirst)
  | atStart inner ih =>
    rw [remainders] at h
    split at h
    · exact ih h
    · exact absurd h List.not_mem_nil
  | atEnd inner ih => exact ih (List.mem_filter.1 h).1

/-! ### The leftmost match -/

/-- What stands before and what stands after the match that counts. -/
def find? (r : Regex) (opens : Bool) : Text → Option (Text × Text)
  | [] => none
  | c :: rest =>
    match (r.remainders opens (c :: rest)).head? with
    | some after => some ([], after)
    | none => (r.find? false rest).map fun found => (c :: found.1, found.2)

theorem find?_of_head? (h : (r.remainders opens text).head? = some after) :
    r.find? opens text = some ([], after) := by
  cases text with
  | nil => exact absurd (length_lt_of_mem_remainders (List.mem_of_head? h)) (by simp)
  | cons c rest => simp only [find?, h]

theorem find?_cons (h : r.remainders opens (c :: text) = []) :
    r.find? opens (c :: text) = (r.find? false text).map fun found => (c :: found.1, found.2) := by
  simp only [find?, h, List.head?_nil]

/-- No match starts before `text`, in what stands there. -/
def Misses (r : Regex) (before text : Text) : Prop :=
  ∀ back, back <:+ before → back ≠ [] → ∀ opens, r.remainders opens (back ++ text) = []

theorem Misses.head (h : r.Misses (c :: before) text) (opens : Bool) :
    r.remainders opens (c :: (before ++ text)) = [] :=
  h (c :: before) List.suffix_rfl (List.cons_ne_nil c before) opens

theorem Misses.tail (h : r.Misses (c :: before) text) : r.Misses before text :=
  fun back hback => h back (hback.trans (List.suffix_cons c before))

/-- Places without a match are passed over. -/
theorem find?_append (h : r.Misses before text) (opens : Bool) : r.find? opens (before ++ text) =
    (r.find? (opens && before.isEmpty) text).map fun found => (before ++ found.1, found.2) := by
  induction before generalizing opens with
  | nil => simp
  | cons c front ih =>
    rw [List.cons_append, find?_cons (h.head opens), ih h.tail false, Option.map_map]
    simp [Function.comp_def]

theorem find?_eq_none (h : r.Misses text []) (opens : Bool) : r.find? opens text = none := by
  have hskip := find?_append h opens
  rwa [List.append_nil] at hskip

theorem length_lt_of_find? (h : r.find? opens text = some (before, after)) :
    after.length < text.length := by
  induction text generalizing opens before with
  | nil => cases h
  | cons c rest ih =>
    rw [find?] at h
    split at h
    · rename_i found hfound
      obtain ⟨rfl, rfl⟩ := Prod.mk.inj (Option.some.inj h)
      exact length_lt_of_mem_remainders (List.mem_of_head? hfound)
    · obtain ⟨⟨front, back⟩, hfound, heq⟩ := Option.map_eq_some_iff.1 h
      obtain ⟨-, rfl⟩ := Prod.mk.inj heq
      exact Nat.lt_succ_of_lt (ih hfound)

/-! ### Replacement -/

/-- Puts a text in the place of the match that counts. -/
def replace (r : Regex) (put text : Text) : Text :=
  match r.find? true text with
  | none => text
  | some (before, after) => before ++ put ++ after

/-- Puts a text in the place of each match: the search goes on where the last match ended. -/
def replaceAllFrom (r : Regex) (put : Text) (opens : Bool) (text : Text) : Text :=
  match _ : r.find? opens text with
  | none => text
  | some (before, after) => before ++ put ++ r.replaceAllFrom put false after
termination_by text.length
decreasing_by exact length_lt_of_find? ‹_›

@[inherit_doc replaceAllFrom]
def replaceAll (r : Regex) (put text : Text) : Text :=
  r.replaceAllFrom put true text

theorem replaceAllFrom_of_none (h : r.find? opens text = none) (put : Text) :
    r.replaceAllFrom put opens text = text := by
  rw [replaceAllFrom]
  split
  · rfl
  · rename_i hsome
    rw [h] at hsome
    cases hsome

theorem replaceAllFrom_of_some (h : r.find? opens text = some (before, after)) (put : Text) :
    r.replaceAllFrom put opens text = before ++ put ++ r.replaceAllFrom put false after := by
  rw [replaceAllFrom]
  split
  · rename_i hnone
    rw [h] at hnone
    cases hnone
  · rename_i hsome
    rw [h] at hsome
    obtain ⟨rfl, rfl⟩ := Prod.mk.inj (Option.some.inj hsome)
    rfl

/-- A place without a match stays as it is. -/
theorem replaceAllFrom_cons (h : r.remainders opens (c :: text) = []) (put : Text) :
    r.replaceAllFrom put opens (c :: text) = c :: r.replaceAllFrom put false text := by
  have hcons := find?_cons h
  cases hfound : r.find? false text with
  | none =>
    rw [hfound] at hcons
    rw [replaceAllFrom_of_none hcons, replaceAllFrom_of_none hfound]
  | some found =>
    rw [hfound] at hcons
    rw [replaceAllFrom_of_some hcons, replaceAllFrom_of_some hfound]
    rfl

theorem replaceAllFrom_append (h : r.Misses before text) (put : Text) (opens : Bool) :
    r.replaceAllFrom put opens (before ++ text) =
      before ++ r.replaceAllFrom put (opens && before.isEmpty) text := by
  induction before generalizing opens with
  | nil => simp
  | cons c front ih =>
    rw [List.cons_append, replaceAllFrom_cons (h.head opens), ih h.tail false]
    simp

/-! ### Anchored patterns -/

theorem find?_atStart_false (inner : Regex) (text : Text) : (atStart inner).find? false text = none := by
  induction text with
  | nil => rfl
  | cons c rest ih => rw [find?_cons rfl, ih, Option.map_none]

/-- Only the first place counts. -/
theorem find?_atStart (inner : Regex) (text : Text) : (atStart inner).find? true text =
    (inner.remainders true text).head?.map fun after => ([], after) := by
  have hplace : (atStart inner).remainders true text = inner.remainders true text := rfl
  cases hfirst : (inner.remainders true text).head? with
  | some after => exact find?_of_head? (by rw [hplace, hfirst])
  | none =>
    rw [List.head?_eq_none_iff] at hfirst
    cases text with
    | nil => rfl
    | cons c rest => rw [find?_cons (by rw [hplace, hfirst]), find?_atStart_false]; rfl

/-! ### A run and a newline -/

/-- A newline. -/
def newline : Regex :=
  one (· = '\n')

/-- One or more characters of a class and a newline after them. -/
def runNewline (p : Char → Bool) : Regex :=
  seq (many p) newline

theorem mem_remainders_runNewline : after ∈ (runNewline p).remainders opens text ↔
    ∃ run, run ≠ [] ∧ (∀ c ∈ run, p c = true) ∧ text = run ++ '\n' :: after := by
  rw [runNewline, remainders, List.mem_flatMap]
  constructor
  · rintro ⟨middle, hrun, hnewline⟩
    obtain ⟨run, hne, hall, rfl⟩ := mem_afterMany.1 hrun
    obtain ⟨c, hc, rfl⟩ := mem_afterOne.1 hnewline
    rw [decide_eq_true_eq] at hc
    exact ⟨run, hne, hall, by rw [hc]⟩
  · rintro ⟨run, hne, hall, rfl⟩
    exact ⟨'\n' :: after, mem_afterMany.2 ⟨run, hne, hall, rfl⟩, mem_afterOne.2 ⟨'\n', by simp, rfl⟩⟩

theorem remainders_runNewline_eq_nil
    (h : ∀ run after, run ≠ [] → (∀ c ∈ run, p c = true) → text ≠ run ++ '\n' :: after) :
    (runNewline p).remainders opens text = [] := by
  rw [List.eq_nil_iff_forall_not_mem]
  intro after hafter
  obtain ⟨run, hne, hall, htext⟩ := mem_remainders_runNewline.1 hafter
  exact h run after hne hall htext

/-- The longest run is taken: its newline is the last one that a run can reach. -/
theorem head?_remainders_runNewline (hne : run ≠ []) (hall : ∀ c ∈ run, p c = true)
    (hlast : (runNewline p).remainders opens ('\n' :: after) = []) :
    ((runNewline p).remainders opens (run ++ '\n' :: after)).head? = some after := by
  induction run with
  | nil => exact absurd rfl hne
  | cons c run ih =>
    obtain ⟨hc, hall⟩ := List.forall_mem_cons.1 hall
    -- the matches with more characters come before the one with `c` alone
    have hcons : (runNewline p).remainders opens (c :: (run ++ '\n' :: after)) =
        (runNewline p).remainders opens (run ++ '\n' :: after) ++
          newline.remainders false (run ++ '\n' :: after) := by
      rw [runNewline, remainders, remainders, afterMany, if_pos hc, List.flatMap_append,
        List.flatMap_singleton]
      rfl
    rw [List.cons_append, hcons, List.head?_append]
    rcases eq_or_ne run [] with rfl | hrun
    · rw [List.nil_append, hlast]
      rfl
    · rw [ih hrun hall, Option.some_or]

end Regex

open Regex

namespace Text

variable {text blank code kept spaces : Text}

/-! ### The three patterns -/

/-- The white space before the text, up to a newline. -/
def blankStart : Regex :=
  .atStart (runNewline isBlankChar)

/-- The white space after the text, from a newline on. -/
def blankEnd : Regex :=
  .atEnd (.seq newline (.many isBlankChar))

/-- Spaces and tabs before a newline. -/
def spacedNewline : Regex :=
  runNewline isSpaceOrTab

/-! ### Before the code -/

theorem dropLeadingBlank_eq_replace (text : Text) :
    dropLeadingBlank text = blankStart.replace [] text := by
  rw [Regex.replace, blankStart, find?_atStart]
  rcases leading_cases text with hnone | ⟨blank, rest, rfl, hne, hblank, hrest⟩
  · rw [dropLeadingBlank_of_not_mem hnone, remainders_runNewline_eq_nil]
    · rfl
    · rintro run after hne hall rfl
      exact hnone (newline_mem_drop_takeWhile hne (List.all_eq_true.2 hall) after)
  · have hlast : (runNewline isBlankChar).remainders true ('\n' :: rest) = [] := by
      refine remainders_runNewline_eq_nil ?_
      rintro (_ | ⟨c, run⟩) after hne hall htext
      · exact hne rfl
      · obtain ⟨-, rfl⟩ := List.cons.inj htext
        exact hrest (newline_mem_takeWhile (List.all_eq_true.2 (List.forall_mem_cons.1 hall).2) after)
    rw [dropLeadingBlank_append hne hblank hrest,
      head?_remainders_runNewline hne (List.all_eq_true.1 hblank) hlast]
    rfl

/-! ### After the code -/

/-- A match of `blankEnd` is a newline and the white space, at least one character, that ends the text. -/
theorem mem_remainders_blankEnd {opens : Bool} {after : Text} : after ∈ blankEnd.remainders opens text ↔
    after = [] ∧ ∃ blank, text = '\n' :: blank ∧ blank ≠ [] ∧ isBlank blank = true := by
  rw [blankEnd, remainders, List.mem_filter, remainders, List.mem_flatMap, List.isEmpty_iff]
  constructor
  · rintro ⟨⟨middle, hnewline, hblank⟩, rfl⟩
    obtain ⟨c, hc, rfl⟩ := mem_afterOne.1 hnewline
    obtain ⟨run, hne, hall, rfl⟩ := mem_afterMany.1 hblank
    rw [decide_eq_true_eq] at hc
    exact ⟨rfl, run, by rw [hc, List.append_nil], hne, List.all_eq_true.2 hall⟩
  · rintro ⟨rfl, blank, rfl, hne, hblank⟩
    refine ⟨⟨blank, mem_afterOne.2 ⟨'\n', by simp, rfl⟩, ?_⟩, rfl⟩
    exact mem_afterMany.2 ⟨blank, hne, List.all_eq_true.1 hblank, (List.append_nil blank).symm⟩

/-- Some code follows each newline in the text before the match. -/
theorem misses_blankEnd (hcode : '\n' ∉ code.rtakeWhile isBlankChar) (rest : Text) :
    blankEnd.Misses code rest := by
  rintro back ⟨front, rfl⟩ hne opens
  rw [List.eq_nil_iff_forall_not_mem]
  intro after hafter
  obtain ⟨-, blank, hsplit, -, hblank⟩ := mem_remainders_blankEnd.1 hafter
  obtain ⟨c, more, rfl⟩ := List.exists_cons_of_ne_nil hne
  obtain ⟨rfl, rfl⟩ := List.cons.inj hsplit
  have hmore : isBlank more = true := by
    rw [isBlank, List.all_eq_true] at hblank ⊢
    exact fun d hd => hblank d (List.mem_append_left _ hd)
  exact hcode (newline_mem_rtakeWhile_append hmore front)

/-- The match ends the text. -/
theorem head?_remainders_blankEnd {opens : Bool} (hne : blank ≠ []) (hblank : isBlank blank = true) :
    (blankEnd.remainders opens ('\n' :: blank)).head? = some [] := by
  have hmem : [] ∈ blankEnd.remainders opens ('\n' :: blank) :=
    mem_remainders_blankEnd.2 ⟨rfl, blank, rfl, hne, hblank⟩
  obtain ⟨first, others, hcons⟩ := List.exists_cons_of_ne_nil (List.ne_nil_of_mem hmem)
  have hfirst : first ∈ blankEnd.remainders opens ('\n' :: blank) := by
    rw [hcons]
    exact List.mem_cons_self
  rw [hcons, List.head?_cons, (mem_remainders_blankEnd.1 hfirst).1]

theorem dropTrailingBlank_eq_replace (text : Text) :
    dropTrailingBlank text = blankEnd.replace ['\n'] text := by
  rw [Regex.replace]
  rcases trailing_cases text with hnone | ⟨code, blank, rfl, hcode, hblank⟩
  · rw [dropTrailingBlank_of_not_mem hnone, find?_eq_none (misses_blankEnd hnone [])]
  · rw [dropTrailingBlank_append hcode hblank, find?_append (misses_blankEnd hcode ('\n' :: blank))]
    rcases eq_or_ne blank [] with rfl | hne
    · -- a single newline is no match
      rfl
    · rw [find?_of_head? (head?_remainders_blankEnd hne hblank)]
      simp

/-! ### Within the lines -/

/-- The part of a line that is kept does not end in a space or tab. -/
theorem misses_spacedNewline (hline : '\n' ∉ kept ++ spaces)
    (hlast : ∀ hne : kept ≠ [], isSpaceOrTab (kept.getLast hne) = false) (rest : Text) :
    spacedNewline.Misses kept (spaces ++ '\n' :: rest) := by
  rintro back ⟨front, rfl⟩ hne opens
  refine remainders_runNewline_eq_nil ?_
  intro run after _ hall htext
  have hback : '\n' ∉ back ++ spaces := by
    rw [List.append_assoc, List.mem_append, not_or] at hline
    exact hline.2
  have hrun : '\n' ∉ run := fun hmem => absurd (hall _ hmem) (by decide)
  rw [← List.append_assoc] at htext
  -- the run would reach from `back` to the newline
  obtain rfl := line_unique hback hrun htext
  have hspace := hall _ (List.mem_append_left spaces (List.getLast_mem hne))
  have hkept := hlast (List.append_ne_nil_of_right_ne_nil front hne)
  rw [List.getLast_append_of_ne_nil _ hne, hspace] at hkept
  cases hkept

theorem dropTrailingSpaces_eq_replaceAllFrom (text : Text) (opens : Bool) :
    dropTrailingSpaces text = spacedNewline.replaceAllFrom ['\n'] opens text := by
  induction text using line_induction generalizing opens with
  | last line hline =>
    have hmisses : spacedNewline.Misses line [] := by
      intro back hback _ opens
      refine remainders_runNewline_eq_nil ?_
      rintro run after - - htext
      rw [List.append_nil] at htext
      exact hline (hback.subset (by simp [htext]))
    rw [dropTrailingSpaces_of_not_mem hline, replaceAllFrom_of_none (find?_eq_none hmisses opens)]
  | line line rest hline ih =>
    rw [dropTrailingSpaces_line hline]
    have hsplit := List.rdropWhile_append_rtakeWhile (p := isSpaceOrTab) (l := line)
    have hspaces : ∀ c ∈ line.rtakeWhile isSpaceOrTab, isSpaceOrTab c = true :=
      fun c hc => List.mem_rtakeWhile_imp hc
    have hlast := List.rdropWhile_last_not isSpaceOrTab line
    generalize line.rdropWhile isSpaceOrTab = kept at *
    generalize line.rtakeWhile isSpaceOrTab = spaces at *
    subst hsplit
    have hmisses := misses_spacedNewline hline (fun hne => by simpa using hlast hne) rest
    rw [List.append_assoc, replaceAllFrom_append hmisses]
    generalize (opens && kept.isEmpty) = opens
    have hnewline : spacedNewline.remainders opens ('\n' :: rest) = [] := rfl
    rcases eq_or_ne spaces [] with rfl | hne
    · rw [List.nil_append, replaceAllFrom_cons hnewline, ← ih]
    · have hfirst : (spacedNewline.remainders opens (spaces ++ '\n' :: rest)).head? = some rest :=
        head?_remainders_runNewline hne hspaces hnewline
      rw [replaceAllFrom_of_some (find?_of_head? hfirst), ← ih]
      rfl

/-- Tidying is three replacements in a row. -/
theorem tidy_eq_replacements (text : Text) : tidy text =
    spacedNewline.replaceAll ['\n'] (blankEnd.replace ['\n'] (blankStart.replace [] text)) := by
  rw [tidy, dropTrailingSpaces_eq_replaceAllFrom _ true, dropTrailingBlank_eq_replace,
    dropLeadingBlank_eq_replace, replaceAll]

/-- The blank lines before and after the code go. One between other lines stays, and so does white space that is
neither a space nor a tab. -/
example : tidy " \t\n  a \n\u00a0 \n\t\nb\u3000\n \n\u2028".toList = "  a\n\u00a0\n\nb\u3000\n".toList := by
  decide

end Text
end BlockProgram
