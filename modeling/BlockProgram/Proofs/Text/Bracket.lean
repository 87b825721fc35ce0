import BlockProgram.Generator.Fragment
import BlockProgram.Text.Quoted
import Mathlib

/-!
Brackets in program text. A reader goes through a text from left to right; it knows whether it is inside a
string literal and which closing brackets it still waits for. A text is nested if the reader comes to its
end in code and waits for nothing.

                      "                    \
        code ────────────────▶ literal ────────▶ escape
         ▲                      │    ▲              │
         └──────────────────────┘    └──────────────┘
                      "                any character

Nested texts are not closed under the operations of the generator: the quotes around a callee are taken
off, which turns all that is inside of literals out and the other way round. Sound texts are: they leave
every reading as it was, in code and in a literal, and their backslashes stand only before letters.
-/

namespace BlockProgram
namespace Text

/-! ### Reading -/

/-- Where a reader is. -/
inductive Mode where
  | code
  | literal
  | escape
  deriving DecidableEq, Repr

/-- Where a reader is, and the closing brackets it waits for, the innermost first. -/
structure Reading where
  mode : Mode := .code
  awaited : List Char := []
  deriving DecidableEq, Repr

/-- The bracket that closes an opening one. -/
def closing? : Char → Option Char
  | '(' => some ')'
  | '[' => some ']'
  | '{' => some '}'
  | _ => none

def isClosing (c : Char) : Bool :=
  c = ')' || c = ']' || c = '}'

/-- One character of code. -/
def Reading.stepCode (awaited : List Char) (c : Char) : Option Reading :=
  if c = '"' then some ⟨.literal, awaited⟩
  else
    match closing? c with
    | some d => some ⟨.code, d :: awaited⟩
    | none =>
      if isClosing c then
        match awaited with
        | d :: rest => if c = d then some ⟨.code, rest⟩ else none
        | [] => none
      else some ⟨.code, awaited⟩

/-- One character. A closing bracket that is not waited for is not read. -/
def Reading.step (r : Reading) (c : Char) : Option Reading :=
  match r.mode with
  | .code => stepCode r.awaited c
  | .literal =>
    if c = '"' then some { r with mode := .code }
    else if c = '\\' then some { r with mode := .escape }
    else some r
  | .escape => some { r with mode := .literal }

/-- The reading after a text. -/
def read (r : Reading) (text : Text) : Option Reading :=
  text.foldlM Reading.step r

/-- The brackets of a text outside its literals are properly nested, and its literals are closed. -/
def Nested (text : Text) : Prop :=
  read {} text = some {}

instance (text : Text) : Decidable (Nested text) :=
  inferInstanceAs (Decidable (read {} text = some {}))

variable {r s : Reading} {c : Char} {text more : Text}

@[simp]
theorem read_nil (r : Reading) : read r [] = some r := rfl

@[simp]
theorem read_cons (r : Reading) (c : Char) (text : Text) :
    read r (c :: text) = (r.step c).bind fun s => read s text := rfl

@[simp]
theorem read_append (r : Reading) (text more : Text) :
    read r (text ++ more) = (read r text).bind fun s => read s more :=
  List.foldlM_append

/-- Brackets that are waited for around a reading do not matter to it. -/
theorem Reading.step_frame (h : r.step c = some s) (around : List Char) :
    Reading.step ⟨r.mode, r.awaited ++ around⟩ c = some ⟨s.mode, s.awaited ++ around⟩ := by
  obtain ⟨mode, awaited⟩ := r
  cases mode with
  | code =>
    simp only [step, stepCode] at h ⊢
    split at h
    · rename_i hquote
      cases h
      rw [if_pos hquote]
    rename_i hquote
    rw [if_neg hquote]
    split at h
    · cases h
      rfl
    split at h
    · rename_i hclosing
      rw [if_pos hclosing]
      split at h
      · split at h
        · rename_i heq
          cases h
          rw [List.cons_append]
          exact if_pos heq
        · cases h
      · cases h
    · rename_i hclosing
      cases h
      rw [if_neg hclosing]
  | literal =>
    simp only [step] at h ⊢
    split at h
    · rename_i hquote
      cases h
      rw [if_pos hquote]
    rename_i hquote
    rw [if_neg hquote]
    split at h <;> rename_i hescape <;> cases h
    · rw [if_pos hescape]
    · rw [if_neg hescape]
  | escape =>
    cases h
    rfl

theorem read_frame (h : read r text = some s) (around : List Char) :
    read ⟨r.mode, r.awaited ++ around⟩ text = some ⟨s.mode, s.awaited ++ around⟩ := by
  induction text generalizing r with
  | nil =>
    cases h
    rfl
  | cons c rest ih =>
    obtain ⟨mid, hstep, hrest⟩ := Option.bind_eq_some_iff.1 h
    rw [read_cons, Reading.step_frame hstep around, Option.bind_some, ih hrest]

/-! ### Delimiters -/

/-- The characters that tell a reader something: brackets and quotes. -/
def isDelimiter (c : Char) : Bool :=
  c ∈ ['"', '(', ')', '[', ']', '{', '}']

/-- The delimiters of a text, without what is between them. -/
def delimiters (text : Text) : Text :=
  text.filter isDelimiter

@[simp]
theorem delimiters_nil : delimiters [] = [] := rfl

@[simp]
theorem delimiters_append (text more : Text) : delimiters (text ++ more) = delimiters text ++ delimiters more :=
  List.filter_append ..

theorem delimiters_cons_of_delimiter (h : isDelimiter c = true) (text : Text) : delimiters (c :: text) = c :: delimiters text :=
  List.filter_cons_of_pos h

theorem delimiters_cons_of_not_delimiter (h : isDelimiter c = false) (text : Text) : delimiters (c :: text) = delimiters text :=
  List.filter_cons_of_neg (by simp [h])

/-- The reader is not inside an escape. -/
def Reading.Steady (r : Reading) : Prop :=
  r.mode ≠ .escape

theorem steady_start : Reading.Steady {} :=
  Mode.noConfusion

theorem step_of_not_delimiter (hr : r.Steady) (hdelimiter : isDelimiter c = false) (hescape : c ≠ '\\') :
    r.step c = some r := by
  obtain ⟨mode, awaited⟩ := r
  simp only [isDelimiter, List.mem_cons, List.not_mem_nil, or_false, not_or,
    decide_eq_false_iff_not] at hdelimiter
  cases mode with
  | code => simp [Reading.step, Reading.stepCode, closing?, isClosing, hdelimiter]
  | literal => simp [Reading.step, hdelimiter, hescape]
  | escape => exact absurd rfl hr

theorem ne_backslash_of_delimiter (h : isDelimiter c = true) : c ≠ '\\' := by
  rintro rfl
  revert h
  decide

/-- No delimiter starts an escape. -/
theorem Reading.Steady.step (hr : r.Steady) (hdelimiter : isDelimiter c = true) (h : r.step c = some s) :
    s.Steady := by
  obtain ⟨mode, awaited⟩ := r
  have hescape := ne_backslash_of_delimiter hdelimiter
  cases mode with
  | code =>
    simp only [Reading.step, Reading.stepCode] at h
    grind [Reading.Steady]
  | literal =>
    simp only [Reading.step, if_neg hescape] at h
    split at h <;> cases h <;> exact Mode.noConfusion
  | escape => exact absurd rfl hr

theorem Reading.Steady.read_delimiters (hr : r.Steady) (h : read r (delimiters text) = some s) : s.Steady := by
  induction text generalizing r with
  | nil =>
    cases h
    exact hr
  | cons c rest ih =>
    cases hdelimiter : isDelimiter c with
    | false =>
      rw [delimiters_cons_of_not_delimiter hdelimiter] at h
      exact ih hr h
    | true =>
      rw [delimiters_cons_of_delimiter hdelimiter] at h
      obtain ⟨mid, hstep, hrest⟩ := Option.bind_eq_some_iff.1 h
      exact ih (hr.step hdelimiter hstep) hrest

/-! ### Escapes -/

/-- The letters of the escapes that stand for white space. -/
def isEscapeLetter (c : Char) : Bool :=
  c = 'n' || c = 'r' || c = 't'

/-- Every backslash of a text stands before the letter of an escape. -/
inductive Escapes : Text → Prop where
  | nil : Escapes []
  | plain {c : Char} {text : Text} (hc : c ≠ '\\') (h : Escapes text) : Escapes (c :: text)
  | escape {c : Char} {text : Text} (hc : isEscapeLetter c = true) (h : Escapes text) : Escapes ('\\' :: c :: text)

theorem not_delimiter_of_letter (h : isEscapeLetter c = true) : isDelimiter c = false := by
  simp only [isEscapeLetter, Bool.or_eq_true, decide_eq_true_eq] at h
  rcases h with (rfl | rfl) | rfl <;> decide

theorem ne_backslash_of_letter (h : isEscapeLetter c = true) : c ≠ '\\' := by
  rintro rfl
  revert h
  decide

theorem escapes_of_not_mem (h : '\\' ∉ text) : Escapes text := by
  induction text with
  | nil => exact .nil
  | cons c rest ih =>
    rw [List.mem_cons, not_or] at h
    exact .plain (Ne.symm h.1) (ih h.2)

theorem Escapes.append (h : Escapes text) (h' : Escapes more) : Escapes (text ++ more) := by
  induction h with
  | nil => exact h'
  | plain hc _ ih => exact .plain hc ih
  | escape hc _ ih => exact .escape hc ih

theorem escapes_cons_iff (h : c ≠ '\\') : Escapes (c :: text) ↔ Escapes text := by
  refine ⟨fun hescapes => ?_, .plain h⟩
  cases hescapes with
  | plain _ hescapes => exact hescapes
  | escape => exact absurd rfl h

/-- What is cut off before anything but a letter cuts no escape in two. -/
theorem Escapes.of_append (h : Escapes (text ++ more))
    (hmore : ∀ c ∈ more.head?, isEscapeLetter c = false) : Escapes text := by
  generalize heq : text ++ more = whole at h
  induction h generalizing text with
  | nil =>
    rw [(List.append_eq_nil_iff.1 heq).1]
    exact .nil
  | plain hc _ ih =>
    cases text with
    | nil => exact .nil
    | cons d rest =>
      cases heq
      exact .plain hc (ih rfl)
  | @escape c tail hc _ ih =>
    match text with
    | [] => exact .nil
    | [d] =>
      obtain ⟨rfl, rfl⟩ : d = '\\' ∧ more = c :: tail := by simpa using heq
      rw [hmore c rfl] at hc
      cases hc
    | d :: e :: rest =>
      cases heq
      exact .escape hc (ih rfl)

/-- A reader of a text with such escapes stops at the delimiters alone. -/
theorem Escapes.read_eq (h : Escapes text) (hr : r.Steady) : read r text = read r (delimiters text) := by
  induction h generalizing r with
  | nil => rfl
  | @plain c rest hc _ ih =>
    cases hdelimiter : isDelimiter c with
    | false =>
      rw [delimiters_cons_of_not_delimiter hdelimiter, read_cons, step_of_not_delimiter hr hdelimiter hc, Option.bind_some, ih hr]
    | true =>
      rw [delimiters_cons_of_delimiter hdelimiter, read_cons, read_cons]
      cases hstep : r.step c with
      | none => rfl
      | some s => exact ih (hr.step hdelimiter hstep)
  | @escape c rest hc _ ih =>
    rw [delimiters_cons_of_not_delimiter (by decide), delimiters_cons_of_not_delimiter (not_delimiter_of_letter hc), ← ih hr]
    obtain ⟨mode, awaited⟩ := r
    cases mode with
    | code =>
      have hbackslash : Reading.step ⟨.code, awaited⟩ '\\' = some ⟨.code, awaited⟩ := rfl
      have hletter := step_of_not_delimiter hr (not_delimiter_of_letter hc) (ne_backslash_of_letter hc)
      simp [hbackslash, hletter]
    | literal => rfl
    | escape => exact absurd rfl hr

/-! ### Sound texts -/

/-- Every reading goes through the delimiters of the text and comes out as it was. -/
def Balanced (text : Text) : Prop :=
  ∀ r : Reading, r.Steady → read r (delimiters text) = some r

/-- Two readings stand for all of them. -/
theorem balanced_iff : Balanced text ↔ read {} (delimiters text) = some {} ∧
    read ⟨.literal, []⟩ (delimiters text) = some ⟨.literal, []⟩ := by
  constructor
  · exact fun h => ⟨h _ Mode.noConfusion, h _ Mode.noConfusion⟩
  · rintro ⟨hcode, hliteral⟩ ⟨mode, awaited⟩ hr
    cases mode with
    | code => exact read_frame hcode awaited
    | literal => exact read_frame hliteral awaited
    | escape => exact absurd rfl hr

instance (text : Text) : Decidable (Balanced text) :=
  decidable_of_iff _ balanced_iff.symm

theorem Balanced.append (h : Balanced text) (h' : Balanced more) : Balanced (text ++ more) := by
  intro r hr
  rw [delimiters_append, read_append, h r hr, Option.bind_some, h' r hr]

/-- A text that may stand anywhere in a program. -/
structure Sound (text : Text) : Prop where
  escapes : Escapes text
  balanced : Balanced text

theorem Sound.read_eq (h : Sound text) (hr : r.Steady) : read r text = some r := by
  rw [h.escapes.read_eq hr, h.balanced r hr]

theorem Sound.nested (h : Sound text) : Nested text :=
  h.read_eq steady_start

theorem Sound.append (h : Sound text) (h' : Sound more) : Sound (text ++ more) :=
  ⟨h.escapes.append h'.escapes, h.balanced.append h'.balanced⟩

/-- What comes before a sound text is nested if both together are. -/
theorem nested_of_append (htext : Escapes text) (hmore : Sound more) (h : Nested (text ++ more)) :
    Nested text := by
  rw [Nested, read_append, htext.read_eq steady_start] at h
  obtain ⟨s, hs, h⟩ := Option.bind_eq_some_iff.1 h
  have hsteady : s.Steady := steady_start.read_delimiters hs
  rw [hmore.read_eq hsteady] at h
  rw [Nested, htext.read_eq steady_start, hs, h]

/-! ### Bare texts -/

/-- A character that is no bracket, no quote and no backslash. -/
def isBareChar (c : Char) : Bool :=
  !isDelimiter c && c ≠ '\\'

/-- A text without brackets, quotes and backslashes. -/
def Bare (text : Text) : Prop :=
  ∀ c ∈ text, isBareChar c = true

instance (text : Text) : Decidable (Bare text) :=
  List.decidableBAll _ text

theorem isBareChar_iff : isBareChar c = true ↔ isDelimiter c = false ∧ c ≠ '\\' := by
  simp [isBareChar]

theorem delimiters_of_bare (h : Bare text) : delimiters text = [] := by
  rw [delimiters, List.filter_eq_nil_iff]
  intro c hc
  simp [(isBareChar_iff.1 (h c hc)).1]

theorem escapes_of_bare (h : Bare text) : Escapes text :=
  escapes_of_not_mem fun hmem => (isBareChar_iff.1 (h _ hmem)).2 rfl

theorem sound_of_bare (h : Bare text) : Sound text := by
  refine ⟨escapes_of_bare h, fun r _ => ?_⟩
  rw [delimiters_of_bare h, read_nil]

theorem sound_nil : Sound [] :=
  sound_of_bare fun c hc => by cases hc

end Text
end BlockProgram
