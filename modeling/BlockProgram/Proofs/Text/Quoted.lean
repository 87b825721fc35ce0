import BlockProgram.Text.Quoted
import Mathlib

/-!
Reading quoted literals. A scanner takes the characters of a literal up to its closing quote and
resolves the escapes; it gives back what was quoted, and the text after the literal untouched.
-/

namespace BlockProgram
namespace Text

/-! ### Escapes -/

/-- The characters that do not stand for themselves inside a literal. -/
def escapedChars : List Char :=
  ['"', '\\', '\n', '\r', '\t']

/-- A character stands for itself, or a backslash and a letter stand for it. -/
theorem escape_cases (c : Char) :
    c ∉ escapedChars ∧ escape c = [c] ∨
      c ∈ escapedChars ∧ ∃ letter ∈ ['"', '\\', 'n', 'r', 't'], escape c = ['\\', letter] := by
  unfold escape
  split
  case h_6 c hquote hback hline hreturn htab =>
    exact .inl ⟨by simpa [escapedChars] using ⟨hquote, hback, hline, hreturn, htab⟩, rfl⟩
  all_goals exact .inr ⟨by decide, _, by decide, rfl⟩

/-- Nothing in a literal breaks its line or its column. -/
theorem quote_unbroken (text : Text) : ∀ c ∈ quote text, c ≠ '\n' ∧ c ≠ '\r' ∧ c ≠ '\t' := by
  intro c hc
  rw [quote, List.mem_cons, List.mem_append, List.mem_singleton, List.mem_flatMap] at hc
  rcases hc with rfl | ⟨d, -, hc⟩ | rfl
  · decide
  · rcases escape_cases d with ⟨hd, heq⟩ | ⟨-, letter, hletter, heq⟩
    · rw [heq, List.mem_singleton] at hc
      rw [hc]
      simp only [escapedChars, List.mem_cons, not_or] at hd
      exact ⟨hd.2.2.1, hd.2.2.2.1, hd.2.2.2.2.1⟩
    · rw [heq, List.mem_pair] at hc
      rcases hc with rfl | rfl
      · decide
      · fin_cases hletter <;> decide
  · decide

/-! ### Reading -/

/-- The character that stands behind a backslash inside a literal. -/
def unescape? : Char → Option Char
  | '"' => some '"'
  | '\\' => some '\\'
  | 'n' => some '\n'
  | 'r' => some '\r'
  | 't' => some '\t'
  | _ => none

/-- The rest of a literal whose opening quote has been read, and the text after its closing one. -/
def closeQuote? : Text → Option (Text × Text)
  | [] => none
  | '"' :: rest => some ([], rest)
  | '\\' :: c :: rest => do
    let d ← unescape? c
    let (literal, more) ← closeQuote? rest
    return (d :: literal, more)
  | c :: rest => do
    let (literal, more) ← closeQuote? rest
    return (c :: literal, more)

/-- One escaped character is read as the character it stands for. -/
theorem closeQuote?_escape (c : Char) (rest : Text) :
    closeQuote? (escape c ++ rest) =
      (closeQuote? rest).map fun found => (c :: found.1, found.2) := by
  unfold escape
  split
  case h_6 c hquote hback _ _ _ =>
    rw [List.singleton_append, closeQuote?.eq_4 _ _ hquote fun d more h _ => hback h]
    cases closeQuote? rest <;> rfl
  all_goals
    simp only [List.cons_append, List.nil_append, closeQuote?, unescape?]
    cases closeQuote? rest <;> rfl

/-- Reading the inside of a quoted text gives the text back, and all that follows the literal. -/
theorem closeQuote?_quoted (text rest : Text) :
    closeQuote? (text.flatMap escape ++ '"' :: rest) = some (text, rest) := by
  induction text with
  | nil => rfl
  | cons c text ih =>
    rw [List.flatMap_cons, List.append_assoc, closeQuote?_escape, ih]
    rfl

/-- A literal at the start of a text, and the text after it. -/
def readQuoted? : Text → Option (Text × Text)
  | '"' :: rest => closeQuote? rest
  | _ => none

/-- A quoted text is read as what was quoted, whatever follows it. -/
theorem readQuoted?_quote (text rest : Text) : readQuoted? (quote text ++ rest) = some (text, rest) := by
  rw [quote, List.cons_append, List.append_assoc, List.singleton_append, readQuoted?, closeQuote?_quoted]

/-- What follows a literal is shorter than what follows its opening quote. -/
theorem length_closeQuote?_lt {text literal more : Text}
    (h : closeQuote? text = some (literal, more)) : more.length < text.length := by
  induction text using closeQuote?.induct generalizing literal with
  | case1 => simp [closeQuote?] at h
  | case2 rest =>
    simp only [closeQuote?, Option.some.injEq, Prod.mk.injEq] at h
    rw [← h.2, List.length_cons]
    exact Nat.lt_succ_self _
  | case3 c rest ih =>
    simp only [closeQuote?, Option.bind_eq_bind, Option.bind_eq_some_iff] at h
    rcases h with ⟨d, -, ⟨inner, after⟩, hrest, heq⟩
    cases heq
    have hless : after.length < rest.length := ih hrest
    simp only [List.length_cons]
    omega
  | case4 c rest hquote hback ih =>
    rw [closeQuote?.eq_4 _ _ hquote hback] at h
    simp only [Option.bind_eq_bind, Option.bind_eq_some_iff] at h
    rcases h with ⟨⟨inner, after⟩, hrest, heq⟩
    cases heq
    have hless : after.length < rest.length := ih hrest
    simp only [List.length_cons]
    omega

end Text
end BlockProgram
