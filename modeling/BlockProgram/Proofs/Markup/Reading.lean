import BlockProgram.Markup.Printer
import BlockProgram.Markup.Reader
import Mathlib

/-!
How the pieces of written markup are read: names, and values between double quotes.

The scanner holds back a slash and up to two closing brackets, since they could begin the end of a tag or
of character data. In a value they are text after all, so a value is followed as what the document has of
it together with what the scanner holds back:

```text
value so far  =  text of the document  ++  "", "/", "]" or "]]"
```

The written form of a character either adds that character to the value, or it is a reference that
stands for it. So after the written form of a text, the value is that text.
-/

namespace BlockProgram
namespace Markup

/-! ### Reading a piece of text -/

namespace Document

/-- Tokens take a document to another, and no text is to be read in between. -/
def Takes (d : Document) (tokens : List Token) (after : Document) : Prop :=
  tokens.foldlM Reader.stepToken (d, []) = some (after, [])

variable {d d' after : Document} {t : Token} {tokens more : List Token}

theorem Takes.nil : d.Takes [] d :=
  rfl

theorem Takes.cons (hstep : d.step t = some (d', [])) (hrest : d'.Takes tokens after) :
    d.Takes (t :: tokens) after := by
  have hfirst : Reader.stepToken (d, []) t = some (d', []) := by
    simp only [Reader.stepToken, hstep, Option.map_some, List.append_nil]
  rw [Takes, List.foldlM_cons, hfirst]
  exact hrest

theorem Takes.single (hstep : d.step t = some (d', [])) : d.Takes [t] d' :=
  .cons hstep .nil

theorem Takes.append (hfirst : d.Takes tokens d') (hrest : d'.Takes more after) :
    d.Takes (tokens ++ more) after := by
  rw [Takes, List.foldlM_append, hfirst]
  exact hrest

/-- A document without a declaration and a document type, past its start. -/
def body (mode : Mode) (nesting : Nesting) : Document :=
  { mode, stage := .body, nesting }

end Document

namespace Reader

/-- A piece of text takes a reader to another, whatever follows the piece. -/
def Reads (reader : Reader) (text : Text) (after : Reader) : Prop :=
  ∀ rest, reader.run (text ++ rest) [] 0 = after.run rest [] 0

variable {reader reader' after : Reader} {text more : Text}

theorem Reads.nil : reader.Reads [] reader :=
  fun _ => rfl

theorem Reads.append (hfirst : reader.Reads text reader') (hrest : reader'.Reads more after) :
    reader.Reads (text ++ more) after := by
  intro rest
  rw [List.append_assoc, hfirst, hrest]

theorem Reads.cons {c : Char} (hfirst : reader.Reads [c] reader') (hrest : reader'.Reads text after) :
    reader.Reads (c :: text) after :=
  hfirst.append hrest

/-- One character, of the tokens that end with it. -/
theorem Reads.char {scanner scanner' : Scanner} {d d' : Document} {tokens : List Token} {c : Char}
    (hencoding : d.encoding = .utf8) (hscan : scanner.step c = some (scanner', tokens))
    (htakes : d.Takes tokens d') : Reads ⟨scanner, d⟩ [c] ⟨scanner', d'⟩ := by
  have hstep : Reader.step ⟨scanner, d⟩ c = some (⟨scanner', d'⟩, []) := by
    rw [Document.Takes] at htakes
    simp only [Reader.step, hscan, htakes, Option.bind_eq_bind, Option.bind_some, Option.pure_def]
  intro rest
  have hrespell : d.encoding.respell? c = some [c] := by
    rw [hencoding]
    rfl
  rw [List.singleton_append, run]
  dsimp only
  rw [hrespell]
  dsimp only
  rw [run, hstep]

/-- The end of the input. -/
theorem Reads.run_eq (h : reader.Reads text after) : reader.run text [] 0 = some after := by
  have hrun := h []
  rw [List.append_nil] at hrun
  rw [hrun, run]

end Reader

open Reader (Reads)

/-! ### Characters alone -/

namespace Scanner

/-- The characters that set off tags, values and references. -/
def signs : List Char :=
  ['<', '>', '/', ']', '=', '"', '\'', '&', ';']

theorem step_of_not_sign {c : Char} (hc : c ∉ signs) : step {} c = some ({}, [.char c]) := by
  simp only [signs, List.mem_cons, List.not_mem_nil, or_false, not_or] at hc
  simp only [step, stepText, Token.ofSingle, Token.ofQuoted, hc, if_false, or_self]

theorem not_sign_of_isNameChar {c : Char} (hc : isNameChar c = true) : c ∉ signs := by
  have hsigns : signs.all (fun sign => !isNameChar sign) = true := by decide
  intro hsign
  have hnot := List.all_eq_true.1 hsigns c hsign
  rw [hc] at hnot
  cases hnot

/-! ### What the scanner holds back -/

/-- The characters that a scanner outside document types holds back in a mode. -/
inductive Holds : Mode → Text → Prop
  | text : Holds .text []
  | slash : Holds .slash ['/']
  | brackets {count : Nat} (hcount : count < 2) :
    Holds (.brackets (count + 1)) (List.replicate (count + 1) ']')

variable {mode : Mode} {held : Text} {c : Char}

/-- A character that the scanner never holds back: what it held back is text, and so is the character
unless it is a token of its own. -/
theorem Holds.step_single (h : Holds mode held)
    (hc : c ≠ '<' ∧ c ≠ '>' ∧ c ≠ '/' ∧ c ≠ ']') :
    step ⟨mode, false⟩ c = some (⟨.text, false⟩, held.map Token.char ++ [Token.ofSingle c]) := by
  obtain ⟨hopen, hclose, hslash, hbracket⟩ := hc
  have htext (mode : Mode) : stepText ⟨mode, false⟩ c = (⟨.text, false⟩, [Token.ofSingle c]) := by
    rw [stepText, if_neg hopen, if_neg hslash, if_neg hbracket]
  cases h with
  | text => simp only [step, htext, List.map_nil, List.nil_append]
  | slash =>
    simp only [step, stepSlash, if_neg hclose, stepHome, htext, Bool.false_eq_true, if_false]
    rfl
  | @brackets count _ =>
    have hend : ¬(c = '>' ∧ count + 1 = 2) := fun hboth => hclose hboth.1
    simp only [step, stepBrackets, if_neg hbracket, if_neg hend, htext, List.map_replicate]

/-- A slash or a closing bracket: the scanner goes on to hold back the last of these. -/
theorem Holds.step_held (h : Holds mode held) (hc : c = '/' ∨ c = ']') :
    ∃ mode' held' released, Holds mode' held' ∧ released ++ held' = held ++ [c] ∧
      step ⟨mode, false⟩ c = some (⟨mode', false⟩, released.map Token.char) := by
  rcases hc with rfl | rfl
  · cases h with
    | text => exact ⟨.slash, ['/'], [], .slash, rfl, rfl⟩
    | slash => exact ⟨.slash, ['/'], ['/'], .slash, rfl, rfl⟩
    | @brackets count hcount =>
      refine ⟨.slash, ['/'], List.replicate (count + 1) ']', .slash, rfl, ?_⟩
      rw [List.map_replicate]
      simp [step, stepBrackets, stepText]
  · cases h with
    | text => exact ⟨.brackets 1, [']'], [], .brackets Nat.zero_lt_two, rfl, rfl⟩
    | slash => exact ⟨.brackets 1, [']'], ['/'], .brackets Nat.zero_lt_two, rfl, rfl⟩
    | @brackets count hcount =>
      obtain rfl | rfl : count = 0 ∨ count = 1 := by omega
      · exact ⟨.brackets 2, [']', ']'], [], .brackets Nat.one_lt_two, rfl, rfl⟩
      · exact ⟨.brackets 2, [']', ']'], [']'], .brackets Nat.one_lt_two, rfl, rfl⟩

end Scanner

/-! ### Values -/

/-- Inside a value between double quotes: the value so far ends with what the scanner holds back. -/
inductive InValue (owner : Owner) (nesting : Nesting) (value : Text) : Reader → Prop
  | mk {mode : Scanner.Mode} {held text : Text} (hholds : Scanner.Holds mode held)
    (hvalue : text.reverse ++ held = value) :
    InValue owner nesting value ⟨⟨mode, false⟩, .body (.value owner '"' text) nesting⟩

section Value

variable {owner : Owner} {nesting : Nesting} {text held : Text} {c : Char}

theorem takes_valueChar (hc : isPlain .first c = true) :
    (Document.body (.value owner '"' text) nesting).step (.char c) =
      some (.body (.value owner '"' (c :: text)) nesting, []) := by
  have hvalue : (Document.body (.value owner '"' text) nesting).stepValue owner '"' text (.char c) =
      some (.body (.value owner '"' (c :: text)) nesting) := by
    rw [Document.stepValue, if_neg Token.noConfusion]
    exact if_pos hc
  rw [Document.step]
  dsimp only [Document.body] at hvalue ⊢
  rw [hvalue, Option.map_some]

/-- Characters that the scanner held back become part of the value. -/
theorem takes_held (hheld : ∀ c ∈ held, isPlain .first c = true) :
    (Document.body (.value owner '"' text) nesting).Takes (held.map Token.char)
      (.body (.value owner '"' (held.reverse ++ text)) nesting) := by
  induction held generalizing text with
  | nil => exact .nil
  | cons c rest ih =>
    rw [List.forall_mem_cons] at hheld
    rw [List.map_cons, List.reverse_cons, List.append_assoc]
    exact .cons (takes_valueChar hheld.1) (ih hheld.2)

theorem Scanner.Holds.isPlain {mode : Scanner.Mode} (h : Scanner.Holds mode held) :
    ∀ c ∈ held, isPlain .first c = true := by
  intro c hc
  cases h with
  | text => cases hc
  | slash =>
    obtain rfl := List.mem_singleton.1 hc
    rfl
  | brackets =>
    obtain rfl := List.eq_of_mem_replicate hc
    rfl

/-- In a value, all that may stand there as it is and is no reference is text. -/
theorem takes_single (hplain : isPlain .first c = true)
    (hc : c ≠ '<' ∧ c ≠ '>' ∧ c ≠ '"' ∧ c ≠ '\'' ∧ c ≠ '&') :
    (Document.body (.value owner '"' text) nesting).step (.ofSingle c) =
      some (.body (.value owner '"' (c :: text)) nesting, []) := by
  obtain ⟨hopen, hclose, hquote, hapos, hand⟩ := hc
  by_cases hequals : c = '='
  · subst hequals
    rfl
  by_cases hsemicolon : c = ';'
  · subst hsemicolon
    rfl
  have htoken : Token.ofSingle c = .char c := by
    simp [Token.ofSingle, Token.ofQuoted, hopen, hclose, hquote, hapos, hand, hequals, hsemicolon]
  rw [htoken]
  exact takes_valueChar hplain

variable {reader : Reader} {value : Text}

/-- A character that is written as it is. -/
theorem InValue.reads_plain (h : InValue owner nesting value reader)
    (hplain : isPlain .first c = true)
    (hc : c ≠ '<' ∧ c ≠ '>' ∧ c ≠ '"' ∧ c ≠ '\'' ∧ c ≠ '&') :
    ∃ after, reader.Reads [c] after ∧ InValue owner nesting (value ++ [c]) after := by
  obtain @⟨mode, held, text, hholds, rfl⟩ := h
  by_cases hheld : c = '/' ∨ c = ']'
  · obtain ⟨mode', held', released, hholds', happend, hscan⟩ := hholds.step_held hheld
    have hreleased : ∀ x ∈ released, isPlain .first x = true := by
      intro x hx
      have hmem : x ∈ held ++ [c] := happend ▸ List.mem_append_left _ hx
      rcases List.mem_append.1 hmem with hmem | hmem
      · exact hholds.isPlain x hmem
      · obtain rfl := List.mem_singleton.1 hmem
        exact hplain
    refine ⟨_, .char rfl hscan (takes_held hreleased), .mk hholds' ?_⟩
    rw [List.reverse_append, List.reverse_reverse, List.append_assoc, happend, List.append_assoc]
  · have hscan := hholds.step_single ⟨hc.1, hc.2.1, (hheld <| .inl ·), (hheld <| .inr ·)⟩
    have htakes : (Document.body (.value owner '"' text) nesting).Takes
        (held.map Token.char ++ [Token.ofSingle c])
        (.body (.value owner '"' (c :: (held.reverse ++ text))) nesting) :=
      (takes_held hholds.isPlain).append (.single (takes_single hplain hc))
    refine ⟨_, .char rfl hscan htakes, .mk .text ?_⟩
    simp

/-- The name of a reference. -/
theorem reads_referenceName {name before after : Text}
    (hbare : name.all (· ∉ Scanner.signs) = true)
    (hname : name.foldlM Document.extendReference? before = some after) :
    Reads ⟨{}, .body (.valueReference owner '"' text before) nesting⟩ name
      ⟨{}, .body (.valueReference owner '"' text after) nesting⟩ := by
  induction name generalizing before with
  | nil =>
    obtain rfl := Option.some.inj hname
    exact .nil
  | cons c rest ih =>
    rw [List.all_cons, Bool.and_eq_true, decide_eq_true_eq] at hbare
    rw [List.foldlM_cons] at hname
    obtain ⟨longer, hextend, hrest⟩ := Option.bind_eq_some_iff.1 hname
    refine .cons (.char rfl (Scanner.step_of_not_sign hbare.1) (.single ?_)) (ih hbare.2 hrest)
    show ((Document.extendReference? before c).map _).map _ = _
    rw [hextend]
    rfl

/-- A character that is written as a reference. -/
theorem InValue.reads_reference (h : InValue owner nesting value reader) {name : Text}
    (hbare : name.all (· ∉ Scanner.signs) = true)
    (hname : name.foldlM Document.extendReference? [] = some name.reverse)
    (hreferenced : referenced? .first name = some c) :
    ∃ after, reader.Reads ('&' :: name ++ [';']) after ∧
      InValue owner nesting (value ++ [c]) after := by
  obtain @⟨mode, held, text, hholds, rfl⟩ := h
  have hstart : Reads ⟨⟨mode, false⟩, .body (.value owner '"' text) nesting⟩ ['&']
      ⟨{}, .body (.valueReference owner '"' (held.reverse ++ text) []) nesting⟩ :=
    .char rfl (hholds.step_single (by decide)) ((takes_held hholds.isPlain).append (.single rfl))
  have hend : (Document.body (.valueReference owner '"' (held.reverse ++ text) name.reverse)
      nesting).step .referenceEnd =
        some (.body (.value owner '"' (c :: (held.reverse ++ text))) nesting, []) := by
    show (Option.map _ (((referenced? .first name.reverse.reverse).map _).or _)).map _ = _
    rw [List.reverse_reverse, hreferenced]
    rfl
  refine ⟨_, hstart.cons ((reads_referenceName hbare hname).append
    (.char rfl rfl (.single hend))), .mk .text ?_⟩
  simp

/-- The characters that are written as references, and the names of these. -/
def escapes : List (Char × Text) :=
  [('<', "lt".toList), ('>', "gt".toList), ('"', "quot".toList), ('\'', "apos".toList),
    ('&', "amp".toList), ('\n', "#xA".toList), ('\r', "#xD".toList)]

theorem escapeChar_cases (c : Char) :
    (∃ name, (c, name) ∈ escapes ∧ escapeChar c = '&' :: name ++ [';']) ∨
      (c ≠ '<' ∧ c ≠ '>' ∧ c ≠ '"' ∧ c ≠ '\'' ∧ c ≠ '&') ∧ escapeChar c = [c] := by
  by_cases hc : c ∈ escapes.map Prod.fst
  · obtain ⟨⟨_, name⟩, hmem, rfl⟩ := List.mem_map.1 hc
    have hwritten : ∀ escape ∈ escapes, escapeChar escape.1 = '&' :: escape.2 ++ [';'] := by decide
    exact .inl ⟨name, hmem, hwritten _ hmem⟩
  · simp only [escapes, List.map_cons, List.map_nil, List.mem_cons, List.not_mem_nil, or_false,
      not_or] at hc
    obtain ⟨hopen, hclose, hquote, hapos, hand, hfeed, hreturn⟩ := hc
    refine .inr ⟨⟨hopen, hclose, hquote, hapos, hand⟩, ?_⟩
    rw [escapeChar.eq_def]
    split
    case h_8 => rfl
    all_goals contradiction

theorem escapes_referenced : ∀ escape ∈ escapes,
    escape.2.all (· ∉ Scanner.signs) = true ∧
      escape.2.foldlM Document.extendReference? [] = some escape.2.reverse ∧
      referenced? .first escape.2 = some escape.1 := by
  decide

/-- The written form of a character adds the character to the value. -/
theorem InValue.reads_escapeChar (h : InValue owner nesting value reader)
    (hallowed : isAllowed .first c = true) :
    ∃ after, reader.Reads (escapeChar c) after ∧ InValue owner nesting (value ++ [c]) after := by
  rcases escapeChar_cases c with ⟨name, hmem, hwritten⟩ | ⟨hc, hwritten⟩
  · obtain ⟨hbare, hname, hreferenced⟩ := escapes_referenced _ hmem
    rw [hwritten]
    exact h.reads_reference hbare hname hreferenced
  · have hplain : Markup.isPlain .first c = true := by
      rw [Markup.isPlain, hallowed]
      rfl
    rw [hwritten]
    exact h.reads_plain hplain hc

/-- The written form of a text adds the text to the value. -/
theorem InValue.reads_escaped (h : InValue owner nesting value reader)
    (hallowed : ∀ c ∈ text, isAllowed .first c = true) :
    ∃ after, reader.Reads (text.flatMap escapeChar) after ∧
      InValue owner nesting (value ++ text) after := by
  induction text generalizing value reader with
  | nil => exact ⟨reader, .nil, by rwa [List.append_nil]⟩
  | cons c rest ih =>
    rw [List.forall_mem_cons] at hallowed
    obtain ⟨between, hfirst, hbetween⟩ := h.reads_escapeChar hallowed.1
    obtain ⟨after, hrest, hafter⟩ := ih hbetween hallowed.2
    refine ⟨after, hfirst.append hrest, ?_⟩
    rwa [List.append_assoc, List.singleton_append] at hafter

/-- The quote after a value ends it, whatever the scanner held back. -/
theorem InValue.reads_quote {tag tag' : Tag} {name : QName}
    (h : InValue (.attr tag name) nesting value reader)
    (hadd : tag.add? name (String.ofList value) = some tag') :
    reader.Reads ['"'] ⟨{}, .body (.afterValue tag') nesting⟩ := by
  obtain @⟨mode, held, text, hholds, rfl⟩ := h
  have hend : (Document.body (.value (.attr tag name) '"' (held.reverse ++ text)) nesting).step
      (.quote '"') = some (.body (.afterValue tag') nesting, []) := by
    show ((tag.add? name (String.ofList (held.reverse ++ text).reverse)).map _).map _ = _
    rw [List.reverse_append, List.reverse_reverse, hadd]
    rfl
  have hscan : Scanner.step ⟨mode, false⟩ '"' =
      some (⟨.text, false⟩, held.map Token.char ++ [.quote '"']) :=
    hholds.step_single (by decide)
  exact .char rfl hscan ((takes_held hholds.isPlain).append (.single hend))

end Value

/-! ### Names -/

/-- Whether a text is a name of its own, without a prefix, and not too long. -/
def isSimpleName (name : String) : Bool :=
  name.toList.head?.any isNameStart && name.toList.all (fun c => isNameChar c && c ≠ ':') &&
    fitsName name.toList.reverse

theorem isSpace_of_isNameChar {c : Char} (hc : isNameChar c = true) : isSpace c = false := by
  have hspaces : [' ', '\t', '\n', '\r'].all (fun space => !isNameChar space) = true := by decide
  by_contra hspace
  rw [Bool.not_eq_false, isSpace] at hspace
  simp only [Bool.or_eq_true, decide_eq_true_eq] at hspace
  have hnot := List.all_eq_true.1 hspaces c (by simpa [or_assoc] using hspace)
  rw [hc] at hnot
  cases hnot

section Name

variable {name : String} {first c : Char} {rest : Text}

/-- The characters of a simple name. -/
theorem exists_of_isSimpleName (h : isSimpleName name = true) :
    ∃ first rest, name.toList = first :: rest ∧ isNameStart first = true ∧ first ≠ ':' ∧
      (∀ c ∈ rest, isNameChar c = true ∧ c ≠ ':') ∧ fitsName name.toList.reverse = true := by
  rw [isSimpleName] at h
  simp only [Bool.and_eq_true, List.all_eq_true, decide_eq_true_eq] at h
  obtain ⟨⟨hfirst, hall⟩, hfits⟩ := h
  cases hname : name.toList with
  | nil =>
    rw [hname] at hfirst
    cases hfirst
  | cons first rest =>
    rw [hname] at hfirst hall hfits
    rw [List.forall_mem_cons] at hall
    exact ⟨first, rest, rfl, hfirst, hall.1.2, hall.2, hfits⟩

theorem extendQName?_nil (hfirst : isNameStart first = true) (hcolon : first ≠ ':') :
    extendQName? [] first = some [first] := by
  rw [extendQName?, extendName?, decide_eq_false hcolon, Bool.false_and, if_neg Bool.false_ne_true,
    if_pos (by exact hfirst)]

theorem extendQName?_cons (hc : isNameChar c = true) (hcolon : c ≠ ':') :
    extendQName? (first :: rest) c = some (c :: first :: rest) := by
  rw [extendQName?, extendName?, decide_eq_false hcolon, Bool.false_and, if_neg Bool.false_ne_true,
    if_pos (by exact hc)]

theorem qname?_simple (h : isSimpleName name = true) :
    qname? name.toList.reverse = some ⟨"", name⟩ := by
  obtain ⟨first, rest, hname, hfirst, hcolon, hrest, hfits⟩ := exists_of_isSimpleName h
  have hall : ∀ c ∈ name.toList, decide (c ≠ ':') = true := by
    rw [hname, List.forall_mem_cons]
    exact ⟨decide_eq_true hcolon, fun c hc => decide_eq_true (hrest c hc).2⟩
  have htake : name.toList.takeWhile (· ≠ ':') = name.toList := List.takeWhile_eq_self_iff.2 hall
  have hdrop : name.toList.dropWhile (· ≠ ':') = [] := List.dropWhile_eq_nil_iff.2 hall
  have hempty : name.toList.isEmpty = false := by rw [hname, List.isEmpty_cons]
  simp only [qname?, List.reverse_reverse, htake, hdrop, hempty, hfits, Bool.not_true, Bool.or_self,
    Bool.false_eq_true, if_false, String.ofList_toList]

theorem Tag.name?_simple (h : isSimpleName name = true) :
    Tag.name? name.toList.reverse = some ⟨"", name⟩ := by
  rw [Tag.name?, qname?_simple h, Option.bind_some, if_neg (by simp)]

variable {mode : Text → Document.Mode} {nesting : Nesting} {before : Text}

/-- The characters after the first one of a name that the document reads in some mode. -/
theorem reads_nameRest (hmode : ∀ name c, isSpace c = false →
      (Document.body (mode name) nesting).step (.char c) =
        (extendQName? name c).map fun name => (.body (mode name) nesting, []))
    (hrest : ∀ c ∈ rest, isNameChar c = true ∧ c ≠ ':') :
    Reads ⟨{}, .body (mode (first :: before)) nesting⟩ rest
      ⟨{}, .body (mode (rest.reverse ++ first :: before)) nesting⟩ := by
  induction rest generalizing first before with
  | nil => exact .nil
  | cons c rest ih =>
    rw [List.forall_mem_cons] at hrest
    obtain ⟨⟨hc, hcolon⟩, hrest⟩ := hrest
    have hstep : (Document.body (mode (first :: before)) nesting).step (.char c) =
        some (.body (mode (c :: first :: before)) nesting, []) := by
      rw [hmode _ c (isSpace_of_isNameChar hc), extendQName?_cons hc hcolon, Option.map_some]
    rw [List.reverse_cons, List.append_assoc]
    exact .cons (.char rfl (Scanner.step_of_not_sign (Scanner.not_sign_of_isNameChar hc))
      (.single hstep)) (ih hrest)

/-- A simple name, whose first character may be read in a way of its own. -/
theorem reads_simpleName {reader : Reader} (h : isSimpleName name = true)
    (hstart : ∀ c, isNameChar c = true → extendQName? [] c = some [c] →
      reader.Reads [c] ⟨{}, .body (mode [c]) nesting⟩)
    (hmode : ∀ name c, isSpace c = false →
      (Document.body (mode name) nesting).step (.char c) =
        (extendQName? name c).map fun name => (.body (mode name) nesting, [])) :
    reader.Reads name.toList ⟨{}, .body (mode name.toList.reverse) nesting⟩ := by
  obtain ⟨first, rest, hname, hfirst, hcolon, hrest, -⟩ := exists_of_isSimpleName h
  have hchar : isNameChar first = true := by rw [isNameChar, hfirst, Bool.true_or]
  rw [hname, List.reverse_cons]
  exact .cons (hstart first hchar (extendQName?_nil hfirst hcolon)) (reads_nameRest hmode hrest)

end Name

end Markup
end BlockProgram
