import BlockProgram.Json.Basic
import BlockProgram.Number.Decimal
import BlockProgram.Text.Blank

/-!
The tokens of JSON text, found by one left fold of an automaton over the characters.

```text
between ──bare character──▶ word ──any other──▶ between
   │  ▲
   "  "
   ▼  │
 string ──\──▶ escape ──u──▶ hex ──high surrogate──▶ low ──\u──▶ hex
```

A word (letters, digits, signs and points in one run) is `true`, `false`, `null` or a number. An
escaped surrogate stands only as half of a pair, and raw characters below the space do not stand in
strings at all.
-/

namespace BlockProgram
namespace Json

/-- A token of JSON text. -/
inductive Token where
  | openArray
  | closeArray
  | openObject
  | closeObject
  | comma
  | colon
  | string (value : String)
  | atom (value : Json)
  deriving Repr

/-! ### Numbers -/

/-- The largest natural number of 64 bits. -/
def maxWord : Nat := Nat.pow 2 64 - 1

/-- The digits `ds` as a natural number, after those of `start`. -/
def digitsFrom (start : Nat) (ds : Text) : Nat :=
  ds.foldl (fun n d => 10 * n + (d.toNat - '0'.toNat)) start

/-- How many of the digits `ds` can follow those of `start` within 64 bits. -/
def fitting (start : Nat) : Text → Nat
  | [] => 0
  | d :: ds =>
    let next := digitsFrom start [d]
    if next ≤ maxWord then fitting next ds + 1 else 0

/-- The decimal of a whole part and a fraction, with as many digits as fit 64 bits. Whole digits that
do not fit count as zeros, fraction digits that do not fit are dropped. -/
def significand (whole fraction : Text) : Decimal :=
  let kept := fitting 0 whole
  let start := digitsFrom 0 (whole.take kept)
  let more := fitting start fraction
  ⟨digitsFrom start (fraction.take more), ((whole.length - kept : Nat) : Int) - more⟩

/-- Splits a text into its leading digits, of which there must be one, and the rest. -/
def splitDigits? (text : Text) : Option (Text × Text) :=
  let ds := text.takeWhile Char.isDigit
  if ds.isEmpty then none else some (ds, text.dropWhile Char.isDigit)

/-- The value of the exponent part of a number, `0` if there is none. -/
def exponent? : Text → Option Int
  | [] => some 0
  | mark :: rest =>
    if mark = 'e' ∨ mark = 'E' then
      let (negative, digits) :=
        match rest with
        | '-' :: ds => (true, ds)
        | '+' :: ds => (false, ds)
        | ds => (false, ds)
      match splitDigits? digits with
      | some (ds, []) => some (if negative then -digitsFrom 0 ds else digitsFrom 0 ds)
      | _ => none
    else none

/-- The integer that a sign and digits stand for, if it fits 64 bits. There is no integer `-0`. -/
def integer? (negative : Bool) (digits : Text) : Option Int :=
  let n := digitsFrom 0 digits
  if negative then if 0 < n ∧ n ≤ Nat.pow 2 63 then some (-n) else none
  else if n ≤ maxWord then some n else none

/-- A number without its sign: whole part, fraction and exponent. -/
def unsignedNumber? (negative : Bool) (text : Text) : Option JsonNumber := do
  let (whole, rest) ← splitDigits? text
  if whole.head? = some '0' ∧ whole.length ≠ 1 then none
  else
    let (fraction, tail) ←
      match rest with
      | '.' :: after => splitDigits? after
      | after => some ([], after)
    let exponent ← exponent? tail
    let mantissa := significand whole fraction
    let double :=
      (Binary64.ofDecimal? negative { mantissa with exponent := mantissa.exponent + exponent }).map
        JsonNumber.double
    if rest.isEmpty then
      match integer? negative whole with
      | some n => some (.integer n)
      | none => double
    else double

/-- The number that a text stands for; `none` if it is not written as one or overflows. -/
def number? : Text → Option JsonNumber
  | '-' :: text => unsignedNumber? true text
  | text => unsignedNumber? false text

/-- The value of a word. -/
def word? (word : Text) : Option Json :=
  if word = ['t', 'r', 'u', 'e'] then some (bool true)
  else if word = ['f', 'a', 'l', 's', 'e'] then some (bool false)
  else if word = ['n', 'u', 'l', 'l'] then some null
  else (number? word).map number

/-! ### The automaton -/

/-- What the automaton is inside of. Texts under construction are reversed. -/
inductive Mode where
  | between
  | word (text : Text)
  | string (text : Text)
  | escape (text : Text)
  /-- Reading the hexadecimal digits of an escape, after the high surrogate `high?` if any. -/
  | hex (text : Text) (high? : Option Nat) (value left : Nat)
  /-- After a high surrogate: a backslash must follow, then a `u`. -/
  | low (text : Text) (high : Nat) (backslash : Bool)

/-- The mode of the automaton and the tokens so far, the last one first. -/
structure Lexer where
  mode : Mode := .between
  tokens : List Token := []

/-- White space between tokens. -/
def isSpace (c : Char) : Bool :=
  c = ' ' || c = '\t' || c = '\n' || c = '\r'

/-- The characters of words. -/
def isBare (c : Char) : Bool :=
  c.isAlphanum || c = '-' || c = '+' || c = '.'

/-- The value of a hexadecimal digit. -/
def hexDigit? (c : Char) : Option Nat :=
  if '0' ≤ c ∧ c ≤ '9' then some (c.toNat - '0'.toNat)
  else if 'a' ≤ c ∧ c ≤ 'f' then some (c.toNat - 'a'.toNat + 10)
  else if 'A' ≤ c ∧ c ≤ 'F' then some (c.toNat - 'A'.toNat + 10)
  else none

/-- The character of a one-letter escape. -/
def escaped? : Char → Option Char
  | '"' => some '"'
  | '\\' => some '\\'
  | '/' => some '/'
  | 'b' => some '\x08'
  | 'f' => some '\x0c'
  | 'n' => some '\n'
  | 'r' => some '\r'
  | 't' => some '\t'
  | _ => none

namespace Lexer

/-- The token of a character that is one by itself. -/
def punctuation? : Char → Option Token
  | '[' => some .openArray
  | ']' => some .closeArray
  | '{' => some .openObject
  | '}' => some .closeObject
  | ',' => some .comma
  | ':' => some .colon
  | _ => none

/-- One character between tokens. -/
def start (tokens : List Token) (c : Char) : Option Lexer :=
  if isSpace c then some ⟨.between, tokens⟩
  else if c = '"' then some ⟨.string [], tokens⟩
  else if isBare c then some ⟨.word [c], tokens⟩
  else (punctuation? c).map fun token => ⟨.between, token :: tokens⟩

/-- The mode after an escape of four hexadecimal digits. -/
def endHex (text : Text) (high? : Option Nat) (value : Nat) : Option Mode :=
  match high? with
  | some high =>
    if 0xdc00 ≤ value ∧ value ≤ 0xdfff then
      some (.string (Char.ofNat (0x10000 + (high - 0xd800) * 0x400 + (value - 0xdc00)) :: text))
    else none
  | none =>
    if 0xd800 ≤ value ∧ value ≤ 0xdbff then some (.low text value false)
    else if 0xdc00 ≤ value ∧ value ≤ 0xdfff then none
    else some (.string (Char.ofNat value :: text))

/-- One step of the automaton. -/
def step (lexer : Lexer) (c : Char) : Option Lexer :=
  match lexer.mode with
  | .between => start lexer.tokens c
  | .word text =>
    if isBare c then some { lexer with mode := .word (c :: text) }
    else (word? text.reverse).bind fun value => start (.atom value :: lexer.tokens) c
  | .string text =>
    if c = '"' then some ⟨.between, .string (String.ofList text.reverse) :: lexer.tokens⟩
    else if c = '\\' then some { lexer with mode := .escape text }
    else if c < ' ' then none
    else some { lexer with mode := .string (c :: text) }
  | .escape text =>
    if c = 'u' then some { lexer with mode := .hex text none 0 4 }
    else (escaped? c).map fun e => { lexer with mode := .string (e :: text) }
  | .hex text high? value left =>
    (hexDigit? c).bind fun d =>
      let value := 16 * value + d
      if left ≤ 1 then (endHex text high? value).map fun mode => { lexer with mode := mode }
      else some { lexer with mode := .hex text high? value (left - 1) }
  | .low text high backslash =>
    if backslash then
      if c = 'u' then some { lexer with mode := .hex text (some high) 0 4 } else none
    else if c = '\\' then some { lexer with mode := .low text high true }
    else none

/-- The tokens of a text that ends here. -/
def finish? (lexer : Lexer) : Option (List Token) :=
  match lexer.mode with
  | .between => some lexer.tokens.reverse
  | .word text => (word? text.reverse).map fun value => (.atom value :: lexer.tokens).reverse
  | _ => none

end Lexer

/-- The tokens of a text; `none` if it has characters that belong to none. -/
def tokens? (text : Text) : Option (List Token) :=
  (text.foldlM Lexer.step {}).bind Lexer.finish?

end Json
end BlockProgram
