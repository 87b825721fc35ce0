import BlockProgram.Json.Printer
import BlockProgram.Json.Token
import BlockProgram.Proofs.Number.Numeral

/-!
The compact text of a JSON value tells which value it is (`compact_injective`). Every text of a value can be
told from what follows it:

    "..."        ends at the first quote that is not escaped
    number       ends where no character of a numeral follows: , ] } or the end
    [...] {...}  ends at its bracket, after values that are told apart in the same way

What a value starts with tells its kind.
-/

namespace BlockProgram
namespace Json

variable {s t : Text}

/-! ### Strings -/

/-- The first character that a text stands for inside a string, and the text after it. -/
def unescape : Text → Option (Char × Text)
  | '\\' :: 'u' :: _ :: _ :: high :: low :: rest =>
    (hexDigit? high).bind fun high => (hexDigit? low).map fun low => (Char.ofNat (16 * high + low), rest)
  | '\\' :: c :: rest => (escaped? c).map fun c => (c, rest)
  | c :: rest => some (c, rest)
  | [] => none

theorem hexDigit?_hexDigit (n : Nat) : hexDigit? (hexDigit n) = some (n % 16) := by
  have hdigits : ∀ n < 16, hexDigit? (hexDigit n) = some n := by decide
  have hdigit := hdigits (n % 16) (Nat.mod_lt n (by decide))
  rwa [hexDigit, Nat.mod_mod, ← hexDigit] at hdigit

theorem unescape_escapeChar (c : Char) (rest : Text) :
    unescape (escapeChar c ++ rest) = some (c, rest) := by
  rw [escapeChar.eq_def]
  split
  case h_8 hquote hbackslash _ _ _ _ _ =>
    split
    · rename_i hlow
      have hlt : c.toNat < 32 := hlow
      have hvalue : 16 * (c.toNat / 16 % 16) + c.toNat % 16 = c.toNat := by omega
      simp only [List.cons_append, List.nil_append, unescape, hexDigit?_hexDigit, Option.bind_some,
        Option.map_some, hvalue, Char.ofNat_toNat]
    · rw [List.singleton_append, unescape]
      · exact fun _ _ _ _ _ h _ => hbackslash h
      · exact fun _ _ h _ => hbackslash h
  all_goals rfl

theorem escapeChar_append_inj {c d : Char} (h : escapeChar c ++ s = escapeChar d ++ t) :
    c = d ∧ s = t := by
  have hread := unescape_escapeChar c s
  rw [h, unescape_escapeChar, Option.some_inj, Prod.mk.injEq] at hread
  exact ⟨hread.1.symm, hread.2.symm⟩

/-- A quote inside a string never stands alone. -/
theorem quote_append_ne {c : Char} : '"' :: s ≠ escapeChar c ++ t := by
  intro h
  have hread := unescape_escapeChar c t
  rw [← h] at hread
  obtain ⟨rfl, -⟩ := Prod.mk.inj (Option.some.inj hread)
  cases h

theorem escaped_append_inj {l m : Text}
    (h : l.flatMap escapeChar ++ '"' :: s = m.flatMap escapeChar ++ '"' :: t) : l = m ∧ s = t := by
  induction l generalizing m with
  | nil =>
    cases m with
    | nil => exact ⟨rfl, (List.cons.inj h).2⟩
    | cons d m =>
      rw [List.flatMap_cons, List.append_assoc] at h
      exact absurd h quote_append_ne
  | cons c l ih =>
    cases m with
    | nil =>
      rw [List.flatMap_cons, List.append_assoc] at h
      exact absurd h.symm quote_append_ne
    | cons d m =>
      rw [List.flatMap_cons, List.flatMap_cons, List.append_assoc, List.append_assoc] at h
      obtain ⟨rfl, hmore⟩ := escapeChar_append_inj h
      obtain ⟨rfl, hrest⟩ := ih hmore
      exact ⟨rfl, hrest⟩

/-- A string ends at its second quote, whatever follows. -/
theorem stringText_append_inj {a b : String}
    (h : (stringText a).toList ++ s = (stringText b).toList ++ t) : a = b ∧ s = t := by
  rw [stringText, stringText, String.toList_ofList, String.toList_ofList, List.cons_append,
    List.cons_append, List.append_assoc, List.append_assoc] at h
  obtain ⟨hchars, hrest⟩ := escaped_append_inj (List.cons.inj h).2
  exact ⟨String.toList_inj.1 hchars, hrest⟩

/-! ### Numbers -/

/-- A number that has a text: an integer or a finite double. -/
def IsWritten : JsonNumber → Prop
  | .integer _ => True
  | .double x => x.isFinite = true

/-- No character of a numeral comes first. -/
def Stops (s : Text) : Prop :=
  ∀ c ∈ s.head?, Binary64.isNumeralChar c = false

theorem stops_nil : Stops [] :=
  nofun

theorem stops_cons {c : Char} (h : Binary64.isNumeralChar c = false) (s : Text) : Stops (c :: s) := by
  rintro _ ⟨⟩
  exact h

/-- An integer is written in digits after a sign or none. -/
theorem exists_integerText (n : Int) : ∃ sign digits : Text, (toString n).toList = sign ++ digits ∧
    (sign = [] ∨ sign = ['-']) ∧ digits ≠ [] ∧ Binary64.IsDigits digits := by
  have htext : toString n = n.repr := rfl
  rw [htext, Int.repr_eq_if]
  split
  · exact ⟨[], _, by rw [Nat.toList_repr]; rfl, .inl rfl, Nat.toDigits_ne_nil,
      Binary64.isDigits_toDigits n.toNat⟩
  · exact ⟨['-'], _, by rw [String.toList_append, Nat.toList_repr]; rfl, .inr rfl, Nat.toDigits_ne_nil,
      Binary64.isDigits_toDigits (-n).toNat⟩

/-- A finite double is written as a numeral after a sign or none. -/
theorem exists_doubleText {x : Binary64} (h : x.isFinite = true) : ∃ (sign text : Text) (q : ℚ),
    x.toText.toList = sign ++ text ∧ (sign = [] ∨ sign = ['-']) ∧ Binary64.Numeral text q := by
  obtain ⟨q, hq, -⟩ := Binary64.exists_numeral (of_decide_eq_true h)
  rw [Binary64.toText_eq h, String.toList_append]
  cases x.isNegative with
  | true => exact ⟨['-'], _, q, rfl, .inr rfl, hq⟩
  | false => exact ⟨[], _, q, rfl, .inl rfl, hq⟩

theorem numberText_double {x : Binary64} (h : x.isFinite = true) :
    numberText (.double x) = x.toText :=
  if_pos h

/-- The text of a number starts with a digit or a minus and has the characters of numerals only. -/
theorem numberText_chars {n : JsonNumber} (h : IsWritten n) :
    (∃ c rest, (numberText n).toList = c :: rest ∧ (c.isDigit = true ∨ c = '-')) ∧
      (numberText n).toList.all Binary64.isNumeralChar = true := by
  have hsigned : ∃ sign body : Text, (numberText n).toList = sign ++ body ∧
      (sign = [] ∨ sign = ['-']) ∧ (∃ c rest, body = c :: rest ∧ c.isDigit = true) ∧
        body.all Binary64.isNumeralChar = true := by
    cases n with
    | integer i =>
      obtain ⟨sign, digits, htext, hsign, hne, hdigits⟩ := exists_integerText i
      obtain ⟨c, rest, rfl⟩ := List.exists_cons_of_ne_nil hne
      exact ⟨sign, _, htext, hsign, ⟨c, rest, rfl, hdigits c (List.mem_cons_self ..)⟩, hdigits.all⟩
    | double x =>
      obtain ⟨sign, text, q, htext, hsign, hnumeral⟩ := exists_doubleText h
      rw [numberText_double h]
      exact ⟨sign, text, htext, hsign, hnumeral.exists_cons, hnumeral.all⟩
  obtain ⟨sign, body, htext, hsign, ⟨c, rest, rfl, hdigit⟩, hall⟩ := hsigned
  rw [htext]
  rcases hsign with rfl | rfl
  · exact ⟨⟨c, rest, rfl, .inl hdigit⟩, hall⟩
  · exact ⟨⟨'-', c :: rest, rfl, .inr rfl⟩, by rw [List.all_append, hall]; rfl⟩

/-- Only doubles have a point or an exponent. -/
theorem integerText_ne {n : Int} {x : Binary64} (h : x.isFinite = true) : toString n ≠ x.toText := by
  intro heq
  obtain ⟨sign, digits, htext, hsign, -, hdigits⟩ := exists_integerText n
  obtain ⟨sign', text, q, htext', -, hnumeral⟩ := exists_doubleText h
  rw [← heq, htext] at htext'
  have habsent (c : Char) (hdigit : c.isDigit = false) (hminus : c ≠ '-') : c ∉ sign ++ digits := by
    rcases hsign with rfl | rfl
    · exact hdigits.notMem hdigit
    · simp [hminus, hdigits.notMem hdigit]
  rcases hnumeral.point_or_exponent with hmem | hmem
  · exact habsent '.' (by decide) (by decide) (htext' ▸ List.mem_append_right sign' hmem)
  · exact habsent 'e' (by decide) (by decide) (htext' ▸ List.mem_append_right sign' hmem)

theorem numberText_injective {m n : JsonNumber} (hm : IsWritten m) (hn : IsWritten n)
    (h : numberText m = numberText n) : m = n := by
  cases m with
  | integer i =>
    cases n with
    | integer j => exact congrArg _ (Int.repr_inj.1 h)
    | double y =>
      rw [numberText_double hn] at h
      exact absurd h (integerText_ne hn)
  | double x =>
    rw [numberText_double hm] at h
    cases n with
    | integer j => exact absurd h.symm (integerText_ne hm)
    | double y =>
      rw [numberText_double hn] at h
      exact congrArg _ (Binary64.toText_injective hm hn h)

theorem takeWhile_of_stops {text : Text} (htext : text.all Binary64.isNumeralChar = true)
    (hs : Stops s) : (text ++ s).takeWhile Binary64.isNumeralChar = text := by
  rw [List.takeWhile_append_of_pos (List.all_eq_true.1 htext)]
  cases s with
  | nil => exact List.append_nil text
  | cons c rest =>
    rw [List.takeWhile_cons_of_neg (by rw [hs c rfl]; decide), List.append_nil]

/-- A number ends where no character of a numeral follows. -/
theorem numberText_append_inj {m n : JsonNumber} (hm : IsWritten m) (hn : IsWritten n) (hs : Stops s)
    (ht : Stops t) (h : (numberText m).toList ++ s = (numberText n).toList ++ t) : m = n ∧ s = t := by
  have htext := congrArg (List.takeWhile Binary64.isNumeralChar) h
  rw [takeWhile_of_stops (numberText_chars hm).2 hs, takeWhile_of_stops (numberText_chars hn).2 ht]
    at htext
  rw [htext] at h
  exact ⟨numberText_injective hm hn (String.toList_inj.1 htext), List.append_cancel_left h⟩

/-! ### Sequences -/

section

variable {α : Type} {print : α → Text} {close : Char} {items items' : List α}

/-- Items with a comma before each. -/
def continued (print : α → Text) (items : List α) : Text :=
  items.flatMap fun item => ',' :: print item

theorem intercalate_cons (first : α) (rest : List α) :
    [','].intercalate ((first :: rest).map print) = print first ++ continued print rest := by
  induction rest generalizing first with
  | nil => simp [continued]
  | cons item rest ih =>
    have hrest := ih item
    rw [List.map_cons] at hrest
    rw [List.map_cons, List.map_cons, List.intercalate_cons_cons, hrest, continued, continued,
      List.flatMap_cons]
    simp

theorem stops_continued (hclose : Binary64.isNumeralChar close = false) (items : List α) (s : Text) :
    Stops (continued print items ++ close :: s) := by
  cases items with
  | nil => exact stops_cons hclose s
  | cons item rest => exact stops_cons (by decide) _

/-- Two items are told apart by their texts, whatever follows that could not continue a number. -/
def Told (print : α → Text) (a b : α) : Prop :=
  ∀ {s t : Text}, Stops s → Stops t → print a ++ s = print b ++ t → a = b ∧ s = t

theorem continued_append_inj (hcomma : close ≠ ',') (hclose : Binary64.isNumeralChar close = false)
    (htold : ∀ a ∈ items, ∀ b ∈ items', Told print a b)
    (h : continued print items ++ close :: s = continued print items' ++ close :: t) :
    items = items' ∧ s = t := by
  induction items generalizing items' with
  | nil =>
    cases items' with
    | nil => exact ⟨rfl, (List.cons.inj h).2⟩
    | cons item rest => exact absurd (List.cons.inj h).1 hcomma
  | cons item rest ih =>
    cases items' with
    | nil => exact absurd (List.cons.inj h).1 hcomma.symm
    | cons item' rest' =>
      rw [continued, continued, List.flatMap_cons, List.flatMap_cons, List.cons_append, List.cons_append,
        List.cons_append, List.cons_append, List.append_assoc, List.append_assoc] at h
      obtain ⟨rfl, hmore⟩ := htold item (List.mem_cons_self ..) item' (List.mem_cons_self ..)
        (stops_continued hclose rest s) (stops_continued hclose rest' t) (List.cons.inj h).2
      obtain ⟨rfl, hrest⟩ := ih (fun a ha b hb => htold a (List.mem_cons_of_mem _ ha) b
        (List.mem_cons_of_mem _ hb)) hmore
      exact ⟨rfl, hrest⟩

/-- Items between commas are told apart if each of them is told from what follows it. -/
theorem intercalate_append_inj (hcomma : close ≠ ',') (hclose : Binary64.isNumeralChar close = false)
    (htold : ∀ a ∈ items, ∀ b ∈ items', Told print a b)
    (hstart : ∀ a ∈ items ++ items', (print a).head? ≠ some close ∧ print a ≠ [])
    (h : [','].intercalate (items.map print) ++ close :: s =
      [','].intercalate (items'.map print) ++ close :: t) : items = items' ∧ s = t := by
  have hfirst (item : α) (rest : List α) (s t : Text) (hitem : item ∈ items ++ items') :
      close :: s ≠ [','].intercalate ((item :: rest).map print) ++ close :: t := by
    intro heq
    obtain ⟨hhead, hne⟩ := hstart item hitem
    obtain ⟨c, more, hprint⟩ := List.exists_cons_of_ne_nil hne
    rw [intercalate_cons, hprint] at heq
    rw [hprint, (List.cons.inj heq).1] at hhead
    exact hhead rfl
  cases items with
  | nil =>
    cases items' with
    | nil => exact ⟨rfl, (List.cons.inj h).2⟩
    | cons item rest => exact absurd h (hfirst item rest s t (by simp))
  | cons item rest =>
    cases items' with
    | nil => exact absurd h.symm (hfirst item rest t s (by simp))
    | cons item' rest' =>
      rw [intercalate_cons, intercalate_cons, List.append_assoc, List.append_assoc] at h
      obtain ⟨rfl, hmore⟩ := htold item (List.mem_cons_self ..) item' (List.mem_cons_self ..)
        (stops_continued hclose rest s) (stops_continued hclose rest' t) h
      obtain ⟨rfl, hrest⟩ := continued_append_inj hcomma hclose (fun a ha b hb =>
        htold a (List.mem_cons_of_mem _ ha) b (List.mem_cons_of_mem _ hb)) hmore
      exact ⟨rfl, hrest⟩

end

/-! ### Values -/

/-- All numbers in a value have a text. -/
inductive Written : Json → Prop where
  | null : Written .null
  | bool {value} : Written (.bool value)
  | number {value} (hnumber : IsWritten value) : Written (.number value)
  | string {value} : Written (.string value)
  | array {items} (hitems : ∀ item ∈ items, Written item) : Written (.array items)
  | object {members} (hmembers : ∀ entry ∈ members, Written entry.2) : Written (.object members)

variable {v w : Json}

/-- The text of a value. -/
def printed (v : Json) : Text :=
  (compact v).toList

/-- The text of a member. -/
def printedMember (entry : String × Json) : Text :=
  (stringText entry.1).toList ++ ':' :: printed entry.2

theorem printed_array (items : List Json) :
    printed (.array items) = '[' :: ([','].intercalate (items.map printed) ++ [']']) := by
  have hitems : compactItems items = items.map compact := by
    induction items with
    | nil => rfl
    | cons item rest ih => rw [compactItems, ih, List.map_cons]
  rw [printed, compact, hitems, String.toList_append, String.toList_append, String.toList_intercalate,
    List.map_map]
  rfl

theorem printed_object (members : List (String × Json)) :
    printed (.object members) = '{' :: ([','].intercalate (members.map printedMember) ++ ['}']) := by
  have hmembers : (compactMembers members).map String.toList = members.map printedMember := by
    induction members with
    | nil => rfl
    | cons entry rest ih =>
      rw [compactMembers, List.map_cons, List.map_cons, ih, String.toList_append, String.toList_append,
        List.append_assoc]
      rfl
  rw [printed, compact, String.toList_append, String.toList_append, String.toList_intercalate, hmembers]
  rfl

/-- What the first character of a text tells about its value. -/
inductive Kind where
  | null
  | bool (value : Bool)
  | number
  | string
  | array
  | object

def kind : Json → Kind
  | null => .null
  | bool value => .bool value
  | number _ => .number
  | string _ => .string
  | array _ => .array
  | object _ => .object

/-- The kind of the values that start with a character. -/
def startKind? (c : Char) : Option Kind :=
  if c.isDigit ∨ c = '-' then some .number
  else
    match c with
    | 'n' => some .null
    | 'f' => some (.bool false)
    | 't' => some (.bool true)
    | '"' => some .string
    | '[' => some .array
    | '{' => some .object
    | _ => none

theorem exists_start (h : Written v) : ∃ c rest, printed v = c :: rest ∧ startKind? c = some v.kind := by
  cases h with
  | null => exact ⟨'n', _, rfl, rfl⟩
  | @bool value =>
    cases value with
    | false => exact ⟨'f', _, rfl, rfl⟩
    | true => exact ⟨'t', _, rfl, rfl⟩
  | number hnumber =>
    obtain ⟨⟨c, rest, htext, hc⟩, -⟩ := numberText_chars hnumber
    exact ⟨c, rest, htext, if_pos hc⟩
  | string => exact ⟨'"', _, by rw [printed, compact, stringText, String.toList_ofList], rfl⟩
  | array => exact ⟨'[', _, printed_array _, rfl⟩
  | object => exact ⟨'{', _, printed_object _, rfl⟩

theorem kind_eq (hv : Written v) (hw : Written w) (h : printed v ++ s = printed w ++ t) :
    v.kind = w.kind := by
  obtain ⟨c, rest, hprinted, hkind⟩ := exists_start hv
  obtain ⟨d, rest', hprinted', hkind'⟩ := exists_start hw
  rw [hprinted, hprinted', List.cons_append, List.cons_append] at h
  rw [(List.cons.inj h).1, hkind'] at hkind
  exact (Option.some.inj hkind).symm

/-- No value starts with a character that starts none, such as a closing bracket. -/
theorem printed_start (h : Written v) {c : Char} (hc : startKind? c = none) :
    (printed v).head? ≠ some c ∧ printed v ≠ [] := by
  obtain ⟨d, rest, hprinted, hkind⟩ := exists_start h
  rw [hprinted]
  refine ⟨?_, List.cons_ne_nil d rest⟩
  rintro ⟨⟩
  rw [hc] at hkind
  cases hkind

theorem told_printedMember {a b : String × Json} (h : Told printed a.2 b.2) :
    Told printedMember a b := by
  intro s t hs ht heq
  rw [printedMember, printedMember, List.append_assoc, List.append_assoc] at heq
  obtain ⟨hname, hmore⟩ := stringText_append_inj heq
  obtain ⟨hvalue, hrest⟩ := h hs ht (List.cons.inj hmore).2
  exact ⟨Prod.ext hname hvalue, hrest⟩

theorem printedMember_start (entry : String × Json) :
    (printedMember entry).head? ≠ some '}' ∧ printedMember entry ≠ [] := by
  rw [printedMember, stringText, String.toList_ofList]
  exact ⟨by simp, by simp⟩

/-- A value is told from what follows it. -/
theorem told_printed (hv : Written v) (hw : Written w) : Told printed v w := by
  induction hv generalizing w with
  | null =>
    intro s t hs ht h
    have hkind := kind_eq .null hw h
    cases w with
    | null => exact ⟨rfl, List.append_cancel_left h⟩
    | _ => cases hkind
  | @bool value =>
    intro s t hs ht h
    have hkind := kind_eq .bool hw h
    cases w with
    | bool value' =>
      cases hkind
      exact ⟨rfl, List.append_cancel_left h⟩
    | _ => cases hkind
  | @number value hnumber =>
    intro s t hs ht h
    have hkind := kind_eq (.number hnumber) hw h
    cases hw with
    | @number value' hnumber' =>
      obtain ⟨hvalue, hrest⟩ := numberText_append_inj hnumber hnumber' hs ht h
      exact ⟨congrArg _ hvalue, hrest⟩
    | _ => cases hkind
  | @string value =>
    intro s t hs ht h
    have hkind := kind_eq .string hw h
    cases w with
    | string value' =>
      obtain ⟨hvalue, hrest⟩ := stringText_append_inj h
      exact ⟨congrArg _ hvalue, hrest⟩
    | _ => cases hkind
  | @array items hitems ih =>
    intro s t hs ht h
    have hkind := kind_eq (.array hitems) hw h
    cases hw with
    | @array items' hitems' =>
      rw [printed_array, printed_array, List.cons_append, List.cons_append, List.append_assoc,
        List.append_assoc] at h
      have hstart : ∀ a ∈ items ++ items', (printed a).head? ≠ some ']' ∧ printed a ≠ [] :=
        List.forall_mem_append.2 ⟨fun a ha => printed_start (hitems a ha) rfl,
          fun a ha => printed_start (hitems' a ha) rfl⟩
      obtain ⟨rfl, hrest⟩ := intercalate_append_inj (by decide) (by decide)
        (fun a ha b hb => ih a ha (hitems' b hb)) hstart (List.cons.inj h).2
      exact ⟨rfl, hrest⟩
    | _ => cases hkind
  | @object members hmembers ih =>
    intro s t hs ht h
    have hkind := kind_eq (.object hmembers) hw h
    cases hw with
    | @object members' hmembers' =>
      rw [printed_object, printed_object, List.cons_append, List.cons_append, List.append_assoc,
        List.append_assoc] at h
      obtain ⟨rfl, hrest⟩ := intercalate_append_inj (by decide) (by decide)
        (fun a ha b hb => told_printedMember (ih a ha (hmembers' b hb)))
        (fun a _ => printedMember_start a) (List.cons.inj h).2
      exact ⟨rfl, hrest⟩
    | _ => cases hkind

/-- The compact text of a value tells which value it is. -/
theorem compact_injective (hv : Written v) (hw : Written w) (h : compact v = compact w) : v = w :=
  (told_printed hv hw stops_nil stops_nil (congrArg (·.toList ++ []) h)).1

end Json
end BlockProgram
