import BlockProgram.Proofs.Expression.Grouping
import BlockProgram.Proofs.Expression.Reader

/-!
A written tree reads back as the tree with its regions folded to the left (`read?_text`). The text of a
tree has the tokens of the tree, whatever follows; and the tokens of a tree take a reader to a state in
which closing all that is open gives the regrouped tree.
-/

namespace BlockProgram
namespace Expression

open Text

/-- Tokens of a given order as they stand in a place that asks for `requested`. -/
def guardedTokens (requested order : Order) (tokens : List Token) : List Token :=
  if order.needsParens requested then .openGroup :: tokens ++ [.closeGroup] else tokens

/-- The tokens of a tree. -/
def tokens : Expression → List Token
  | number digits => [.word digits.1]
  | boolean value => [.word (booleanWord value)]
  | string text => [.string text]
  | var name => [.word name.1]
  | binary op left right =>
    guardedTokens op.order left.order left.tokens ++
      .operator op :: guardedTokens op.order right.order right.tokens
  | not operand => .bang :: .openGroup :: operand.tokens ++ [.closeGroup]
  | property object name =>
    guardedTokens .member object.order object.tokens ++ [.dot, .word name.1]
  | index object subscript =>
    guardedTokens .member object.order object.tokens ++
      .openIndex :: subscript.tokens ++ [.closeIndex]

/-! ### Tokens of a written tree -/

/-- A text after which a word before it has ended. -/
def Stops (rest : Text) : Prop :=
  ∀ c ∈ rest.head?, isWordChar c = false

/-- A text has these tokens before any text that ends a word. -/
def Lexes (text : Text) (tokens : List Token) : Prop :=
  ∀ rest, Stops rest → tokens? (text ++ rest) = (tokens? rest).map (tokens ++ ·)

theorem tokens?_blank {c : Char} (h : isBlankChar c = true) (rest : Text) :
    tokens? (c :: rest) = tokens? rest := by
  rw [tokens?, if_pos h]

theorem tokens?_mark {c : Char} {rest more : Text} {token : Token} (hblank : isBlankChar c = false)
    (hword : isWordChar c = false) (hquote : c ≠ '"') (h : mark? (c :: rest) = some (token, more)) :
    tokens? (c :: rest) = (tokens? more).map (token :: ·) := by
  rw [tokens?, if_neg (by simp [hblank]), if_neg (by simp [hword]), if_neg hquote]
  split
  · rename_i hnone
    rw [h] at hnone
    cases hnone
  · rename_i heq
    rw [h] at heq
    cases heq
    rfl

/-- An operator with a blank on either side is one token. -/
theorem tokens?_operator (op : Operator) (rest : Text) :
    tokens? ((" " ++ op.symbol ++ " ").toList ++ rest) = (tokens? rest).map (.operator op :: ·) := by
  rw [← tokens?_blank space_blank rest]
  cases op <;>
    exact (tokens?_blank space_blank _).trans
      (tokens?_mark (by decide) (by decide) (by decide) rfl)

theorem lexes_word {word : Text} (hne : word ≠ []) (hword : ∀ c ∈ word, isWordChar c = true) :
    Lexes word [.word word] := by
  intro rest hstop
  obtain ⟨c, more, rfl⟩ := List.exists_cons_of_ne_nil hne
  have hc := hword c (List.mem_cons_self ..)
  have hblank : isBlankChar c = false := by
    simp only [isWordChar, Bool.and_eq_true, Bool.not_eq_true'] at hc
    exact hc.1
  have hmore : ∀ d ∈ more, isWordChar d = true := fun d hd => hword d (List.mem_cons_of_mem _ hd)
  have htake : rest.takeWhile isWordChar = [] := by
    cases rest with
    | nil => rfl
    | cons d rest => rw [List.takeWhile_cons_of_neg]; simp [hstop d rfl]
  have hdrop : rest.dropWhile isWordChar = rest := by
    cases rest with
    | nil => rfl
    | cons d rest => rw [List.dropWhile_cons_of_neg]; simp [hstop d rfl]
  rw [List.cons_append, tokens?, if_neg (by simp [hblank]), if_pos hc,
    List.takeWhile_append_of_pos hmore, List.dropWhile_append_of_pos hmore, htake, hdrop,
    List.append_nil]
  rfl

theorem lexes_quote (text : Text) : Lexes (quote text) [.string text] := by
  intro rest _
  have hread : closeQuote? (text.flatMap escape ++ ['"'] ++ rest) = some (text, rest) := by
    rw [List.append_assoc]
    exact closeQuote?_quoted text rest
  rw [quote, List.cons_append, tokens?, if_neg (by decide), if_neg (by decide), if_pos rfl]
  split
  · rename_i hnone
    rw [hread] at hnone
    cases hnone
  · rename_i heq
    rw [hread] at heq
    cases heq
    rfl

/-- A text in parentheses. -/
theorem Lexes.parenthesize {text : Text} {tokens : List Token} (h : Lexes text tokens) :
    Lexes (Text.parenthesize text) (.openGroup :: tokens ++ [.closeGroup]) := by
  intro rest _
  have hclose : tokens? (')' :: rest) = (tokens? rest).map (.closeGroup :: ·) :=
    tokens?_mark (by decide) (by decide) (by decide) rfl
  have hopen : tokens? ('(' :: (text ++ ')' :: rest)) =
      (tokens? (text ++ ')' :: rest)).map (.openGroup :: ·) :=
    tokens?_mark (by decide) (by decide) (by decide) rfl
  have hstop : Stops (')' :: rest) := fun c hc => by cases hc; decide
  rw [Text.parenthesize, List.cons_append, List.append_assoc, List.singleton_append, hopen,
    h _ hstop, hclose]
  simp [Function.comp_def]

theorem Lexes.guarded {text : Text} {tokens : List Token} (h : Lexes text tokens)
    (requested order : Order) :
    Lexes (Expression.guarded requested order text) (guardedTokens requested order tokens) := by
  unfold Expression.guarded guardedTokens
  split
  · exact h.parenthesize
  · exact h

/-- A written tree has the tokens of the tree. -/
theorem lexes_text : ∀ e : Expression, Lexes e.text e.tokens
  | .number digits => lexes_word digits.2.1 digits.2.word
  | .boolean value =>
    lexes_word (booleanWord_isIdentifier value).1 (booleanWord_isIdentifier value).2.1
  | .string text => lexes_quote text
  | .var name => lexes_word name.2.1.1 name.2.1.2.1
  | .binary op left right => by
    intro rest hstop
    have hspace : ∀ more : Text, Stops ((" " ++ op.symbol ++ " ").toList ++ more) := by
      intro more c hc
      cases op <;> cases hc <;> decide
    rw [text, tokens, List.append_assoc, List.append_assoc,
      (lexes_text left).guarded _ _ _ (hspace _), tokens?_operator,
      (lexes_text right).guarded _ _ _ hstop]
    simp [Function.comp_def]
  | .not operand => by
    intro rest hstop
    have hbang : ∀ more : Text,
        tokens? ('!' :: '(' :: more) = (tokens? ('(' :: more)).map (.bang :: ·) :=
      fun more => tokens?_mark (by decide) (by decide) (by decide) rfl
    have hgroup := (lexes_text operand).parenthesize rest hstop
    rw [Text.parenthesize, List.cons_append] at hgroup
    rw [text, tokens]
    simp only [show "!(".toList = ['!', '('] from rfl, show ")".toList = [')'] from rfl,
      List.cons_append, List.nil_append]
    rw [hbang, hgroup]
    simp [Function.comp_def]
  | .property object name => by
    intro rest hstop
    have hdot : ∀ more : Text, tokens? ('.' :: more) = (tokens? more).map (.dot :: ·) :=
      fun more => tokens?_mark (by decide) (by decide) (by decide) rfl
    have hname := lexes_word name.2.1 name.2.2.1 rest hstop
    rw [text, tokens, List.append_assoc, List.append_assoc,
      (lexes_text object).guarded _ _ _ (fun c hc => by cases hc; decide)]
    simp only [show ".".toList = ['.'] from rfl, List.cons_append, List.nil_append]
    rw [hdot, hname]
    simp [Function.comp_def]
  | .index object subscript => by
    intro rest hstop
    have hopen : ∀ more : Text, tokens? ('[' :: more) = (tokens? more).map (.openIndex :: ·) :=
      fun more => tokens?_mark (by decide) (by decide) (by decide) rfl
    have hclose : tokens? (']' :: rest) = (tokens? rest).map (.closeIndex :: ·) :=
      tokens?_mark (by decide) (by decide) (by decide) rfl
    rw [text, tokens, List.append_assoc, List.append_assoc, List.append_assoc,
      (lexes_text object).guarded _ _ _ (fun c hc => by cases hc; decide)]
    simp only [show "[".toList = ['['] from rfl, show "]".toList = [']'] from rfl,
      List.cons_append, List.nil_append]
    rw [hopen, lexes_text subscript _ (fun c hc => by cases hc; decide), hclose]
    simp [Function.comp_def]

/-! ### Closing what is open -/

/-- The constructs that wait when a left operand and its operator do before others. -/
def push (left? : Option (Expression × Operator)) (pending : List Pending) : List Pending :=
  match left? with
  | none => pending
  | some (left, op) => .binary left op :: pending

/-- A region with the operand and the operator that stand before it. -/
def prepend (left? : Option (Expression × Operator)) (region : Region) : Region :=
  match left? with
  | none => region
  | some (left, op) => (left, (op, region.1) :: region.2)

/-- What waits first binds less tightly than `rank`, or is an open bracket. -/
def Looser (rank : Nat) : List Pending → Prop
  | .binary _ op :: _ => op.rank < rank
  | .not :: _ => Order.logicalNot.rank < rank
  | _ => True

theorem Looser.mono {low high : Nat} {pending : List Pending} (h : Looser low pending)
    (hle : low ≤ high) : Looser high pending := by
  match pending, h with
  | [], _ | .group :: _, _ | .index _ :: _, _ => trivial
  | .not :: _, h => exact Nat.lt_of_lt_of_le h hle
  | .binary _ _ :: _, h => exact Nat.lt_of_lt_of_le h hle

/-- Nothing is closed before constructs that bind less tightly. -/
theorem close_of_looser {rank : Nat} {pending : List Pending} (h : Looser rank pending)
    (e : Expression) : close rank pending e = (pending, e) := by
  match pending, h with
  | [], _ | .group :: _, _ | .index _ :: _, _ => rfl
  | .not :: _, h => rw [close, if_neg (Nat.not_le.2 h)]
  | .binary _ _ :: _, h => rw [close, if_neg (Nat.not_le.2 h)]

/-- Nothing is closed before `.name` and `[e]`. -/
theorem close_member (pending : List Pending) (e : Expression) :
    close Order.member.rank pending e = (pending, e) := by
  refine close_of_looser ?_ e
  match pending with
  | [] | .group :: _ | .index _ :: _ => trivial
  | .not :: _ => exact show Order.logicalNot.rank < Order.member.rank by decide
  | .binary _ op :: _ =>
    have hop := op.rank_lt_not
    exact Nat.lt_trans hop (show Order.logicalNot.rank < Order.member.rank by decide)

theorem close_push {rank closing : Nat} {left? : Option (Expression × Operator)}
    (hrank : ∀ left ∈ left?, left.2.rank = rank) (hle : closing ≤ rank) (pending : List Pending)
    (e : Expression) :
    close closing (push left? pending) e = close closing pending (foldLeft (prepend left? (e, []))) := by
  cases left? with
  | none => rfl
  | some left =>
    have hclosing : closing ≤ left.2.rank := by
      rw [hrank left rfl]
      exact hle
    rw [push, close, if_pos hclosing]
    rfl

/-! ### Reading the tokens of a tree -/

theorem Reader.run_append (reader : Reader) (before after : List Token) :
    reader.run (before ++ after) = (reader.run before).bind fun next => next.run after :=
  List.foldlM_append

/-- From where an operand is due, the tokens lead to a value that closes to the region, whatever waits
before it and binds less tightly, and an operand and operator of the region's rank. -/
def Reads (tokens : List Token) (rank : Nat) (region : Region) : Prop :=
  ∀ (pending : List Pending) (left? : Option (Expression × Operator)), Looser rank pending →
    (∀ left ∈ left?, left.2.rank = rank) →
    ∃ opened e, Reader.run ⟨push left? pending, .operand⟩ tokens = some ⟨opened, .value e⟩ ∧
      ∀ closing ≤ rank,
        close closing opened e = close closing pending (foldLeft (prepend left? region))

/-- Tokens that are read as one value, whatever waits. -/
theorem reads_of_value {tokens : List Token} {e : Expression} (rank : Nat)
    (h : ∀ pending, Reader.run ⟨pending, .operand⟩ tokens = some ⟨pending, .value e⟩) :
    Reads tokens rank (e, []) :=
  fun pending left? _ hrank =>
    ⟨push left? pending, e, h _, fun _ hle => close_push hrank hle pending e⟩

/-- A region is one operand of every operator that binds less tightly. -/
theorem Reads.weaken {tokens : List Token} {low high : Nat} {region : Region}
    (h : Reads tokens high region) (hlt : low < high) :
    Reads tokens low (foldLeft region, []) := by
  intro pending left? hlooser hrank
  have hpush : Looser high (push left? pending) := by
    cases left? with
    | none => exact hlooser.mono (Nat.le_of_lt hlt)
    | some left =>
      show left.2.rank < high
      rw [hrank left rfl]
      exact hlt
  obtain ⟨opened, e, hrun, hclose⟩ := h (push left? pending) none hpush (by simp)
  refine ⟨opened, e, hrun, ?_⟩
  intro closing hle
  rw [hclose closing (Nat.le_trans hle (Nat.le_of_lt hlt)), ← close_push hrank hle]
  rfl

/-- From an open bracket on, the tokens lead to a value that closes to the folded region. -/
theorem Reads.bracketed {tokens : List Token} {rank : Nat} {region : Region}
    (h : Reads tokens rank region) (bracket : Pending) (pending : List Pending)
    (hlooser : ∀ rank, Looser rank (bracket :: pending)) :
    ∃ opened e, Reader.run ⟨bracket :: pending, .operand⟩ tokens = some ⟨opened, .value e⟩ ∧
      close Order.none.rank opened e = (bracket :: pending, foldLeft region) := by
  obtain ⟨opened, e, hrun, hclose⟩ := h (bracket :: pending) none (hlooser rank) (by simp)
  refine ⟨opened, e, hrun, ?_⟩
  rw [hclose Order.none.rank (Nat.zero_le _)]
  exact close_of_looser (hlooser _) _

/-- A region in parentheses is one value. -/
theorem Reads.run_group {tokens : List Token} {rank : Nat} {region : Region}
    (h : Reads tokens rank region) (pending : List Pending) :
    Reader.run ⟨pending, .operand⟩ (.openGroup :: tokens ++ [.closeGroup]) =
      some ⟨pending, .value (foldLeft region)⟩ := by
  obtain ⟨opened, e, hrun, hclose⟩ := h.bracketed .group pending fun _ => trivial
  have hopen : Reader.run ⟨pending, .operand⟩ (.openGroup :: tokens) = some ⟨opened, .value e⟩ := hrun
  rw [Reader.run_append, hopen]
  simp [Reader.run, Reader.step, hclose]

/-- An operand as it stands on a side of an operator. -/
theorem Reads.guarded {e : Expression} (h : Reads e.tokens e.rank e.operands) (op : Operator) :
    Reads (guardedTokens op.order e.order e.tokens) op.rank (within op.rank e.rank e.operands) := by
  unfold guardedTokens within
  by_cases hlt : e.rank < op.rank
  · have hparens : e.order.needsParens op.order = true := decide_eq_true hlt
    rw [if_pos hparens, if_neg (Nat.ne_of_lt hlt)]
    exact reads_of_value _ h.run_group
  · have hparens : e.order.needsParens op.order = false := decide_eq_false hlt
    rw [hparens, if_neg Bool.false_ne_true]
    split
    · rename_i heq
      rw [← heq]
      exact h
    · rename_i hne
      exact h.weaken (by omega)

/-- Two regions with an operator of their rank between them. -/
theorem Reads.binary {before after : List Token} {op : Operator} {left right : Region}
    (hbefore : Reads before op.rank left) (hafter : Reads after op.rank right) :
    Reads (before ++ .operator op :: after) op.rank (left.1, left.2 ++ (op, right.1) :: right.2) := by
  intro pending left? hlooser hrank
  obtain ⟨opened, e, hrun, hclose⟩ := hbefore pending left? hlooser hrank
  have hfirst : close op.rank opened e = (pending, foldLeft (prepend left? left)) := by
    rw [hclose op.rank (Nat.le_refl _)]
    exact close_of_looser hlooser _
  -- the operator closes the left region, which then waits with it for the right one
  obtain ⟨opened', e', hrun', hclose'⟩ :=
    hafter pending (some (foldLeft (prepend left? left), op)) hlooser (by simp)
  refine ⟨opened', e', ?_, fun closing hle => ?_⟩
  · have hstep : Reader.step ⟨opened, .value e⟩ (.operator op) =
        some ⟨.binary (foldLeft (prepend left? left)) op :: pending, .operand⟩ := by
      simp [Reader.step, hfirst]
    rw [Reader.run_append, hrun, Option.bind_some, Reader.run, List.foldlM_cons, hstep]
    exact hrun'
  · rw [hclose' closing hle]
    cases left? <;> simp [prepend, foldLeft]

/-- An operand in the place before `.name` or `[e]`, where it is read as the value it folds to. -/
theorem Reads.run_member {e : Expression} (h : Reads e.tokens e.rank e.operands)
    (pending : List Pending) :
    Reader.run ⟨pending, .operand⟩ (guardedTokens .member e.order e.tokens) =
      some ⟨pending, .value e.regroup⟩ := by
  unfold guardedTokens
  by_cases hlt : e.rank < Order.member.rank
  · have hparens : e.order.needsParens .member = true := decide_eq_true hlt
    rw [if_pos hparens]
    exact h.run_group pending
  · have hparens : e.order.needsParens .member = false := decide_eq_false hlt
    rw [hparens, if_neg Bool.false_ne_true]
    have hlooser : Looser e.rank pending := by
      match pending with
      | [] | .group :: _ | .index _ :: _ => trivial
      | .not :: _ => exact Nat.lt_of_lt_of_le (show _ < Order.member.rank by decide) (by omega)
      | .binary _ op :: _ =>
        have hop := op.rank_lt_not
        exact Nat.lt_of_lt_of_le (Nat.lt_trans hop (show _ < Order.member.rank by decide)) (by omega)
    obtain ⟨opened, value, hrun, hclose⟩ := h pending none hlooser (by simp)
    have hvalue := hclose Order.member.rank (by omega)
    rw [close_member, close_member] at hvalue
    cases hvalue
    exact hrun

/-- The tokens of a tree are read as its outermost region. -/
theorem reads_tokens : ∀ e : Expression, Reads e.tokens e.rank e.operands
  | .number digits => reads_of_value _ fun pending => by
    simp [tokens, Reader.run, Reader.step, ofWord?, digits.2]
  | .boolean value => reads_of_value _ fun pending => by
    cases value <;> rfl
  | .string text => reads_of_value _ fun pending => rfl
  | .var name => reads_of_value _ fun pending => by
    have hnum := name.2.1.not_isNumeral
    have htrue : name.1 ≠ booleanWord true := name.2.2.1
    have hfalse : name.1 ≠ booleanWord false := name.2.2.2
    simp [tokens, Reader.run, Reader.step, ofWord?, hnum, htrue, hfalse, name.2]
  | .binary op left right =>
    ((reads_tokens left).guarded op).binary ((reads_tokens right).guarded op)
  | .not operand => by
    intro pending left? _ hrank
    have hgroup := (reads_tokens operand).run_group (.not :: push left? pending)
    refine ⟨.not :: push left? pending, foldLeft operand.operands, hgroup, ?_⟩
    intro closing hle
    have hnot : closing ≤ Order.logicalNot.rank := hle
    rw [close, if_pos hnot, close_push hrank hle]
    rfl
  | .property object name => reads_of_value _ fun pending => by
    rw [tokens, Reader.run_append, (reads_tokens object).run_member pending]
    simp [Reader.run, Reader.step, name.2, regroup]
  | .index object subscript => reads_of_value _ fun pending => by
    obtain ⟨opened, e, hrun, hclose⟩ :=
      (reads_tokens subscript).bracketed (.index object.regroup) pending fun _ => trivial
    have hopen : Reader.run ⟨pending, .value object.regroup⟩ (.openIndex :: subscript.tokens) =
        some ⟨opened, .value e⟩ := hrun
    rw [tokens, Reader.run_append, Reader.run_append, (reads_tokens object).run_member pending,
      Option.bind_some, hopen]
    simp [Reader.run, Reader.step, hclose, regroup]

/-- A written tree reads back as the tree with all its regions folded to the left. -/
theorem read?_text (e : Expression) : read? e.text = some e.regroup := by
  have htokens : tokens? e.text = some e.tokens := by
    have h := lexes_text e [] (by simp [Stops])
    rw [List.append_nil, tokens?] at h
    simpa using h
  obtain ⟨opened, value, hrun, hclose⟩ := reads_tokens e [] none trivial (by simp)
  have htree : Reader.tree? ⟨opened, .value value⟩ = some e.regroup := by
    rw [Reader.tree?, hclose Order.none.rank (Nat.zero_le _)]
    rfl
  rw [read?, htokens]
  show (Reader.run ⟨[], .operand⟩ e.tokens).bind Reader.tree? = some e.regroup
  rw [show (⟨[], .operand⟩ : Reader) = ⟨push none [], .operand⟩ from rfl, hrun]
  exact htree

end Expression
end BlockProgram
