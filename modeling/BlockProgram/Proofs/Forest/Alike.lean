import BlockProgram.Proofs.Forest.Acceptance
import BlockProgram.Proofs.Forest.Unfolding

/-!
Blocks that read alike. The text of a chain depends on the kinds and the fields of its blocks and on how
they are plugged into each other, but not on their numbers, and their ids stand in errors alone. So if
two workspaces hold the blocks of the same part of a document, wherever they hold them, the chains have
the same text or none (`Chain.twins`), and so have the programs of such chains in one order
(`Workspace.agree_programOf`).

`Agree` compares values up to errors. Two segments are alike if their codes agree whenever their arguments
do; each way of reading a chain takes segments that are alike to values that agree.
-/

namespace BlockProgram

/-! ### Values up to errors -/

/-- Both values are the same, or both are errors. -/
def Agree {α : Type} (value value' : Except GenerateError α) : Prop :=
  value.toOption = value'.toOption

namespace Agree

variable {α β : Type} {value value' : Except GenerateError α}

theorem refl (value : Except GenerateError α) : Agree value value :=
  rfl

theorem error (e e' : GenerateError) : Agree (.error e : Except GenerateError α) (.error e') :=
  rfl

theorem ok_iff (h : Agree value value') {a : α} : value = .ok a ↔ value' = .ok a := by
  cases value <;> cases value' <;> simp_all [Agree, Except.toOption]

theorem bind {next next' : α → Except GenerateError β} (h : Agree value value')
    (hnext : ∀ a, Agree (next a) (next' a)) : Agree (value >>= next) (value' >>= next') := by
  cases value with
  | error e =>
    cases value' with
    | error e' => rfl
    | ok a' => cases h
  | ok a =>
    cases value' with
    | error e' => cases h
    | ok a' =>
      cases h
      exact hnext a

theorem map (f : α → β) (h : Agree value value') : Agree (value.map f) (value'.map f) := by
  cases value with
  | error e =>
    cases value' with
    | error e' => rfl
    | ok a' => cases h
  | ok a =>
    cases value' with
    | error e' => cases h
    | ok a' =>
      cases h
      rfl

end Agree

/-! ### Segments -/

namespace Segment

/-- Both segments have one kind, and their codes agree if their arguments do. -/
structure Alike (segment segment' : Segment) : Prop where
  kind_eq : segment.kind = segment'.kind
  code : ∀ arguments arguments', Agree arguments arguments' →
    Agree (segment.code arguments) (segment'.code arguments')

/-- The blocks of two chains are alike, one by one. -/
abbrev AllAlike : List Segment → List Segment → Prop :=
  List.Forall₂ Alike

variable {segments segments' : List Segment}

theorem AllAlike.spentCode (h : AllAlike segments segments') (wasSpent : Bool) :
    Agree (spentCode wasSpent segments) (spentCode wasSpent segments') := by
  induction h with
  | nil => exact .refl _
  | @cons first first' rest rest' hfirst _ ih =>
    rw [Segment.spentCode, Segment.spentCode, ← hfirst.kind_eq]
    split
    · exact .refl _
    · exact hfirst.code _ _ (ih.map _)

theorem AllAlike.ownCode (h : AllAlike segments segments') :
    Agree (ownCode segments) (ownCode segments') := by
  rw [← spentCode_false, ← spentCode_false]
  exact h.spentCode false

theorem AllAlike.spent (h : AllAlike segments segments') {previous previous' : Segment}
    (hkind : previous.kind = previous'.kind) :
    Agree (spent previous segments) (spent previous' segments') := by
  induction h generalizing previous previous' with
  | nil => exact .refl _
  | @cons next next' rest rest' hnext hrest ih =>
    have hall : AllAlike (next :: rest) (next' :: rest') := .cons hnext hrest
    rw [Segment.spent, Segment.spent, hkind]
    exact ((hall.spentCode _).map _).bind fun _ => (ih hnext.kind_eq).bind fun _ => .refl _

theorem AllAlike.chainCode {first first' : Segment} {rest rest' : List Segment}
    (h : AllAlike (first :: rest) (first' :: rest')) :
    Agree (chainCode Segment.spent first rest) (chainCode Segment.spent first' rest') := by
  have hfirst : first.Alike first' := (List.forall₂_cons.1 h).1
  have hrest : AllAlike rest rest' := (List.forall₂_cons.1 h).2
  exact h.ownCode.bind fun _ => (hrest.spent hfirst.kind_eq).bind fun _ => .refl _

end Segment

open Segment (AllAlike)

/-! ### Blocks -/

namespace Block

variable {g : Generator} {plugged plugged' : String → List Segment} {block block' : Block}
  {input : String}

theorem agree_valueText (h : AllAlike (plugged input) (plugged' input)) (order : Order) :
    Agree (block.valueText Segment.spent plugged input order)
      (block'.valueText Segment.spent plugged' input order) := by
  rw [valueText, valueText]
  revert h
  cases plugged input <;> cases plugged' input
  · exact fun _ => .refl _
  · exact fun h => by cases h
  · exact fun h => by cases h
  · intro h
    refine h.chainCode.bind fun code => ?_
    cases code with
    | expression => exact .refl _
    | statement => exact .error _ _

theorem agree_valueOr (h : AllAlike (plugged input) (plugged' input)) (order : Order)
    (placeholder : String) : Agree (block.valueOr Segment.spent plugged input order placeholder)
      (block'.valueOr Segment.spent plugged' input order placeholder) :=
  (agree_valueText h order).bind fun _ => .refl _

theorem agree_bodyText (h : AllAlike (plugged input) (plugged' input)) :
    Agree (block.bodyText g Segment.spent plugged input)
      (block'.bodyText g Segment.spent plugged' input) := by
  rw [bodyText, bodyText]
  revert h
  cases plugged input <;> cases plugged' input
  · exact fun _ => .refl _
  · exact fun h => by cases h
  · exact fun h => by cases h
  · intro h
    refine h.chainCode.bind fun code => ?_
    cases code with
    | expression => exact .error _ _
    | statement => exact .refl _

theorem agree_itemTexts {segments segments' : List Segment} (h : AllAlike segments segments') :
    Agree (block.itemTexts input segments) (block'.itemTexts input segments') := by
  induction h with
  | nil => exact .refl _
  | @cons item item' rest rest' hitem hrest ih =>
    have hall : AllAlike (item :: rest) (item' :: rest') := .cons hitem hrest
    rw [itemTexts, itemTexts]
    refine hall.ownCode.bind fun code => ?_
    cases code with
    | expression => exact .error _ _
    | statement => exact ih.bind fun _ => .refl _

/-- What a block is read by: its kind, its fields, and what is plugged into it. -/
theorem alike_code (hkind : block.kind = block'.kind) (hfields : block.fields = block'.fields)
    (hplugged : ∀ input, AllAlike (plugged input) (plugged' input)) :
    Segment.Alike ⟨block.kind, block.code g Segment.spent plugged⟩
      ⟨block'.kind, block'.code g Segment.spent plugged'⟩ where
  kind_eq := hkind
  code arguments arguments' harguments := by
    have hfield (name : String) : block.field? name = block'.field? name := by
      rw [field?, field?, hfields]
    have hpiece (piece : Piece) : Agree (block.pieceText g Segment.spent plugged arguments piece)
        (block'.pieceText g Segment.spent plugged' arguments' piece) := by
      cases piece with
      | text => exact .refl _
      | field name | quoted name =>
        rw [pieceText, pieceText, hfield]
        exact .refl _
      | value input order placeholder => exact agree_valueOr (hplugged input) order placeholder
      | body input => exact agree_bodyText (hplugged input)
      | list input | properties input | parameters input =>
        exact (agree_itemTexts (hplugged input)).bind fun _ => .refl _
      | callee input order placeholder =>
        exact (agree_valueOr (hplugged input) order placeholder).bind fun _ => .refl _
      | arguments => exact harguments
      | literal name => exact .refl _
    have hpieces (pieces : List Piece) :
        Agree (block.piecesText g Segment.spent plugged arguments pieces)
          (block'.piecesText g Segment.spent plugged' arguments' pieces) := by
      induction pieces with
      | nil => exact .refl _
      | cons piece rest ih => exact (hpiece piece).bind fun _ => ih.bind fun _ => .refl _
    show Agree (block.code g Segment.spent plugged arguments)
      (block'.code g Segment.spent plugged' arguments')
    rw [Block.code, Block.code, hkind]
    exact (hpieces _).bind fun _ => .refl _

end Block

/-! ### Tables -/

namespace Table

variable {α β : Type} {R : α → β → Prop}

/-- Two tables with the same names, whose values under each name are related. -/
abbrev Related (R : α → β → Prop) : Table α → Table β → Prop :=
  List.Forall₂ fun entry entry' => entry.1 = entry'.1 ∧ R entry.2 entry'.2

variable {table : Table α} {table' : Table β}

theorem Related.insert (h : Related R table table') (name : String) {a : α} {b : β} (hab : R a b) :
    Related R (insert name a table) (insert name b table') := by
  induction h with
  | nil => exact .cons ⟨rfl, hab⟩ .nil
  | @cons entry entry' rest rest' hentry hrest ih =>
    rw [Table.insert, Table.insert, ← hentry.1]
    split_ifs
    · exact .cons ⟨rfl, hab⟩ (.cons hentry hrest)
    · exact .cons ⟨rfl, hab⟩ hrest
    · exact .cons hentry ih

theorem Related.ofList {entries : List (String × α)} {entries' : List (String × β)}
    (h : Related R entries entries') : Related R (ofList entries) (ofList entries') := by
  have hfold {table : Table α} {table' : Table β} (htable : Related R table table') :
      Related R (entries.foldl (fun table entry => Table.insert entry.1 entry.2 table) table)
        (entries'.foldl (fun table entry => Table.insert entry.1 entry.2 table) table') := by
    induction h generalizing table table' with
    | nil => exact htable
    | @cons entry entry' _ _ hentry _ ih =>
      rw [List.foldl_cons, List.foldl_cons, ← hentry.1]
      exact ih (htable.insert entry.1 hentry.2)
  exact hfold .nil

theorem Related.find? (h : Related R table table') (name : String) :
    Option.Rel R (find? name table) (find? name table') := by
  induction h with
  | nil => exact .none
  | @cons entry entry' rest rest' hentry _ ih =>
    rw [find?_cons, find?_cons, ← hentry.1]
    split
    · exact .some hentry.2
    · exact ih

end Table

/-! ### Chains of two workspaces -/

section

variable {ws ws' : Workspace} {g : Generator}

/-- The stacks that start at two blocks are read alike. -/
def Twins (g : Generator) (ws ws' : Workspace) (id id' : BlockId) : Prop :=
  ∀ stack stack', Stack.At ws (some id) stack → Stack.At ws' (some id') stack' →
    AllAlike (stack.segments g Segment.spent) (stack'.segments g Segment.spent)

theorem Stack.At.eq_nil {stack : Stack} (h : stack.At ws none) : stack = .nil := by
  cases stack with
  | nil => rfl
  | cons => cases h.1

/-- What is plugged into the inputs of two blocks is read alike. -/
theorem alike_sockets {inputs inputs' : Table BlockId} {sockets sockets' : Sockets}
    (hrelated : Table.Related (Twins g ws ws') inputs inputs') (h : sockets.At ws inputs)
    (h' : sockets'.At ws' inputs') (input : String) :
    AllAlike (sockets.segments g Segment.spent input) (sockets'.segments g Segment.spent input) := by
  rw [Sockets.segments_eq, Sockets.segments_eq]
  have hfind := h.find input
  have hfind' := h'.find input
  have hrel := hrelated.find? input
  revert hfind hfind' hrel
  cases Table.find? input inputs <;> cases Table.find? input inputs'
  · intro hfind hfind' _
    rw [hfind.eq_nil, hfind'.eq_nil, Stack.segments_nil]
    exact .nil
  · exact fun _ _ hrel => by cases hrel
  · exact fun _ _ hrel => by cases hrel
  · intro hfind hfind' hrel
    cases hrel with
    | some htwins => exact htwins _ _ hfind hfind'

/-- Stacks that start with the blocks of one node are alike if what is plugged into them and what comes
after them is. -/
theorem twins_of_blocks {n n' : Nat} {block block' : Block} (hget : ws.get? ⟨n⟩ = some block)
    (hget' : ws'.get? ⟨n'⟩ = some block') (hkind : block.kind = block'.kind)
    (hfields : block.fields = block'.fields)
    (hinputs : Table.Related (Twins g ws ws') block.inputs block'.inputs)
    (hnext : Option.Rel (Twins g ws ws') block.next block'.next) : Twins g ws ws' ⟨n⟩ ⟨n'⟩ := by
  intro stack stack' hat hat'
  obtain ⟨sockets, rest, rfl⟩ := hat.exists_cons hget
  obtain ⟨sockets', rest', rfl⟩ := hat'.exists_cons hget'
  obtain ⟨-, -, hsockets, hrest⟩ := hat
  obtain ⟨-, -, hsockets', hrest'⟩ := hat'
  rw [Stack.segments_cons, Stack.segments_cons]
  refine .cons (Block.alike_code hkind hfields (alike_sockets hinputs hsockets hsockets')) ?_
  revert hrest hrest' hnext
  cases block.next <;> cases block'.next
  · intro _ hrest hrest'
    rw [hrest.eq_nil, hrest'.eq_nil, Stack.segments_nil]
    exact .nil
  · exact fun hnext => by cases hnext
  · exact fun hnext => by cases hnext
  · intro hnext hrest hrest'
    cases hnext with
    | some htwins => exact htwins _ _ hrest hrest'

mutual

/-- The blocks that are laid out for a chain are read alike, whatever their numbers are. -/
theorem Chain.twins {chain : Chain} {n n' : Nat} {position? position?' : Option Position}
    (hat : ws.HasAt n ((chain.blocks n).modifyHead fun block => { block with position := position? }))
    (hat' : ws'.HasAt n' ((chain.blocks n').modifyHead fun block =>
      { block with position := position?' })) : Twins g ws ws' ⟨n⟩ ⟨n'⟩ := by
  match chain with
  | .last (.mk label inputs) =>
    rw [Chain.blocks, Node.blocks, List.modifyHead_cons] at hat hat'
    exact twins_of_blocks hat.head hat'.head rfl rfl (Inputs.twins hat.tail hat'.tail).ofList .none
  | .link (.mk label inputs) rest =>
    rw [Chain.blocks, Node.blocks, List.cons_append, List.modifyHead_cons] at hat hat'
    have hrest := hat.tail.right
    have hrest' := hat'.tail.right
    rw [Inputs.length_blocks, ← Chain.blocks_unplaced, Nat.add_assoc, Nat.add_comm 1,
      ← Node.size] at hrest hrest'
    exact twins_of_blocks hat.head hat'.head rfl rfl
      (Inputs.twins hat.tail.left hat'.tail.left).ofList (.some (Chain.twins hrest hrest'))

theorem Inputs.twins {inputs : Inputs} {n n' : Nat} (hat : ws.HasAt n (inputs.blocks n))
    (hat' : ws'.HasAt n' (inputs.blocks n')) :
    Table.Related (Twins g ws ws') (inputs.links n) (inputs.links n') := by
  match inputs with
  | .nil =>
    rw [Inputs.links, Inputs.links]
    exact .nil
  | .cons name chain rest =>
    rw [Inputs.blocks] at hat hat'
    have hrest := hat.right
    have hrest' := hat'.right
    rw [Chain.length_blocks] at hrest hrest'
    have hchain := hat.left
    have hchain' := hat'.left
    rw [← Chain.blocks_unplaced] at hchain hchain'
    rw [Inputs.links, Inputs.links]
    exact .cons ⟨rfl, Chain.twins hchain hchain'⟩ (Inputs.twins hrest hrest')

end

/-! ### Programs -/

theorem Stack.agree_text {stack stack' : Stack}
    (h : AllAlike (stack.segments g Segment.spent) (stack'.segments g Segment.spent)) :
    Agree (stack.text g Segment.spent) (stack'.text g Segment.spent) := by
  rw [Stack.text, Stack.text]
  revert h
  cases stack.segments g Segment.spent <;> cases stack'.segments g Segment.spent
  · exact fun _ => .refl _
  · exact fun h => by cases h
  · exact fun h => by cases h
  · exact fun h => h.chainCode.map _

/-- Custom types are missed in both workspaces or in none, and then their stacks decide. -/
theorem Workspace.agree_programOf {forest forest' : List Stack} (hspelled : ws.Spelled g ↔ ws'.Spelled g)
    (halike : List.Forall₂ (fun stack stack' : Stack =>
      AllAlike (stack.segments g Segment.spent) (stack'.segments g Segment.spent)) forest forest') :
    Agree (ws.programOf g Segment.spent forest) (ws'.programOf g Segment.spent forest') := by
  have htexts : Agree (Stack.texts g Segment.spent forest) (Stack.texts g Segment.spent forest') := by
    induction halike with
    | nil => exact .refl _
    | cons hstack _ ih => exact (Stack.agree_text hstack).bind fun _ => ih.bind fun _ => .refl _
  rw [Workspace.spelled_iff, Workspace.spelled_iff] at hspelled
  rw [programOf, programOf]
  revert hspelled
  cases ws.blocks.toList.findSome? g.missingLiteral? <;>
    cases ws'.blocks.toList.findSome? g.missingLiteral? <;> intro hspelled
  · exact htexts.bind fun _ => .refl _
  · cases hspelled.1 rfl
  · cases hspelled.2 rfl
  · exact .error _ _

end

end BlockProgram
