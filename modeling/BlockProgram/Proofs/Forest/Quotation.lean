import BlockProgram.Proofs.Forest.Nesting
import BlockProgram.Proofs.Text.Verbatim

/-!
Literals in generated code. What a block is written as holds what is plugged into it, and this goes on up to the
canvas; the one socket whose text is cut inside is that of a callee. After a call, a block may be written twice
or once:

    x ─next─▶ y              text of x, text of y
    call ─next─▶ y           name(own text of y), then the text of y again, unless y is parameters

so a text that is read of a chain after a call is in what the call has taken, or in what comes after it
(`Carries`).
-/

namespace BlockProgram

open Text

/-! ### Chains -/

/-- A text is in what is read of a chain: in what a call before it takes or in what is left after the call, and
in one of the items. -/
structure Carries (inner : Text) (segments : List Segment) : Prop where
  own_or_after : ∀ previous code text, Segment.ownCode segments = .ok code →
    Segment.spent previous segments = .ok text → inner <:+: code.text ∨ inner <:+: text
  items : ∀ (block : Block) input texts, block.itemTexts input segments = .ok texts →
    ∃ text ∈ texts, inner <:+: text

namespace Carries

variable {inner : Text} {first previous : Segment} {segments rest : List Segment}

theorem exists_cons (h : Carries inner segments) : ∃ first rest, segments = first :: rest := by
  cases segments with
  | nil =>
    obtain ⟨text, htext, -⟩ := h.items { id := "", kind := .arrayLiteral } "" [] rfl
    cases htext
  | cons first rest => exact ⟨first, rest, rfl⟩

/-- After a block that is no call, the text is read. -/
theorem after (h : Carries inner segments) (hprevious : previous.kind ≠ .functionCall) {text : Text}
    (htext : Segment.spent previous segments = .ok text) : inner <:+: text := by
  obtain ⟨first, rest, rfl⟩ := h.exists_cons
  have hspent := htext
  rw [Segment.spent, decide_eq_false hprevious, Segment.spentCode_false] at htext
  obtain ⟨own, hown, htext⟩ := exists_of_bind htext
  obtain ⟨more, hmore, htext⟩ := exists_of_bind htext
  obtain ⟨code, hcode, rfl⟩ := exists_of_map hown
  cases htext
  rcases h.own_or_after previous code _ hcode hspent with hown | hafter
  · exact List.infix_append_of_infix_left hown
  · exact hafter

theorem chain (h : Carries inner (first :: rest)) {code : Code}
    (hcode : Segment.chainCode Segment.spent first rest = .ok code) : inner <:+: code.text := by
  obtain ⟨own, hown, hcode⟩ := exists_of_bind hcode
  obtain ⟨more, hmore, hcode⟩ := exists_of_bind hcode
  cases hcode
  -- a chain is read as it would be after a block that is no call
  have hkind : BlockKind.stringLiteral ≠ .functionCall := by decide
  have hspent : Segment.spent ⟨.stringLiteral, first.code⟩ (first :: rest) = .ok (own.text ++ more) := by
    rw [Segment.spent, decide_eq_false hkind, Segment.spentCode_false, hown, hmore]
    rfl
  have hinfix := h.after hkind hspent
  cases own <;> exact hinfix

/-- A chain carries what its first block is written with. -/
theorem of_own (h : ∀ arguments code, first.code arguments = .ok code → inner <:+: code.text) :
    Carries inner (first :: rest) where
  own_or_after previous code text hcode _ := .inl (h _ code hcode)
  items block input texts htexts := by
    obtain ⟨text, more, hcode, -, rfl⟩ := Block.itemTexts_ok htexts
    exact ⟨text, List.mem_cons_self .., h _ _ hcode⟩

/-- A chain carries what the blocks after its first one carry. -/
theorem of_rest (h : Carries inner rest)
    (hcall : first.kind = .functionCall → ∀ arguments code, first.code arguments = .ok code →
      ∃ text, arguments = .ok text ∧ text <:+: code.text) : Carries inner (first :: rest) where
  own_or_after previous code text hcode htext := by
    obtain ⟨own, -, htext⟩ := exists_of_bind htext
    obtain ⟨more, hmore, htext⟩ := exists_of_bind htext
    cases htext
    by_cases hkind : first.kind = .functionCall
    · obtain ⟨taken, harguments, hinfix⟩ := hcall hkind _ code hcode
      obtain ⟨next, hnext, rfl⟩ := exists_of_map harguments
      rcases h.own_or_after first next more hnext hmore with hown | hafter
      · exact .inl (hown.trans hinfix)
      · exact .inr (List.infix_append_of_infix_right hafter)
    · exact .inr (List.infix_append_of_infix_right (h.after hkind hmore))
  items block input texts htexts := by
    obtain ⟨text, more, -, hmore, rfl⟩ := Block.itemTexts_ok htexts
    obtain ⟨found, hfound, hinfix⟩ := h.items block input more hmore
    exact ⟨found, List.mem_cons_of_mem _ hfound, hinfix⟩

end Carries

/-! ### Blocks -/

namespace Block

variable {g : Generator} {rule : ChainRule} {plugged : String → List Segment} {block : Block}
  {arguments : Except GenerateError Text} {code : Code} {inner : Text} {input : String}

/-- What a block is written as holds what each of its pieces is written as. -/
theorem exists_infix_code (h : block.code g rule plugged arguments = .ok code) {piece : Piece}
    (hpiece : piece ∈ block.kind.template.pieces) :
    ∃ part, block.pieceText g rule plugged arguments piece = .ok part ∧ part <:+: code.text := by
  rw [Block.code] at h
  obtain ⟨text, htext, h⟩ := exists_of_bind h
  cases h
  obtain ⟨init, tail, hpieces⟩ := List.append_of_mem hpiece
  rw [hpieces] at htext
  obtain ⟨front, back, -, hback, rfl⟩ := piecesText_append htext
  obtain ⟨part, hpart, hback⟩ := exists_of_bind hback
  obtain ⟨more, -, hback⟩ := exists_of_bind hback
  cases hback
  refine ⟨part, hpart, ?_⟩
  cases block.kind.template.shape <;>
    exact List.infix_append_of_infix_right (List.infix_append_of_infix_left (List.infix_refl part))

theorem infix_valueText (hplugged : Carries inner (plugged input)) {order : Order} {text : Text}
    (h : block.valueText Segment.spent plugged input order = .ok text) : inner <:+: text := by
  obtain ⟨first, rest, hinput⟩ := hplugged.exists_cons
  rw [hinput] at hplugged
  obtain ⟨shown, childOrder, hcode, rfl⟩ := valueText_ok h hinput
  have hinfix := hplugged.chain hcode
  split
  · exact infix_parenthesize hinfix
  · exact hinfix

section

variable (hinner : Solid inner) (hplugged : Carries inner (plugged input))

include hinner hplugged

theorem infix_valueOr {order : Order} {placeholder : String} {text : Text}
    (h : block.valueOr Segment.spent plugged input order placeholder = .ok text) : inner <:+: text := by
  obtain ⟨found, hfound, rfl⟩ := valueOr_eq h
  have hinfix := infix_valueText hplugged hfound
  split
  · rename_i hempty
    rw [List.isEmpty_iff.1 hempty, List.infix_nil] at hinfix
    exact absurd hinfix hinner.ne_nil
  · exact hinfix

theorem infix_bodyText {text : Text} (h : block.bodyText g Segment.spent plugged input = .ok text) :
    inner <:+: text := by
  obtain ⟨first, rest, hinput⟩ := hplugged.exists_cons
  rw [hinput] at hplugged
  obtain ⟨shown, hcode, rfl⟩ := bodyText_ok h hinput
  exact hinner.indentLines g.indent (hplugged.chain hcode)

/-- A text that is plugged into an input is in what is written for it, unless the input is that of a callee. -/
theorem infix_pieceText {piece : Piece} (hread : piece.input? = some input)
    (hcallee : ∀ order placeholder, piece ≠ .callee input order placeholder) {part : Text}
    (h : block.pieceText g Segment.spent plugged arguments piece = .ok part) : inner <:+: part := by
  cases piece with
  | value name order placeholder =>
    cases hread
    exact infix_valueOr hinner hplugged h
  | body name =>
    cases hread
    exact infix_bodyText hinner hplugged h
  | list name | parameters name =>
    cases hread
    obtain ⟨items, hitems, h⟩ := exists_of_bind h
    cases h
    obtain ⟨item, hitem, hinfix⟩ := hplugged.items block _ items hitems
    exact hinner.commaSeparated hitem hinfix
  | properties name =>
    cases hread
    obtain ⟨items, hitems, h⟩ := exists_of_bind h
    cases h
    obtain ⟨item, hitem, hinfix⟩ := hplugged.items block _ items hitems
    exact hinner.braced hitem hinfix
  | callee name order placeholder =>
    cases hread
    exact absurd rfl (hcallee order placeholder)
  | _ => cases hread

/-- What is plugged into a block other than as its callee is in what the block is written as. -/
theorem infix_code (hinput : input ∈ block.kind.inputs)
    (hcallee : ¬ (block.kind = .functionCall ∧ input = "FUNCTION_NAME"))
    (h : block.code g Segment.spent plugged arguments = .ok code) : inner <:+: code.text := by
  obtain ⟨piece, hpiece, hread⟩ := List.mem_filterMap.1 hinput
  obtain ⟨part, hpart, hinfix⟩ := exists_infix_code h hpiece
  refine (infix_pieceText hinner hplugged hread ?_ hpart).trans hinfix
  rintro order placeholder rfl
  obtain ⟨hkind, hname, -⟩ := BlockKind.callee_eq hpiece
  exact hcallee ⟨hkind, hname⟩

end

/-- A literal is written as its quoted text. -/
theorem infix_code_literal (hkind : block.kind = .stringLiteral)
    (h : block.code g rule plugged arguments = .ok code) :
    quote ((block.field? "TEXT").getD "").toList <:+: code.text := by
  have hpiece : Piece.quoted "TEXT" ∈ block.kind.template.pieces := by
    rw [hkind]
    decide
  obtain ⟨part, hpart, hinfix⟩ := exists_infix_code h hpiece
  cases hpart
  exact hinfix

/-- A call is written with its arguments. -/
theorem exists_infix_code_call (hkind : block.kind = .functionCall)
    (h : block.code g rule plugged arguments = .ok code) :
    ∃ text, arguments = .ok text ∧ text <:+: code.text := by
  have hpiece : Piece.arguments ∈ block.kind.template.pieces := by
    rw [hkind]
    decide
  exact exists_infix_code h hpiece

end Block

/-! ### Stacks -/

namespace Workspace

/-- Block `b` is written after block `a`, or inside it other than as its callee. -/
def Writes (ws : Workspace) (a b : BlockId) : Prop :=
  ∃ block, ws.get? a = some block ∧
    (block.next = some b ∨ ∃ input ∈ block.kind.inputs,
      ¬ (block.kind = .functionCall ∧ input = "FUNCTION_NAME") ∧ block.input? input = some b)

/-- A block on the canvas leads to the block without a callee on the way. -/
def Written (ws : Workspace) (id : BlockId) : Prop :=
  ∃ top ∈ ws.top, Relation.ReflTransGen ws.Writes top id

end Workspace

theorem carries_literal {ws : Workspace} (g : Generator) {id : BlockId} {literal : Block}
    (hget : ws.get? id = some literal) (hkind : literal.kind = .stringLiteral) {first : BlockId}
    (hpath : Relation.ReflTransGen ws.Writes first id) {stack : Stack} (hat : stack.At ws (some first)) :
    Carries (quote ((literal.field? "TEXT").getD "").toList) (stack.segments g Segment.spent) := by
  have hsolid := solid_quote ((literal.field? "TEXT").getD "").toList
  induction hpath using Relation.ReflTransGen.head_induction_on generalizing stack with
  | refl =>
    cases stack with
    | nil => cases hat
    | cons other block sockets rest =>
      obtain ⟨hfirst, hblock, -, -⟩ := hat
      cases hfirst
      cases hget.symm.trans hblock
      rw [Stack.segments_cons]
      exact .of_own fun _ _ hcode => Block.infix_code_literal hkind hcode
  | head hlink _ ih =>
    cases stack with
    | nil => cases hat
    | cons other block sockets rest =>
      obtain ⟨hfirst, hblock, hsockets, hrest⟩ := hat
      cases hfirst
      obtain ⟨found, hfound, hlink⟩ := hlink
      cases hfound.symm.trans hblock
      rw [Stack.segments_cons]
      rcases hlink with hnext | ⟨input, hinput, hcallee, hplugged⟩
      · rw [hnext] at hrest
        exact (ih hrest).of_rest fun hcall _ _ hcode => Block.exists_infix_code_call hcall hcode
      · have hfind := hsockets.find input
        rw [show Table.find? input _ = _ from hplugged] at hfind
        have hcarries := ih hfind
        rw [← Sockets.segments_eq] at hcarries
        exact .of_own fun _ _ hcode => Block.infix_code hsolid hcarries hinput hcallee hcode

theorem Stack.infix_text {g : Generator} {inner : Text} {stack : Stack}
    (hcarries : Carries inner (stack.segments g Segment.spent)) {text : Text}
    (h : stack.text g Segment.spent = .ok text) : inner <:+: text := by
  obtain ⟨first, rest, hsegments⟩ := hcarries.exists_cons
  rw [Stack.text, hsegments] at h
  obtain ⟨code, hcode, rfl⟩ := exists_of_map h
  rw [hsegments] at hcarries
  exact hcarries.chain hcode

theorem Stack.mem_texts {g : Generator} {rule : ChainRule} {forest : List Stack} {texts : List Text}
    (h : Stack.texts g rule forest = .ok texts) {stack : Stack} (hstack : stack ∈ forest) {text : Text}
    (htext : stack.text g rule = .ok text) (hne : text ≠ []) : text ∈ texts := by
  induction forest generalizing texts with
  | nil => cases hstack
  | cons first rest ih =>
    rw [Stack.texts] at h
    obtain ⟨own, hown, h⟩ := exists_of_bind h
    obtain ⟨more, hmore, h⟩ := exists_of_bind h
    cases h
    rcases List.mem_cons.1 hstack with rfl | hstack
    · cases htext.symm.trans hown
      rw [if_neg (by simpa using hne)]
      exact List.mem_cons_self ..
    · have hmem := ih hmore hstack
      split
      · exact hmem
      · exact List.mem_cons_of_mem _ hmem

/-! ### Programs -/

/-- A literal that is written stands in the program as its quoted text. -/
theorem Generator.infix_program {g : Generator} {value : Json} {ws : Workspace}
    (hload : Workspace.ofJson value = .ok ws) {program : String} (hprogram : g.generate ws = .ok program)
    {id : BlockId} {literal : Block} (hwritten : ws.Written id) (hget : ws.get? id = some literal)
    (hkind : literal.kind = .stringLiteral) :
    quote ((literal.field? "TEXT").getD "").toList <:+: program.toList := by
  obtain ⟨top, htop, hpath⟩ := hwritten
  obtain ⟨forest, hforest⟩ := Workspace.forest_of_ofJson hload (List.mergeSort_perm ws.top _)
  obtain ⟨texts, htexts, heq⟩ := exists_texts_of_program hforest hprogram
  obtain ⟨stack, hstack, hat⟩ := exists_of_forall₂ hforest.at_eq (List.mem_mergeSort.2 htop)
  obtain ⟨text, htext⟩ := Stack.exists_text_of_texts htexts stack hstack
  have hsolid := solid_quote ((literal.field? "TEXT").getD "").toList
  have hinfix := Stack.infix_text (carries_literal g hget hkind hpath hat) htext
  have hmem : text ∈ texts := by
    refine Stack.mem_texts htexts hstack htext ?_
    rintro rfl
    exact hsolid.ne_nil (List.infix_nil.1 hinfix)
  rw [heq]
  exact hsolid.tidy (hsolid.terminate (infix_intercalate hmem hinfix))

/-- **Literals survive.** A quoted text has no characters that would break its line, and can be read back
whatever follows it; and all literals that are written, other than in a callee, are in the program just as they
were quoted. -/
theorem Generator.literals_survive (g : Generator) :
    (∀ text, (∀ c ∈ quote text, c ≠ '\n' ∧ c ≠ '\r' ∧ c ≠ '\t') ∧
      ∀ rest, readQuoted? (quote text ++ rest) = some (text, rest)) ∧
    ∀ value ws program, Workspace.ofJson value = .ok ws → g.generate ws = .ok program →
      ∀ id block, ws.Written id → ws.get? id = some block → block.kind = .stringLiteral →
        quote ((block.field? "TEXT").getD "").toList <:+: program.toList :=
  ⟨fun text => ⟨quote_unbroken text, readQuoted?_quote text⟩,
    fun _ _ _ hload hprogram _ _ hwritten hget hkind => infix_program hload hprogram hwritten hget hkind⟩

/-! ### A literal among arguments -/

/-- The node of a block with fields, inputs and perhaps a block after it. -/
def blockNode (kind : BlockKind) (fields : List (String × String)) (inputs : List (String × Json))
    (next : Option Json) : Json :=
  .object ([("fields", .object (fields.map fun field => (field.1, .string field.2))),
    ("inputs", .object (inputs.map fun input => (input.1, .object [("block", input.2)])))] ++
    (next.map fun node => ("next", .object [("block", node)])).toList ++ [("type", .string kind.typeName)])

/-- The node of a call with a literal as its argument. -/
def quotingNode : Json :=
  let literal := blockNode .stringLiteral [("TEXT", "say \"a\",\n")] [] none
  let parameter := blockNode .functionParameter [] [("PARAM_VALUE", literal)] none
  blockNode .functionCall [] [("FUNCTION_NAME", blockNode .variableReference [("VAR_NAME", "log")] [] none)]
    (some (blockNode .functionParams [] [("PARAMS", parameter)] none))

def quotingLiteral : Block :=
  { id := "b4", kind := .stringLiteral, fields := [("TEXT", "say \"a\",\n")] }

/-- The workspace of that call. -/
def quotingCall : Workspace where
  blocks :=
    #[{ id := "b0", kind := .functionCall, inputs := [("FUNCTION_NAME", ⟨1⟩)], next := some ⟨2⟩,
        position := some ⟨.zero, .zero⟩ },
      { id := "b1", kind := .variableReference, fields := [("VAR_NAME", "log")] },
      { id := "b2", kind := .functionParams, inputs := [("PARAMS", ⟨3⟩)] },
      { id := "b3", kind := .functionParameter, inputs := [("PARAM_VALUE", ⟨4⟩)] },
      quotingLiteral]
  top := [⟨0⟩]

theorem quotingCall_loaded : Workspace.ofJson (canvasDocument quotingNode) = .ok quotingCall := by
  cbv

theorem quotingCall_code : Generator.generate {} quotingCall = .ok "log(\"say \\\"a\\\",\\n\");" := by
  cbv

theorem quotingCall_written : quotingCall.Written ⟨4⟩ := by
  refine ⟨⟨0⟩, List.mem_singleton_self _, ?_⟩
  have hparams : quotingCall.Writes ⟨0⟩ ⟨2⟩ := ⟨_, rfl, .inl rfl⟩
  have hparameter : quotingCall.Writes ⟨2⟩ ⟨3⟩ := ⟨_, rfl, .inr ⟨"PARAMS", by decide, by decide, rfl⟩⟩
  have hliteral : quotingCall.Writes ⟨3⟩ ⟨4⟩ := ⟨_, rfl, .inr ⟨"PARAM_VALUE", by decide, by decide, rfl⟩⟩
  exact .tail (.tail (.single hparams) hparameter) hliteral

/-- The argument stands in the program as it was quoted, and loses only the comma after it. -/
theorem quotingCall_survives :
    Workspace.ofJson (canvasDocument quotingNode) = .ok quotingCall ∧ quotingCall.Written ⟨4⟩ ∧
      Generator.generate {} quotingCall = .ok "log(\"say \\\"a\\\",\\n\");" ∧
      quote "say \"a\",\n".toList <:+: "log(\"say \\\"a\\\",\\n\");".toList := by
  have htext : (quotingLiteral.field? "TEXT").getD "" = "say \"a\",\n" := rfl
  have hinfix := (Generator.literals_survive {}).2 _ _ _ quotingCall_loaded quotingCall_code ⟨4⟩ quotingLiteral
    quotingCall_written rfl rfl
  rw [htext] at hinfix
  exact ⟨quotingCall_loaded, quotingCall_written, quotingCall_code, hinfix⟩

end BlockProgram
