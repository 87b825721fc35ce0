import BlockProgram.Proofs.Forest.Program
import BlockProgram.Proofs.Forest.Tally

/-!
A stack has text only if all that is read in it has text. Parameters are the exception that is none: after
a call they may be skipped, but then the call has read them.
-/

namespace BlockProgram

theorem exists_of_bind {α β : Type} {value : Except GenerateError α} {next : α → Except GenerateError β}
    {b : β} (h : value >>= next = .ok b) : ∃ a, value = .ok a ∧ next a = .ok b := by
  cases value with
  | error e => cases h
  | ok a => exact ⟨a, rfl, h⟩

theorem exists_of_map {α β : Type} {value : Except GenerateError α} {f : α → β} {b : β}
    (h : value.map f = .ok b) : ∃ a, value = .ok a ∧ f a = b := by
  cases value with
  | error e => cases h
  | ok a =>
    cases h
    exact ⟨a, rfl, rfl⟩

/-! ### Blocks -/

namespace Block

variable {g : Generator} {rule : ChainRule} {plugged : String → List Segment} {block : Block}
  {arguments : Except GenerateError Text} {code : Code}

theorem exists_pieceText {pieces : List Piece} {text : Text}
    (h : block.piecesText g rule plugged arguments pieces = .ok text) :
    ∀ piece ∈ pieces, ∃ part, block.pieceText g rule plugged arguments piece = .ok part := by
  induction pieces generalizing text with
  | nil => exact fun piece hpiece => by cases hpiece
  | cons piece rest ih =>
    rw [piecesText] at h
    obtain ⟨part, hpart, h⟩ := exists_of_bind h
    obtain ⟨more, hmore, -⟩ := exists_of_bind h
    intro other hother
    rcases List.mem_cons.1 hother with rfl | hother
    · exact ⟨part, hpart⟩
    · exact ih hmore other hother

theorem piecesText_cons {piece : Piece} {rest : List Piece} {text : Text}
    (h : block.piecesText g rule plugged arguments (piece :: rest) = .ok text) :
    ∃ part more, block.pieceText g rule plugged arguments piece = .ok part ∧
      block.piecesText g rule plugged arguments rest = .ok more ∧ text = part ++ more := by
  rw [piecesText] at h
  obtain ⟨part, hpart, h⟩ := exists_of_bind h
  obtain ⟨more, hmore, h⟩ := exists_of_bind h
  cases h
  exact ⟨part, more, hpart, hmore, rfl⟩

theorem piecesText_text {fixed : String} {rest : List Piece} {text : Text}
    (h : block.piecesText g rule plugged arguments (.text fixed :: rest) = .ok text) :
    ∃ more, block.piecesText g rule plugged arguments rest = .ok more ∧ text = fixed.toList ++ more := by
  obtain ⟨part, more, hpart, hmore, rfl⟩ := piecesText_cons h
  cases hpart
  exact ⟨more, hmore, rfl⟩

theorem piecesText_field {name missing : String} {rest : List Piece} {text : Text}
    (h : block.piecesText g rule plugged arguments (.field name missing :: rest) = .ok text) :
    ∃ more, block.piecesText g rule plugged arguments rest = .ok more ∧
      text = ((block.field? name).getD missing).toList ++ more := by
  obtain ⟨part, more, hpart, hmore, rfl⟩ := piecesText_cons h
  cases hpart
  exact ⟨more, hmore, rfl⟩

/-- Pieces in two parts are rendered as one part before the other. -/
theorem piecesText_append {init tail : List Piece} {text : Text}
    (h : block.piecesText g rule plugged arguments (init ++ tail) = .ok text) :
    ∃ front part, block.piecesText g rule plugged arguments init = .ok front ∧
      block.piecesText g rule plugged arguments tail = .ok part ∧ text = front ++ part := by
  induction init generalizing text with
  | nil => exact ⟨[], text, rfl, h, rfl⟩
  | cons piece rest ih =>
    rw [List.cons_append, piecesText] at h
    obtain ⟨own, hown, h⟩ := exists_of_bind h
    obtain ⟨more, hmore, h⟩ := exists_of_bind h
    obtain ⟨front, part, hfront, hpart, rfl⟩ := ih hmore
    cases h
    refine ⟨own ++ front, part, ?_, hpart, (List.append_assoc ..).symm⟩
    rw [piecesText, hown, hfront]
    rfl

theorem piecesText_singleton {piece : Piece} {text : Text}
    (h : block.piecesText g rule plugged arguments [piece] = .ok text) :
    block.pieceText g rule plugged arguments piece = .ok text := by
  obtain ⟨own, hown, h⟩ := exists_of_bind h
  cases h
  rw [hown, List.append_nil]

/-- The own code of a block has the texts of all its pieces. -/
theorem exists_of_code (h : block.code g rule plugged arguments = .ok code) :
    ∀ piece ∈ block.kind.template.pieces,
      ∃ part, block.pieceText g rule plugged arguments piece = .ok part := by
  rw [Block.code] at h
  obtain ⟨text, htext, -⟩ := exists_of_bind h
  exact exists_pieceText htext

/-- A value socket with blocks is written as the expression that they are. -/
theorem valueText_ok {input : String} {order : Order} {text : Text}
    (h : block.valueText rule plugged input order = .ok text) {first : Segment} {rest : List Segment}
    (hplugged : plugged input = first :: rest) :
    ∃ shown childOrder, Segment.chainCode rule first rest = .ok (.expression shown childOrder) ∧
      text = if !shown.isEmpty && childOrder.needsParens order then Text.parenthesize shown else shown := by
  rw [valueText, hplugged] at h
  obtain ⟨code, hcode, h⟩ := exists_of_bind h
  cases code with
  | statement => cases h
  | expression shown childOrder =>
    cases h
    exact ⟨shown, childOrder, hcode, rfl⟩

/-- A body with blocks is written as the statements that they are. -/
theorem bodyText_ok {input : String} {text : Text} (h : block.bodyText g rule plugged input = .ok text)
    {first : Segment} {rest : List Segment} (hplugged : plugged input = first :: rest) :
    ∃ inner, Segment.chainCode rule first rest = .ok (.statement inner) ∧
      text = Text.indentLines g.indent inner := by
  rw [bodyText, hplugged] at h
  obtain ⟨code, hcode, h⟩ := exists_of_bind h
  cases code with
  | expression => cases h
  | statement inner =>
    cases h
    exact ⟨inner, hcode, rfl⟩

/-- Each item is written as a statement. -/
theorem itemTexts_ok {input : String} {item : Segment} {rest : List Segment} {texts : List Text}
    (h : block.itemTexts input (item :: rest) = .ok texts) :
    ∃ text more, Segment.ownCode (item :: rest) = .ok (.statement text) ∧
      block.itemTexts input rest = .ok more ∧ texts = text :: more := by
  rw [itemTexts] at h
  obtain ⟨code, hcode, h⟩ := exists_of_bind h
  cases code with
  | expression => cases h
  | statement text =>
    obtain ⟨more, hmore, h⟩ := exists_of_bind h
    cases h
    exact ⟨text, more, hcode, hmore, rfl⟩

end Block

/-! ### Chains -/

namespace Segment

/-- A segment that reads as a block does: its code has the shape of its kind, and a call has no code
without its arguments. -/
structure Proper (segment : Segment) : Prop where
  shape : ∀ arguments code, segment.code arguments = .ok code →
    ∃ text, code = .ofShape text segment.kind.template.shape
  arguments : segment.kind = .functionCall → ∀ arguments code, segment.code arguments = .ok code →
    ∃ text, arguments = .ok text

variable {first next : Segment} {rest : List Segment}

/-- In a chain with code, the blocks after the first one have code as a chain of their own. -/
theorem exists_rest (hfirst : first.Proper) {code : Code} {after : Text}
    (hown : ownCode (first :: next :: rest) = .ok code) (hafter : spent first (next :: rest) = .ok after) :
    ∃ code after, ownCode (next :: rest) = .ok code ∧ spent next rest = .ok after := by
  rw [spent] at hafter
  obtain ⟨text, htext, hafter⟩ := exists_of_bind hafter
  obtain ⟨more, hmore, -⟩ := exists_of_bind hafter
  obtain ⟨nextCode, hnext, -⟩ := exists_of_map htext
  by_cases hcall : first.kind = .functionCall
  · rw [ownCode] at hown
    obtain ⟨text, harguments⟩ := hfirst.arguments hcall _ _ hown
    obtain ⟨nextCode, hnext, -⟩ := exists_of_map harguments
    exact ⟨nextCode, more, hnext, hmore⟩
  · rw [decide_eq_false hcall, spentCode_false] at hnext
    exact ⟨nextCode, more, hnext, hmore⟩

/-- A call is no statement. -/
theorem kind_ne_of_statement (hfirst : first.Proper) {text : Text}
    (h : ownCode (first :: rest) = .ok (.statement text)) : first.kind ≠ .functionCall := by
  intro hcall
  rw [ownCode] at h
  obtain ⟨text, htext⟩ := hfirst.shape _ _ h
  rw [hcall] at htext
  cases htext

/-- Items are statements, so no call is among them. -/
theorem exists_spent_of_items {block : Block} {input : String} {segments : List Segment}
    (hproper : ∀ segment ∈ segments, segment.Proper) {texts : List Text}
    (h : block.itemTexts input segments = .ok texts) {previous : Segment}
    (hprevious : previous.kind ≠ .functionCall) : ∃ after, spent previous segments = .ok after := by
  induction segments generalizing texts previous with
  | nil => exact ⟨[], rfl⟩
  | cons item rest ih =>
    obtain ⟨text, more, hcode, hmore, -⟩ := Block.itemTexts_ok h
    have hitem := kind_ne_of_statement (hproper item (List.mem_cons_self ..)) hcode
    obtain ⟨after, hafter⟩ :=
      ih (fun segment hsegment => hproper segment (List.mem_cons_of_mem _ hsegment)) hmore hitem
    refine ⟨text ++ after, ?_⟩
    rw [spent, decide_eq_false hprevious, spentCode_false, hcode, hafter]
    rfl

theorem exists_chainCode_of_items {block : Block} {input : String}
    (hproper : ∀ segment ∈ first :: rest, segment.Proper) {texts : List Text}
    (h : block.itemTexts input (first :: rest) = .ok texts) :
    ∃ code, chainCode spent first rest = .ok code := by
  obtain ⟨text, more, hcode, hmore, -⟩ := Block.itemTexts_ok h
  have hfirst := kind_ne_of_statement (hproper first (List.mem_cons_self ..)) hcode
  obtain ⟨after, hafter⟩ := exists_spent_of_items
    (fun segment hsegment => hproper segment (List.mem_cons_of_mem _ hsegment)) hmore hfirst
  refine ⟨.statement (text ++ after), ?_⟩
  rw [chainCode, hcode, hafter]
  rfl

end Segment

/-! ### Stacks -/

theorem Block.proper (g : Generator) (rule : ChainRule) (plugged : String → List Segment)
    (block : Block) : Segment.Proper ⟨block.kind, block.code g rule plugged⟩ where
  shape arguments code h := Block.code_shape h
  arguments hcall arguments code h := by
    refine Block.exists_of_code h .arguments ?_
    rw [show block.kind = .functionCall from hcall]
    decide

namespace Stack

variable {g : Generator} {rule : ChainRule} {id : BlockId} {block : Block} {sockets : Sockets}
  {rest stack : Stack} {text : Text}

theorem proper_segments (g : Generator) (rule : ChainRule) (stack : Stack) :
    ∀ segment ∈ stack.segments g rule, segment.Proper := by
  induction stack with
  | nil =>
    rw [segments_nil]
    exact fun segment hsegment => by cases hsegment
  | cons id block sockets rest ih =>
    rw [segments_cons]
    exact List.forall_mem_cons.2 ⟨Block.proper .., ih⟩

/-- A stack has text if its chain has code. -/
theorem exists_text_iff : (∃ text, stack.text g rule = .ok text) ↔
    ∀ first rest, stack.segments g rule = first :: rest →
      ∃ code, Segment.chainCode rule first rest = .ok code := by
  rw [text]
  cases stack.segments g rule with
  | nil => exact ⟨fun _ first rest h => (List.cons_ne_nil _ _ h.symm).elim, fun _ => ⟨[], rfl⟩⟩
  | cons first rest =>
    constructor
    · rintro ⟨text, htext⟩ first rest heq
      cases heq
      obtain ⟨code, hcode, -⟩ := exists_of_map htext
      exact ⟨code, hcode⟩
    · intro h
      obtain ⟨code, hcode⟩ := h first rest rfl
      exact ⟨code.text, congrArg (Except.map Code.text) hcode⟩

/-- The text of a stack is the own text of its first block with the text of the blocks after it. -/
theorem text_cons_eq (h : (cons id block sockets rest).text g rule = .ok text) :
    ∃ code after, Segment.ownCode ((cons id block sockets rest).segments g rule) = .ok code ∧
      rule ⟨block.kind, block.code g rule (sockets.segments g rule)⟩ (rest.segments g rule) = .ok after ∧
      text = code.text ++ after := by
  rw [Stack.text, segments_cons] at h
  obtain ⟨code, hcode, rfl⟩ := exists_of_map h
  obtain ⟨own, hown, hcode⟩ := exists_of_bind hcode
  obtain ⟨after, hafter, hcode⟩ := exists_of_bind hcode
  cases hcode
  refine ⟨own, after, by rw [segments_cons, hown], hafter, ?_⟩
  cases own <;> rfl

/-- The blocks after the first one have text if the stack has. -/
theorem exists_text_rest (h : (cons id block sockets rest).text g Segment.spent = .ok text) :
    ∃ text, rest.text g Segment.spent = .ok text := by
  obtain ⟨code, after, hown, hafter, -⟩ := text_cons_eq h
  rw [segments_cons] at hown
  refine exists_text_iff.2 fun next more hnext => ?_
  rw [hnext] at hown hafter
  obtain ⟨code, after, hcode, hafter⟩ := Segment.exists_rest (Block.proper ..) hown hafter
  exact ⟨code.append after, by rw [Segment.chainCode, hcode, hafter]; rfl⟩

/-- What is plugged into an input that is read has text if the stack has. -/
theorem exists_text_find (h : (cons id block sockets rest).text g Segment.spent = .ok text)
    {input : String} (hinput : input ∈ block.kind.inputs) :
    ∃ text, (sockets.find input).text g Segment.spent = .ok text := by
  obtain ⟨code, after, hown, -⟩ := text_cons_eq h
  rw [segments_cons, Segment.ownCode] at hown
  obtain ⟨piece, hpiece, hread⟩ := List.mem_filterMap.1 hinput
  obtain ⟨part, hpart⟩ := Block.exists_of_code hown piece hpiece
  refine exists_text_iff.2 fun first others hplugged => ?_
  have hproper : ∀ segment ∈ first :: others, segment.Proper := by
    rw [← hplugged]
    exact proper_segments g Segment.spent _
  rw [← Sockets.segments_eq] at hplugged
  cases piece with
  | value name order placeholder =>
    cases hread
    obtain ⟨text, htext, -⟩ := exists_of_bind hpart
    obtain ⟨shown, childOrder, hcode, -⟩ := Block.valueText_ok htext hplugged
    exact ⟨_, hcode⟩
  | callee name order placeholder =>
    cases hread
    obtain ⟨shown, hshown, -⟩ := exists_of_bind hpart
    obtain ⟨text, htext, -⟩ := exists_of_bind hshown
    obtain ⟨shown, childOrder, hcode, -⟩ := Block.valueText_ok htext hplugged
    exact ⟨_, hcode⟩
  | body name =>
    cases hread
    obtain ⟨inner, hcode, -⟩ := Block.bodyText_ok hpart hplugged
    exact ⟨_, hcode⟩
  | list name | properties name | parameters name =>
    cases hread
    obtain ⟨texts, htexts, -⟩ := exists_of_bind hpart
    rw [hplugged] at htexts
    exact Segment.exists_chainCode_of_items hproper htexts
  | _ => cases hread

theorem exists_text_of_texts {forest : List Stack} {texts : List Text}
    (h : Stack.texts g rule forest = .ok texts) :
    ∀ stack ∈ forest, ∃ text, stack.text g rule = .ok text := by
  induction forest generalizing texts with
  | nil => exact fun stack hstack => by cases hstack
  | cons stack rest ih =>
    rw [Stack.texts] at h
    obtain ⟨text, htext, h⟩ := exists_of_bind h
    obtain ⟨more, hmore, -⟩ := exists_of_bind h
    exact List.forall_mem_cons.2 ⟨⟨text, htext⟩, ih hmore⟩

/-- Of the texts of stacks, those without characters are left out. -/
theorem exists_forall₂_of_texts {forest : List Stack} {texts : List Text}
    (h : Stack.texts g rule forest = .ok texts) :
    ∃ all, List.Forall₂ (fun stack text => stack.text g rule = .ok text) forest all ∧
      texts = all.filter fun text => !text.isEmpty := by
  induction forest generalizing texts with
  | nil =>
    cases h
    exact ⟨[], .nil, rfl⟩
  | cons stack rest ih =>
    rw [Stack.texts] at h
    obtain ⟨text, htext, h⟩ := exists_of_bind h
    obtain ⟨more, hmore, h⟩ := exists_of_bind h
    cases h
    obtain ⟨all, hall, rfl⟩ := ih hmore
    refine ⟨text :: all, .cons htext hall, ?_⟩
    rw [List.filter_cons]
    cases text.isEmpty <;> rfl

end Stack

/-! ### Given texts -/

/-- What holds of every text that a workspace and its generator bring along. -/
structure Workspace.AllTexts (P : Text → Prop) (ws : Workspace) (g : Generator) : Prop where
  literals : ∀ type text, g.literal? type = some text → P text.toList
  fields : ∀ id block, ws.get? id = some block →
    ∀ field text, block.field? field = some text → P text.toList

theorem Workspace.allTexts_of_forall {P : Text → Prop} {ws : Workspace} {g : Generator}
    (hliterals : ∀ entry ∈ g.literals, P entry.2.toList)
    (hfields : ∀ block ∈ ws.blocks, ∀ entry ∈ block.fields, P entry.2.toList) : ws.AllTexts P g where
  literals type text h := by
    obtain ⟨before, after, heq, -⟩ := List.lookup_eq_some_iff.1 h
    exact hliterals (type, text) (by simp [heq])
  fields id block hget field text h := by
    obtain ⟨before, after, heq, -⟩ := List.lookup_eq_some_iff.1 h
    exact hfields block (Array.mem_of_getElem? hget) (field, text) (by simp [heq])

namespace Workspace.AllTexts

variable {P : Text → Prop} {ws : Workspace} {g : Generator} {block : Block}

/-- The text of a field is a given one, unless it is the one that stands for a missing field. -/
theorem field (h : ws.AllTexts P g) {id : BlockId} (hget : ws.get? id = some block) (name missing : String) :
    (block.field? name = none ∧ (block.field? name).getD missing = missing) ∨
      P ((block.field? name).getD missing).toList := by
  cases hname : block.field? name with
  | none => exact .inl ⟨rfl, rfl⟩
  | some text => exact .inr (h.fields id block hget name text hname)

theorem literal (h : ws.AllTexts P g) {rule : ChainRule} {plugged : String → List Segment}
    {arguments : Except GenerateError Text} {name : String} {text : Text}
    (htext : block.pieceText g rule plugged arguments (.literal name) = .ok text) : P text := by
  rw [Block.pieceText] at htext
  cases hname : g.literal? name with
  | none =>
    rw [hname] at htext
    cases htext
  | some literal =>
    rw [hname] at htext
    cases htext
    exact h.literals name literal hname

end Workspace.AllTexts

/-! ### Rendered blocks -/

/-- Every block within reach of the canvas starts a stack, which has text if the canvas has. -/
theorem Workspace.Forest.exists_stack {ws : Workspace} {g : Generator} {tops : List BlockId}
    {forest : List Stack} (hforest : ws.Forest tops forest) (htops : ∀ top ∈ ws.top, top ∈ tops)
    {texts : List Text} (htexts : Stack.texts g Segment.spent forest = .ok texts) {id : BlockId}
    (hreached : ws.Reached id) : ∃ stack : Stack, stack.At ws (some id) ∧ stack.ids.Nodup ∧
      ∃ text, stack.text g Segment.spent = .ok text := by
  obtain ⟨top, htop, hreach⟩ := hreached
  induction hreach with
  | refl =>
    obtain ⟨stack, hstack, hat⟩ := exists_of_forall₂ hforest.at_eq (htops top htop)
    exact ⟨stack, hat, (List.nodup_flatMap.1 hforest.nodup).1 stack hstack,
      Stack.exists_text_of_texts htexts stack hstack⟩
  | tail _ hlink ih =>
    obtain ⟨stack, hat, hnodup, text, htext⟩ := ih
    obtain ⟨block, sockets, rest, rfl, hnext⟩ := hat.link hlink
    obtain ⟨-, -, hsockets, hrest, -⟩ := Stack.nodup_cons hnodup
    rcases hnext with ⟨input, hinput, hfind⟩ | ⟨-, hat⟩
    · exact ⟨_, hfind, hsockets.sublist (sockets.ids_find_sublist input),
        Stack.exists_text_find htext hinput⟩
    · exact ⟨rest, hat, hrest, Stack.exists_text_rest htext⟩

namespace Setting

variable {s : Setting} {id : BlockId} {block : Block} {sockets : Sockets} {rest stack : Stack}

/-- The first run of all renders a block as the text of its stack. -/
theorem renderBlock_fresh (hat : stack.At s.workspace (some id)) (hnodup : stack.ids.Nodup) :
    (s.renderBlock id .chain {}).1.map Code.text = stack.text s.generator Segment.spent :=
  (renderBlock_stack hat hnodup s.idle_start rfl).1

/-- The first run of all reads a value socket as the stack in it. -/
theorem readValue_fresh (hat : (Stack.cons id block sockets rest).At s.workspace (some id))
    (hnodup : (Stack.cons id block sockets rest).ids.Nodup) (input : String) (order : Order) :
    (s.readValue id input order {}).1 =
      block.valueText Segment.spent (sockets.segments s.generator Segment.spent) input order := by
  have hfits : sockets.Fits [] fun _ => False :=
    ⟨(Stack.nodup_cons hnodup).2.2.1, fun _ _ => List.not_mem_nil, fun _ _ => not_false⟩
  have hvalue := computes_valueText (simulates_renderAt s s.enoughDepth) hat.2.2.1 hfits input order
  exact (Rendering.Triple.unlimited (Rendering.Computes.lookup_bind hat.2.1 hvalue) _ s.idle_start).1

end Setting

/-- What the blocks on the canvas are rendered as in first runs are the texts of their stacks. -/
theorem Workspace.Forest.exists_rendered {ws : Workspace} {g : Generator} {tops : List BlockId}
    {forest : List Stack} (hforest : ws.Forest tops forest) {texts : List Text}
    (htexts : Stack.texts g Segment.spent forest = .ok texts) :
    ∃ all, List.Forall₂ (fun top text =>
        (Setting.renderBlock ⟨ws, g⟩ top .chain {}).1.map Code.text = .ok text) tops all ∧
      texts = all.filter fun text => !text.isEmpty := by
  obtain ⟨all, hall, hfilter⟩ := Stack.exists_forall₂_of_texts htexts
  refine ⟨all, ?_, hfilter⟩
  have hnodup := (List.nodup_flatMap.1 hforest.nodup).1
  have hat := hforest.at_eq
  clear hforest htexts hfilter
  induction hat generalizing all with
  | nil =>
    cases hall
    exact .nil
  | cons hstack _ ih =>
    cases hall with
    | cons htext hrest =>
      rw [List.forall_mem_cons] at hnodup
      refine .cons ?_ (ih _ hrest hnodup.2)
      rw [Setting.renderBlock_fresh hstack hnodup.1, htext]

end BlockProgram
