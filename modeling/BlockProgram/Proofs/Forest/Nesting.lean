import BlockProgram.Proofs.Forest.Parts
import BlockProgram.Proofs.Text.Sound

/-!
Brackets in generated code. A template holds as many closing brackets as opening ones, in the right order,
and what is put between them is sound, piece by piece; the one step that can break a pair is that a callee
loses its first and its last character when these are parentheses. So all code is nested, as long as the
fields and the texts of custom literals hold no brackets, exactly if the parentheses that callees lose are
pairs that match each other. Those of a single block that is no call do: it is put into parentheses, or it does
not both start with one and end in one. A call may do both, as `(a + b).c()` does.
-/

namespace BlockProgram

open Text

/-! ### Templates -/

/-- The text that a template holds itself at the place of a piece. -/
def Piece.keyword : Piece → Text
  | .text fixed => fixed.toList
  | _ => []

/-- The text that stands for what a block lacks. -/
def Piece.default : Piece → Text
  | .field _ missing => missing.toList
  | .value _ _ placeholder | .callee _ _ placeholder => placeholder.toList
  | _ => []

/-- The text of a template without that of its blocks. -/
def keywords (pieces : List Piece) : Text :=
  pieces.flatMap Piece.keyword

theorem sound_of_balanced {text : Text} (hescape : '\\' ∉ text) (h : Balanced text) : Sound text :=
  ⟨escapes_of_not_mem hescape, h⟩

theorem BlockKind.keywords_sound (kind : BlockKind) :
    '\\' ∉ keywords kind.template.pieces ∧ Balanced (keywords kind.template.pieces) := by
  cases kind with
  | custom name => exact ⟨List.not_mem_nil, sound_nil.balanced⟩
  | _ => decide

theorem BlockKind.sound_default (kind : BlockKind) :
    ∀ piece ∈ kind.template.pieces, Sound piece.default := by
  have h : ∀ piece ∈ kind.template.pieces, '\\' ∉ piece.default ∧ Balanced piece.default := by
    cases kind with
    | custom name =>
      intro piece hpiece
      rw [List.mem_singleton.1 hpiece]
      exact ⟨List.not_mem_nil, sound_nil.balanced⟩
    | _ => decide
  exact fun piece hpiece => sound_of_balanced (h piece hpiece).1 (h piece hpiece).2

theorem BlockKind.callee_eq {kind : BlockKind} {input : String} {order : Order} {placeholder : String}
    (h : Piece.callee input order placeholder ∈ kind.template.pieces) :
    kind = .functionCall ∧ input = "FUNCTION_NAME" ∧ order = .atomic ∧ placeholder = "undefined" := by
  cases kind with
  | functionCall => simpa [BlockKind.template] using h
  | _ => simp [BlockKind.template, Template.statement, Template.atomic, Template.binary] at h

/-! ### Chains -/

/-- All that is read of a chain is sound. -/
structure Sounds (segments : List Segment) : Prop where
  own : ∀ spent code, Segment.spentCode spent segments = .ok code → Sound code.text
  after : ∀ previous text, Segment.spent previous segments = .ok text → Sound text
  items : ∀ (block : Block) input texts, block.itemTexts input segments = .ok texts →
    ∀ text ∈ texts, Sound text
  chain : ∀ first rest code, segments = first :: rest →
    Segment.chainCode Segment.spent first rest = .ok code → Sound code.text

theorem sounds_nil : Sounds [] where
  own spent code h := by
    cases h
    exact sound_nil
  after previous text h := by
    cases h
    exact sound_nil
  items block input texts h := by
    cases h
    exact fun text htext => (List.not_mem_nil htext).elim
  chain first rest code h := by cases h

/-- A chain is sound if the own code of its first block and the blocks after it are. -/
theorem Sounds.cons {first : Segment} {rest : List Segment}
    (hown : ∀ spent code, Segment.spentCode spent (first :: rest) = .ok code → Sound code.text)
    (hrest : Sounds rest) : Sounds (first :: rest) where
  own := hown
  after previous text h := by
    rw [Segment.spent] at h
    obtain ⟨own, hfirst, h⟩ := exists_of_bind h
    obtain ⟨more, hmore, h⟩ := exists_of_bind h
    obtain ⟨code, hcode, rfl⟩ := exists_of_map hfirst
    cases h
    exact (hown _ code hcode).append (hrest.after first more hmore)
  items block input texts h := by
    obtain ⟨own, more, hcode, hmore, rfl⟩ := Block.itemTexts_ok h
    rw [← Segment.spentCode_false] at hcode
    exact List.forall_mem_cons.2 ⟨hown false _ hcode, hrest.items block input more hmore⟩
  chain first' rest' code heq h := by
    cases heq
    rw [Segment.chainCode, ← Segment.spentCode_false] at h
    obtain ⟨own, hcode, h⟩ := exists_of_bind h
    obtain ⟨more, hmore, h⟩ := exists_of_bind h
    cases h
    have hsound := (hown false own hcode).append (hrest.after first more hmore)
    cases own <;> exact hsound

/-- The arguments that a call takes from the block after it are sound. -/
theorem Sounds.arguments {segments : List Segment} (h : Sounds segments) (spent : Bool) (text : Text)
    (htext : (Segment.spentCode spent segments).map Code.text = .ok text) : Sound text := by
  obtain ⟨code, hcode, rfl⟩ := exists_of_map htext
  exact h.own spent code hcode

/-! ### Blocks -/

/-- The texts that a workspace and its generator bring along hold no brackets, quotes or backslashes. -/
structure Workspace.BareTexts (ws : Workspace) (g : Generator) : Prop where
  indent : Text.Bare g.indent
  literals : ∀ type text, g.literal? type = some text → Text.Bare text.toList
  fields : ∀ id block, ws.get? id = some block →
    ∀ field text, block.field? field = some text → Text.Bare text.toList

theorem Workspace.bareTexts_of_forall {ws : Workspace} {g : Generator} (hindent : Text.Bare g.indent)
    (hliterals : ∀ entry ∈ g.literals, Text.Bare entry.2.toList)
    (hfields : ∀ block ∈ ws.blocks, ∀ entry ∈ block.fields, Text.Bare entry.2.toList) :
    ws.BareTexts g :=
  have htexts := Workspace.allTexts_of_forall hliterals hfields
  ⟨hindent, htexts.literals, htexts.fields⟩

theorem Workspace.BareTexts.allTexts {ws : Workspace} {g : Generator} (h : ws.BareTexts g) :
    ws.AllTexts Text.Bare g :=
  ⟨h.literals, h.fields⟩

namespace Block

variable {ws : Workspace} {g : Generator} {plugged : String → List Segment} {id : BlockId}
  {block : Block} {arguments : Except GenerateError Text}

theorem sound_valueText {input : String} {order : Order} {text : Text} (hplugged : Sounds (plugged input))
    (h : block.valueText Segment.spent plugged input order = .ok text) : Sound text := by
  cases hinput : plugged input with
  | nil =>
    rw [valueText, hinput] at h
    cases h
    exact sound_nil
  | cons first rest =>
    obtain ⟨shown, childOrder, hcode, rfl⟩ := valueText_ok h hinput
    have hsound := hplugged.chain first rest _ hinput hcode
    split
    · exact hsound.parenthesize
    · exact hsound

/-- The text in a value socket is what is read there, or the placeholder. -/
theorem valueOr_eq {input : String} {order : Order} {placeholder : String} {text : Text}
    (h : block.valueOr Segment.spent plugged input order placeholder = .ok text) :
    ∃ found, block.valueText Segment.spent plugged input order = .ok found ∧
      text = if found.isEmpty then placeholder.toList else found := by
  obtain ⟨found, hfound, h⟩ := exists_of_bind h
  cases h
  exact ⟨found, hfound, rfl⟩

theorem sound_bodyText {input : String} {text : Text} (hindent : Text.Bare g.indent)
    (hplugged : Sounds (plugged input)) (h : block.bodyText g Segment.spent plugged input = .ok text) :
    Sound text := by
  cases hinput : plugged input with
  | nil =>
    rw [bodyText, hinput] at h
    cases h
    exact sound_nil
  | cons first rest =>
    obtain ⟨inner, hcode, rfl⟩ := bodyText_ok h hinput
    have hsound := hplugged.chain first rest _ hinput hcode
    exact hsound.indentLines hindent

/-- The parentheses that the callee of a call loses match. -/
def CalleeMatches (plugged : String → List Segment) (block : Block) : Prop :=
  block.kind = .functionCall → ∀ text,
    block.valueText Segment.spent plugged "FUNCTION_NAME" .atomic = .ok text → ParensMatch text

/-- The text of a field has no brackets, unless it is the one that stands for a missing field. -/
theorem field_cases (hbare : ws.BareTexts g) (hget : ws.get? id = some block) (name missing : String) :
    (block.field? name).getD missing = missing ∨ Bare ((block.field? name).getD missing).toList :=
  (hbare.allTexts.field hget name missing).imp_left And.right

theorem parensMatch_placeholder : ParensMatch "undefined".toList := by
  intro inner h
  have hnone : between? '(' ')' (unwrap '"' '"' (trim "undefined".toList)) = none := by decide
  rw [hnone] at h
  cases h

section

variable (hbare : ws.BareTexts g) (hget : ws.get? id = some block)
  (hplugged : ∀ input ∈ block.kind.inputs, Sounds (plugged input))
  (harguments : ∀ text, arguments = .ok text → Sound text)

include hbare hget hplugged harguments

/-- What stands at the place of a piece is sound, if it is no keyword. -/
theorem sound_pieceText (hmatch : CalleeMatches plugged block) {piece : Piece}
    (hpiece : piece ∈ block.kind.template.pieces) (hkeyword : ∀ fixed, piece ≠ .text fixed) {part : Text}
    (h : block.pieceText g Segment.spent plugged arguments piece = .ok part) : Sound part := by
  have hdefault := block.kind.sound_default piece hpiece
  have hsocket (input : String) (hread : piece.input? = some input) : Sounds (plugged input) :=
    hplugged input (Piece.mem_inputs hpiece hread)
  cases piece with
  | text fixed => exact absurd rfl (hkeyword fixed)
  | field name missing =>
    cases h
    rcases field_cases hbare hget name missing with hmissing | hfield
    · rw [hmissing]
      exact hdefault
    · exact sound_of_bare hfield
  | quoted name =>
    cases h
    refine sound_quote ?_
    rcases field_cases hbare hget name "" with hmissing | hfield
    · rw [hmissing]
      decide
    · exact hfield
  | value input order placeholder =>
    obtain ⟨found, hfound, rfl⟩ := valueOr_eq h
    split
    · exact hdefault
    · exact sound_valueText (hsocket input rfl) hfound
  | body input => exact sound_bodyText hbare.indent (hsocket input rfl) h
  | list input | parameters input =>
    obtain ⟨items, hitems, h⟩ := exists_of_bind h
    cases h
    exact sound_commaSeparated ((hsocket input rfl).items block input items hitems)
  | properties input =>
    obtain ⟨items, hitems, h⟩ := exists_of_bind h
    cases h
    exact sound_braced ((hsocket input rfl).items block input items hitems)
  | callee input order placeholder =>
    obtain ⟨hkind, rfl, rfl, rfl⟩ := BlockKind.callee_eq hpiece
    obtain ⟨shown, hshown, h⟩ := exists_of_bind h
    obtain ⟨found, hfound, rfl⟩ := valueOr_eq hshown
    cases h
    split
    · exact hdefault.bareCallee parensMatch_placeholder
    · exact (sound_valueText (hsocket _ rfl) hfound).bareCallee (hmatch hkind found hfound)
  | arguments => exact harguments part h
  | literal name => exact sound_of_bare (hbare.allTexts.literal h)

/-- The texts of pieces are read like the keywords among them. -/
theorem reads_piecesText (hmatch : CalleeMatches plugged block) {pieces : List Piece}
    (hpieces : ∀ piece ∈ pieces, piece ∈ block.kind.template.pieces) (hescape : '\\' ∉ keywords pieces)
    {text : Text} (h : block.piecesText g Segment.spent plugged arguments pieces = .ok text) :
    Escapes text ∧ ∀ r : Reading, r.Steady →
      Text.read r (delimiters text) = Text.read r (delimiters (keywords pieces)) := by
  induction pieces generalizing text with
  | nil =>
    cases h
    exact ⟨.nil, fun _ _ => rfl⟩
  | cons piece rest ih =>
    rw [keywords, List.flatMap_cons, List.mem_append, not_or] at hescape
    rw [piecesText] at h
    obtain ⟨part, hpart, h⟩ := exists_of_bind h
    obtain ⟨more, hmore, h⟩ := exists_of_bind h
    cases h
    obtain ⟨hescapes, hreads⟩ :=
      ih (fun other hother => hpieces other (List.mem_cons_of_mem _ hother)) hescape.2 hmore
    have hpiece := hpieces piece (List.mem_cons_self ..)
    have hpartReads : Escapes part ∧ ∀ r : Reading, r.Steady →
        Text.read r (delimiters part) = Text.read r (delimiters piece.keyword) := by
      by_cases hkeyword : ∃ fixed, piece = .text fixed
      · obtain ⟨fixed, rfl⟩ := hkeyword
        cases hpart
        exact ⟨escapes_of_not_mem hescape.1, fun _ _ => rfl⟩
      · have hsound : Sound part := sound_pieceText hbare hget hplugged harguments hmatch hpiece
          (fun fixed heq => hkeyword ⟨fixed, heq⟩) hpart
        have hnone : piece.keyword = [] := by
          cases piece with
          | text fixed => exact absurd ⟨fixed, rfl⟩ hkeyword
          | _ => rfl
        rw [hnone]
        exact ⟨hsound.escapes, hsound.balanced⟩
    refine ⟨hpartReads.1.append hescapes, fun r hr => ?_⟩
    rw [keywords, List.flatMap_cons, delimiters_append, delimiters_append, read_append, read_append,
      hpartReads.2 r hr]
    cases hread : Text.read r (delimiters piece.keyword) with
    | none => rfl
    | some s => exact hreads s (hr.read_delimiters hread)

/-- The own code of a block is sound if what is read for it is. -/
theorem sound_code (hmatch : CalleeMatches plugged block) {code : Code}
    (h : block.code g Segment.spent plugged arguments = .ok code) : Sound code.text := by
  rw [Block.code] at h
  obtain ⟨text, htext, h⟩ := exists_of_bind h
  cases h
  obtain ⟨hescape, hbalanced⟩ := block.kind.keywords_sound
  obtain ⟨hescapes, hreads⟩ := reads_piecesText hbare hget hplugged harguments hmatch
    (fun _ hpiece => hpiece) hescape htext
  have hsound : Sound text := by
    refine ⟨hescapes, fun r hr => ?_⟩
    rw [hreads r hr, hbalanced r hr]
  cases block.kind.template.shape <;> exact hsound

/-- The own code of the first block of a chain is sound, whether or not its parameters are spent. -/
theorem sound_spentCode (hmatch : CalleeMatches plugged block) {rest : List Segment} {spent : Bool}
    (heq : arguments = (Segment.spentCode spent rest).map Code.text) {code : Code}
    (h : Segment.spentCode spent (⟨block.kind, block.code g Segment.spent plugged⟩ :: rest) = .ok code) :
    Sound code.text := by
  rw [Segment.spentCode, ← heq] at h
  split at h
  · cases h
    exact sound_nil
  · exact sound_code hbare hget hplugged harguments hmatch h

end

/-- The code of a call is the bare name of the function before its arguments in parentheses. -/
theorem code_call (hkind : block.kind = .functionCall) {code : Code}
    (h : block.code g Segment.spent plugged arguments = .ok code) :
    ∃ found text, block.valueText Segment.spent plugged "FUNCTION_NAME" .atomic = .ok found ∧
      arguments = .ok text ∧ code.text =
        bareCallee (if found.isEmpty then "undefined".toList else found) ++ parenthesize text := by
  have hpieces : block.kind.template =
      ⟨.expression .functionCall,
        [.callee "FUNCTION_NAME" .atomic "undefined", .text "(", .arguments, .text ")"]⟩ := by
    rw [hkind]
    rfl
  rw [Block.code, hpieces] at h
  obtain ⟨whole, hwhole, h⟩ := exists_of_bind h
  cases h
  obtain ⟨bare, hbare, hwhole⟩ := exists_of_bind hwhole
  obtain ⟨shown, hshown, hbare⟩ := exists_of_bind hbare
  obtain ⟨found, hfound, rfl⟩ := valueOr_eq hshown
  cases hbare
  obtain ⟨tail, htail, hwhole⟩ := exists_of_bind hwhole
  cases hwhole
  obtain ⟨opening, hopening, htail⟩ := exists_of_bind htail
  cases hopening
  obtain ⟨inside, hinside, htail⟩ := exists_of_bind htail
  cases htail
  obtain ⟨text, htext, hinside⟩ := exists_of_bind hinside
  cases hinside
  exact ⟨found, text, hfound, htext, rfl⟩

/-- If a call is nested, together with what comes after it, then the parentheses match that its callee
loses. -/
theorem calleeMatches_of_nested (hplugged : ∀ input ∈ block.kind.inputs, Sounds (plugged input))
    (harguments : ∀ text, arguments = .ok text → Sound text) {code : Code}
    (hcode : block.code g Segment.spent plugged arguments = .ok code) {after : Text} (hafter : Sound after)
    (hnested : Nested (code.text ++ after)) : CalleeMatches plugged block := by
  intro hkind found hfound
  obtain ⟨found', text, hfound', htext, heq⟩ := code_call hkind hcode
  cases hfound.symm.trans hfound'
  have hsound : Sound found := by
    refine sound_valueText (hplugged _ ?_) hfound
    rw [hkind]
    decide
  have hlist : Sound (parenthesize text ++ after) := (harguments text htext).parenthesize.append hafter
  rw [heq, List.append_assoc] at hnested
  cases found with
  | nil => exact parensMatch_nil
  | cons c rest => exact parensMatch_of_nested hsound (nested_of_append (escapes_bareCallee hsound) hlist hnested)

/-! ### Plain callees -/

/-- The own code of an expression is the text of its pieces. -/
theorem expression_of_code {text : Text} {order : Order}
    (h : block.code g Segment.spent plugged arguments = .ok (.expression text order)) :
    block.kind.template.shape = .expression order ∧
      block.piecesText g Segment.spent plugged arguments block.kind.template.pieces = .ok text := by
  obtain ⟨own, hown, h⟩ := exists_of_bind h
  cases hshape : block.kind.template.shape with
  | statement =>
    rw [hshape] at h
    cases h
  | expression =>
    rw [hshape] at h
    cases h
    exact ⟨rfl, hown⟩

/-- What a block is rendered as loses nothing if it ends in visible pieces that do not close. -/
theorem parensMatch_of_tail {init tail : List Piece} {text : Text}
    (h : block.piecesText g Segment.spent plugged arguments (init ++ tail) = .ok text)
    (htail : ∀ part, block.piecesText g Segment.spent plugged arguments tail = .ok part →
      (∀ c ∈ part, c ≠ ')' ∧ c ≠ '"') ∧ ∃ c ∈ part, isBlankChar c = false) : ParensMatch text := by
  obtain ⟨front, part, -, hpart, rfl⟩ := piecesText_append h
  exact parensMatch_of_end (htail part hpart).1 (.inr (htail part hpart).2)

/-- An expression that needs no parentheses has none to lose, unless it is a call. -/
theorem parensMatch_code (hbare : ws.BareTexts g) (hget : ws.get? id = some block)
    (hkind : block.kind ≠ .functionCall) {text : Text} {order : Order}
    (h : block.code g Segment.spent plugged arguments = .ok (.expression text order))
    (hwrap : order.needsParens .atomic = false) : ParensMatch text := by
  obtain ⟨hshape, htext⟩ := expression_of_code h
  have hfield (name missing : String) (hmissing : Bare missing.toList) :
      Bare ((block.field? name).getD missing).toList := by
    rcases field_cases hbare hget name missing with heq | hfield
    · rwa [heq]
    · exact hfield
  cases hcases : block.kind with
  | functionCall => exact absurd hcases hkind
  | numberLiteral | booleanLiteral | variableReference =>
    rw [hcases] at htext
    cases piecesText_singleton htext
    exact parensMatch_of_bare (hfield _ _ (by decide))
  | stringLiteral =>
    rw [hcases] at htext
    cases piecesText_singleton htext
    exact parensMatch_quote (hfield _ _ (by decide))
  | custom name =>
    rw [hcases] at htext
    exact parensMatch_of_bare (hbare.allTexts.literal (piecesText_singleton htext))
  | objectLiteral =>
    rw [hcases] at htext
    obtain ⟨items, -, hitems⟩ := exists_of_bind (piecesText_singleton htext)
    cases hitems
    exact parensMatch_braced items
  | arrayLiteral | objectBracketAccess | arrayIndexAccess =>
    have hpieces : block.kind.template.pieces = block.kind.template.pieces.dropLast ++ [.text "]"] := by
      rw [hcases]
      rfl
    rw [hpieces] at htext
    refine parensMatch_of_tail htext fun part hpart => ?_
    cases piecesText_singleton hpart
    refine ⟨fun c hc => ?_, ']', by simp, by decide⟩
    obtain rfl : c = ']' := by simpa using hc
    decide
  | objectPropertyAccess =>
    have hpieces : block.kind.template.pieces =
        [.value "OBJECT" .member "null"] ++ [.text ".", .field "PROPERTY" ""] := by
      rw [hcases]
      rfl
    rw [hpieces] at htext
    refine parensMatch_of_tail htext fun part hpart => ?_
    obtain ⟨dot, hdot, hpart⟩ := exists_of_bind hpart
    cases hdot
    obtain ⟨name, hname, hpart⟩ := exists_of_bind hpart
    cases hpart
    cases piecesText_singleton hname
    have hdot : Bare ".".toList := by decide
    refine ⟨ne_of_bare (List.forall_mem_append.2 ⟨hdot, hfield _ _ (by decide)⟩), '.', ?_, by decide⟩
    exact List.mem_append_left _ (by decide)
  | _ =>
    rw [hcases] at hshape
    cases hshape <;> exact absurd hwrap (by decide)

/-- The text of a single block other than a call loses parentheses that match, or none. -/
theorem parensMatch_valueText {callee : Block} {calleePlugged : String → List Segment} {input : String}
    (hbare : ws.BareTexts g) (hget : ws.get? id = some callee) (hkind : callee.kind ≠ .functionCall)
    (hplugged : plugged input = [⟨callee.kind, callee.code g Segment.spent calleePlugged⟩])
    (hsounds : Sounds (plugged input)) {text : Text}
    (h : block.valueText Segment.spent plugged input .atomic = .ok text) : ParensMatch text := by
  rw [hplugged] at hsounds
  rw [valueText, hplugged] at h
  obtain ⟨code, hcode, h⟩ := exists_of_bind h
  obtain ⟨own, hown, hcode⟩ := exists_of_bind hcode
  have hsound : Sound own.text := hsounds.own false own (by rwa [Segment.spentCode_false])
  cases hcode
  cases own with
  | statement => cases h
  | expression own order =>
    cases h
    rw [List.append_nil]
    split
    · exact parensMatch_parenthesize hsound.nested
    · rename_i hwrap
      cases own with
      | nil => exact parensMatch_nil
      | cons c rest =>
        refine parensMatch_code hbare hget hkind hown ?_
        simpa using hwrap

end Block

/-! ### Stacks -/

namespace Workspace

/-- The parentheses that a block takes off its callee match each other. -/
def CalleeMatches (ws : Workspace) (g : Generator) (id : BlockId) : Prop :=
  ∀ block, ws.get? id = some block → block.kind = .functionCall → ∀ text,
    ((Setting.mk ws g).readValue id "FUNCTION_NAME" .atomic {}).1 = .ok text → ParensMatch text

/-- If the block is a call, its callee is a single block other than a call, or there is none. -/
def PlainCallee (ws : Workspace) (id : BlockId) : Prop :=
  ∀ block, ws.get? id = some block → block.kind = .functionCall →
    ∀ child, block.input? "FUNCTION_NAME" = some child →
      ∀ callee, ws.get? child = some callee → callee.kind ≠ .functionCall ∧ callee.next = none

/-- A block and the blocks after it are rendered, and their code is nested. -/
def RendersNested (ws : Workspace) (g : Generator) (id : BlockId) : Prop :=
  ∃ code, ((Setting.mk ws g).renderBlock id .chain {}).1 = .ok code ∧ Nested code.text

end Workspace

section

variable {ws : Workspace} {g : Generator} {id : BlockId} {block : Block} {sockets : Sockets}
  {rest stack : Stack}

theorem calleeMatches_iff (hat : (Stack.cons id block sockets rest).At ws (some id))
    (hnodup : (Stack.cons id block sockets rest).ids.Nodup) :
    ws.CalleeMatches g id ↔ block.CalleeMatches (sockets.segments g Segment.spent) := by
  have hread : ((Setting.mk ws g).readValue id "FUNCTION_NAME" .atomic {}).1 =
      block.valueText Segment.spent (sockets.segments g Segment.spent) "FUNCTION_NAME" .atomic :=
    Setting.readValue_fresh hat hnodup _ _
  rw [Workspace.CalleeMatches, hread, hat.2.1]
  exact ⟨fun h => h block rfl, fun h other hother => by cases hother; exact h⟩

theorem rendersNested_iff (hat : stack.At ws (some id)) (hnodup : stack.ids.Nodup) :
    ws.RendersNested g id ↔ ∃ text, stack.text g Segment.spent = .ok text ∧ Nested text := by
  have hrender : ((Setting.mk ws g).renderBlock id .chain {}).1.map Code.text =
      stack.text g Segment.spent := Setting.renderBlock_fresh hat hnodup
  rw [← hrender]
  constructor
  · rintro ⟨code, hcode, hnested⟩
    exact ⟨code.text, by rw [hcode]; rfl, hnested⟩
  · rintro ⟨text, htext, hnested⟩
    obtain ⟨code, hcode, rfl⟩ := exists_of_map htext
    exact ⟨code, hcode, hnested⟩

theorem calleeMatches_of_plain (hbare : ws.BareTexts g)
    (hat : (Stack.cons id block sockets rest).At ws (some id)) (hplain : ws.PlainCallee id)
    (hplugged : ∀ input ∈ block.kind.inputs, Sounds (sockets.segments g Segment.spent input)) :
    block.CalleeMatches (sockets.segments g Segment.spent) := by
  intro hkind text htext
  obtain ⟨-, hget, hsockets, -⟩ := hat
  have hsounds : Sounds (sockets.segments g Segment.spent "FUNCTION_NAME") := by
    refine hplugged _ ?_
    rw [hkind]
    decide
  have hsegments := sockets.segments_eq g Segment.spent "FUNCTION_NAME"
  have hcallee := hsockets.find "FUNCTION_NAME"
  cases hfind : sockets.find "FUNCTION_NAME" with
  | nil =>
    rw [hfind, Stack.segments_nil] at hsegments
    rw [Block.valueText, hsegments] at htext
    cases htext
    exact parensMatch_nil
  | cons child callee calleeSockets after =>
    rw [hfind] at hsegments hcallee
    obtain ⟨hchild, hgetCallee, -, hafter⟩ := hcallee
    obtain ⟨hcall, hnone⟩ := hplain block hget hkind child hchild callee hgetCallee
    rw [hnone] at hafter
    cases after with
    | cons => cases hafter.1
    | nil =>
      rw [Stack.segments_cons, Stack.segments_nil] at hsegments
      exact Block.parensMatch_valueText hbare hgetCallee hcall hsegments hsounds htext

theorem calleeMatches_of_rendersNested (hat : (Stack.cons id block sockets rest).At ws (some id))
    (hnodup : (Stack.cons id block sockets rest).ids.Nodup)
    (hplugged : ∀ input ∈ block.kind.inputs, Sounds (sockets.segments g Segment.spent input))
    (hafter : Sounds (rest.segments g Segment.spent)) (hnested : ws.RendersNested g id) :
    block.CalleeMatches (sockets.segments g Segment.spent) := by
  obtain ⟨text, htext, hnested⟩ := (rendersNested_iff hat hnodup).1 hnested
  obtain ⟨code, after, hown, hrest, rfl⟩ := Stack.text_cons_eq htext
  rw [Stack.segments_cons, ← Segment.spentCode_false] at hown
  exact Block.calleeMatches_of_nested hplugged (hafter.arguments false) hown
    (hafter.after _ after hrest) hnested

/-- All that is read of a stack is sound, and its first callee loses a matching pair, if each block within
reach keeps one of the three promises. -/
theorem sounds_stack (hbare : ws.BareTexts g)
    (hpromise : ∀ id, ws.Reached id →
      ws.CalleeMatches g id ∨ ws.RendersNested g id ∨ ws.PlainCallee id)
    {first? : Option BlockId} (hat : stack.At ws first?) (hnodup : stack.ids.Nodup)
    (hreached : ∀ id, first? = some id → ws.Reached id)
    (htext : ∃ text, stack.text g Segment.spent = .ok text) :
    Sounds (stack.segments g Segment.spent) ∧ ∀ id, first? = some id → ws.CalleeMatches g id := by
  induction stack using Stack.deep_induction generalizing first? with
  | nil =>
    rw [Stack.segments_nil]
    cases hat
    exact ⟨sounds_nil, fun id h => by cases h⟩
  | cons id block sockets rest ihsockets ihrest =>
    have hstack := hat
    obtain ⟨rfl, hget, hsockets, hrest⟩ := hat
    obtain ⟨text, htext⟩ := htext
    obtain ⟨-, -, hnodupSockets, hnodupRest, -⟩ := Stack.nodup_cons hnodup
    have hid := hreached id rfl
    have hplugged : ∀ input ∈ block.kind.inputs, Sounds (sockets.segments g Segment.spent input) := by
      intro input hinput
      rw [Sockets.segments_eq]
      refine (ihsockets input (hsockets.find input)
        (hnodupSockets.sublist (sockets.ids_find_sublist input)) ?_ (Stack.exists_text_find htext hinput)).1
      intro child hchild
      exact hid.link (.inl ⟨block, hget, input, hinput, hchild⟩)
    have hafter : Sounds (rest.segments g Segment.spent) := by
      refine (ihrest hrest hnodupRest ?_ (Stack.exists_text_rest htext)).1
      intro next hnext
      exact hid.link (.inr ⟨block, hget, hnext⟩)
    have hmatch : block.CalleeMatches (sockets.segments g Segment.spent) := by
      rcases hpromise id hid with h | h | h
      · exact (calleeMatches_iff hstack hnodup).1 h
      · exact calleeMatches_of_rendersNested hstack hnodup hplugged hafter h
      · exact calleeMatches_of_plain hbare hstack h hplugged
    refine ⟨?_, fun other hother => by cases hother; exact (calleeMatches_iff hstack hnodup).2 hmatch⟩
    rw [Stack.segments_cons]
    exact .cons (fun spent code hcode =>
      Block.sound_spentCode hbare hget hplugged (hafter.arguments spent) hmatch rfl hcode) hafter

theorem sound_text (hsounds : Sounds (stack.segments g Segment.spent)) {text : Text}
    (h : stack.text g Segment.spent = .ok text) : Sound text := by
  rw [Stack.text] at h
  cases hsegments : stack.segments g Segment.spent with
  | nil =>
    rw [hsegments] at h
    cases h
    exact sound_nil
  | cons first rest =>
    rw [hsegments] at h
    obtain ⟨code, hcode, rfl⟩ := exists_of_map h
    exact hsounds.chain first rest code hsegments hcode

theorem sound_texts {forest : List Stack}
    (hsounds : ∀ stack ∈ forest, Sounds (stack.segments g Segment.spent)) {texts : List Text}
    (h : Stack.texts g Segment.spent forest = .ok texts) : ∀ text ∈ texts, Sound text := by
  induction forest generalizing texts with
  | nil =>
    cases h
    exact fun text htext => (List.not_mem_nil htext).elim
  | cons stack rest ih =>
    obtain ⟨hstack, hrest⟩ := List.forall_mem_cons.1 hsounds
    obtain ⟨text, htext, h⟩ := exists_of_bind h
    obtain ⟨more, hmore, h⟩ := exists_of_bind h
    cases h
    split
    · exact ih hrest hmore
    · exact List.forall_mem_cons.2 ⟨sound_text hstack htext, ih hrest hmore⟩

end

/-! ### Programs -/

/-- The program of a forest has the texts of its stacks. -/
theorem exists_texts_of_program {ws : Workspace} {g : Generator} {forest : List Stack}
    (hforest : ws.Forest ws.topBlocks forest) {program : String} (h : g.generate ws = .ok program) :
    ∃ texts, Stack.texts g Segment.spent forest = .ok texts ∧
      program.toList = tidy (terminate (unlines texts)) := by
  obtain ⟨texts, htexts, hcode⟩ := Generator.exists_texts_of_generate h
  rw [Setting.topTexts_stacks hforest (Setting.idle_start ⟨ws, g⟩)] at htexts
  exact ⟨texts, htexts, hcode⟩

/-- **Brackets are nested exactly if callees lose matching parentheses,** which they do unless a callee is
itself a call or has blocks after it. -/
theorem Generator.brackets_nested (g : Generator) {value : Json} {ws : Workspace}
    (hload : Workspace.ofJson value = .ok ws) (hbare : ws.BareTexts g) {program : String}
    (hprogram : g.generate ws = .ok program) :
    ((∀ id, ws.Reached id → ws.RendersNested g id) ↔ ∀ id, ws.Reached id → ws.CalleeMatches g id) ∧
      ((∀ id, ws.Reached id → ws.CalleeMatches g id) → Nested program.toList) ∧
      ((∀ id, ws.Reached id → ws.PlainCallee id) → ∀ id, ws.Reached id → ws.CalleeMatches g id) := by
  obtain ⟨forest, hforest⟩ := Workspace.forest_of_ofJson hload (List.mergeSort_perm ws.top _)
  obtain ⟨texts, htexts, heq⟩ := exists_texts_of_program hforest hprogram
  have htops (top : BlockId) : top ∈ ws.topBlocks ↔ top ∈ ws.top := List.mem_mergeSort
  have hblock (hpromise : ∀ id, ws.Reached id →
        ws.CalleeMatches g id ∨ ws.RendersNested g id ∨ ws.PlainCallee id)
      (id : BlockId) (hreached : ws.Reached id) : ws.CalleeMatches g id ∧ ws.RendersNested g id := by
    obtain ⟨stack, hat, hnodup, text, htext⟩ :=
      hforest.exists_stack (fun top => (htops top).2) htexts hreached
    obtain ⟨hsounds, hmatch⟩ := sounds_stack hbare hpromise hat hnodup
      (fun other hother => by cases hother; exact hreached) ⟨text, htext⟩
    exact ⟨hmatch id rfl,
      (rendersNested_iff hat hnodup).2 ⟨text, htext, (sound_text hsounds htext).nested⟩⟩
  refine ⟨⟨fun h id hid => (hblock (fun id hid => .inr (.inl (h id hid))) id hid).1,
    fun h id hid => (hblock (fun id hid => .inl (h id hid)) id hid).2⟩, fun h => ?_,
    fun h id hid => (hblock (fun id hid => .inr (.inr (h id hid))) id hid).1⟩
  have hsounds : ∀ stack ∈ forest, Sounds (stack.segments g Segment.spent) := by
    intro stack hstack
    obtain ⟨top, htop, hat⟩ := exists_of_forall₂ hforest.at_eq.flip hstack
    have hreached : ws.Reached top := ⟨top, (htops top).1 htop, .refl⟩
    exact (sounds_stack hbare (fun id hid => .inl (h id hid)) hat
      ((List.nodup_flatMap.1 hforest.nodup).1 stack hstack)
      (fun other hother => by cases hother; exact hreached)
      (Stack.exists_text_of_texts htexts stack hstack)).1
  rw [heq]
  exact (sound_unlines (sound_texts hsounds htexts)).terminate.tidy.nested

/-! ### A call of a call -/

/-- The node of a call. -/
def callNode (callee : Json) : Json :=
  .object [("inputs", .object [("FUNCTION_NAME", .object [("block", callee)])]),
    ("type", .string "function_call")]

/-- The node of the member `c` of the sum of `a` and `b`. -/
def memberNode : Json :=
  let operand (name : String) : Json := .object [("block", .object [
    ("fields", .object [("VAR_NAME", .string name)]), ("type", .string "variable_reference")])]
  .object [("fields", .object [("PROPERTY", .string "c")]),
    ("inputs", .object [("OBJECT", .object [("block", .object [
      ("inputs", .object [("A", operand "a"), ("B", operand "b")]), ("type", .string "any_concat")])])]),
    ("type", .string "object_property_access")]

/-- A document with one block on the canvas. -/
def canvasDocument (node : Json) : Json :=
  .object [("blocks", .object [("blocks", .array [node])])]

/-- The workspace of a call of the member. -/
def memberCall : Workspace where
  blocks :=
    #[{ id := "b0", kind := .functionCall, inputs := [("FUNCTION_NAME", ⟨1⟩)],
        position := some ⟨.zero, .zero⟩ },
      { id := "b1", kind := .objectPropertyAccess, fields := [("PROPERTY", "c")], inputs := [("OBJECT", ⟨2⟩)] },
      { id := "b2", kind := .anyConcat, inputs := [("A", ⟨3⟩), ("B", ⟨4⟩)] },
      { id := "b3", kind := .variableReference, fields := [("VAR_NAME", "a")] },
      { id := "b4", kind := .variableReference, fields := [("VAR_NAME", "b")] }]
  top := [⟨0⟩]

/-- The workspace of a call of that call. -/
def memberCallTwice : Workspace where
  blocks :=
    #[{ id := "b0", kind := .functionCall, inputs := [("FUNCTION_NAME", ⟨1⟩)],
        position := some ⟨.zero, .zero⟩ },
      { id := "b1", kind := .functionCall, inputs := [("FUNCTION_NAME", ⟨2⟩)] },
      { id := "b2", kind := .objectPropertyAccess, fields := [("PROPERTY", "c")], inputs := [("OBJECT", ⟨3⟩)] },
      { id := "b3", kind := .anyConcat, inputs := [("A", ⟨4⟩), ("B", ⟨5⟩)] },
      { id := "b4", kind := .variableReference, fields := [("VAR_NAME", "a")] },
      { id := "b5", kind := .variableReference, fields := [("VAR_NAME", "b")] }]
  top := [⟨0⟩]

theorem memberCall_loaded : Workspace.ofJson (canvasDocument (callNode memberNode)) = .ok memberCall := by
  cbv

theorem memberCallTwice_loaded :
    Workspace.ofJson (canvasDocument (callNode (callNode memberNode))) = .ok memberCallTwice := by
  cbv

theorem memberCall_bareTexts : memberCall.BareTexts {} :=
  Workspace.bareTexts_of_forall (by decide) (by decide) (by decide)

theorem memberCallTwice_bareTexts : memberCallTwice.BareTexts {} :=
  Workspace.bareTexts_of_forall (by decide) (by decide) (by decide)

theorem memberCall_code : Generator.generate {} memberCall = .ok "(a + b).c();" := by
  cbv

theorem memberCallTwice_code : Generator.generate {} memberCallTwice = .ok "a + b).c(();" := by
  cbv

theorem memberCall_plainCallee (id : BlockId) : memberCall.PlainCallee id := by
  obtain ⟨index⟩ := id
  intro block hget hkind child hchild callee hcallee
  rcases index with _ | _ | _ | _ | _ | index
  · cases hget
    cases hchild
    cases hcallee
    exact ⟨by decide, rfl⟩
  all_goals
    cases hget
    try cases hkind

/-- A call of the member keeps the parentheses of the sum; a call of that call takes one of them for its own. -/
theorem memberCallTwice_not_nested :
    (Workspace.ofJson (canvasDocument (callNode memberNode)) = .ok memberCall ∧ memberCall.BareTexts {} ∧
      Generator.generate {} memberCall = .ok "(a + b).c();" ∧ Text.Nested "(a + b).c();".toList) ∧
    (Workspace.ofJson (canvasDocument (callNode (callNode memberNode))) = .ok memberCallTwice ∧
      memberCallTwice.BareTexts {} ∧ Generator.generate {} memberCallTwice = .ok "a + b).c(();" ∧
      ¬ Text.Nested "a + b).c(();".toList ∧
      ¬ ∀ id, memberCallTwice.Reached id → memberCallTwice.CalleeMatches {} id) := by
  obtain ⟨-, hnested, hplain⟩ :=
    Generator.brackets_nested {} memberCall_loaded memberCall_bareTexts memberCall_code
  obtain ⟨-, hnested', -⟩ :=
    Generator.brackets_nested {} memberCallTwice_loaded memberCallTwice_bareTexts memberCallTwice_code
  have hmatch := hplain fun id _ => memberCall_plainCallee id
  have hnot : ¬ Text.Nested "a + b).c(();".toList := by decide
  exact ⟨⟨memberCall_loaded, memberCall_bareTexts, memberCall_code, hnested hmatch⟩,
    memberCallTwice_loaded, memberCallTwice_bareTexts, memberCallTwice_code, hnot,
    fun h => hnot (hnested' h)⟩

end BlockProgram
