import BlockProgram.Proofs.Forest.Acceptance
import BlockProgram.Proofs.Forest.Quotation
import BlockProgram.Proofs.Text.Pattern
import BlockProgram.Proofs.Text.Visible

/-!
How the text of an expression ends, and how the program closes it. An expression ends in a visible
character, which the last piece of its template decides:

    12   name   "text"   f(x)   [1, 2]   a[0]   !(b)   o.p       no brace: the line is closed with `;`
    { x: 1, }                                                     a brace: the line is left as it is
    a + b                                                         as `b` does

So a program closes all lines of expressions but those that end in a brace
(`Generator.expressions_closed`).
-/

namespace BlockProgram

open Text

/-! ### Blocks -/

theorem Text.IsPlain.endsOpen {text : Text} (h : text.IsPlain) : EndsOpen text := by
  obtain ⟨init, c, rfl, hc⟩ := h.last
  have hopening : c ≠ '\x7b' := ne_of_plain hc (by decide)
  have hclosing : c ≠ '\x7d' := ne_of_plain hc (by decide)
  have hvisible : lastVisible? [c] = some c := by
    rw [← List.nil_append [c], lastVisible?_concat, not_blank_of_plain hc]
    rfl
  have hlast : EndsOpen [c] :=
    ⟨by simp [isBlank, not_blank_of_plain hc], by simp [endsInBrace, hvisible, hopening, hclosing]⟩
  exact hlast.append_right init

theorem Text.endsInBrace_braced (items : List Text) :
    isBlank (braced items) = false ∧ endsInBrace (braced items) = true := by
  obtain ⟨init, heq⟩ : ∃ init, braced items = init ++ ['\x7d'] := by
    rw [braced]
    split
    · exact ⟨['\x7b'], rfl⟩
    · exact ⟨_, (List.append_assoc _ [' '] ['\x7d']).symm⟩
  have hvisible : isBlank ['\x7d'] = false := by decide
  rw [heq, isBlank_append, endsInBrace_append, hvisible, Bool.and_false]
  exact ⟨rfl, rfl⟩

namespace Block

variable {ws : Workspace} {g : Generator} {plugged : String → List Segment} {id : BlockId}
  {block : Block} {arguments : Except GenerateError Text} {text : Text}

/-- How the text of an expression ends: it is blank only for a variable without a name, and it ends in a brace
only for an object, or for an operation whose right operand does. -/
structure Ends (plugged : String → List Segment) (block : Block) (text : Text) : Prop where
  blank : isBlank text = true →
    text = [] ∧ block.kind = .variableReference ∧ block.field? "VAR_NAME" = none
  brace : endsInBrace text = true ↔ block.kind = .objectLiteral ∨
    ∃ operator order placeholder found, block.kind.template = .binary operator order placeholder ∧
      block.valueText Segment.spent plugged "B" order = .ok found ∧ endsInBrace found = true

/-- What is neither an object nor an operation does not end in a brace. -/
theorem Ends.of_endsInBrace_eq_false (h : endsInBrace text = false) (hobject : block.kind ≠ .objectLiteral)
    (hinput : "B" ∉ block.kind.inputs)
    (hblank : isBlank text = true →
      text = [] ∧ block.kind = .variableReference ∧ block.field? "VAR_NAME" = none) :
    block.Ends plugged text := by
  refine ⟨hblank, ?_⟩
  rw [h]
  refine ⟨fun h => (Bool.false_ne_true h).elim, ?_⟩
  rintro (hkind | ⟨operator, order, placeholder, found, htemplate, -⟩)
  · exact absurd hkind hobject
  · refine absurd ?_ hinput
    rw [BlockKind.inputs, htemplate]
    simp [Template.binary, Piece.input?]

theorem Ends.of_endsOpen (h : EndsOpen text) (hobject : block.kind ≠ .objectLiteral)
    (hinput : "B" ∉ block.kind.inputs) : block.Ends plugged text := by
  refine .of_endsInBrace_eq_false h.2 hobject hinput fun hblank => ?_
  rw [h.1] at hblank
  cases hblank

/-- A text that ends in a fixed one. -/
theorem endsOpen_of_text {pieces : List Piece} {fixed : String}
    (hpieces : pieces.getLast? = some (.text fixed)) (hfixed : EndsOpen fixed.toList)
    (h : block.piecesText g Segment.spent plugged arguments pieces = .ok text) : EndsOpen text := by
  obtain ⟨init, rfl⟩ := List.getLast?_eq_some_iff.1 hpieces
  obtain ⟨front, part, -, hpart, rfl⟩ := piecesText_append h
  cases piecesText_singleton hpart
  exact hfixed.append_right front

/-- An operation ends as its right operand does, or as the placeholder or the operator if nothing is visible
there. -/
theorem Ends.of_binary {operator placeholder : String} {order : Order}
    (hkind : block.kind.template = .binary operator order placeholder)
    (hobject : block.kind ≠ .objectLiteral) (hoperator : EndsOpen (" " ++ operator ++ " ").toList)
    (hplaceholder : EndsOpen placeholder.toList)
    (h : block.piecesText g Segment.spent plugged arguments block.kind.template.pieces = .ok text) :
    block.Ends plugged text := by
  have hpieces : block.kind.template.pieces =
      [.value "A" order placeholder, .text (" " ++ operator ++ " ")] ++ [.value "B" order placeholder] := by
    rw [hkind]
    rfl
  rw [hpieces] at h
  obtain ⟨front, part, hfront, hpart, rfl⟩ := piecesText_append h
  have hopen : EndsOpen front := endsOpen_of_text rfl hoperator hfront
  obtain ⟨found, hfound, rfl⟩ := valueOr_eq (piecesText_singleton hpart)
  have hbrace : endsInBrace (front ++ if found.isEmpty then placeholder.toList else found) =
      endsInBrace found := by
    cases found with
    | nil => exact (hplaceholder.append_right front).2
    | cons c more =>
      rw [List.isEmpty_cons, if_neg (by simp), endsInBrace_append]
      split
      · rename_i hblank
        rw [hopen.2, endsInBrace, lastVisible?_eq_none_iff.2 hblank]
        rfl
      · rfl
  refine ⟨fun hblank => ?_, ?_⟩
  · rw [isBlank_append, hopen.1] at hblank
    cases hblank
  · rw [hbrace]
    refine ⟨fun h => .inr ⟨operator, order, placeholder, found, hkind, hfound, h⟩, ?_⟩
    rintro (hkind' | ⟨operator', order', placeholder', found', htemplate, hfound', h⟩)
    · exact absurd hkind' hobject
    · have hshape := congrArg Template.shape (hkind.symm.trans htemplate)
      obtain rfl : order = order' := CodeShape.expression.inj hshape
      cases hfound.symm.trans hfound'
      exact h

theorem ends_code (htexts : ws.AllTexts IsPlain g) (hget : ws.get? id = some block)
    (hvalue : block.kind.isStatement = false)
    (h : block.piecesText g Segment.spent plugged arguments block.kind.template.pieces = .ok text) :
    block.Ends plugged text := by
  have hfield (name missing : String) (hmissing : EndsOpen missing.toList) :
      EndsOpen ((block.field? name).getD missing).toList := by
    rcases htexts.field hget name missing with ⟨-, heq⟩ | hplain
    · rwa [heq]
    · exact hplain.endsOpen
  cases hkind : block.kind with
  | numberLiteral | booleanLiteral =>
    rw [hkind] at h
    cases piecesText_singleton h
    exact .of_endsOpen (hfield _ _ (by decide)) (by rw [hkind]; decide) (by rw [hkind]; decide)
  | stringLiteral =>
    rw [hkind] at h
    cases piecesText_singleton h
    have hquote : EndsOpen ['"'] := by decide
    exact .of_endsOpen (hquote.append_right ('"' :: _)) (by rw [hkind]; decide) (by rw [hkind]; decide)
  | custom name =>
    rw [hkind] at h
    have hliteral : IsPlain text := htexts.literal (piecesText_singleton h)
    exact .of_endsOpen hliteral.endsOpen (by simp [hkind]) (by rw [hkind]; exact List.not_mem_nil)
  | variableReference =>
    rw [hkind] at h
    cases piecesText_singleton h
    rcases htexts.field hget "VAR_NAME" "" with ⟨hnone, heq⟩ | hplain
    · rw [heq]
      exact .of_endsInBrace_eq_false rfl (by rw [hkind]; decide) (by rw [hkind]; decide)
        fun _ => ⟨rfl, hkind, hnone⟩
    · exact .of_endsOpen hplain.endsOpen (by rw [hkind]; decide) (by rw [hkind]; decide)
  | objectLiteral =>
    rw [hkind] at h
    obtain ⟨items, -, hitems⟩ := exists_of_bind (piecesText_singleton h)
    cases hitems
    obtain ⟨hvisible, hbrace⟩ := endsInBrace_braced items
    refine ⟨fun hblank => ?_, fun _ => .inl hkind, fun _ => hbrace⟩
    rw [hvisible] at hblank
    cases hblank
  | objectPropertyAccess =>
    have hpieces : block.kind.template.pieces =
        [.value "OBJECT" .member "null", .text "."] ++ [.field "PROPERTY" ""] := by
      rw [hkind]
      rfl
    rw [hpieces] at h
    obtain ⟨front, part, hfront, hpart, rfl⟩ := piecesText_append h
    cases piecesText_singleton hpart
    have hdot : EndsOpen front := endsOpen_of_text rfl (by decide) hfront
    refine .of_endsOpen ?_ (by rw [hkind]; decide) (by rw [hkind]; decide)
    rcases htexts.field hget "PROPERTY" "" with ⟨-, heq⟩ | hplain
    · rw [heq, String.toList_empty, List.append_nil]
      exact hdot
    · exact hplain.endsOpen.append_right front
  | arrayLiteral | objectBracketAccess | arrayIndexAccess | logicNot | functionCall =>
    rw [hkind] at h
    exact .of_endsOpen (endsOpen_of_text rfl (by decide) h) (by rw [hkind]; decide) (by rw [hkind]; decide)
  | anyConcat | mathSubtract | mathMultiply | mathDivide | logicAnd | logicOr | comparisonGt | comparisonLt
    | comparisonEq | comparisonNeq | comparisonGte | comparisonLte =>
    exact .of_binary (by rw [hkind]; rfl) (by rw [hkind]; decide) (by decide) (by decide) h
  | _ =>
    rw [hkind] at hvalue
    cases hvalue

end Block

/-! ### Programs -/

/-- Nothing comes after a block, unless it is a call and its parameters come after it. -/
def Workspace.StandsAlone (ws : Workspace) (block : Block) : Prop :=
  block.next = none ∨ block.kind = .functionCall ∧ ∃ next params, block.next = some next ∧
    ws.get? next = some params ∧ params.kind = .functionParams ∧ params.next = none

/-- Texts of letters and digits are plain. -/
theorem Workspace.allTexts_of_isAlphanum {ws : Workspace} {g : Generator}
    (hliterals : ∀ entry ∈ g.literals, entry.2.toList ≠ [] ∧ entry.2.toList.all Char.isAlphanum = true)
    (hfields : ∀ block ∈ ws.blocks, ∀ entry ∈ block.fields,
      entry.2.toList ≠ [] ∧ entry.2.toList.all Char.isAlphanum = true) : ws.AllTexts IsPlain g :=
  allTexts_of_forall
    (fun entry hentry => isPlain_of_isAlphanum (hliterals entry hentry).1 (hliterals entry hentry).2)
    fun block hblock entry hentry =>
      isPlain_of_isAlphanum (hfields block hblock entry hentry).1 (hfields block hblock entry hentry).2

theorem Code.text_ofShape (text : Text) (shape : CodeShape) : (Code.ofShape text shape).text = text := by
  cases shape <;> rfl

section

variable {ws : Workspace} {g : Generator} {id : BlockId} {block : Block} {sockets : Sockets} {rest : Stack}
  {text : Text}

/-- Nothing is written after the first block of a stack if only parameters come after it. -/
theorem Stack.after_of_standsAlone (hat : rest.At ws block.next) (halone : ws.StandsAlone block)
    (segment : Segment) (hsegment : segment.kind = block.kind) :
    Segment.spent segment (rest.segments g Segment.spent) = .ok [] := by
  rcases halone with hnext | ⟨hcall, next, params, hnext, hget, hkind, hlast⟩
  · rw [hnext] at hat
    cases rest with
    | nil => rw [segments_nil]; rfl
    | cons => cases hat.1
  · rw [hnext] at hat
    cases rest with
    | nil => cases hat
    | cons other found plugged more =>
      obtain ⟨hother, hfound, -, hmore⟩ := hat
      cases hother
      cases hget.symm.trans hfound
      rw [hlast] at hmore
      cases more with
      | cons => cases hmore.1
      | nil =>
        -- the parameters are spent
        have hspent : decide (segment.kind = .functionCall) = true := by rw [hsegment, hcall]; rfl
        rw [segments_cons, segments_nil, Segment.spent, Segment.spentCode, if_pos ⟨hspent, hkind⟩]
        rfl

/-- The text of a stack with nothing after its first block is the own text of that block. -/
theorem Stack.exists_piecesText_of_standsAlone (hat : (cons id block sockets rest).At ws (some id))
    (halone : ws.StandsAlone block)
    (h : (cons id block sockets rest).text g Segment.spent = .ok text) :
    ∃ arguments, block.piecesText g Segment.spent (sockets.segments g Segment.spent) arguments
      block.kind.template.pieces = .ok text := by
  obtain ⟨code, after, hown, hafter, rfl⟩ := text_cons_eq h
  rw [after_of_standsAlone hat.2.2.2 halone _ rfl] at hafter
  cases hafter
  rw [segments_cons, Segment.ownCode] at hown
  obtain ⟨own, hpieces, hown⟩ := exists_of_bind hown
  cases hown
  rw [List.append_nil, Code.text_ofShape]
  exact ⟨_, hpieces⟩

end

/-- Programs close the lines on which expressions end, other than those that end in a brace. -/
theorem Generator.expressions_closed (g : Generator) {value : Json} {ws : Workspace}
    (hload : Workspace.ofJson value = .ok ws) (htexts : ws.AllTexts IsPlain g) {code : String}
    (hcode : g.generate ws = .ok code) :
    (∃ texts, List.Forall₂ (fun top text =>
        (Setting.renderBlock ⟨ws, g⟩ top .chain {}).1.map Code.text = .ok text) ws.topBlocks texts ∧
      codeLines code.toList = texts.flatMap fun text => codeLines (terminate text)) ∧
    ∀ top ∈ ws.topBlocks, ∀ block, ws.get? top = some block → block.kind.isStatement = false →
      ws.StandsAlone block →
      ∀ text, (Setting.renderBlock ⟨ws, g⟩ top .chain {}).1.map Code.text = .ok text →
        (text = [] → block.kind = .variableReference ∧ block.field? "VAR_NAME" = none) ∧
        (text ≠ [] → ∃ line, (codeLines (terminate text)).getLast? = some line ∧
          (lastVisible? line = some ';' ↔ endsInBrace text = false)) ∧
        (endsInBrace text = true ↔ block.kind = .objectLiteral ∨
          ∃ operator order placeholder found,
            block.kind.template = .binary operator order placeholder ∧
            (Setting.readValue ⟨ws, g⟩ top "B" order {}).1 = .ok found ∧ endsInBrace found = true) := by
  obtain ⟨forest, hforest⟩ := Workspace.forest_of_ofJson hload (List.mergeSort_perm ws.top _)
  obtain ⟨texts, htops, heq⟩ := exists_texts_of_program hforest hcode
  refine ⟨?_, ?_⟩
  · obtain ⟨all, hall, rfl⟩ := hforest.exists_rendered htops
    refine ⟨all, hall, ?_⟩
    rw [heq, codeLines_tidy, codeLines_terminate_unlines, flatMap_codeLines_filter]
  · intro top htop block hget hvalue halone text htext
    obtain ⟨stack, hstack, hat⟩ := exists_of_forall₂ hforest.at_eq htop
    have hnodup := (List.nodup_flatMap.1 hforest.nodup).1 stack hstack
    rw [Setting.renderBlock_fresh hat hnodup] at htext
    obtain ⟨sockets, rest, rfl⟩ := hat.exists_cons hget
    obtain ⟨arguments, hpieces⟩ := Stack.exists_piecesText_of_standsAlone hat halone htext
    obtain ⟨hblank, hbrace⟩ := Block.ends_code htexts hget hvalue hpieces
    refine ⟨fun hnil => (hblank (by rw [hnil]; rfl)).2, fun hne => ?_, ?_⟩
    · refine exists_lastLine_terminate (Bool.eq_false_iff.2 fun h => hne (hblank h).1)
    · simp only [Setting.readValue_fresh (s := ⟨ws, g⟩) hat hnodup]
      exact hbrace

/-! ### A sum and an object -/

/-- The node of the sum of a variable and a number. -/
def sumNode : Json :=
  blockNode .anyConcat [] [("A", blockNode .variableReference [("VAR_NAME", "a")] [] none),
    ("B", blockNode .numberLiteral [("NUM", "1")] [] none)] none

/-- The workspace of the sum. -/
def nakedSum : Workspace where
  blocks :=
    #[{ id := "b0", kind := .anyConcat, inputs := [("A", ⟨1⟩), ("B", ⟨2⟩)],
        position := some ⟨.zero, .zero⟩ },
      { id := "b1", kind := .variableReference, fields := [("VAR_NAME", "a")] },
      { id := "b2", kind := .numberLiteral, fields := [("NUM", "1")] }]
  top := [⟨0⟩]

theorem nakedSum_loaded : Workspace.ofJson (canvasDocument sumNode) = .ok nakedSum := by
  cbv

theorem nakedSum_code : Generator.generate {} nakedSum = .ok "a + 1;" := by
  cbv

theorem nakedSum_closed :
    Workspace.ofJson (canvasDocument sumNode) = .ok nakedSum ∧ nakedSum.AllTexts IsPlain {} ∧
      Generator.generate {} nakedSum = .ok "a + 1;" ∧
      ∃ line, (codeLines (terminate "a + 1".toList)).getLast? = some line ∧ lastVisible? line = some ';' := by
  have htexts : nakedSum.AllTexts IsPlain {} := Workspace.allTexts_of_isAlphanum (by decide) (by decide)
  have hrender : (Setting.renderBlock ⟨nakedSum, {}⟩ ⟨0⟩ .chain {}).1.map Code.text =
      .ok "a + 1".toList := by
    cbv
  obtain ⟨-, hclosed, -⟩ := (Generator.expressions_closed {} nakedSum_loaded htexts nakedSum_code).2 ⟨0⟩
    (List.mem_mergeSort.2 (List.mem_singleton_self _)) _ rfl rfl (.inl rfl) _ hrender
  obtain ⟨line, hline, hlast⟩ := hclosed (by decide)
  exact ⟨nakedSum_loaded, htexts, nakedSum_code, line, hline, hlast.2 (by decide)⟩

/-- The node of an object with one property. -/
def objectNode : Json :=
  blockNode .objectLiteral [] [("PROPERTIES", blockNode .objectProperty [("PROP_NAME", "x")]
    [("VALUE", blockNode .numberLiteral [("NUM", "1")] [] none)] none)] none

/-- The workspace of the object. -/
def nakedObject : Workspace where
  blocks :=
    #[{ id := "b0", kind := .objectLiteral, inputs := [("PROPERTIES", ⟨1⟩)],
        position := some ⟨.zero, .zero⟩ },
      { id := "b1", kind := .objectProperty, fields := [("PROP_NAME", "x")], inputs := [("VALUE", ⟨2⟩)] },
      { id := "b2", kind := .numberLiteral, fields := [("NUM", "1")] }]
  top := [⟨0⟩]

/-- An object by itself is not closed. -/
theorem nakedObject_not_closed :
    Workspace.ofJson (canvasDocument objectNode) = .ok nakedObject ∧
      (∀ block ∈ nakedObject.blocks, ∀ entry ∈ block.fields,
        entry.2.toList ≠ [] ∧ entry.2.toList.all Char.isAlphanum = true) ∧
      (∀ block ∈ nakedObject.blocks, block.kind ≠ .functionCall ∧ block.next = none) ∧
      nakedObject.top = [⟨0⟩] ∧ BlockKind.objectLiteral.isStatement = false ∧
      Generator.generate {} nakedObject = .ok "\x7b x: 1, \x7d" ∧
      ¬ lastVisible? "\x7b x: 1, \x7d".toList = some ';' :=
  ⟨by cbv, by decide, by decide, rfl, rfl, by cbv, by decide⟩

end BlockProgram
