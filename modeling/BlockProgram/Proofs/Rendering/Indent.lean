import BlockProgram.Generator.Program
import BlockProgram.Proofs.Rendering.Parallel
import BlockProgram.Proofs.Text.Indentation

/-!
The width of the indent. Two generators that differ in nothing but how many spaces they indent by run in
parallel: whatever one renders, the other renders as an aligned text, and where one fails, the other does.

Only the statements in a body are indented, and a body always begins a line: the text before it in its
template ends in a newline (`BlockKind.bodies_lead`). So spaces differ at the start of lines and nowhere else.
-/

namespace BlockProgram

/-- The generator that indents by a number of spaces. -/
def Generator.spaced (literals : Table String) (width : Nat) : Generator :=
  { indent := List.replicate width ' ', literals }

/-- The setting with such a generator. -/
def Workspace.spaced (ws : Workspace) (literals : Table String) (width : Nat) : Setting :=
  ⟨ws, Generator.spaced literals width⟩

namespace Piece

/-- Whether every body among the pieces begins a line, where `start` tells it of the first piece. -/
def bodiesLead : Bool → List Piece → Bool
  | _, [] => true
  | start, .body _ :: rest => start && bodiesLead false rest
  | _, .text fixed :: rest => bodiesLead (Text.endsLine false fixed.toList) rest
  | _, _ :: rest => bodiesLead false rest

variable {start start' : Bool} {piece : Piece} {pieces rest : List Piece}

/-- Pieces may as well begin a line. -/
theorem bodiesLead_mono (hstart : start ≤ start') (h : bodiesLead start pieces = true) :
    bodiesLead start' pieces = true := by
  cases pieces with
  | nil => rw [bodiesLead]
  | cons piece rest =>
    cases piece with
    | body =>
      rw [bodiesLead, Bool.and_eq_true] at h ⊢
      exact ⟨Bool.le_iff_imp.1 hstart h.1, h.2⟩
    | _ => simpa only [bodiesLead] using h

/-- What the first piece is, and what is known of the other pieces then. -/
theorem bodiesLead_cases (h : bodiesLead start (piece :: rest) = true) :
    (∃ input, piece = .body input ∧ start = true ∧ bodiesLead false rest = true) ∨
    (∃ fixed, piece = .text fixed ∧ bodiesLead (Text.endsLine false fixed.toList) rest = true) ∨
    ((∀ input, piece ≠ .body input) ∧ bodiesLead false rest = true) := by
  cases piece with
  | body input =>
    rw [bodiesLead, Bool.and_eq_true] at h
    exact .inl ⟨input, rfl, h⟩
  | text fixed =>
    rw [bodiesLead] at h
    exact .inr (.inl ⟨fixed, rfl, h⟩)
  | _ =>
    simp only [bodiesLead] at h
    exact .inr (.inr ⟨(fun _ heq => by cases heq), h⟩)

end Piece

/-- A body is put behind a newline in every template. -/
theorem BlockKind.bodies_lead (kind : BlockKind) :
    Piece.bodiesLead false kind.template.pieces = true := by
  cases kind <;> rfl

/-- The codes have the same shape and aligned texts. -/
inductive Code.Aligned : Code → Code → Prop where
  | expression {text text' : Text} (order : Order) (h : Text.Aligned false text text') :
    Aligned (.expression text order) (.expression text' order)
  | statement {text text' : Text} (h : Text.Aligned false text text') :
    Aligned (.statement text) (.statement text')

namespace Code.Aligned

variable {code code' : Code} {more more' : Text}

theorem text (h : code.Aligned code') : Text.Aligned false code.text code'.text := by
  cases h with
  | expression _ h => exact h
  | statement h => exact h

theorem ofShape {text text' : Text} (h : Text.Aligned false text text') (shape : CodeShape) :
    (Code.ofShape text shape).Aligned (Code.ofShape text' shape) := by
  cases shape with
  | expression order => exact .expression order h
  | statement => exact .statement h

theorem append (h : code.Aligned code') (hmore : Text.Aligned false more more') :
    (code.append more).Aligned (code'.append more') := by
  cases h with
  | expression order h => exact .expression order (h.append (hmore.weaken _))
  | statement h => exact .statement (h.append (hmore.weaken _))

end Code.Aligned

namespace Setting

open Rendering Text

variable {ws : Workspace} {literals : Table String} {width width' : Nat} {render render' : Renderer}

/-- Every block is rendered in parallel. -/
def RendersAligned (render render' : Renderer) : Prop :=
  ∀ id extent, Parallel Code.Aligned (render id extent) (render' id extent)

/-! ### Sockets -/

theorem parallel_valueText (hrender : RendersAligned render render') (block : Block) (input : String)
    (order : Order) :
    Parallel (Aligned false) ((ws.spaced literals width).valueText render block input order)
      ((ws.spaced literals width').valueText render' block input order) := by
  unfold valueText
  split
  · exact .pure (.refl ..)
  · refine .bind (hrender _ _) fun code code' hcode => ?_
    cases hcode with
    | expression childOrder h =>
      refine .pure ?_
      rw [h.isEmpty]
      split
      · exact h.parenthesize
      · exact h
    | statement => exact .throw _

theorem parallel_valueOr (hrender : RendersAligned render render') (block : Block) (input : String)
    (order : Order) (placeholder : String) :
    Parallel (Aligned false) ((ws.spaced literals width).valueOr render block input order placeholder)
      ((ws.spaced literals width').valueOr render' block input order placeholder) := by
  refine .bind (parallel_valueText hrender block input order) fun text text' h => .pure ?_
  rw [h.isEmpty]
  split
  · exact .refl ..
  · exact h

/-- Bodies are aligned at the start of a line. -/
theorem parallel_bodyText (hrender : RendersAligned render render') (block : Block) (input : String) :
    Parallel (Aligned true) ((ws.spaced literals width).bodyText render block input)
      ((ws.spaced literals width').bodyText render' block input) := by
  unfold bodyText
  split
  · exact .pure (.refl ..)
  · refine .bind (hrender _ _) fun code code' hcode => ?_
    cases hcode with
    | expression => exact .throw _
    | statement h => exact .pure (h.indentLines width width')

theorem parallel_itemTexts (hrender : RendersAligned render render') (block : Block) (input : String)
    (stop : ChainEnd) (items : List BlockId) :
    Parallel AllAligned ((ws.spaced literals width).itemTexts render block input stop items)
      ((ws.spaced literals width').itemTexts render' block input stop items) := by
  induction items with
  | nil => exact .bind_same _ fun _ => .pure .nil
  | cons item rest ih =>
    refine .bind (hrender _ _) fun code code' hcode => ?_
    cases hcode with
    | expression => exact .throw _
    | statement h => exact .bind ih fun texts texts' hrest => .pure (.cons h hrest)

theorem parallel_chainItems (hrender : RendersAligned render render') (block : Block) (input : String) :
    Parallel AllAligned ((ws.spaced literals width).chainItems render block input)
      ((ws.spaced literals width').chainItems render' block input) :=
  parallel_itemTexts hrender block input _ _

theorem parallel_argumentsText (hrender : RendersAligned render render') (block : Block) :
    Parallel (Aligned false) (argumentsText render block) (argumentsText render' block) := by
  unfold argumentsText
  split
  · exact .pure (.refl ..)
  · exact .bind (hrender _ _) fun code code' hcode => .bind_same _ fun _ => .pure hcode.text

/-! ### Blocks -/

/-- Any piece but a body gives texts that are aligned wherever they are put. -/
theorem parallel_pieceText (hrender : RendersAligned render render') (id : BlockId) (block : Block)
    {piece : Piece} (hpiece : ∀ input, piece ≠ .body input) :
    Parallel (Aligned false) ((ws.spaced literals width).pieceText render id block piece)
      ((ws.spaced literals width').pieceText render' id block piece) := by
  cases piece with
  | text | field | quoted => exact .pure (.refl ..)
  | value input order placeholder => exact parallel_valueOr hrender block input order placeholder
  | body input => exact absurd rfl (hpiece input)
  | list input =>
    exact .bind (parallel_chainItems hrender block input) fun items items' h => .pure h.commaSeparated
  | properties input =>
    exact .bind (parallel_chainItems hrender block input) fun items items' h => .pure h.braced
  | callee input order placeholder =>
    exact .bind (parallel_valueOr hrender block input order placeholder) fun text text' h =>
      .pure (h.map bareCallee_unindent)
  | arguments => exact parallel_argumentsText hrender block
  | parameters input =>
    refine .bind_same _ fun consumed => ?_
    cases consumed with
    | true => exact .pure (.refl ..)
    | false =>
      exact .bind (parallel_chainItems hrender block input) fun items items' h => .pure h.commaSeparated
  | literal name =>
    have hliteral : (ws.spaced literals width).generator.literal? name =
        (ws.spaced literals width').generator.literal? name := rfl
    rw [pieceText, pieceText, hliteral]
    cases (ws.spaced literals width').generator.literal? name with
    | none => exact .throw _
    | some text => exact .pure (.refl ..)

/-- Behind the text of a piece, the bodies among the other pieces still begin lines. -/
theorem parallel_firstText (hrender : RendersAligned render render') (id : BlockId) (block : Block)
    {start : Bool} {piece : Piece} {rest : List Piece}
    (hlead : Piece.bodiesLead start (piece :: rest) = true) :
    Parallel (fun text text' => Aligned start text text' ∧ Piece.bodiesLead (endsLine start text) rest = true)
      ((ws.spaced literals width).pieceText render id block piece)
      ((ws.spaced literals width').pieceText render' id block piece) := by
  rcases Piece.bodiesLead_cases hlead with ⟨input, rfl, rfl, hrest⟩ | ⟨fixed, rfl, hrest⟩ | ⟨hbody, hrest⟩
  · exact (parallel_bodyText hrender block input).mono fun text text' h =>
      ⟨h, Piece.bodiesLead_mono (Bool.false_le _) hrest⟩
  · exact .pure ⟨.refl .., Piece.bodiesLead_mono (endsLine_mono (Bool.false_le _) _) hrest⟩
  · exact (parallel_pieceText hrender id block hbody).mono fun text text' h =>
      ⟨h.weaken start, Piece.bodiesLead_mono (Bool.false_le _) hrest⟩

theorem parallel_piecesText (hrender : RendersAligned render render') (id : BlockId) (block : Block)
    {start : Bool} {pieces : List Piece} (hlead : Piece.bodiesLead start pieces = true) :
    Parallel (Aligned start) ((ws.spaced literals width).piecesText render id block pieces)
      ((ws.spaced literals width').piecesText render' id block pieces) := by
  induction pieces generalizing start with
  | nil => exact .pure (.refl ..)
  | cons piece rest ih =>
    refine .bind (parallel_firstText hrender id block hlead) ?_
    rintro text text' ⟨h, hrest⟩
    exact .bind (ih hrest) fun more more' hmore => .pure (h.append hmore)

theorem parallel_blockCode (hrender : RendersAligned render render') (id : BlockId) (block : Block) :
    Parallel Code.Aligned ((ws.spaced literals width).blockCode render id block)
      ((ws.spaced literals width').blockCode render' id block) :=
  .bind (parallel_piecesText hrender id block block.kind.bodies_lead) fun _ _ h => .pure (.ofShape h _)

/-! ### Chains -/

theorem parallel_chainText (hrender : RendersAligned render render') (stop : ChainEnd)
    (ids : List BlockId) :
    Parallel (Aligned false) ((ws.spaced literals width).chainText render stop ids)
      ((ws.spaced literals width').chainText render' stop ids) := by
  induction ids with
  | nil => exact .bind_same _ fun _ => .pure (.refl ..)
  | cons id rest ih =>
    refine .bind_same _ fun block => .during id block ?_
    refine .bind (parallel_blockCode hrender id block) fun code code' hcode => ?_
    exact .bind ih fun after after' hafter => .pure (hcode.text.append (hafter.weaken _))

/-- Blocks are rendered in parallel, to any depth. -/
theorem rendersAligned_renderAt (depth : Nat) :
    RendersAligned ((ws.spaced literals width).renderAt depth) ((ws.spaced literals width').renderAt depth) := by
  induction depth with
  | zero => exact fun _ _ => .tooDeep
  | succ depth ih =>
    intro id extent
    refine .bind_same _ fun block => .during id block ?_
    refine .bind (parallel_blockCode ih id block) fun code code' hcode => ?_
    cases extent with
    | alone => exact .pure hcode
    | chain =>
      exact .bind (parallel_chainText ih _ _) fun after after' hafter => .pure (hcode.append hafter)

/-! ### The canvas -/

/-- The texts of the canvas are aligned, if there are any. -/
theorem topTexts_aligned (ids : List BlockId) (pass : Pass) :
    EndAlike AllAligned ((ws.spaced literals width).topTexts ids pass)
      ((ws.spaced literals width').topTexts ids pass) := by
  induction ids generalizing pass with
  | nil => exact .done .nil pass
  | cons id rest ih =>
    have hfirst : EndAlike Code.Aligned ((ws.spaced literals width).renderBlock id .chain pass)
        ((ws.spaced literals width').renderBlock id .chain pass) :=
      (rendersAligned_renderAt _ id .chain).unlimited
        (fun taken => (ws.spaced literals width).settles_renderEnough taken id .chain)
        (fun taken => (ws.spaced literals width').settles_renderEnough taken id .chain) pass
    refine hfirst.bind fun code code' mid hcode => ?_
    refine (ih mid).bind fun texts texts' after htexts => .done ?_ after
    rw [hcode.text.isEmpty]
    split
    · exact htexts
    · exact .cons hcode.text htexts

/-- The programs of the canvas are aligned. -/
theorem canvasText_aligned (ws : Workspace) (literals : Table String) (width width' : Nat) (pass : Pass) :
    EndAlike (Aligned true) ((ws.spaced literals width).canvasText pass)
      ((ws.spaced literals width').canvasText pass) :=
  (topTexts_aligned _ pass).bind fun _ _ after htexts =>
    .done (htexts.intercalate ['\n'] false).tidy_terminate after

end Setting

/-- The lines of a program without the spaces at their start. -/
def flushLines (code : String) : List Text :=
  (Text.lines code.toList).map Text.dropSpaces

theorem flushLines_aligned {text text' : Text} (h : Text.Aligned true text text') :
    flushLines (String.ofList text) = flushLines (String.ofList text') := by
  simpa [flushLines] using h.lines

/-- The width of the indent has no influence on a program but for the spaces at the start of its lines, and
none on whether there is a program, or on the error. -/
theorem Generator.generate_spaced (ws : Workspace) (literals : Table String) (width width' : Nat) :
    ((spaced literals width).generate ws).map flushLines =
      ((spaced literals width').generate ws).map flushLines := by
  have hmap (program : Except GenerateError Text) :
      (program.map String.ofList).map flushLines = program.map (flushLines ∘ String.ofList) := by
    cases program <;> rfl
  -- custom types without a text are refused before any block is rendered
  have hliteral : (spaced literals width).missingLiteral? = (spaced literals width').missingLiteral? := rfl
  rw [generate, generate, hmap, hmap, Setting.program, Setting.program]
  dsimp only
  rw [hliteral]
  cases List.findSome? (spaced literals width').missingLiteral? ws.blocks.toList with
  | some name => rfl
  | none =>
    exact (Setting.canvasText_aligned ws literals width width' {}).map_eq fun _ _ => flushLines_aligned

/-- A condition with a body. -/
def returnInside : Workspace where
  blocks :=
    #[{ id := "b0", kind := .ifStatement, inputs := [("DO", ⟨1⟩)] },
      { id := "b1", kind := .returnStatement }]
  top := [⟨0⟩]

example : (Generator.spaced [] 0).generate returnInside = .ok "if true \x7b\nres null;\n\x7d\n" := by
  cbv

example : (Generator.spaced [] 4).generate returnInside = .ok "if true \x7b\n    res null;\n\x7d\n" := by
  cbv

end BlockProgram
