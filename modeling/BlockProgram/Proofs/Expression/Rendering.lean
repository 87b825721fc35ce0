import BlockProgram.Proofs.Expression.ReadBack
import BlockProgram.Proofs.Rendering.Link
import BlockProgram.Proofs.Rendering.Triple

/-!
Rendering keeps grouping up to equal ranks. A block at which an expression tree stands is rendered as
the text of the tree, so what a reader makes of it is the tree itself exactly when no right operand of
an operator has the operator's rank.
-/

namespace BlockProgram

/-! ### Trees of blocks -/

/-- A block of a given kind stands at an id, with nothing after it. -/
structure Workspace.Shows (ws : Workspace) (id : BlockId) (kind : BlockKind) (block : Block) :
    Prop where
  get : ws.get? id = some block
  kind_eq : block.kind = kind
  next : block.next = none

/-- An expression tree stands at an id: the blocks are those of the tree, every socket is filled, and no
block has others after it. Both kinds of access by brackets are the same construct. -/
inductive Workspace.Holds (ws : Workspace) : BlockId → Expression → Prop where
  | number {id block} (digits : Numeral) (h : ws.Shows id .numberLiteral block)
    (hnum : block.field? "NUM" = some (String.ofList digits.1)) : Holds ws id (.number digits)
  | boolean {id block} (value : Bool) (h : ws.Shows id .booleanLiteral block)
    (hbool : block.field? "BOOL" = some (String.ofList (Expression.booleanWord value))) :
    Holds ws id (.boolean value)
  | string {id block} (text : Text) (h : ws.Shows id .stringLiteral block)
    (htext : block.field? "TEXT" = some (String.ofList text)) : Holds ws id (.string text)
  | var {id block} (name : VariableName) (h : ws.Shows id .variableReference block)
    (hname : block.field? "VAR_NAME" = some (String.ofList name.1)) : Holds ws id (.var name)
  | binary {id block a b left right} (op : Operator) (h : ws.Shows id op.kind block)
    (ha : block.input? "A" = some a) (hb : block.input? "B" = some b)
    (hleft : Holds ws a left) (hright : Holds ws b right) : Holds ws id (.binary op left right)
  | not {id block a operand} (h : ws.Shows id .logicNot block)
    (ha : block.input? "BOOL" = some a) (hoperand : Holds ws a operand) : Holds ws id (.not operand)
  | property {id block a object} (name : Identifier) (h : ws.Shows id .objectPropertyAccess block)
    (ha : block.input? "OBJECT" = some a)
    (hname : block.field? "PROPERTY" = some (String.ofList name.1))
    (hobject : Holds ws a object) : Holds ws id (.property object name)
  | bracket {id block a b object subscript} (h : ws.Shows id .objectBracketAccess block)
    (ha : block.input? "OBJECT" = some a) (hb : block.input? "PROPERTY" = some b)
    (hobject : Holds ws a object) (hsubscript : Holds ws b subscript) :
    Holds ws id (.index object subscript)
  | element {id block a b object subscript} (h : ws.Shows id .arrayIndexAccess block)
    (ha : block.input? "ARRAY" = some a) (hb : block.input? "INDEX" = some b)
    (hobject : Holds ws a object) (hsubscript : Holds ws b subscript) :
    Holds ws id (.index object subscript)

namespace Workspace

variable {ws : Workspace} {id : BlockId} {kind : BlockKind} {block : Block}

/-- The links of a shown block go to its inputs. -/
theorem Shows.exists_of_link (h : ws.Shows id kind block) {b : BlockId} (hlink : ws.Link id b) :
    ∃ input ∈ kind.inputs, block.input? input = some b := by
  rcases hlink with ⟨other, hget, input, hinput, hb⟩ | ⟨other, hget, hnext⟩
  · rw [h.get] at hget
    cases hget
    rw [h.kind_eq] at hinput
    exact ⟨input, hinput, hb⟩
  · rw [h.get] at hget
    cases hget
    rw [h.next] at hnext
    cases hnext

theorem Shows.ends_leaf (h : ws.Shows id kind block) (hinputs : kind.inputs = []) : ws.Ends id := by
  refine .of_link ?_
  intro b hlink
  obtain ⟨input, hinput, -⟩ := h.exists_of_link hlink
  rw [hinputs] at hinput
  cases hinput

theorem Shows.ends_unary (h : ws.Shows id kind block) {first : String} {a : BlockId}
    (hinputs : kind.inputs = [first]) (ha : block.input? first = some a) (hends : ws.Ends a) :
    ws.Ends id := by
  refine .of_link ?_
  intro b hlink
  obtain ⟨input, hinput, hb⟩ := h.exists_of_link hlink
  rw [hinputs, List.mem_singleton] at hinput
  subst hinput
  rw [ha] at hb
  cases hb
  exact hends

theorem Shows.ends_binary (h : ws.Shows id kind block) {first second : String} {a b : BlockId}
    (hinputs : kind.inputs = [first, second]) (ha : block.input? first = some a)
    (hb : block.input? second = some b) (hends : ws.Ends a) (hends' : ws.Ends b) : ws.Ends id := by
  refine .of_link ?_
  intro c hlink
  obtain ⟨input, hinput, hc⟩ := h.exists_of_link hlink
  rw [hinputs, List.mem_cons, List.mem_singleton] at hinput
  rcases hinput with rfl | rfl
  · rw [ha] at hc
    cases hc
    exact hends
  · rw [hb] at hc
    cases hc
    exact hends'

/-- Every path through a tree ends. -/
theorem Holds.ends {e : Expression} (h : ws.Holds id e) : ws.Ends id := by
  induction h with
  | number _ h | boolean _ h | string _ h | var _ h => exact h.ends_leaf rfl
  | binary op h ha hb _ _ iha ihb => exact h.ends_binary (by cases op <;> rfl) ha hb iha ihb
  | not h ha _ ih => exact h.ends_unary rfl ha ih
  | property _ h ha _ _ ih => exact h.ends_unary rfl ha ih
  | bracket h ha hb _ _ iha ihb => exact h.ends_binary rfl ha hb iha ihb
  | element h ha hb _ _ iha ihb => exact h.ends_binary rfl ha hb iha ihb

/-- Nothing follows a shown block. -/
theorem Shows.followers_eq (h : ws.Shows id kind block) : ws.followers id = ([], .complete) := by
  rw [followers, h.get, Option.bind_some, h.next, walk]

end Workspace

/-! ### Steps that leave the pass alone -/

namespace Rendering

/-- From `pass`, the step ends with `a` and leaves the pass as it is. -/
def Gives {α : Type} (pass : Pass) (step : Rendering α) (a : α) : Prop :=
  Triple (· = pass) step fun result after => result = .ok a ∧ after = pass

variable {α β : Type} {pass : Pass}

theorem Gives.pure (a : α) : Gives pass (Pure.pure a : Rendering α) a :=
  Triple.pure fun _ h => ⟨rfl, h⟩

theorem Gives.bind {step : Rendering α} {next : α → Rendering β} {a : α} {b : β}
    (hstep : Gives pass step a) (hnext : Gives pass (next a) b) : Gives pass (step >>= next) b := by
  refine Triple.bind hstep (fun other => ?_) fun e after h => ?_
  · rintro after ⟨heq, rfl⟩
    cases heq
    exact hnext _ rfl
  · cases h.1

theorem Gives.lookup_bind {ws : Workspace} {id : BlockId} {block : Block} {next : Block → Rendering β}
    {b : β} (hget : ws.get? id = some block) (hnext : Gives pass (next block) b) :
    Gives pass (lookup ws id >>= next) b := by
  refine Triple.lookup_bind (fun other hother => ?_) fun hnone => ?_
  · rw [hget] at hother
    cases hother
    exact hnext
  · rw [hget] at hnone
    cases hnone

theorem Gives.during {id : BlockId} {block : Block} {body : Rendering α} {a : α}
    (hfree : id ∉ pass.rendering) (hbody : Gives (pass.enter id) body a) :
    Gives pass (during id block body) a := by
  refine Triple.during (fun other hother hmarked => ?_) ?_
  · rw [hother] at hmarked
    exact absurd hmarked hfree
  · refine hbody.mono (fun entered h => ?_) fun result after h => ⟨h.1, ?_⟩
    · rcases h with ⟨other, hother, -, rfl⟩
      rw [hother]
    · rw [h.2]
      simp [Pass.leave, Pass.enter]

end Rendering

namespace Setting

open Rendering

variable {s : Setting} {render : Renderer} {pass : Pass} {id : BlockId} {block : Block}

theorem gives_piecesText_cons {piece : Piece} {rest : List Piece} {text more : Text}
    (hpiece : Gives pass (s.pieceText render id block piece) text)
    (hrest : Gives pass (s.piecesText render id block rest) more) :
    Gives pass (s.piecesText render id block (piece :: rest)) (text ++ more) :=
  hpiece.bind (hrest.bind (.pure _))

theorem gives_piecesText_last {piece : Piece} {text : Text}
    (hpiece : Gives pass (s.pieceText render id block piece) text) :
    Gives pass (s.piecesText render id block [piece]) text := by
  have hnil : Gives pass (s.piecesText render id block []) [] := .pure []
  have h := gives_piecesText_cons hpiece hnil
  rwa [List.append_nil] at h

theorem gives_fixed (text : String) :
    Gives pass (s.pieceText render id block (.text text)) text.toList :=
  .pure _

/-- A filled value socket gives the text of its block, guarded for the order that the socket asks. -/
theorem gives_value {input placeholder : String} {requested order : Order} {child : BlockId}
    {text : Text} (hinput : block.input? input = some child) (hne : text ≠ [])
    (hchild : Gives pass (render child .chain) (.expression text order)) :
    Gives pass (s.pieceText render id block (.value input requested placeholder))
      (Expression.guarded requested order text) := by
  have hempty : text.isEmpty = false := by
    cases text with
    | nil => exact absurd rfl hne
    | cons => rfl
  have hguarded : (Expression.guarded requested order text).isEmpty = false := by
    unfold Expression.guarded
    split
    · rfl
    · exact hempty
  have htext : Gives pass (s.valueText render block input requested)
      (Expression.guarded requested order text) := by
    unfold valueText
    rw [hinput]
    refine hchild.bind ?_
    simp only [hempty, Bool.not_false, Bool.true_and]
    exact .pure _
  refine htext.bind ?_
  simp only [hguarded, Bool.false_eq_true, if_false]
  exact .pure _

theorem gives_field {name missing : String} {text : Text}
    (h : block.field? name = some (String.ofList text)) :
    Gives pass (s.pieceText render id block (.field name missing)) text := by
  have hpure : s.pieceText render id block (.field name missing) = Pure.pure text := by
    simp [pieceText, h]
  rw [hpure]
  exact .pure _

theorem gives_quoted {name : String} {text : Text}
    (h : block.field? name = some (String.ofList text)) :
    Gives pass (s.pieceText render id block (.quoted name)) (Text.quote text) := by
  have hpure : s.pieceText render id block (.quoted name) = Pure.pure (Text.quote text) := by
    simp [pieceText, h]
  rw [hpure]
  exact .pure _

/-- A block that is not marked and has nothing after it gives the code of its own pieces. -/
theorem gives_renderAt {kind : BlockKind} {template : Template} {depth : Nat} {extent : Extent}
    {text : Text} (h : s.workspace.Shows id kind block) (htemplate : kind.template = template)
    (hfree : id ∉ pass.rendering)
    (hpieces : Gives (pass.enter id)
      (s.piecesText (s.renderAt depth) id block template.pieces) text) :
    Gives pass (s.renderAt (depth + 1) id extent) (.ofShape text template.shape) := by
  have hcode : Gives (pass.enter id) (s.blockCode (s.renderAt depth) id block)
      (.ofShape text template.shape) := by
    unfold blockCode
    rw [h.kind_eq, htemplate]
    exact hpieces.bind (.pure _)
  refine .lookup_bind h.get (.during hfree (hcode.bind ?_))
  cases extent with
  | alone => exact .pure _
  | chain =>
    have happend (code : Code) : code.append [] = code := by
      cases code <;> simp [Code.append]
    have hnone : Gives (pass.enter id) (s.chainText (s.renderAt depth) .complete []) [] :=
      (Gives.pure ()).bind (.pure _)
    simp only [h.followers_eq]
    refine hnone.bind ?_
    rw [happend]
    exact .pure _

end Setting

namespace Expression

theorem text_ne_nil : ∀ e : Expression, e.text ≠ []
  | .number digits => digits.2.1
  | .boolean value => (booleanWord_isIdentifier value).1
  | .string _ => by simp [text, Text.quote]
  | .var name => name.2.1.1
  | .binary op _ _ => by simp [text]
  | .not _ | .property .. | .index .. => by simp [text]

end Expression

namespace Setting

open Rendering Expression

variable {s : Setting}

/-- No block that the tree at `id` is made of is being rendered. -/
def Free (s : Setting) (pass : Pass) (id : BlockId) : Prop :=
  ∀ marked ∈ pass.rendering, ¬ Relation.ReflTransGen s.workspace.Link id marked

theorem Free.not_mem {pass : Pass} {id : BlockId} (h : s.Free pass id) : id ∉ pass.rendering :=
  fun hid => h id hid .refl

/-- Inside a tree, the blocks below a marked block are not marked. -/
theorem Free.enter {pass : Pass} {id child : BlockId} (h : s.Free pass id)
    (hends : s.workspace.Ends id) (hlink : s.workspace.Link id child) :
    s.Free (pass.enter id) child := by
  intro marked hmarked hreaches
  rcases List.mem_cons.1 hmarked with rfl | hmarked
  · exact hends.not_reaches_back hlink hreaches
  · exact h marked hmarked (.head hlink hreaches)

theorem link_input {id child : BlockId} {kind : BlockKind} {block : Block}
    (h : s.workspace.Shows id kind block) {input : String} (hinput : input ∈ kind.inputs)
    (hchild : block.input? input = some child) : s.workspace.Link id child :=
  .inl ⟨block, h.get, input, by rw [h.kind_eq]; exact hinput, hchild⟩

/-- The block at which a tree stands is rendered as the text of the tree. -/
theorem gives_text {id : BlockId} {e : Expression} (h : s.workspace.Holds id e) (depth : Nat)
    (extent : Extent) (pass : Pass) (hfree : s.Free pass id) :
    Gives pass (s.renderAt depth id extent) (.expression e.text e.order) := by
  induction depth generalizing e id extent pass with
  | zero => exact Triple.tooDeep
  | succ depth ih =>
    have hchild {child : BlockId} {e : Expression} (hlink : s.workspace.Link id child)
        (hchild : s.workspace.Holds child e) :
        Gives (pass.enter id) (s.renderAt depth child .chain) (.expression e.text e.order) :=
      ih hchild .chain _ (hfree.enter h.ends hlink)
    cases h with
    | number digits h hnum =>
      exact gives_renderAt h rfl hfree.not_mem (gives_piecesText_last (gives_field hnum))
    | boolean value h hbool =>
      exact gives_renderAt h rfl hfree.not_mem (gives_piecesText_last (gives_field hbool))
    | string text h htext =>
      exact gives_renderAt h rfl hfree.not_mem (gives_piecesText_last (gives_quoted htext))
    | var name h hname =>
      exact gives_renderAt h rfl hfree.not_mem (gives_piecesText_last (gives_field hname))
    | binary op h ha hb hleft hright =>
      have hin : op.kind.inputs = ["A", "B"] := by cases op <;> rfl
      have hlinkA := link_input h (by simp [hin]) ha
      have hlinkB := link_input h (by simp [hin]) hb
      rw [text, List.append_assoc]
      exact gives_renderAt h op.template_kind hfree.not_mem
        (gives_piecesText_cons (gives_value ha (text_ne_nil _) (hchild hlinkA hleft))
          (gives_piecesText_cons (gives_fixed _)
            (gives_piecesText_last (gives_value hb (text_ne_nil _) (hchild hlinkB hright)))))
    | not h ha hoperand =>
      have hlink := link_input h (.head _) ha
      rw [text, List.append_assoc]
      exact gives_renderAt h rfl hfree.not_mem
        (gives_piecesText_cons (gives_fixed _)
          (gives_piecesText_cons (gives_value ha (text_ne_nil _) (hchild hlink hoperand))
            (gives_piecesText_last (gives_fixed _))))
    | property name h ha hname hobject =>
      have hlink := link_input h (.head _) ha
      rw [text, List.append_assoc]
      exact gives_renderAt h rfl hfree.not_mem
        (gives_piecesText_cons (gives_value ha (text_ne_nil _) (hchild hlink hobject))
          (gives_piecesText_cons (gives_fixed _) (gives_piecesText_last (gives_field hname))))
    | bracket h ha hb hobject hsubscript =>
      have hlinkA := link_input h (.head _) ha
      have hlinkB := link_input h (.tail _ (.head _)) hb
      rw [text, List.append_assoc, List.append_assoc]
      exact gives_renderAt h rfl hfree.not_mem
        (gives_piecesText_cons (gives_value ha (text_ne_nil _) (hchild hlinkA hobject))
          (gives_piecesText_cons (gives_fixed _)
            (gives_piecesText_cons (gives_value hb (text_ne_nil _) (hchild hlinkB hsubscript))
              (gives_piecesText_last (gives_fixed _)))))
    | element h ha hb hobject hsubscript =>
      have hlinkA := link_input h (.head _) ha
      have hlinkB := link_input h (.tail _ (.head _)) hb
      rw [text, List.append_assoc, List.append_assoc]
      exact gives_renderAt h rfl hfree.not_mem
        (gives_piecesText_cons (gives_value ha (text_ne_nil _) (hchild hlinkA hobject))
          (gives_piecesText_cons (gives_fixed _)
            (gives_piecesText_cons (gives_value hb (text_ne_nil _) (hchild hlinkB hsubscript))
              (gives_piecesText_last (gives_fixed _)))))

/-- In a run that is not rendering any block of it, a tree is rendered as its text, which reads back as
the tree exactly when no right operand of an operator has the rank of the operator. -/
theorem renders_and_reads_back_iff {id : BlockId} {e : Expression} (h : s.workspace.Holds id e)
    (extent : Extent) {pass : Pass} (hfree : s.Free pass id) :
    ∃ text, s.renderBlock id extent pass = (.ok (.expression text e.order), pass) ∧
      (read? text = some e ↔ e.LeftGrouped) := by
  obtain ⟨hresult, hafter⟩ := (gives_text h s.enoughDepth extent pass hfree).unlimited
    (fun taken => s.settles_renderEnough taken id extent) rfl
  refine ⟨e.text, Prod.ext hresult hafter, ?_⟩
  rw [read?_text, Option.some_inj]
  exact e.regroup_eq_self_iff

/-! ### A difference on the right of a difference -/

/-- The blocks of a difference whose right operand is a difference. -/
def differences : Workspace where
  blocks :=
    #[{ id := "b0", kind := .mathSubtract, inputs := [("A", ⟨1⟩), ("B", ⟨2⟩)] },
      { id := "b1", kind := .numberLiteral, fields := [("NUM", "1")] },
      { id := "b2", kind := .mathSubtract, inputs := [("A", ⟨3⟩), ("B", ⟨4⟩)] },
      { id := "b3", kind := .numberLiteral, fields := [("NUM", "2")] },
      { id := "b4", kind := .numberLiteral, fields := [("NUM", "3")] }]

/-- The tree that these blocks make up. -/
def differenceTree : Expression :=
  .binary .subtract (.number ⟨['1'], by decide⟩)
    (.binary .subtract (.number ⟨['2'], by decide⟩) (.number ⟨['3'], by decide⟩))

theorem differences_hold : differences.Holds ⟨0⟩ differenceTree :=
  .binary .subtract ⟨rfl, rfl, rfl⟩ rfl rfl (.number ⟨['1'], by decide⟩ ⟨rfl, rfl, rfl⟩ rfl)
    (.binary .subtract ⟨rfl, rfl, rfl⟩ rfl rfl (.number ⟨['2'], by decide⟩ ⟨rfl, rfl, rfl⟩ rfl)
      (.number ⟨['3'], by decide⟩ ⟨rfl, rfl, rfl⟩ rfl))

theorem differences_free : Free ⟨differences, {}⟩ {} ⟨0⟩ := by
  intro marked hmarked
  cases hmarked

theorem differences_render :
    differences.Holds ⟨0⟩ differenceTree ∧ Free ⟨differences, {}⟩ {} ⟨0⟩ ∧ ∃ text,
      renderBlock ⟨differences, {}⟩ ⟨0⟩ .chain {} =
          (.ok (.expression text differenceTree.order), {}) ∧
        (read? text = some differenceTree ↔ differenceTree.LeftGrouped) :=
  ⟨differences_hold, differences_free,
    renders_and_reads_back_iff differences_hold .chain differences_free⟩

/-- The right difference is written without parentheses, so that it reads back on the left. -/
theorem differences_regrouped :
    differences.Holds ⟨0⟩ differenceTree ∧
      renderBlock ⟨differences, {}⟩ ⟨0⟩ .chain {} =
        (.ok (.expression "1 - 2 - 3".toList .subtraction), {}) ∧
      read? "1 - 2 - 3".toList ≠ some differenceTree := by
  obtain ⟨hresult, hafter⟩ :=
    (gives_text differences_hold 6 .chain {} differences_free).unlimited
      (fun taken => settles_renderEnough ⟨differences, {}⟩ taken ⟨0⟩ .chain) rfl
  refine ⟨differences_hold, Prod.ext hresult hafter, ?_⟩
  have hread := read?_text differenceTree
  rw [show differenceTree.text = "1 - 2 - 3".toList from rfl] at hread
  rw [hread, Ne, Option.some_inj]
  decide

end Setting
end BlockProgram
