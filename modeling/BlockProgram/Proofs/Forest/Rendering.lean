import BlockProgram.Proofs.Forest.Code
import BlockProgram.Proofs.Rendering.Triple

/-!
Rendering a stack computes its code. What the run remembers has no part in the result, because at any
time only few parameter blocks are consumed: those at the end of a run of calls, and no others
(`Stack.target`), from the time when the last call of the run is rendered to the time when the chain
comes to the parameters. `held` says of every block whether it is consumed, and a step changes it in
nothing but the target of the stack that it renders.
-/

namespace BlockProgram

namespace Rendering

variable {α β : Type} {P P' Q Q' R : Pass → Prop} {step : Rendering α}
  {value : Except GenerateError α}

/-- From a pass that satisfies `P` the step gives the value, and if that is no error, it leaves a pass
that satisfies `Q`. -/
def Computes (P : Pass → Prop) (step : Rendering α) (value : Except GenerateError α)
    (Q : Pass → Prop) : Prop :=
  Triple P step fun result after => result = value ∧ ∀ a, value = .ok a → Q after

theorem Computes.mono (h : Computes P step value Q) (hpost : ∀ pass, Q pass → Q' pass) :
    Computes P step value Q' :=
  Triple.mono h (fun _ hpass => hpass) fun _ after hend =>
    ⟨hend.1, fun a ha => hpost after (hend.2 a ha)⟩

theorem Computes.pure (a : α) : Computes P (Pure.pure a) (.ok a) P :=
  Triple.pure fun _ hpass => ⟨rfl, fun _ _ => hpass⟩

theorem Computes.throw (e : GenerateError) :
    Computes P (MonadExcept.throw e : Rendering α) (.error e) Q :=
  Triple.throw fun _ _ => ⟨rfl, fun _ h => by cases h⟩

theorem Computes.bind {next : α → Rendering β} {more : α → Except GenerateError β}
    (hstep : Computes P step value Q)
    (hnext : ∀ a, value = .ok a → Computes Q (next a) (more a) R) :
    Computes P (step >>= next) (value >>= more) R := by
  refine Triple.bind hstep (fun a pass hpass => ?_) fun e pass hpass => ?_
  · rcases hpass with ⟨hvalue, hpost⟩
    subst hvalue
    exact hnext a rfl pass (hpost a rfl)
  · rcases hpass with ⟨hvalue, -⟩
    subst hvalue
    exact ⟨rfl, fun _ h => by cases h⟩

theorem Computes.lookup_bind {ws : Workspace} {id : BlockId} {block : Block}
    (hget : ws.get? id = some block) {next : Block → Rendering α}
    (hnext : Computes P (next block) value Q) : Computes P (lookup ws id >>= next) value Q :=
  Triple.lookup_bind_of_get? hget hnext

end Rendering

/-! ### Consumed blocks -/

/-- A pass that renders the blocks `taken`, in which the consumed parameter blocks are those `held`. -/
structure Workspace.Holding (ws : Workspace) (taken : List BlockId) (held : BlockId → Prop)
    (pass : Pass) : Prop where
  rendering : pass.rendering = taken
  nodup : pass.consumed.Nodup
  consumed : ∀ id block, ws.get? id = some block → block.kind = .functionParams →
    (id ∈ pass.consumed ↔ held id)

/-- The same blocks are held, but for a target. -/
def hold (held : BlockId → Prop) (target : Option BlockId) (holds : Bool) : BlockId → Prop :=
  fun id => if target = some id then holds = true else held id

@[simp]
theorem hold_none (held : BlockId → Prop) (holds : Bool) : hold held none holds = held := by
  funext id
  simp [hold]

/-- The last word about a target counts. -/
@[simp]
theorem hold_hold (held : BlockId → Prop) (target : Option BlockId) (first last : Bool) :
    hold (hold held target first) target last = hold held target last := by
  funext id
  simp only [hold]
  split <;> rfl

namespace Rendering

variable {α : Type} {ws : Workspace} {taken : List BlockId} {held held' : BlockId → Prop}
  {id : BlockId} {block : Block}

/-- A block that is not marked is marked while the body runs, which changes nothing else. -/
theorem Computes.during {body : Rendering α} {value : Except GenerateError α} (hid : id ∉ taken)
    (hbody : Computes (ws.Holding (id :: taken) held) body value (ws.Holding (id :: taken) held')) :
    Computes (ws.Holding taken held) (during id block body) value (ws.Holding taken held') := by
  refine Triple.during (fun pass hpass hmarked => ?_) ?_
  · rw [hpass.rendering] at hmarked
    exact absurd hmarked hid
  · refine Triple.mono hbody ?_ fun result after hend => ⟨hend.1, fun a ha => ?_⟩
    · rintro _ ⟨pass, hpass, -, rfl⟩
      exact ⟨by simp [Pass.enter, hpass.rendering], hpass.nodup, hpass.consumed⟩
    · obtain ⟨hrendering, hnodup, hconsumed⟩ := hend.2 a ha
      exact ⟨by simp [Pass.leave, hrendering], hnodup, hconsumed⟩

/-- Consuming a block holds it. -/
theorem Computes.consume :
    Computes (ws.Holding taken held) (Rendering.consume id) (.ok ())
      (ws.Holding taken (hold held (some id) true)) := by
  refine Triple.consume fun pass hpass => ⟨rfl, ?_⟩
  intro _ _
  unfold Pass.consume
  split
  · rename_i hid
    refine ⟨hpass.rendering, hpass.nodup, ?_⟩
    intro other block hget hkind
    rw [hold]
    split
    · rename_i heq
      cases heq
      simpa using hid
    · exact hpass.consumed other block hget hkind
  · rename_i hid
    refine ⟨hpass.rendering, List.nodup_cons.2 ⟨hid, hpass.nodup⟩, ?_⟩
    intro other block hget hkind
    rw [hold, List.mem_cons, hpass.consumed other block hget hkind]
    by_cases heq : other = id
    · simp [heq]
    · simp [heq, Ne.symm heq]

/-- Whether the block was held before makes no difference. -/
theorem Computes.consume_held {holds : Bool} :
    Computes (ws.Holding taken (hold held (some id) holds)) (Rendering.consume id) (.ok ())
      (ws.Holding taken (hold held (some id) true)) := by
  rw [← hold_hold held (some id) holds true]
  exact .consume

/-- Consuming a block that has no parameters changes nothing. -/
theorem Computes.consume_other (hget : ws.get? id = some block) (hkind : block.kind ≠ .functionParams) :
    Computes (ws.Holding taken held) (Rendering.consume id) (.ok ()) (ws.Holding taken held) := by
  refine Computes.consume.mono ?_
  intro pass hpass
  refine ⟨hpass.rendering, hpass.nodup, ?_⟩
  intro other found hfound hparams
  rw [hpass.consumed other found hfound hparams, hold, if_neg]
  rintro heq
  cases heq
  rw [hget] at hfound
  cases hfound
  exact hkind hparams

/-- Taking a parameter block tells whether it was held, and releases it. -/
theorem Computes.takeConsumed_bind (hget : ws.get? id = some block)
    (hkind : block.kind = .functionParams) {spent : Bool} (hspent : held id ↔ spent = true)
    {next : Bool → Rendering α} {value : Except GenerateError α} {Q : Pass → Prop}
    (hnext : Computes (ws.Holding taken (hold held (some id) false)) (next spent) value Q) :
    Computes (ws.Holding taken held) (Rendering.takeConsumed id >>= next) value Q := by
  have htaken : Computes (ws.Holding taken held) (Rendering.takeConsumed id) (.ok spent)
      (ws.Holding taken (hold held (some id) false)) := by
    refine Triple.takeConsumed fun pass hpass => ⟨?_, fun _ _ => ?_⟩
    · have hiff := (hpass.consumed id block hget hkind).trans hspent
      rw [Pass.takeConsumed, Except.ok.injEq]
      cases spent <;> simpa using hiff
    · refine ⟨hpass.rendering, hpass.nodup.erase id, ?_⟩
      intro other found hfound hparams
      rw [Pass.takeConsumed, hpass.nodup.mem_erase_iff, hpass.consumed other found hfound hparams, hold]
      by_cases heq : other = id
      · simp [heq]
      · simp [heq, Ne.symm heq]
  have hbind : (Except.ok spent >>= fun _ => value) = value := rfl
  rw [← hbind]
  refine htaken.bind ?_
  intro consumed h
  cases h
  exact hnext

end Rendering

/-! ### Targets -/

namespace Stack

/-- The parameter block that the own code of the first block of a stack depends on: the block itself, or
the one at the end of a run of calls that starts with it. -/
def target : Stack → Option BlockId
  | nil => none
  | cons id block _ rest =>
    if block.kind = .functionParams then some id
    else if block.kind = .functionCall then rest.target
    else none

/-- Whether a stack starts with a call. -/
def calls : Stack → Bool
  | nil => false
  | cons _ block _ _ => block.kind = .functionCall

theorem target_mem_spine {stack : Stack} {id : BlockId} (h : stack.target = some id) :
    id ∈ stack.spine := by
  induction stack with
  | nil => cases h
  | cons first block sockets rest ih =>
    rw [target] at h
    split_ifs at h
    · cases h
      exact List.mem_cons_self ..
    · exact List.mem_cons_of_mem _ (ih h)

theorem target_mem_ids {stack : Stack} {id : BlockId} (h : stack.target = some id) :
    id ∈ stack.ids :=
  stack.spine_sublist.subset (target_mem_spine h)

/-- What a run has to satisfy for a stack to be rendered: none of its blocks is marked, and none is held
but, if it is spent, its target. -/
structure Fits (taken : List BlockId) (held : BlockId → Prop) (spent : Bool) (stack : Stack) : Prop where
  nodup : stack.ids.Nodup
  fresh : ∀ id ∈ stack.ids, id ∉ taken
  held : ∀ id ∈ stack.ids, held id ↔ spent = true ∧ stack.target = some id

end Stack

/-- What a run has to satisfy for the sockets of a block to be rendered. -/
structure Sockets.Fits (taken : List BlockId) (held : BlockId → Prop) (sockets : Sockets) : Prop where
  nodup : sockets.ids.Nodup
  fresh : ∀ id ∈ sockets.ids, id ∉ taken
  held : ∀ id ∈ sockets.ids, ¬ held id

section Fits

variable {taken : List BlockId} {held : BlockId → Prop} {spent : Bool} {id : BlockId} {block : Block}
  {plugged : Sockets} {rest : Stack}

theorem Sockets.Fits.find (h : plugged.Fits taken held) (input : String) :
    (plugged.find input).Fits taken held false where
  nodup := h.nodup.sublist (plugged.ids_find_sublist input)
  fresh id hid := h.fresh id ((plugged.ids_find_sublist input).subset hid)
  held id hid := by simpa using h.held id ((plugged.ids_find_sublist input).subset hid)

namespace Stack.Fits

variable (h : (Stack.cons id block plugged rest).Fits taken held spent)

include h

theorem not_mem_taken : id ∉ taken :=
  h.fresh id (by simp)

/-- While a block is marked, what is plugged into it can be rendered. -/
theorem sockets : plugged.Fits (id :: taken) held := by
  obtain ⟨hid, -, hnodup, -, hdisjoint⟩ := Stack.nodup_cons h.nodup
  refine ⟨hnodup, fun other hother => ?_, fun other hother hheld => ?_⟩
  · rw [List.mem_cons, not_or]
    refine ⟨?_, h.fresh other (by simp [hother])⟩
    rintro rfl
    exact hid hother
  · have htarget := target_mem_spine ((h.held other (by simp [hother])).1 hheld).2
    rcases List.mem_cons.1 htarget with rfl | hrest
    · exact hid hother
    · exact hdisjoint other hother (rest.spine_sublist.subset hrest)

theorem rest_fresh : ∀ other ∈ rest.ids, other ∉ id :: taken := by
  obtain ⟨-, hid, -⟩ := Stack.nodup_cons h.nodup
  intro other hother
  rw [List.mem_cons, not_or]
  refine ⟨?_, h.fresh other (by simp [hother])⟩
  rintro rfl
  exact hid hother

/-- In a chain of items, the blocks after the first can be rendered. -/
theorem items (hspent : spent = false) : rest.Fits taken held false := by
  obtain ⟨-, -, -, hnodup, -⟩ := Stack.nodup_cons h.nodup
  refine ⟨hnodup, fun other hother => h.fresh other (by simp [hother]), ?_⟩
  intro other hother
  have hheld := h.held other (by simp [hother])
  simpa [hspent] using hheld

/-- A target that is not spent is not held, so releasing it changes nothing. -/
theorem hold_target (hspent : spent = false) :
    hold held (Stack.cons id block plugged rest).target false = held := by
  funext other
  rw [hold]
  split
  · rename_i htarget
    have hheld := h.held other (target_mem_ids htarget)
    simpa [hspent] using hheld
  · rfl

/-- Once the chain has ended, the parameters of its calls are held no longer. -/
theorem hold_followers :
    hold (hold held (Stack.cons id block plugged rest).target (block.kind = .functionCall)) rest.target
        false =
      hold held (Stack.cons id block plugged rest).target false := by
  funext other
  have hheld (hother : rest.target = some other) :=
    h.held other (by simp [target_mem_ids hother])
  simp only [hold, Stack.target] at hheld ⊢
  by_cases hparams : block.kind = .functionParams
  · grind
  · by_cases hcall : block.kind = .functionCall <;> grind

/-- While a call is marked, the block after it can be rendered, with the same parameters spent. -/
theorem arguments (hkind : block.kind = .functionCall) : rest.Fits (id :: taken) held spent := by
  obtain ⟨-, -, -, hnodup, -⟩ := Stack.nodup_cons h.nodup
  refine ⟨hnodup, h.rest_fresh, ?_⟩
  intro other hother
  rw [h.held other (by simp [hother]), Stack.target, if_neg (by simp [hkind]), if_pos hkind]

/-- Once the own code of a block is read, the block after it can be rendered; after a call, parameters
are spent. -/
theorem followers :
    rest.Fits (id :: taken)
      (hold held (Stack.cons id block plugged rest).target (block.kind = .functionCall))
      (block.kind = .functionCall) := by
  obtain ⟨-, hid, -, hnodup, -⟩ := Stack.nodup_cons h.nodup
  refine ⟨hnodup, h.rest_fresh, ?_⟩
  intro other hother
  have hne : id ≠ other := by
    rintro rfl
    exact hid hother
  have hheld := h.held other (by simp [hother])
  rw [Stack.target] at hheld
  rw [hold, Stack.target]
  by_cases hparams : block.kind = .functionParams
  · simp_all
  · by_cases hcall : block.kind = .functionCall
    · by_cases htarget : rest.target = some other
      · simp [hcall, htarget]
      · simp_all
    · simp_all

end Stack.Fits

end Fits

/-! ### Blocks -/

/-- Whether a piece has a part in the pairing of calls with their parameters. -/
def Piece.paired : Piece → Bool
  | .arguments | .parameters _ => true
  | _ => false

theorem BlockKind.paired_eq_false {kind : BlockKind} (hcall : kind ≠ .functionCall)
    (hparams : kind ≠ .functionParams) : ∀ piece ∈ kind.template.pieces, piece.paired = false := by
  cases kind with
  | functionCall => exact absurd rfl hcall
  | functionParams => exact absurd rfl hparams
  | _ => simp [BlockKind.template, Template.statement, Template.atomic, Template.binary, Piece.paired]

namespace Setting

open Rendering

variable {s : Setting} {render : Renderer} {taken : List BlockId} {held : BlockId → Prop}
  {spent : Bool} {id : BlockId} {block : Block} {sockets : Sockets} {rest : Stack}

/-- Rendering the first block of any stack computes its own code, and changes what is held in nothing
but the target; rendering the whole chain computes its code, and holds what was held before. -/
def Simulates (s : Setting) (render : Renderer) : Prop :=
  ∀ {taken : List BlockId} {held : BlockId → Prop} {spent : Bool} {id : BlockId} {stack : Stack},
    stack.At s.workspace (some id) → stack.Fits taken held spent →
    Computes (s.workspace.Holding taken held) (render id .alone)
      (Segment.spentCode spent (stack.segments s.generator Segment.spent))
      (s.workspace.Holding taken (hold held stack.target stack.calls)) ∧
    (spent = false → ∀ first others, stack.segments s.generator Segment.spent = first :: others →
      Computes (s.workspace.Holding taken held) (render id .chain)
        (Segment.chainCode Segment.spent first others) (s.workspace.Holding taken held))

/-- What is plugged into an input, as the run finds it and as it is read. -/
theorem plugged_cases (hat : sockets.At s.workspace block.inputs) (rule : ChainRule) (input : String) :
    (block.input? input = none ∧ sockets.segments s.generator rule input = []) ∨
    ∃ child first others, block.input? input = some child ∧
      sockets.segments s.generator rule input = first :: others ∧
      (sockets.find input).At s.workspace (some child) ∧
      s.typeNameAt child = first.kind.typeName := by
  have hstack := hat.find input
  rw [Sockets.segments_eq, Block.input?]
  cases hfind : sockets.find input with
  | nil =>
    rw [hfind] at hstack
    exact .inl ⟨hstack, by rw [Stack.segments_nil]⟩
  | cons id block sockets rest =>
    rw [hfind] at hstack
    refine .inr ⟨id, _, _, hstack.1, Stack.segments_cons .., ?_, ?_⟩
    · exact ⟨rfl, hstack.2⟩
    · rw [typeNameAt, hstack.2.1]
      rfl

section Inputs

variable (hrender : s.Simulates render) (hat : sockets.At s.workspace block.inputs)
  (hfits : sockets.Fits taken held)

include hrender hat hfits

theorem computes_valueText (input : String) (order : Order) :
    Computes (s.workspace.Holding taken held) (s.valueText render block input order)
      (block.valueText Segment.spent (sockets.segments s.generator Segment.spent) input order)
      (s.workspace.Holding taken held) := by
  rw [valueText, Block.valueText]
  rcases plugged_cases hat Segment.spent input with
    ⟨hinput, hplugged⟩ | ⟨child, first, others, hinput, hplugged, hstack, htype⟩
  · rw [hinput, hplugged]
    exact .pure _
  · rw [hinput, hplugged]
    rw [Sockets.segments_eq] at hplugged
    refine .bind ((hrender hstack (hfits.find input)).2 rfl _ _ hplugged) ?_
    intro code _
    cases code with
    | expression => exact .pure _
    | statement =>
      rw [htype]
      exact .throw _

theorem computes_valueOr (input : String) (order : Order) (placeholder : String) :
    Computes (s.workspace.Holding taken held) (s.valueOr render block input order placeholder)
      (block.valueOr Segment.spent (sockets.segments s.generator Segment.spent) input order placeholder)
      (s.workspace.Holding taken held) :=
  .bind (computes_valueText hrender hat hfits input order) fun _ _ => .pure _

theorem computes_bodyText (input : String) :
    Computes (s.workspace.Holding taken held) (s.bodyText render block input)
      (block.bodyText s.generator Segment.spent (sockets.segments s.generator Segment.spent) input)
      (s.workspace.Holding taken held) := by
  rw [bodyText, Block.bodyText]
  rcases plugged_cases hat Segment.spent input with
    ⟨hinput, hplugged⟩ | ⟨child, first, others, hinput, hplugged, hstack, htype⟩
  · rw [hinput, hplugged]
    exact .pure _
  · rw [hinput, hplugged]
    rw [Sockets.segments_eq] at hplugged
    refine .bind ((hrender hstack (hfits.find input)).2 rfl _ _ hplugged) ?_
    intro code _
    cases code with
    | expression =>
      rw [htype]
      exact .throw _
    | statement => exact .pure _

end Inputs

/-- The items of a chain are rendered one by one. None of them is a call, so none is followed by
parameters that are spent. -/
theorem computes_itemTexts (hrender : s.Simulates render) (input : String) {first? : Option BlockId}
    {stack : Stack} (hat : stack.At s.workspace first?) (hfits : stack.Fits taken held false) :
    Computes (s.workspace.Holding taken held)
      (s.itemTexts render block input .complete stack.spine)
      (block.itemTexts input (stack.segments s.generator Segment.spent))
      (s.workspace.Holding taken held) := by
  induction stack generalizing first? with
  | nil =>
    rw [Stack.segments_nil]
    exact .pure _
  | cons id item sockets rest ih =>
    have hstack : (Stack.cons id item sockets rest).At s.workspace (some id) := ⟨rfl, hat.2⟩
    have hitem := (hrender hstack hfits).1
    rw [Segment.spentCode_false, Stack.segments_cons] at hitem
    cases hat.1
    rw [Stack.segments_cons]
    refine .bind hitem ?_
    intro code hcode
    cases code with
    | expression =>
      rw [typeNameAt, hat.2.1]
      exact .throw _
    | statement text =>
      obtain ⟨inner, hshape⟩ := Block.code_shape hcode
      have hcall : item.kind ≠ .functionCall := by
        intro hkind
        rw [hkind] at hshape
        cases hshape
      rw [Stack.calls, decide_eq_false hcall, hfits.hold_target rfl]
      exact .bind (ih hat.2.2.2 (hfits.items rfl)) fun texts _ => .pure _

theorem computes_chainItems (hrender : s.Simulates render) (hat : sockets.At s.workspace block.inputs)
    (hfits : sockets.Fits taken held) (input : String) :
    Computes (s.workspace.Holding taken held) (s.chainItems render block input)
      (block.itemTexts input (sockets.segments s.generator Segment.spent input))
      (s.workspace.Holding taken held) := by
  have hfind := hfits.find input
  have hwalk : s.workspace.walk [] (Table.find? input block.inputs) =
      ((sockets.find input).spine, .complete) :=
    (hat.find input).walk (hfind.nodup.sublist (Stack.spine_sublist _)) fun _ _ h => by cases h
  rw [chainItems, Workspace.chainFrom, Block.input?, hwalk, Sockets.segments_eq]
  exact computes_itemTexts hrender input (hat.find input) hfind

/-- A piece that has no part in the pairing of calls with parameters changes nothing of what is held. -/
theorem computes_pieceText (hrender : s.Simulates render) (hat : sockets.At s.workspace block.inputs)
    (hfits : sockets.Fits taken held) {piece : Piece} (hpiece : piece.paired = false)
    (arguments : Except GenerateError Text) :
    Computes (s.workspace.Holding taken held) (s.pieceText render id block piece)
      (block.pieceText s.generator Segment.spent (sockets.segments s.generator Segment.spent) arguments
        piece)
      (s.workspace.Holding taken held) := by
  cases piece with
  | text | field | quoted => exact .pure _
  | value input order placeholder => exact computes_valueOr hrender hat hfits input order placeholder
  | body input => exact computes_bodyText hrender hat hfits input
  | list input | properties input =>
    exact .bind (computes_chainItems hrender hat hfits input) fun _ _ => .pure _
  | callee input order placeholder =>
    exact .bind (computes_valueOr hrender hat hfits input order placeholder) fun _ _ => .pure _
  | arguments | parameters => cases hpiece
  | literal name =>
    rw [pieceText, Block.pieceText]
    cases s.generator.literal? name with
    | none => exact .throw _
    | some text => exact .pure _

theorem computes_piecesText_cons {P Q R : Pass → Prop} {plugged : String → List Segment}
    {arguments : Except GenerateError Text} {piece : Piece} {pieces : List Piece}
    (hpiece : Computes P (s.pieceText render id block piece)
      (block.pieceText s.generator Segment.spent plugged arguments piece) Q)
    (hpieces : Computes Q (s.piecesText render id block pieces)
      (block.piecesText s.generator Segment.spent plugged arguments pieces) R) :
    Computes P (s.piecesText render id block (piece :: pieces))
      (block.piecesText s.generator Segment.spent plugged arguments (piece :: pieces)) R :=
  .bind hpiece fun _ _ => .bind hpieces fun _ _ => .pure _

theorem computes_piecesText (hrender : s.Simulates render) (hat : sockets.At s.workspace block.inputs)
    (hfits : sockets.Fits taken held) {pieces : List Piece}
    (hpieces : ∀ piece ∈ pieces, piece.paired = false) (arguments : Except GenerateError Text) :
    Computes (s.workspace.Holding taken held) (s.piecesText render id block pieces)
      (block.piecesText s.generator Segment.spent (sockets.segments s.generator Segment.spent) arguments
        pieces)
      (s.workspace.Holding taken held) := by
  induction pieces with
  | nil => exact .pure _
  | cons piece pieces ih =>
    exact computes_piecesText_cons
      (computes_pieceText hrender hat hfits (hpieces piece (List.mem_cons_self ..)) arguments)
      (ih fun other hother => hpieces other (List.mem_cons_of_mem _ hother))

theorem map_eq_bind (value : Except GenerateError Code) :
    value.map Code.text = (value >>= fun code => pure () >>= fun _ => pure code.text) := by
  cases value <;> rfl

/-- The block after a call is rendered for its arguments, and then holds its parameters. -/
theorem computes_argumentsText (hrender : s.Simulates render) (hat : rest.At s.workspace block.next)
    (hfits : rest.Fits taken held spent) :
    Computes (s.workspace.Holding taken held) (argumentsText render block)
      ((Segment.spentCode spent (rest.segments s.generator Segment.spent)).map Code.text)
      (s.workspace.Holding taken (hold held rest.target true)) := by
  rw [argumentsText]
  cases rest with
  | nil =>
    rw [show block.next = none from hat, Stack.segments_nil, Stack.target, hold_none]
    exact .pure _
  | cons params other sockets more =>
    have hstack : (Stack.cons params other sockets more).At s.workspace (some params) :=
      ⟨rfl, hat.2⟩
    have hread := (hrender hstack hfits).1
    rw [hat.1, map_eq_bind]
    refine .bind hread ?_
    intro code _
    by_cases hparams : other.kind = .functionParams
    · have htarget : (Stack.cons params other sockets more).target = some params := by
        rw [Stack.target, if_pos hparams]
      rw [htarget]
      exact .bind .consume_held fun _ _ => .pure _
    · have htarget : hold held (Stack.cons params other sockets more).target
            (Stack.cons params other sockets more).calls =
          hold held (Stack.cons params other sockets more).target true := by
        by_cases hcall : other.kind = .functionCall
        · rw [Stack.calls, decide_eq_true hcall]
        · rw [Stack.target, if_neg hparams, if_neg hcall, hold_none, hold_none]
      rw [htarget]
      exact .bind (.consume_other hat.2.1 hparams) fun _ _ => .pure _

/-- The parameters of a block that is spent give no text, and those of any other block their items. -/
theorem computes_parameters (hrender : s.Simulates render) (hkind : block.kind = .functionParams)
    (hget : s.workspace.get? id = some block) (hat : sockets.At s.workspace block.inputs)
    (hfits : (Stack.cons id block sockets rest).Fits taken held spent) (input : String)
    (arguments : Except GenerateError Text) :
    Computes (s.workspace.Holding (id :: taken) held) (s.pieceText render id block (.parameters input))
      (if spent = true then .ok []
        else block.pieceText s.generator Segment.spent (sockets.segments s.generator Segment.spent)
          arguments (.parameters input))
      (s.workspace.Holding (id :: taken) (hold held (some id) false)) := by
  have htarget : (Stack.cons id block sockets rest).target = some id := by
    rw [Stack.target, if_pos hkind]
  have hheld : held id ↔ spent = true := by
    simpa [htarget] using hfits.held id (by simp)
  refine .takeConsumed_bind hget hkind hheld ?_
  cases spent with
  | true => exact .pure _
  | false =>
    have hrelease := hfits.hold_target rfl
    rw [htarget] at hrelease
    rw [hrelease]
    exact .bind (computes_chainItems hrender hat hfits.sockets input) fun _ _ => .pure _

/-- The routine of the first block of a stack computes its own code. -/
theorem computes_blockCode (hrender : s.Simulates render)
    (hat : (Stack.cons id block sockets rest).At s.workspace (some id))
    (hfits : (Stack.cons id block sockets rest).Fits taken held spent) :
    Computes (s.workspace.Holding (id :: taken) held) (s.blockCode render id block)
      (Segment.spentCode spent ((Stack.cons id block sockets rest).segments s.generator Segment.spent))
      (s.workspace.Holding (id :: taken) (hold held (Stack.cons id block sockets rest).target
        (Stack.cons id block sockets rest).calls)) := by
  rcases hat with ⟨-, hget, hsockets, hrest⟩
  rw [blockCode, Stack.segments_cons, Segment.spentCode, Stack.target, Stack.calls]
  by_cases hparams : block.kind = .functionParams
  · have htemplate : block.kind.template = .statement [.parameters "PARAMS"] := by
      rw [hparams]
      rfl
    have hpiece := computes_parameters hrender hparams hget hsockets hfits "PARAMS"
    rw [if_pos hparams, decide_eq_false (by simp [hparams]), htemplate]
    dsimp only
    rw [Block.code, htemplate]
    cases spent with
    | true =>
      rw [if_pos ⟨rfl, hparams⟩]
      exact .bind (.bind (hpiece (.ok [])) fun _ _ => .bind (.pure _) fun _ _ => .pure _)
        fun _ _ => .pure _
    | false =>
      rw [if_neg (by simp)]
      exact .bind (computes_piecesText_cons (hpiece (.ok [])) (.pure _)) fun _ _ => .pure _
  · rw [if_neg fun h => hparams h.2, if_neg hparams]
    dsimp only
    rw [Block.code]
    refine .bind ?_ fun _ _ => .pure _
    by_cases hcall : block.kind = .functionCall
    · have hpieces : block.kind.template.pieces =
          [.callee "FUNCTION_NAME" .atomic "undefined", .text "(", .arguments, .text ")"] := by
        rw [hcall]
        rfl
      rw [if_pos hcall, decide_eq_true hcall, hpieces]
      exact computes_piecesText_cons (computes_pieceText hrender hsockets hfits.sockets rfl _)
        (computes_piecesText_cons (.pure _) (computes_piecesText_cons
          (computes_argumentsText hrender hrest (hfits.arguments hcall))
          (computes_piecesText_cons (.pure _) (.pure _))))
    · rw [if_neg hcall, hold_none]
      exact computes_piecesText hrender hsockets hfits.sockets
        (BlockKind.paired_eq_false hcall hparams) _

theorem map_bind {β : Type} (value : Except GenerateError Code) (next : Text → Except GenerateError β) :
    (value.map Code.text >>= next) = value >>= fun code => next code.text := by
  cases value <;> rfl

/-- Rendering the blocks after a block computes their text, and releases the parameters of the chain. -/
theorem computes_chainText (hrender : s.Simulates render) {first? : Option BlockId} {stack : Stack}
    (hat : stack.At s.workspace first?) (previous : Segment)
    (hfits : stack.Fits taken held (previous.kind = .functionCall)) :
    Computes (s.workspace.Holding taken held) (s.chainText render .complete stack.spine)
      (Segment.spent previous (stack.segments s.generator Segment.spent))
      (s.workspace.Holding taken (hold held stack.target false)) := by
  induction stack generalizing first? taken held previous with
  | nil =>
    rw [Stack.segments_nil, Stack.target, hold_none]
    exact .pure _
  | cons id block sockets rest ih =>
    have hcode := computes_blockCode hrender ⟨rfl, hat.2⟩ hfits
    rw [Stack.segments_cons] at hcode ⊢
    have hrest := ih hat.2.2.2 ⟨block.kind, block.code s.generator Segment.spent
      (sockets.segments s.generator Segment.spent)⟩ hfits.followers
    rw [hfits.hold_followers] at hrest
    rw [Segment.spent, map_bind]
    refine .lookup_bind hat.2.1 (.during hfits.not_mem_taken (.bind hcode fun code _ => ?_))
    exact .bind hrest fun after _ => .pure _

/-- The blocks after the first block of a stack are those of the rest of the stack. -/
theorem followers_eq (hat : (Stack.cons id block sockets rest).At s.workspace (some id))
    (hfits : (Stack.cons id block sockets rest).Fits taken held spent) :
    s.workspace.followers id = (rest.spine, .complete) := by
  obtain ⟨-, hid, -, hnodup, -⟩ := Stack.nodup_cons hfits.nodup
  rw [Workspace.followers, hat.2.1, Option.bind_some]
  refine hat.2.2.2.walk (hnodup.sublist rest.spine_sublist) ?_
  intro other hother hpassed
  rw [List.mem_singleton] at hpassed
  subst hpassed
  exact hid (rest.spine_sublist.subset hother)

/-- Rendering computes the code of stacks, to any depth. -/
theorem simulates_renderAt (s : Setting) (depth : Nat) : s.Simulates (s.renderAt depth) := by
  induction depth with
  | zero => exact fun _ _ => ⟨Triple.tooDeep, fun _ _ _ _ => Triple.tooDeep⟩
  | succ depth ih =>
    intro taken held spent id stack hat hfits
    cases stack with
    | nil => cases hat
    | cons other block sockets rest =>
      cases hat.1
      have hcode := computes_blockCode ih hat hfits
      refine ⟨?_, fun hspent first others hsegments => ?_⟩
      · rw [← bind_pure (Segment.spentCode spent _)]
        exact .lookup_bind hat.2.1 (.during hfits.not_mem_taken (.bind hcode fun _ _ => .pure _))
      · subst hspent
        rw [Segment.spentCode_false] at hcode
        rw [Stack.segments_cons] at hcode hsegments
        cases hsegments
        have hrest := computes_chainText ih hat.2.2.2 ⟨block.kind, block.code s.generator Segment.spent
          (sockets.segments s.generator Segment.spent)⟩ hfits.followers
        rw [hfits.hold_followers, hfits.hold_target rfl] at hrest
        refine .lookup_bind hat.2.1 (.during hfits.not_mem_taken (.bind hcode fun code _ => ?_))
        dsimp only
        rw [followers_eq hat hfits]
        exact .bind hrest fun _ _ => .pure _

end Setting
end BlockProgram
