import BlockProgram.Proofs.Rendering.Marks

/-!
Rendering as a recursion without a limit. `renderLevel` renders one block, given a way to render the blocks
that it refers to, so a renderer that needs no limit is a solution of

    render = renderLevel render

A recursion that does not end would leave the solution open, as `f x = f x` does. This one has exactly one
solution, even among the renderers that give no result at times, and that one always has a result
(`eq_renderLevel_iff`): a higher limit extends what a lower one renders (`Extends`), and with one more level
than there are blocks there is nothing left to extend.

The loops end as well: the walk along a chain enters each block once (`enterChain`), and so does the walk along
a chain of items, which keeps a list of its own of the blocks that it has visited (`visitItems`).
-/

namespace BlockProgram
namespace Rendering

variable {α β : Type} {step step' : Rendering α}

/-- Where the first step has a result, the second one has the same. -/
def Extends (step step' : Rendering α) : Prop :=
  ∀ pass ended, step pass = some ended → step' pass = some ended

theorem Extends.refl (step : Rendering α) : Extends step step :=
  fun _ _ h => h

theorem Extends.tooDeep (step : Rendering α) : Extends tooDeep step := by
  intro pass ended h
  cases h

theorem Extends.bind {next next' : α → Rendering β} (h : Extends step step')
    (hnext : ∀ a, Extends (next a) (next' a)) : Extends (step >>= next) (step' >>= next') := by
  intro pass ended heq
  rw [bind_apply] at heq ⊢
  cases hstep : step pass with
  | none => simp [hstep] at heq
  | some mid =>
    obtain ⟨result, mid⟩ := mid
    rw [hstep] at heq
    rw [h pass _ hstep]
    cases result with
    | ok a => exact hnext a mid ended heq
    | error e => exact heq

theorem Extends.during (id : BlockId) (block : Block) (h : Extends step step') :
    Extends (during id block step) (during id block step') := by
  intro pass ended heq
  unfold Rendering.during at heq ⊢
  split at heq
  · rename_i hid
    rw [if_pos hid]
    exact heq
  · rename_i hid
    obtain ⟨mid, hmid, rfl⟩ := Option.map_eq_some_iff.1 heq
    rw [if_neg hid, h _ _ hmid]
    rfl

/-- A step that always has a result is extended by no other one. -/
theorem Extends.eq_of_isSome (h : Extends step step') (hsome : ∀ pass, (step pass).isSome) :
    step = step' := by
  funext pass
  obtain ⟨ended, hended⟩ := Option.isSome_iff_exists.1 (hsome pass)
  rw [hended, h pass ended hended]

end Rendering

namespace Setting

open Rendering

variable {s : Setting} {render render' : Renderer}

/-! ### Extended renderers -/

/-- Whatever the first renderer renders, the second one renders, too. -/
def RendersMore (render render' : Renderer) : Prop :=
  ∀ id extent, Extends (render id extent) (render' id extent)

theorem extends_valueText (h : RendersMore render render') (block : Block) (input : String) (order : Order) :
    Extends (s.valueText render block input order) (s.valueText render' block input order) := by
  unfold valueText
  split
  · exact .refl _
  · exact (h _ _).bind fun _ => .refl _

theorem extends_bodyText (h : RendersMore render render') (block : Block) (input : String) :
    Extends (s.bodyText render block input) (s.bodyText render' block input) := by
  unfold bodyText
  split
  · exact .refl _
  · exact (h _ _).bind fun _ => .refl _

theorem extends_itemTexts (h : RendersMore render render') (block : Block) (input : String)
    (stop : ChainEnd) (items : List BlockId) :
    Extends (s.itemTexts render block input stop items) (s.itemTexts render' block input stop items) := by
  induction items with
  | nil => exact .refl _
  | cons item rest ih =>
    refine (h _ _).bind fun code => ?_
    cases code with
    | expression => exact .refl _
    | statement => exact ih.bind fun _ => .refl _

theorem extends_chainItems (h : RendersMore render render') (block : Block) (input : String) :
    Extends (s.chainItems render block input) (s.chainItems render' block input) :=
  extends_itemTexts h block input _ _

theorem extends_pieceText (h : RendersMore render render') (id : BlockId) (block : Block) (piece : Piece) :
    Extends (s.pieceText render id block piece) (s.pieceText render' id block piece) := by
  cases piece with
  | text | field | quoted | literal => exact .refl _
  | value input order => exact (extends_valueText h block input order).bind fun _ => .refl _
  | body input => exact extends_bodyText h block input
  | list input | properties input => exact (extends_chainItems h block input).bind fun _ => .refl _
  | callee input order =>
    exact ((extends_valueText h block input order).bind fun _ => .refl _).bind fun _ => .refl _
  | arguments =>
    rw [pieceText, pieceText, argumentsText, argumentsText]
    split
    · exact .refl _
    · exact (h _ _).bind fun _ => .refl _
  | parameters input =>
    refine (Extends.refl (Rendering.takeConsumed id)).bind fun consumed => ?_
    cases consumed with
    | true => exact .refl _
    | false => exact (extends_chainItems h block input).bind fun _ => .refl _

theorem extends_blockCode (h : RendersMore render render') (id : BlockId) (block : Block) :
    Extends (s.blockCode render id block) (s.blockCode render' id block) := by
  refine Extends.bind ?_ fun _ => .refl _
  induction block.kind.template.pieces with
  | nil => exact .refl _
  | cons piece rest ih =>
    exact (extends_pieceText h id block piece).bind fun _ => ih.bind fun _ => .refl _

theorem extends_chainText (h : RendersMore render render') (stop : ChainEnd) (ids : List BlockId) :
    Extends (s.chainText render stop ids) (s.chainText render' stop ids) := by
  induction ids with
  | nil => exact .refl _
  | cons id rest ih =>
    refine (Extends.refl (lookup _ id)).bind fun block => .during id block ?_
    exact (extends_blockCode h id block).bind fun _ => ih.bind fun _ => .refl _

/-! ### The recursion -/

/-- Renders a block, given a way to render the blocks that it refers to. -/
def renderLevel (s : Setting) (render : Renderer) : Renderer := fun id extent => do
  let block ← lookup s.workspace id
  during id block do
    let code ← s.blockCode render id block
    match extent with
    | .alone => return code
    | .chain =>
      let followers := s.workspace.followers id
      let after ← s.chainText render followers.2 followers.1
      return code.append after

theorem renderAt_succ (s : Setting) (depth : Nat) :
    s.renderAt (depth + 1) = s.renderLevel (s.renderAt depth) := rfl

theorem rendersMore_renderLevel (h : RendersMore render render') :
    RendersMore (s.renderLevel render) (s.renderLevel render') := by
  intro id extent
  refine (Extends.refl (lookup _ id)).bind fun block => .during id block ?_
  refine (extends_blockCode h id block).bind fun code => ?_
  cases extent with
  | alone => exact .refl _
  | chain => exact (extends_chainText h _ _).bind fun _ => .refl _

/-- What is rendered within a limit, a solution of the recursion renders. -/
theorem renderAt_rendersMore (hrender : render = s.renderLevel render) (depth : Nat) :
    RendersMore (s.renderAt depth) render := by
  induction depth with
  | zero => exact fun _ _ => .tooDeep _
  | succ depth ih =>
    rw [hrender, renderAt_succ]
    exact rendersMore_renderLevel ih

/-- What is rendered within a limit is rendered within a higher one. -/
theorem renderAt_rendersMore_succ (s : Setting) (depth : Nat) :
    RendersMore (s.renderAt depth) (s.renderAt (depth + 1)) := by
  induction depth with
  | zero => exact fun _ _ => .tooDeep _
  | succ depth ih => exact rendersMore_renderLevel ih

/-- Rendering without a limit, as a renderer. -/
def renderFreely (s : Setting) : Renderer := fun id extent pass => some (s.renderBlock id extent pass)

theorem renderAt_enoughDepth (s : Setting) : s.renderAt s.enoughDepth = s.renderFreely := by
  funext id extent pass
  exact step_unlimited _ (fun taken => s.settles_renderEnough taken id extent) pass

/-- A renderer that renders more than one that always has a result is the same. -/
theorem eq_renderFreely (h : RendersMore s.renderFreely render) : render = s.renderFreely := by
  funext id extent
  exact ((h id extent).eq_of_isSome fun _ => rfl).symm

/-- Rendering without a limit solves the recursion. -/
theorem renderLevel_renderFreely (s : Setting) : s.renderLevel s.renderFreely = s.renderFreely := by
  refine eq_renderFreely ?_
  have hmore := s.renderAt_rendersMore_succ s.enoughDepth
  rwa [renderAt_succ, renderAt_enoughDepth] at hmore

/-- The recursion has one solution and no other. -/
theorem eq_renderLevel_iff (s : Setting) (render : Renderer) :
    render = s.renderLevel render ↔ render = s.renderFreely := by
  constructor
  · intro hrender
    have hmore := renderAt_rendersMore hrender s.enoughDepth
    rw [renderAt_enoughDepth] at hmore
    exact eq_renderFreely hmore
  · rintro rfl
    exact s.renderLevel_renderFreely.symm

/-- More levels than one more than there are blocks change nothing. -/
theorem renderAt_enoughDepth_add (s : Setting) (spare : Nat) :
    s.renderAt (s.enoughDepth + spare) = s.renderFreely := by
  induction spare with
  | zero => exact s.renderAt_enoughDepth
  | succ spare ih => rw [← Nat.add_assoc, renderAt_succ, ih, renderLevel_renderFreely]

/-! ### Items -/

/-- The text of an item, which is rendered on its own, and the texts of the items after it. -/
def withItem (s : Setting) (render : Renderer) (block : Block) (input : String) (item : BlockId)
    (rest : Rendering (List Text)) : Rendering (List Text) := do
  match ← render item .alone with
  | .statement text =>
    let texts ← rest
    return text :: texts
  | .expression .. => throw (.expectedStatement block.id input (s.typeNameAt item))

/-- The texts of the blocks from `next` on, each rendered on its own if it was not visited before. Stops after
so many blocks. -/
def visitItems (s : Setting) (render : Renderer) (block : Block) (input : String) :
    Nat → List BlockId → Option BlockId → Rendering (List Text)
  | _, _, none => return []
  | 0, _, some _ => tooDeep
  | steps + 1, visited, some item => do
    let itemBlock ← lookup s.workspace item
    if item ∈ visited then throw (.ofRepeated itemBlock)
    else
      s.withItem render block input item
        (visitItems s render block input steps (item :: visited) itemBlock.next)

theorem itemTexts_cons (s : Setting) (render : Renderer) (block : Block) (input : String) (stop : ChainEnd)
    (item : BlockId) (rest : List BlockId) :
    s.itemTexts render block input stop (item :: rest) =
      s.withItem render block input item (s.itemTexts render block input stop rest) := rfl

theorem lookup_of_get? {ws : Workspace} {id : BlockId} {block : Block} (h : ws.get? id = some block) :
    lookup ws id = pure block := by
  rw [lookup, h]

theorem lookup_of_get?_none {ws : Workspace} {id : BlockId} (h : ws.get? id = none) :
    lookup ws id = throw (.missingBlock id) := by
  rw [lookup, h]

/-- Items that are visited one by one, against the items as the walk along their chain finds them. -/
theorem visitItems_eq_itemTexts {block : Block} {input : String} {visited : List BlockId}
    {next : Option BlockId} {items : List BlockId} {stop : ChainEnd}
    (hwalk : s.workspace.Walks visited next items stop) {steps : Nat} (hsteps : items.length < steps) :
    s.visitItems render block input steps visited next = s.itemTexts render block input stop items := by
  induction hwalk generalizing steps with
  | complete =>
    obtain ⟨steps, rfl⟩ := Nat.exists_eq_succ_of_ne_zero (Nat.ne_of_gt hsteps)
    rfl
  | missing hget =>
    obtain ⟨steps, rfl⟩ := Nat.exists_eq_succ_of_ne_zero (Nat.ne_of_gt hsteps)
    rw [visitItems, lookup_of_get?_none hget]
    rfl
  | back hget hid =>
    obtain ⟨steps, rfl⟩ := Nat.exists_eq_succ_of_ne_zero (Nat.ne_of_gt hsteps)
    rw [visitItems, itemTexts, settleEnd, lookup_of_get? hget, pure_bind, pure_bind, if_pos hid]
    rfl
  | step hget hid _ ih =>
    obtain ⟨steps, rfl⟩ := Nat.exists_eq_succ_of_ne_zero (Nat.ne_of_gt (Nat.zero_lt_of_lt hsteps))
    rw [visitItems, itemTexts_cons, lookup_of_get? hget, pure_bind, if_neg hid, ih (by simpa using hsteps)]

/-- The items of a socket can be visited one by one. -/
theorem visitItems_eq_chainItems (s : Setting) (render : Renderer) (block : Block) (input : String)
    (spare : Nat) :
    s.visitItems render block input (s.enoughDepth + spare) [] (block.input? input) =
      s.chainItems render block input := by
  have hwalk := s.workspace.walks_walk [] (block.input? input)
  refine visitItems_eq_itemTexts hwalk ?_
  have hlength := hwalk.length_le
  rw [enoughDepth]
  omega

/-! ### Operations -/

/-- An operation, given a way to render blocks. -/
def performBy (s : Setting) (render : Renderer) : Operation → Rendering Answer
  | .render id extent => do
    let code ← render id extent
    return .code code
  | .value id input order => do
    let text ← lookup s.workspace id >>= fun block => s.valueText render block input order
    return .text text
  | .body id input => do
    let text ← lookup s.workspace id >>= fun block => s.bodyText render block input
    return .text text
  | .items id input => do
    let texts ← lookup s.workspace id >>= fun block => s.chainItems render block input
    return .texts texts

theorem performBy_renderFreely (s : Setting) (operation : Operation) (pass : Pass) :
    s.performBy s.renderFreely operation pass = some (s.perform operation pass) := by
  have hentering : s.performEntering operation = s.performBy (s.enterAt s.enoughDepth) operation := by
    cases operation <;> rfl
  rw [← performEntering_eq, hentering, enterAt_eq_renderAt, renderAt_enoughDepth]

/-- **Rendering ends on every workspace.** The recursion of rendering has one solution, which gives a result or
an error from every pass. All operations give theirs with blocks that are nested at most one deeper than there
are blocks, and with walks that enter at most so many blocks one by one; and so do the walks along chains of
items, whatever the blocks are rendered with. -/
theorem rendering_ends (s : Setting) :
    (∀ render : Renderer, render = s.renderLevel render ↔
      render = fun id extent pass => some (s.renderBlock id extent pass)) ∧
    (∀ spare operation pass, s.performBy (s.enterAt (s.workspace.size + 1 + spare)) operation pass =
      some (s.perform operation pass)) ∧
    ∀ render block input spare,
      s.visitItems render block input (s.workspace.size + 1 + spare) [] (block.input? input) =
        s.chainItems render block input := by
  refine ⟨s.eq_renderLevel_iff, fun spare operation pass => ?_, s.visitItems_eq_chainItems⟩
  have hlimit : s.enterAt (s.workspace.size + 1 + spare) = s.renderFreely := by
    rw [enterAt_eq_renderAt]
    exact s.renderAt_enoughDepth_add spare
  rw [hlimit, performBy_renderFreely]

end Setting

/-- A block that is plugged into itself. -/
def selfPlugged : Workspace where
  blocks := #[{ id := "b0", kind := .logicNot, inputs := [("BOOL", ⟨0⟩)] }]

example : Setting.renderAt ⟨selfPlugged, {}⟩ 1 ⟨0⟩ .chain {} = none := by
  cbv

example : Setting.renderAt ⟨selfPlugged, {}⟩ 2 ⟨0⟩ .chain {} = some (.error (.cycle "b0" "logic_not"), {}) := by
  cbv

end BlockProgram
