import BlockProgram.Proofs.Forest.Program
import BlockProgram.Proofs.Rendering.Walk

/-!
Which parameter blocks are consumed, where nothing but parameters comes after calls. A block that is rendered
with its chain leaves none. A call that is rendered alone leaves its parameters consumed, for the chain to
take, and any other block that is rendered alone leaves none.

    call  ->  params  ->  more
    [] ... [params] ... [] ... []        what is consumed before, between and after them

A chain of items renders its blocks alone as well, and has no use for a call: it fails. Then the chain walk
never comes to the parameters, and they stay consumed. That is the one failure after which a block is
consumed (`Workspace.Strands`).
-/

namespace BlockProgram

/-- The parameters that are consumed once a block is rendered alone. -/
def Block.owed (block : Block) : List BlockId :=
  if block.kind = .functionCall then block.next.toList else []

@[simp]
theorem Block.owed_call {block : Block} (h : block.kind = .functionCall) : block.owed = block.next.toList :=
  if_pos h

@[simp]
theorem Block.owed_other {block : Block} (h : block.kind ≠ .functionCall) : block.owed = [] :=
  if_neg h

namespace Workspace

/-- The error is that there is a call among the items of a chain, and what is consumed are the parameters of
the call. -/
inductive Strands (ws : Workspace) : GenerateError → List BlockId → Prop where
  | call {holder call params : BlockId} {block callBlock : Block} {input : String}
    (hholder : ws.get? holder = some block) (hitem : call ∈ (ws.chainFrom (block.input? input)).1)
    (hcall : ws.get? call = some callBlock) (hkind : callBlock.kind = .functionCall)
    (hparams : callBlock.next = some params) :
    Strands ws (.expectedStatement block.id input "function_call") [params]

/-- What is consumed when rendering fails. -/
def FailsWith (ws : Workspace) (e : GenerateError) (consumed : List BlockId) : Prop :=
  consumed = [] ∨ ws.Strands e consumed

/-- What is consumed when rendering comes to a block: nothing, or the block itself, which are parameters that
are not rendered yet. -/
inductive Awaits (ws : Workspace) (taken : List BlockId) : Option BlockId → List BlockId → Prop where
  | nothing {next} : Awaits ws taken next []
  | parameters {id block} (hget : ws.get? id = some block) (hkind : block.kind = .functionParams)
    (hid : id ∉ taken) : Awaits ws taken (some id) [id]

theorem Awaits.eq_nil {ws : Workspace} {taken before : List BlockId} {id : BlockId} {block : Block}
    (h : ws.Awaits taken (some id) before) (hget : ws.get? id = some block)
    (hkind : block.kind ≠ .functionParams) : before = [] := by
  cases h with
  | nothing => rfl
  | parameters hother hparams =>
    rw [hget] at hother
    cases hother
    exact absurd hparams hkind

/-- What is consumed comes next, and is not rendered yet. -/
theorem Awaits.eq_nil_of_mem {ws : Workspace} {taken before : List BlockId} {id : BlockId}
    (h : ws.Awaits taken (some id) before) (hid : id ∈ taken) : before = [] := by
  cases h with
  | nothing => rfl
  | parameters _ _ hfree => exact absurd hid hfree

end Workspace

namespace Rendering

variable {α β : Type} {ws : Workspace} {taken before : List BlockId} {id : BlockId} {block : Block}

/-- While the blocks `taken` are rendered and the blocks `before` are consumed, the step ends with a value for
which, together with what is consumed then, `done` holds; or it fails. -/
def Leaves (ws : Workspace) (taken before : List BlockId) (step : Rendering α)
    (done : α → List BlockId → Prop) : Prop :=
  Triple (fun pass => pass.rendering = taken ∧ pass.consumed = before) step fun result after =>
    match result with
    | .ok a => after.rendering = taken ∧ done a after.consumed
    | .error e => ws.FailsWith e after.consumed

variable {step : Rendering α} {done : α → List BlockId → Prop} {done' : β → List BlockId → Prop}

theorem Leaves.mono {weaker : α → List BlockId → Prop} (h : Leaves ws taken before step done)
    (hdone : ∀ a consumed, done a consumed → weaker a consumed) : Leaves ws taken before step weaker := by
  refine Triple.mono h (fun _ hpass => hpass) fun result after hpost => ?_
  cases result with
  | ok a => exact ⟨hpost.1, hdone a _ hpost.2⟩
  | error e => exact hpost

theorem Leaves.pure {a : α} (h : done a before) : Leaves ws taken before (Pure.pure a) done := by
  refine Triple.pure ?_
  rintro pass ⟨hrendering, rfl⟩
  exact ⟨hrendering, h⟩

theorem Leaves.throw {e : GenerateError} (h : ws.FailsWith e before) :
    Leaves ws taken before (MonadExcept.throw e : Rendering α) done := by
  refine Triple.throw ?_
  rintro pass ⟨-, rfl⟩
  exact h

theorem Leaves.bind {next : α → Rendering β} (hstep : Leaves ws taken before step done)
    (hnext : ∀ a mid, done a mid → Leaves ws taken mid (next a) done') :
    Leaves ws taken before (step >>= next) done' := by
  refine Triple.bind hstep ?_ fun e pass hpass => hpass
  rintro a pass ⟨hrendering, hdone⟩
  exact hnext a pass.consumed hdone pass ⟨hrendering, rfl⟩

/-- A missing block is an error, which consumes nothing. -/
theorem Leaves.lookup_bind {next : Block → Rendering β}
    (hnext : ∀ block, ws.get? id = some block → Leaves ws taken [] (next block) done') :
    Leaves ws taken [] (lookup ws id >>= next) done' :=
  Triple.lookup_bind hnext fun _ _ hpass => .inl hpass.2

theorem Leaves.lookup_bind_of_get? (hget : ws.get? id = some block) {next : Block → Rendering β}
    (hnext : Leaves ws taken before (next block) done') :
    Leaves ws taken before (lookup ws id >>= next) done' :=
  Triple.lookup_bind_of_get? hget hnext

/-- A block is marked while the step runs, and must not be marked already. -/
theorem Leaves.during (hmarked : id ∈ taken → before = [])
    (hstep : id ∉ taken → Leaves ws (id :: taken) before step done) :
    Leaves ws taken before (during id block step) fun a consumed => id ∉ taken ∧ done a consumed := by
  refine Triple.during ?_ ?_
  · rintro pass ⟨hrendering, hconsumed⟩ hid
    rw [hrendering] at hid
    exact .inl (hconsumed.trans (hmarked hid))
  · rintro _ ⟨pass, ⟨rfl, rfl⟩, hid, rfl⟩ result after heq
    have hpost := hstep hid (pass.enter id) ⟨rfl, rfl⟩ result after heq
    cases result with
    | ok a => exact ⟨by simp [Pass.leave, hpost.1], hid, hpost.2⟩
    | error e => exact hpost

theorem Leaves.consume : Leaves ws taken [] (consume id) fun _ consumed => consumed = [id] := by
  refine Triple.consume ?_
  rintro pass ⟨hrendering, hconsumed⟩
  simp [Pass.consume, hrendering, hconsumed]

theorem Leaves.takeConsumed :
    Leaves ws taken before (takeConsumed id) fun found consumed =>
      found = decide (id ∈ before) ∧ consumed = before.erase id := by
  refine Triple.takeConsumed ?_
  rintro pass ⟨hrendering, rfl⟩
  exact ⟨hrendering, rfl, rfl⟩

theorem Leaves.settleEnd (stop : ChainEnd) :
    Leaves ws taken [] (settleEnd ws stop) fun _ consumed => consumed = [] := by
  cases stop with
  | complete => exact .pure rfl
  | missing id => exact .throw (.inl rfl)
  | back id => exact .lookup_bind fun _ _ => .throw (.inl rfl)

/-- A step that is told to leave nothing is followed by one that starts with nothing. -/
theorem Leaves.bind_nil {next : α → Rendering β}
    (hstep : Leaves ws taken before step fun _ consumed => consumed = [])
    (hnext : ∀ a, Leaves ws taken [] (next a) done') :
    Leaves ws taken before (step >>= next) done' := by
  refine hstep.bind ?_
  rintro a _ rfl
  exact hnext a

end Rendering

namespace Setting

open Rendering

variable {s : Setting} {render : Renderer} {taken before : List BlockId} {id : BlockId} {block : Block}

/-- The value of a block that was rendered alone, and what is consumed then. -/
structure Alone (s : Setting) (taken : List BlockId) (id : BlockId) (block : Block) (code : Code)
    (consumed : List BlockId) : Prop where
  owes : consumed = block.owed
  /-- Parameters are not being rendered when they are consumed. -/
  awaits : s.workspace.Awaits (id :: taken) block.next consumed
  /-- Only expressions have parameters. -/
  statement : ∀ text, code = .statement text → consumed = []

/-- With nothing consumed before, nothing is consumed once a block is rendered with its chain, and nothing but
its parameters if it is a call that is rendered alone. -/
structure Clears (s : Setting) (render : Renderer) : Prop where
  chain : ∀ taken id, Leaves s.workspace taken [] (render id .chain) fun _ consumed => consumed = []
  alone : ∀ taken id, Leaves s.workspace taken [] (render id .alone) fun code consumed =>
    id ∉ taken ∧ ∃ block, s.workspace.get? id = some block ∧ s.Alone taken id block code consumed

/-! ### Sockets -/

theorem leaves_valueText (hrender : s.Clears render) (block : Block) (input : String) (order : Order) :
    Leaves s.workspace taken [] (s.valueText render block input order) fun _ consumed => consumed = [] := by
  unfold valueText
  split
  · exact .pure rfl
  · refine (hrender.chain taken _).bind_nil fun code => ?_
    cases code with
    | expression => exact .pure rfl
    | statement => exact .throw (.inl rfl)

theorem leaves_valueOr (hrender : s.Clears render) (block : Block) (input : String) (order : Order)
    (placeholder : String) :
    Leaves s.workspace taken [] (s.valueOr render block input order placeholder) fun _ consumed =>
      consumed = [] :=
  (leaves_valueText hrender block input order).bind_nil fun _ => .pure rfl

theorem leaves_bodyText (hrender : s.Clears render) (block : Block) (input : String) :
    Leaves s.workspace taken [] (s.bodyText render block input) fun _ consumed => consumed = [] := by
  unfold bodyText
  split
  · exact .pure rfl
  · refine (hrender.chain taken _).bind_nil fun code => ?_
    cases code with
    | expression => exact .throw (.inl rfl)
    | statement => exact .pure rfl

/-- The error for an item that is an expression. If the item is a call with parameters, these are consumed. -/
theorem failsWith_item {holder item : BlockId} {input : String} {itemBlock : Block}
    (hholder : s.workspace.get? holder = some block)
    (hitem : item ∈ (s.workspace.chainFrom (block.input? input)).1)
    (hget : s.workspace.get? item = some itemBlock) :
    s.workspace.FailsWith (.expectedStatement block.id input (s.typeNameAt item)) itemBlock.owed := by
  by_cases hkind : itemBlock.kind = .functionCall
  · cases hnext : itemBlock.next with
    | none =>
      rw [Block.owed_call hkind, hnext]
      exact .inl rfl
    | some params =>
      rw [Block.owed_call hkind, hnext, typeNameAt, hget, Option.map_some, hkind]
      exact .inr (.call hholder hitem hget hkind hnext)
  · rw [Block.owed_other hkind]
    exact .inl rfl

theorem leaves_itemTexts (hrender : s.Clears render) {holder : BlockId}
    (hholder : s.workspace.get? holder = some block) (input : String) (stop : ChainEnd)
    {items : List BlockId} (hitems : items ⊆ (s.workspace.chainFrom (block.input? input)).1) :
    Leaves s.workspace taken [] (s.itemTexts render block input stop items) fun _ consumed =>
      consumed = [] := by
  induction items with
  | nil => exact (Leaves.settleEnd stop).bind_nil fun _ => .pure rfl
  | cons item rest ih =>
    obtain ⟨hitem, hrest⟩ := List.cons_subset.1 hitems
    refine (hrender.alone taken item).bind ?_
    rintro code consumed ⟨-, itemBlock, hget, halone⟩
    cases code with
    | expression =>
      rw [halone.owes]
      exact .throw (failsWith_item hholder hitem hget)
    | statement text =>
      rw [halone.statement text rfl]
      exact (ih hrest).bind_nil fun _ => .pure rfl

theorem leaves_chainItems (hrender : s.Clears render) (hget : s.workspace.get? id = some block)
    (input : String) :
    Leaves s.workspace taken [] (s.chainItems render block input) fun _ consumed => consumed = [] :=
  leaves_itemTexts hrender hget input _ (List.Subset.refl _)

/-! ### Blocks -/

theorem leaves_pieceText (hrender : s.Clears render) (hget : s.workspace.get? id = some block)
    {piece : Piece} (hpiece : piece.paired = false) :
    Leaves s.workspace taken [] (s.pieceText render id block piece) fun _ consumed => consumed = [] := by
  cases piece with
  | text | field | quoted => exact .pure rfl
  | value input order placeholder => exact leaves_valueOr hrender block input order placeholder
  | body input => exact leaves_bodyText hrender block input
  | list input | properties input =>
    exact (leaves_chainItems hrender hget input).bind_nil fun _ => .pure rfl
  | callee input order placeholder =>
    exact (leaves_valueOr hrender block input order placeholder).bind_nil fun _ => .pure rfl
  | arguments | parameters => cases hpiece
  | literal name =>
    rw [pieceText]
    cases s.generator.literal? name with
    | none => exact .throw (.inl rfl)
    | some text => exact .pure rfl

/-- The texts of pieces are read one after the other. -/
theorem leaves_piecesText_cons {mid after : List BlockId → Prop} {piece : Piece} {rest : List Piece}
    (hpiece : Leaves s.workspace taken before (s.pieceText render id block piece) fun _ => mid)
    (hrest : ∀ consumed, mid consumed →
      Leaves s.workspace taken consumed (s.piecesText render id block rest) fun _ => after) :
    Leaves s.workspace taken before (s.piecesText render id block (piece :: rest)) fun _ => after :=
  hpiece.bind fun _ consumed hmid => (hrest consumed hmid).bind fun _ _ hafter => .pure hafter

theorem leaves_piecesText (hrender : s.Clears render) (hget : s.workspace.get? id = some block)
    {pieces : List Piece} (hpieces : ∀ piece ∈ pieces, piece.paired = false) :
    Leaves s.workspace taken [] (s.piecesText render id block pieces) fun _ consumed => consumed = [] := by
  induction pieces with
  | nil => exact .pure rfl
  | cons piece rest ih =>
    refine leaves_piecesText_cons (leaves_pieceText hrender hget (hpieces piece (List.mem_cons_self ..))) ?_
    rintro _ rfl
    exact ih fun other hother => hpieces other (List.mem_cons_of_mem _ hother)

/-- A call leaves its parameters consumed, which are not being rendered. -/
theorem leaves_argumentsText (hpaired : s.workspace.CallsPaired) (hrender : s.Clears render)
    (hget : s.workspace.get? id = some block) (hkind : block.kind = .functionCall) :
    Leaves s.workspace taken [] (argumentsText render block) fun _ consumed =>
      consumed = block.next.toList ∧ s.workspace.Awaits taken block.next consumed := by
  unfold argumentsText
  cases hnext : block.next with
  | none => exact .pure ⟨rfl, .nothing⟩
  | some params =>
    obtain ⟨paramsBlock, hparams, hparamsKind⟩ := hpaired id block params hget hkind hnext
    refine (hrender.alone taken params).bind ?_
    rintro code consumed ⟨hfree, other, hother, halone⟩
    rw [hparams] at hother
    cases hother
    have hnone : consumed = [] := by rw [halone.owes, Block.owed_other (by simp [hparamsKind])]
    subst hnone
    refine Leaves.consume.bind ?_
    rintro _ _ rfl
    exact .pure ⟨rfl, .parameters hparams hparamsKind hfree⟩

/-- Parameters that are consumed are taken, and give no text. -/
theorem leaves_parameters (hrender : s.Clears render) (hget : s.workspace.get? id = some block)
    (hbefore : before = [] ∨ before = [id]) (input : String) :
    Leaves s.workspace taken before (s.pieceText render id block (.parameters input)) fun _ consumed =>
      consumed = [] := by
  refine Leaves.takeConsumed.bind ?_
  rintro _ _ ⟨rfl, rfl⟩
  rcases hbefore with rfl | rfl
  · exact (leaves_chainItems hrender hget input).bind_nil fun _ => .pure rfl
  · simp only [List.mem_singleton, decide_true, List.erase_cons_head]
    exact .pure rfl

/-- The name of the function is read, and then the parameters. -/
theorem leaves_callText (hpaired : s.workspace.CallsPaired) (hrender : s.Clears render)
    (hget : s.workspace.get? id = some block) (hkind : block.kind = .functionCall) :
    Leaves s.workspace taken [] (s.piecesText render id block BlockKind.functionCall.template.pieces)
      fun _ consumed => consumed = block.next.toList ∧ s.workspace.Awaits taken block.next consumed := by
  refine leaves_piecesText_cons (leaves_pieceText hrender hget rfl) ?_
  rintro _ rfl
  refine leaves_piecesText_cons (leaves_pieceText hrender hget rfl) ?_
  rintro _ rfl
  refine leaves_piecesText_cons (leaves_argumentsText hpaired hrender hget hkind) ?_
  intro consumed hconsumed
  exact leaves_piecesText_cons (.pure hconsumed) fun _ h => .pure h

theorem leaves_blockCode (hpaired : s.workspace.CallsPaired) (hrender : s.Clears render)
    (hget : s.workspace.get? id = some block) (hawait : s.workspace.Awaits taken (some id) before) :
    Leaves s.workspace (id :: taken) before (s.blockCode render id block) (s.Alone taken id block) := by
  have hother {text : Text} (hcall : block.kind ≠ .functionCall) :
      s.Alone taken id block (.ofShape text block.kind.template.shape) [] :=
    ⟨by rw [Block.owed_other hcall], .nothing, fun _ _ => rfl⟩
  rw [blockCode]
  by_cases hcall : block.kind = .functionCall
  · obtain rfl := hawait.eq_nil hget (by simp [hcall])
    rw [hcall]
    refine (leaves_callText hpaired hrender hget hcall).bind ?_
    rintro text consumed ⟨howed, hawait⟩
    exact .pure ⟨by rw [Block.owed_call hcall, howed], hawait, fun _ h => by cases h⟩
  · by_cases hparams : block.kind = .functionParams
    · have hbefore : before = [] ∨ before = [id] := by
        cases hawait with
        | nothing => exact .inl rfl
        | parameters => exact .inr rfl
      have htext : Leaves s.workspace (id :: taken) before
          (s.piecesText render id block block.kind.template.pieces) fun _ consumed => consumed = [] := by
        rw [hparams]
        refine leaves_piecesText_cons (leaves_parameters hrender hget hbefore "PARAMS") ?_
        rintro _ rfl
        exact .pure rfl
      exact htext.bind_nil fun text => .pure (hother hcall)
    · obtain rfl := hawait.eq_nil hget hparams
      exact (leaves_piecesText hrender hget (BlockKind.paired_eq_false hcall hparams)).bind_nil
        fun text => .pure (hother hcall)

/-! ### Chains -/

/-- A chain takes the parameters that are consumed, and those of its calls. -/
theorem leaves_chainText (hpaired : s.workspace.CallsPaired) (hrender : s.Clears render)
    {passed : List BlockId} {next : Option BlockId} {ids : List BlockId} {stop : ChainEnd}
    (hwalk : s.workspace.Walks passed next ids stop) (hpassed : passed ⊆ taken)
    (hawait : s.workspace.Awaits taken next before) :
    Leaves s.workspace taken before (s.chainText render stop ids) fun _ consumed => consumed = [] := by
  induction ids generalizing taken passed next before with
  | nil =>
    -- the chain does not end before the parameters
    have hbefore : before = [] := by
      cases hwalk with
      | complete => cases hawait; rfl
      | missing hget =>
        cases hawait with
        | nothing => rfl
        | parameters hother =>
          rw [hget] at hother
          cases hother
      | back hget hid => exact hawait.eq_nil_of_mem (hpassed hid)
    subst hbefore
    exact (Leaves.settleEnd stop).bind_nil fun _ => .pure rfl
  | cons id rest ih =>
    cases hwalk with
    | step hget hid hrest =>
      refine .lookup_bind_of_get? hget ?_
      refine (Leaves.during hawait.eq_nil_of_mem fun hfree => ?_).mono fun _ _ h => h.2
      refine (leaves_blockCode hpaired hrender hget hawait).bind fun code consumed halone => ?_
      exact (ih hrest (List.cons_subset_cons _ hpassed) halone.awaits).bind_nil fun _ => .pure rfl

/-- Rendering clears what it consumes, to any depth. -/
theorem clears_renderAt (hpaired : s.workspace.CallsPaired) (depth : Nat) : s.Clears (s.renderAt depth) := by
  induction depth with
  | zero => exact ⟨fun _ _ => Triple.tooDeep, fun _ _ => Triple.tooDeep⟩
  | succ depth ih =>
    refine ⟨fun taken id => ?_, fun taken id => ?_⟩
    · refine .lookup_bind fun block hget => ?_
      refine (Leaves.during (fun _ => rfl) fun hfree => ?_).mono fun _ _ h => h.2
      refine (leaves_blockCode hpaired ih hget .nothing).bind fun code consumed halone => ?_
      exact (leaves_chainText hpaired ih (Workspace.walks_followers hget) (by simp) halone.awaits).bind_nil
        fun _ => .pure rfl
    · refine .lookup_bind fun block hget => ?_
      have hcode : Leaves s.workspace (id :: taken) []
          (s.blockCode (s.renderAt depth) id block >>= fun code => pure code) (s.Alone taken id block) :=
        (leaves_blockCode hpaired ih hget .nothing).bind fun _ _ halone => .pure halone
      exact (Leaves.during (fun _ => rfl) fun _ => hcode).mono fun _ _ h => ⟨h.1, block, hget, h.2⟩

end Setting
end BlockProgram
