import BlockProgram.Generator.Routine

/-!
Rendering blocks with everything below them. A block is rendered with its routine, and the blocks after
it in its chain are rendered one by one while it is still marked.

`Setting.renderAt` limits how deep blocks may nest in one another. A limit above the number of free
blocks is never reached (`settles_renderAt`), since each level marks a block that was free; with one
more level than there are blocks, rendering therefore ends on every workspace, and `renderBlock` and
the three ways to read a socket show no limit.
-/

namespace BlockProgram

/-- A step of a run: it reads and changes the pass, and keeps its changes when it fails. -/
abbrev Run (α : Type) := ExceptT GenerateError (StateM Pass) α

namespace Setting

open Rendering

/-- The texts of the blocks of a chain, joined. Each stays marked until the chain has ended. -/
def chainText (s : Setting) (render : Renderer) (stop : ChainEnd) : List BlockId → Rendering Text
  | [] => do
    settleEnd s.workspace stop
    return []
  | id :: rest => do
    let block ← lookup s.workspace id
    during id block do
      let code ← s.blockCode render id block
      let after ← chainText s render stop rest
      return code.text ++ after

/-- Renders a block, at most `depth` blocks deep. -/
def renderAt (s : Setting) : Nat → Renderer
  | 0 => fun _ _ => tooDeep
  | depth + 1 => fun id extent => do
    let block ← lookup s.workspace id
    during id block do
      let code ← s.blockCode (s.renderAt depth) id block
      match extent with
      | .alone => return code
      | .chain =>
        let followers := s.workspace.followers id
        let after ← s.chainText (s.renderAt depth) followers.2 followers.1
        return code.append after

/-! ### Nesting ends -/

variable {s : Setting} {render : Renderer} {taken : List BlockId} {depth : Nat}

/-- A block that is marked while `body` runs settles if `body` does with fewer free blocks. -/
theorem settles_marked {α : Type} {id : BlockId} {body : Block → Rendering α}
    (hbody : ∀ block, s.workspace.freeCount (id :: taken) < s.workspace.freeCount taken →
      Settles (id :: taken) (body block)) :
    Settles taken (do
      let block ← lookup s.workspace id
      during id block (body block)) :=
  .lookup_bind fun block hget => .during fun hid =>
    hbody block (Workspace.freeCount_cons_lt (Workspace.mem_ids_of_get? hget) hid)

/-- A chain settles when its blocks' routines do. -/
theorem settles_chainText
    (hrender : ∀ taken, s.workspace.freeCount taken < depth →
      ∀ id extent, Settles taken (render id extent))
    (hfree : s.workspace.freeCount taken < depth) (stop : ChainEnd) (ids : List BlockId) :
    Settles taken (s.chainText render stop ids) := by
  induction ids generalizing taken with
  | nil => exact .bind ((Closed.settles _).settleEnd _ _) fun _ => .pure _
  | cons id rest ih =>
    refine settles_marked fun block hless => ?_
    have hless := Nat.lt_trans hless hfree
    exact .bind (closed_blockCode (.settles _) (hrender _ hless) id block) fun _ =>
      .bind (ih hless) fun _ => .pure _

/-- A limit above the number of free blocks is not reached, and the marks are restored. -/
theorem settles_renderAt (hfree : s.workspace.freeCount taken < depth) (id : BlockId)
    (extent : Extent) : Settles taken (s.renderAt depth id extent) := by
  induction depth generalizing taken id extent with
  | zero => omega
  | succ depth ih =>
    refine settles_marked fun block hless => ?_
    have hless : s.workspace.freeCount (id :: taken) < depth := by omega
    refine .bind (closed_blockCode (.settles _) (ih hless) id block) fun code => ?_
    cases extent with
    | alone => exact .pure _
    | chain => exact .bind (settles_chainText (fun _ => ih) hless _ _) fun _ => .pure _

/-! ### Rendering without a limit -/

/-- More levels than there are blocks. -/
def enoughDepth (s : Setting) : Nat :=
  s.workspace.size + 1

theorem settles_renderEnough (s : Setting) (taken : List BlockId) (id : BlockId) (extent : Extent) :
    Settles taken (s.renderAt s.enoughDepth id extent) :=
  settles_renderAt (Nat.lt_succ_of_le (s.workspace.freeCount_le_size taken)) id extent

/-- A step that always settles, as a step of a run. -/
def unlimited {α : Type} (step : Rendering α) (settles : ∀ taken, Settles taken step) : Run α :=
  fun pass => (step pass).get (by
    obtain ⟨result, after, heq, -⟩ := settles pass.rendering pass rfl
    simp [heq])

/-- The code of a block, alone or with its chain. -/
def renderBlock (s : Setting) (id : BlockId) (extent : Extent) : Run Code :=
  unlimited (s.renderAt s.enoughDepth id extent) fun taken => s.settles_renderEnough taken id extent

/-- The expression in a value socket of a block. -/
def readValue (s : Setting) (id : BlockId) (input : String) (order : Order) : Run Text :=
  unlimited
    (do
      let block ← lookup s.workspace id
      s.valueText (s.renderAt s.enoughDepth) block input order)
    fun taken => (Closed.settles taken).bind ((Closed.settles taken).lookup _ _) fun block =>
      closed_valueText (.settles taken) (s.settles_renderEnough taken) block input order

/-- The indented statements in a socket of a block. -/
def readBody (s : Setting) (id : BlockId) (input : String) : Run Text :=
  unlimited
    (do
      let block ← lookup s.workspace id
      s.bodyText (s.renderAt s.enoughDepth) block input)
    fun taken => (Closed.settles taken).bind ((Closed.settles taken).lookup _ _) fun block =>
      closed_bodyText (.settles taken) (s.settles_renderEnough taken) block input

/-- The texts of the chain in a socket of a block, one by one. -/
def readItems (s : Setting) (id : BlockId) (input : String) : Run (List Text) :=
  unlimited
    (do
      let block ← lookup s.workspace id
      s.chainItems (s.renderAt s.enoughDepth) block input)
    fun taken => (Closed.settles taken).bind ((Closed.settles taken).lookup _ _) fun block =>
      closed_chainItems (.settles taken) (s.settles_renderEnough taken) block input

/-- Marks a block as consumed. -/
def consume (id : BlockId) : Run Unit :=
  modify (Pass.consume id)

end Setting
end BlockProgram
