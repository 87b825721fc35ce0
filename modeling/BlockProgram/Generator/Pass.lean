import BlockProgram.Generator.Basic
import BlockProgram.Workspace.Chain

/-!
One run over a workspace. A pass remembers which blocks are being rendered, so that a block reached
from inside itself is noticed, and which parameter blocks a call has rendered already, so that the
chain does not render them a second time.

A `Rendering` reads and changes the pass, may fail, and keeps its changes when it does. It gives
`none` when blocks would nest deeper than it was allowed; `Settles` says that this does not happen,
and that the blocks being rendered are the same ones before and after.

Routines are put together from few steps: values, errors, one step after another, and the two ways to touch
what is consumed. A property of steps that holds of these and is kept in sequence is `Closed`, and then
every routine has it as soon as the blocks that it refers to do.
-/

namespace BlockProgram

/-- What a run remembers from block to block. -/
structure Pass where
  /-- Parameter blocks whose code is part of a call. -/
  consumed : List BlockId := []
  /-- The blocks that are being rendered, the innermost first. -/
  rendering : List BlockId := []
  deriving DecidableEq, Repr

namespace Pass

def consume (id : BlockId) (pass : Pass) : Pass :=
  if id ∈ pass.consumed then pass else { pass with consumed := id :: pass.consumed }

/-- Whether a block is consumed, and the pass in which it no longer is. -/
def takeConsumed (id : BlockId) (pass : Pass) : Bool × Pass :=
  (id ∈ pass.consumed, { pass with consumed := pass.consumed.erase id })

def enter (id : BlockId) (pass : Pass) : Pass :=
  { pass with rendering := id :: pass.rendering }

def leave (id : BlockId) (pass : Pass) : Pass :=
  { pass with rendering := pass.rendering.erase id }

end Pass

/-- A step of a run whose nesting is limited. -/
abbrev Rendering (α : Type) := ExceptT GenerateError (StateT Pass Option) α

namespace Rendering

/-- The step that would nest too deep. -/
def tooDeep {α : Type} : Rendering α := fun _ => none

/-- The block under an id. -/
def lookup (ws : Workspace) (id : BlockId) : Rendering Block :=
  match ws.get? id with
  | none => throw (.missingBlock id)
  | some block => pure block

/-- Marks a block as being rendered while `body` runs, and no longer once it has ended or failed.
Fails when the block is marked already. -/
def during {α : Type} (id : BlockId) (block : Block) (body : Rendering α) : Rendering α :=
  fun pass =>
    if id ∈ pass.rendering then some (.error (.ofRepeated block), pass)
    else (body (pass.enter id)).map fun (result, after) => (result, after.leave id)

/-- Marks a block as consumed. -/
def consume (id : BlockId) : Rendering Unit :=
  modify (Pass.consume id)

/-- Whether a block is consumed, which it is no longer afterwards. -/
def takeConsumed (id : BlockId) : Rendering Bool :=
  modifyGet (Pass.takeConsumed id)

/-- Fails at the end of a chain that leads to a missing block or back. -/
def settleEnd (ws : Workspace) : ChainEnd → Rendering Unit
  | .complete => pure ()
  | .missing id => throw (.missingBlock id)
  | .back id => do throw (.ofRepeated (← lookup ws id))

/-! ### Closed properties -/

/-- A property of steps that holds of the steps that routines are made of, and is kept in sequence. -/
structure Closed (P : {α : Type} → Rendering α → Prop) : Prop where
  pure : ∀ {α : Type} (a : α), P (Pure.pure a : Rendering α)
  throw : ∀ {α : Type} (e : GenerateError), P (MonadExcept.throw e : Rendering α)
  bind : ∀ {α β : Type} {step : Rendering α} {next : α → Rendering β}, P step → (∀ a, P (next a)) →
    P (step >>= next)
  consume : ∀ id, P (consume id)
  takeConsumed : ∀ id, P (takeConsumed id)

theorem Closed.lookup {P : {α : Type} → Rendering α → Prop} (h : Closed P) (ws : Workspace)
    (id : BlockId) : P (lookup ws id) := by
  unfold Rendering.lookup
  split
  · exact h.throw _
  · exact h.pure _

theorem Closed.settleEnd {P : {α : Type} → Rendering α → Prop} (h : Closed P) (ws : Workspace)
    (stop : ChainEnd) : P (settleEnd ws stop) := by
  cases stop with
  | complete => exact h.pure _
  | missing id => exact h.throw _
  | back id => exact h.bind (h.lookup ws id) fun _ => h.throw _

/-! ### Steps that settle -/

/-- From a pass that renders the blocks `taken`, the step ends in one that renders the same. -/
def Settles {α : Type} (taken : List BlockId) (step : Rendering α) : Prop :=
  ∀ pass : Pass, pass.rendering = taken →
    ∃ result after, step pass = some (result, after) ∧ after.rendering = taken

variable {α β : Type} {taken : List BlockId}

theorem Settles.pure (a : α) : Settles taken (Pure.pure a : Rendering α) :=
  fun pass h => ⟨.ok a, pass, rfl, h⟩

theorem Settles.throw (e : GenerateError) : Settles taken (MonadExcept.throw e : Rendering α) :=
  fun pass h => ⟨.error e, pass, rfl, h⟩

theorem Settles.bind {step : Rendering α} {next : α → Rendering β} (hstep : Settles taken step)
    (hnext : ∀ a, Settles taken (next a)) : Settles taken (step >>= next) := by
  intro pass h
  obtain ⟨result, after, heq, hafter⟩ := hstep pass h
  have hrun : (step >>= next) pass =
      (match result with
        | .ok a => next a after
        | .error e => some (.error e, after)) := by
    show (StateT.bind step _) pass = _
    simp only [StateT.bind, heq]
    cases result <;> rfl
  rw [hrun]
  cases result with
  | ok a => exact hnext a after hafter
  | error e => exact ⟨.error e, after, rfl, hafter⟩

/-- Looking up a block settles when all that follows does with the block that is found. -/
theorem Settles.lookup_bind {ws : Workspace} {id : BlockId} {next : Block → Rendering β}
    (hnext : ∀ block, ws.get? id = some block → Settles taken (next block)) :
    Settles taken (Rendering.lookup ws id >>= next) := by
  unfold Rendering.lookup
  cases hget : ws.get? id with
  | none => exact fun pass h => ⟨.error _, pass, rfl, h⟩
  | some block => exact fun pass h => hnext block hget pass h

theorem Settles.consume (id : BlockId) : Settles taken (consume id) := by
  intro pass h
  refine ⟨.ok (), pass.consume id, rfl, ?_⟩
  unfold Pass.consume
  split <;> exact h

theorem Settles.takeConsumed (id : BlockId) : Settles taken (takeConsumed id) :=
  fun pass h => ⟨.ok (pass.takeConsumed id).1, (pass.takeConsumed id).2, rfl, h⟩

theorem Closed.settles (taken : List BlockId) : Closed fun {_} step => Settles taken step where
  pure := .pure
  throw := .throw
  bind := .bind
  consume := .consume
  takeConsumed := .takeConsumed

theorem Settles.during {id : BlockId} {block : Block} {body : Rendering α}
    (hbody : id ∉ taken → Settles (id :: taken) body) : Settles taken (during id block body) := by
  intro pass h
  unfold Rendering.during
  split
  · exact ⟨_, _, rfl, h⟩
  · rename_i hid
    rw [h] at hid
    obtain ⟨result, after, heq, hafter⟩ := hbody hid (pass.enter id) (by simp [Pass.enter, h])
    refine ⟨result, after.leave id, by simp [heq], ?_⟩
    simp [Pass.leave, hafter]

end Rendering
end BlockProgram
