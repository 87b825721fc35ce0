import BlockProgram.Proofs.Rendering.Session

/-!
The marks of blocks that are being rendered. `renderAt` marks a block while it and all that comes after it are
rendered. The same can be done by hand, with a list of the blocks that a walk has entered:

    a ─next─▶ b ─next─▶ c          enter a, enter b, enter c, ... and leave a, b, c in the end
    marks  [a] ++ before,  [b, a] ++ before,  [c, b, a] ++ before,  before

A walk may end early at any block, with an error from inside it or because the block is marked already, and
what it has entered is left all the same. `enterAt` renders in this way, and gives what `renderAt` gives
(`enterAt_eq_renderAt`), because whatever is rendered inside a block restores the marks, whether it fails or
not (`restores_renderAt`).
-/

namespace BlockProgram
namespace Rendering

/-- The same blocks are being rendered after the step as before, whether it fails or not. -/
def Restores {α : Type} (step : Rendering α) : Prop :=
  ∀ pass result after, step pass = some (result, after) → after.rendering = pass.rendering

theorem Restores.bind {α β : Type} {step : Rendering α} {next : α → Rendering β} (hstep : Restores step)
    (hnext : ∀ a, Restores (next a)) : Restores (step >>= next) := by
  intro pass result after h
  rw [bind_apply] at h
  cases hmid : step pass with
  | none => simp [hmid] at h
  | some ended =>
    obtain ⟨ended, mid⟩ := ended
    have hrendering := hstep pass ended mid hmid
    rw [hmid] at h
    cases ended with
    | ok a => exact (hnext a mid result after h).trans hrendering
    | error e =>
      cases h
      exact hrendering

theorem Closed.restores : Closed fun {_} step => Restores step where
  pure _ pass _ _ h := by cases h; rfl
  throw _ pass _ _ h := by cases h; rfl
  bind := .bind
  consume id pass _ _ h := by
    cases h
    unfold Pass.consume
    split <;> rfl
  takeConsumed _ pass _ _ h := by cases h; rfl

theorem Restores.during {α : Type} {id : BlockId} {block : Block} {body : Rendering α}
    (hbody : Restores body) : Restores (during id block body) := by
  intro pass result after h
  unfold Rendering.during at h
  split at h
  · cases h
    rfl
  · obtain ⟨⟨ended, mid⟩, hmid, heq⟩ := Option.map_eq_some_iff.1 h
    cases heq
    have hrendering := hbody _ _ _ hmid
    simp [Pass.leave, hrendering, Pass.enter]

end Rendering

namespace Setting

open Rendering

variable {s : Setting} {render : Renderer}

theorem restores_chainText (hrender : ∀ id extent, Restores (render id extent)) (stop : ChainEnd)
    (ids : List BlockId) : Restores (s.chainText render stop ids) := by
  induction ids with
  | nil => exact .bind (Closed.restores.settleEnd _ _) fun _ => Closed.restores.pure _
  | cons id rest ih =>
    exact .bind (Closed.restores.lookup _ _) fun block =>
      .during (.bind (closed_blockCode .restores hrender id block) fun _ =>
        .bind ih fun _ => Closed.restores.pure _)

/-- Rendering restores the marks, to any depth. -/
theorem restores_renderAt (s : Setting) (depth : Nat) (id : BlockId) (extent : Extent) :
    Restores (s.renderAt depth id extent) := by
  induction depth generalizing id extent with
  | zero =>
    intro pass result after h
    cases h
  | succ depth ih =>
    refine .bind (Closed.restores.lookup _ _) fun block =>
      .during (.bind (closed_blockCode .restores ih id block) fun code => ?_)
    cases extent with
    | alone => exact Closed.restores.pure _
    | chain => exact .bind (restores_chainText ih _ _) fun _ => Closed.restores.pure _

end Setting

/-! ### Walks that enter blocks one by one -/

/-- A step of a walk that lists the blocks it enters. The list is kept when the walk fails. -/
abbrev Walking (α : Type) := ExceptT GenerateError (StateT (List BlockId) (StateT Pass Option)) α

namespace Walking

variable {α β : Type}

/-- A step that enters no block for the walk. -/
def inside (step : Rendering α) : Walking α :=
  fun entered pass => (step pass).map fun (result, after) => ((result, entered), after)

/-- Marks a block and puts it on the list. Fails when the block is marked already. -/
def enter (id : BlockId) (block : Block) : Walking Unit :=
  fun entered pass =>
    if id ∈ pass.rendering then some ((.error (.ofRepeated block), entered), pass)
    else some ((.ok (), entered ++ [id]), pass.enter id)

/-- A whole walk: in the end the blocks that it has entered are no longer marked. -/
def leaveAll (walk : Walking α) : Rendering α :=
  fun pass => (walk [] pass).map fun ((result, entered), after) =>
    (result, entered.foldl (fun pass id => pass.leave id) after)

theorem bind_apply (step : Walking α) (next : α → Walking β) (entered : List BlockId) (pass : Pass) :
    (step >>= next) entered pass =
      match step entered pass with
      | none => none
      | some ((.ok a, entered), mid) => next a entered mid
      | some ((.error e, entered), mid) => some ((.error e, entered), mid) := by
  show (StateT.bind step _) entered pass = _
  simp only [StateT.bind]
  show Option.bind (step entered pass) _ = _
  cases step entered pass with
  | none => rfl
  | some ended =>
    obtain ⟨⟨ended, entered⟩, mid⟩ := ended
    cases ended <;> rfl

end Walking

namespace Setting

open Rendering

/-- Enters a block and renders it alone, and gives the block after it as well. -/
def enterBlock (s : Setting) (render : Renderer) (id : BlockId) : Walking (Code × Option BlockId) := do
  let block ← Walking.inside (lookup s.workspace id)
  Walking.enter id block
  let code ← Walking.inside (s.blockCode render id block)
  return (code, block.next)

/-- The texts of the blocks from `next` on, joined: each is entered when the one before it is rendered.
Stops after so many blocks. -/
def enterChain (s : Setting) (render : Renderer) : Nat → Option BlockId → Walking Text
  | _, none => return []
  | 0, some _ => Walking.inside tooDeep
  | steps + 1, some id => do
    let (code, next) ← s.enterBlock render id
    let after ← enterChain s render steps next
    return code.text ++ after

/-- The code of a block, alone or with its chain, by a walk that may enter every block. -/
def enterFrom (s : Setting) (render : Renderer) (id : BlockId) (extent : Extent) : Walking Code := do
  let (code, next) ← s.enterBlock render id
  match extent with
  | .alone => return code
  | .chain => do
    let after ← s.enterChain render s.enoughDepth next
    return code.append after

/-- Renders a block, at most `depth` blocks deep, with walks that leave what they have entered in the end. -/
def enterAt (s : Setting) : Nat → Renderer
  | 0 => fun _ _ => tooDeep
  | depth + 1 => fun id extent => Walking.leaveAll (s.enterFrom (s.enterAt depth) id extent)

end Setting

/-! ### Both ways to keep the marks agree -/

namespace Walking

variable {α : Type} {entered : List BlockId} {pass : Pass}

/-- A walk that has entered some blocks ends as the step does that keeps its own marks. What it has entered
more is still marked, the last first, and nothing else is different. -/
def Tracks (entered : List BlockId) (pass : Pass)
    (walked : Option ((Except GenerateError α × List BlockId) × Pass))
    (kept : Option (Except GenerateError α × Pass)) : Prop :=
  match kept with
  | none => walked = none
  | some (result, after) => after.rendering = pass.rendering ∧ ∃ more,
      walked = some ((result, entered ++ more), { after with rendering := more.reverse ++ pass.rendering })

/-- Nothing more is entered. -/
theorem Tracks.still (result : Except GenerateError α) :
    Tracks entered pass (some ((result, entered), pass)) (some (result, pass)) :=
  ⟨rfl, [], by simp⟩

theorem Tracks.map {β : Type} {walk : Walking α} {step : Rendering α} {f : α → β}
    (h : Tracks entered pass (walk entered pass) (step pass)) :
    Tracks entered pass ((walk >>= fun a => return f a : Walking β) entered pass)
      ((step >>= fun a => return f a : Rendering β) pass) := by
  rw [Walking.bind_apply, Rendering.bind_apply]
  cases hstep : step pass with
  | none =>
    rw [hstep] at h
    rw [show walk entered pass = none from h]
    rfl
  | some ended =>
    obtain ⟨result, after⟩ := ended
    rw [hstep] at h
    obtain ⟨hrendering, more, hwalk⟩ := h
    rw [hwalk]
    cases result with
    | ok a => exact ⟨hrendering, more, rfl⟩
    | error e => exact ⟨hrendering, more, rfl⟩

/-- Leaving blocks in whatever order takes away the marks that were put before others. -/
theorem foldl_erase_append {front left : List BlockId} (h : front.Perm left) (rest : List BlockId) :
    left.foldl List.erase (front ++ rest) = rest := by
  induction left generalizing front with
  | nil => simp [h.eq_nil]
  | cons id left ih =>
    have hid : id ∈ front := h.symm.subset (List.mem_cons_self ..)
    rw [List.foldl_cons, List.erase_append_left rest hid]
    exact ih (by simpa using h.erase id)

theorem foldl_leave (left : List BlockId) (pass : Pass) :
    left.foldl (fun pass id => pass.leave id) pass =
      { pass with rendering := left.foldl List.erase pass.rendering } := by
  induction left generalizing pass with
  | nil => rfl
  | cons id left ih => exact ih (pass.leave id)

/-- A walk that leaves all that it has entered ends as the step does that keeps its own marks. -/
theorem Tracks.leaveAll {walk : Walking α} {step : Rendering α}
    (h : Tracks [] pass (walk [] pass) (step pass)) : Walking.leaveAll walk pass = step pass := by
  unfold Walking.leaveAll
  cases hstep : step pass with
  | none =>
    rw [hstep] at h
    rw [show walk [] pass = none from h]
    rfl
  | some ended =>
    obtain ⟨result, after⟩ := ended
    rw [hstep] at h
    obtain ⟨hrendering, more, hwalk⟩ := h
    rw [hwalk, Option.map_some]
    dsimp only
    rw [foldl_leave, List.nil_append, foldl_erase_append (List.reverse_perm more), ← hrendering]

end Walking

namespace Setting

open Rendering Walking

variable {s : Setting} {render : Renderer} {α : Type} {id : BlockId} {block : Block}
  {entered : List BlockId} {pass : Pass}

theorem enterBlock_missing (hget : s.workspace.get? id = none) :
    s.enterBlock render id entered pass = some ((.error (.missingBlock id), entered), pass) := by
  rw [enterBlock, Walking.bind_apply]
  simp only [inside, lookup, hget]
  rfl

theorem enterBlock_marked (hget : s.workspace.get? id = some block) (hid : id ∈ pass.rendering) :
    s.enterBlock render id entered pass = some ((.error (.ofRepeated block), entered), pass) := by
  rw [enterBlock, Walking.bind_apply]
  simp only [inside, lookup, hget]
  show (enter id block >>= _) entered pass = _
  rw [Walking.bind_apply, enter, if_pos hid]

theorem enterBlock_free (hget : s.workspace.get? id = some block) (hid : id ∉ pass.rendering) :
    s.enterBlock render id entered pass =
      (s.blockCode render id block (pass.enter id)).map fun (result, after) =>
        ((result.map fun code => (code, block.next), entered ++ [id]), after) := by
  rw [enterBlock, Walking.bind_apply]
  simp only [inside, lookup, hget]
  show (enter id block >>= _) entered pass = _
  rw [Walking.bind_apply, enter, if_neg hid]
  dsimp only
  rw [Walking.bind_apply, inside]
  cases s.blockCode render id block (pass.enter id) with
  | none => rfl
  | some ended =>
    obtain ⟨result, after⟩ := ended
    cases result <;> rfl

/-- A block that is entered, and what comes after it, against a block that is marked while both are rendered. -/
theorem tracks_enterBlock (hrender : ∀ id extent, Restores (render id extent))
    (hget : s.workspace.get? id = some block) {next : Code × Option BlockId → Walking α}
    {body : Code → Rendering α}
    (hnext : ∀ code after, after.rendering = id :: pass.rendering →
      Tracks (entered ++ [id]) after (next (code, block.next) (entered ++ [id]) after) (body code after)) :
    Tracks entered pass ((s.enterBlock render id >>= next) entered pass)
      ((lookup s.workspace id >>= fun block =>
        during id block (s.blockCode render id block >>= body)) pass) := by
  have hlookup : (lookup s.workspace id >>= fun block =>
      during id block (s.blockCode render id block >>= body)) pass =
        during id block (s.blockCode render id block >>= body) pass := by
    rw [Rendering.bind_apply, lookup, hget]
    rfl
  rw [hlookup, Walking.bind_apply, during]
  by_cases hid : id ∈ pass.rendering
  · rw [enterBlock_marked hget hid, if_pos hid]
    exact .still _
  · rw [enterBlock_free hget hid, if_neg hid, Rendering.bind_apply]
    cases hcode : s.blockCode render id block (pass.enter id) with
    | none => rfl
    | some ended =>
      obtain ⟨result, after⟩ := ended
      have hrendering : after.rendering = id :: pass.rendering :=
        closed_blockCode .restores hrender id block _ _ _ hcode
      cases result with
      | error e =>
        refine ⟨by simp [Pass.leave, hrendering], [id], ?_⟩
        simp [Except.map, Pass.leave, ← hrendering]
      | ok code =>
        have htracks := hnext code after hrendering
        simp only [Option.map_some, Except.map]
        cases hbody : body code after with
        | none =>
          rw [hbody] at htracks
          exact htracks
        | some ended =>
          obtain ⟨result, last⟩ := ended
          rw [hbody] at htracks
          obtain ⟨hlast, more, hwalk⟩ := htracks
          refine ⟨by simp [Pass.leave, hlast, hrendering], id :: more, ?_⟩
          rw [hwalk]
          simp [Pass.leave, hrendering]

/-- A chain that is entered block by block, against the chain as the walk along it finds it. -/
theorem tracks_enterChain (hrender : ∀ id extent, Restores (render id extent)) {passed : List BlockId}
    {next : Option BlockId} {ids : List BlockId} {stop : ChainEnd}
    (hwalk : s.workspace.Walks passed next ids stop) {steps : Nat} (hsteps : ids.length < steps)
    (hpassed : passed ⊆ pass.rendering) :
    Tracks entered pass (s.enterChain render steps next entered pass) (s.chainText render stop ids pass) := by
  induction ids generalizing passed next steps entered pass with
  | nil =>
    obtain ⟨steps, rfl⟩ := Nat.exists_eq_succ_of_ne_zero (Nat.ne_of_gt hsteps)
    cases hwalk with
    | complete => exact .still _
    | missing hget =>
      rw [enterChain, Walking.bind_apply, enterBlock_missing hget]
      exact .still _
    | @back _ id block hget hid =>
      have hback : s.chainText render (.back id) [] pass = some (.error (.ofRepeated block), pass) := by
        rw [chainText, settleEnd, Rendering.bind_apply, Rendering.bind_apply, lookup, hget]
        rfl
      rw [enterChain, Walking.bind_apply, enterBlock_marked hget (hpassed hid), hback]
      exact .still _
  | cons id rest ih =>
    obtain ⟨steps, rfl⟩ := Nat.exists_eq_succ_of_ne_zero (Nat.ne_of_gt (Nat.zero_lt_of_lt hsteps))
    cases hwalk with
    | step hget hid hrest =>
      refine tracks_enterBlock hrender hget fun code after hafter => .map (ih hrest ?_ ?_)
      · simpa using hsteps
      · rw [hafter]
        exact List.cons_subset_cons _ hpassed

/-- Marks that each block keeps for itself and marks that each walk leaves in the end: both ways to render
agree. -/
theorem enterAt_eq_renderAt (s : Setting) (depth : Nat) : s.enterAt depth = s.renderAt depth := by
  induction depth with
  | zero => rfl
  | succ depth ih =>
    funext id extent pass
    rw [enterAt, ih]
    refine Tracks.leaveAll ?_
    cases hget : s.workspace.get? id with
    | none =>
      have hmissing : s.renderAt (depth + 1) id extent pass = some (.error (.missingBlock id), pass) := by
        show (lookup s.workspace id >>= _) pass = _
        rw [Rendering.bind_apply, lookup, hget]
        rfl
      rw [enterFrom, Walking.bind_apply, enterBlock_missing hget, hmissing]
      exact .still _
    | some block =>
      refine tracks_enterBlock (s.restores_renderAt depth) hget fun code after hafter => ?_
      cases extent with
      | alone => exact .still _
      | chain =>
        have hwalk := Workspace.walks_followers hget
        refine .map (tracks_enterChain (s.restores_renderAt depth) hwalk
          (Nat.lt_succ_of_le hwalk.length_le) ?_)
        rw [hafter]
        exact List.cons_subset_cons _ (List.nil_subset _)

/-! ### Operations -/

/-- An operation by walks that leave what they have entered in the end. -/
def performEntering (s : Setting) : Operation → Rendering Answer
  | .render id extent => do
    let code ← s.enterAt s.enoughDepth id extent
    return .code code
  | .value id input order => do
    let text ← lookup s.workspace id >>= fun block =>
      s.valueText (s.enterAt s.enoughDepth) block input order
    return .text text
  | .body id input => do
    let text ← lookup s.workspace id >>= fun block => s.bodyText (s.enterAt s.enoughDepth) block input
    return .text text
  | .items id input => do
    let texts ← lookup s.workspace id >>= fun block => s.chainItems (s.enterAt s.enoughDepth) block input
    return .texts texts

theorem bind_unlimited {β : Type} (step : Rendering α) (settles : ∀ taken, Settles taken step) (f : α → β)
    (pass : Pass) :
    (step >>= fun a => return f a : Rendering β) pass =
      some ((unlimited step settles >>= fun a => return f a : Run β) pass) := by
  rw [Rendering.bind_apply, Run.bind_apply, step_unlimited step settles]
  rcases unlimited step settles pass with ⟨result, after⟩
  cases result <;> rfl

theorem performEntering_eq (s : Setting) (operation : Operation) (pass : Pass) :
    s.performEntering operation pass = some (s.perform operation pass) := by
  cases operation with
  | render | value | body | items =>
    rw [performEntering, enterAt_eq_renderAt]
    exact bind_unlimited _ _ _ pass

theorem restores_performEntering (s : Setting) (operation : Operation) :
    Restores (s.performEntering operation) := by
  have hrender := s.restores_renderAt s.enoughDepth
  cases operation with
  | render id extent =>
    rw [performEntering, enterAt_eq_renderAt]
    exact .bind (hrender id extent) fun _ => Closed.restores.pure _
  | value id input order =>
    rw [performEntering, enterAt_eq_renderAt]
    exact .bind (.bind (Closed.restores.lookup _ _) fun block =>
      closed_valueText .restores hrender block input order) fun _ => Closed.restores.pure _
  | body id input =>
    rw [performEntering, enterAt_eq_renderAt]
    exact .bind (.bind (Closed.restores.lookup _ _) fun block =>
      closed_bodyText .restores hrender block input) fun _ => Closed.restores.pure _
  | items id input =>
    rw [performEntering, enterAt_eq_renderAt]
    exact .bind (.bind (Closed.restores.lookup _ _) fun block =>
      closed_chainItems .restores hrender block input) fun _ => Closed.restores.pure _

/-- **The marks are always restored.** From any pass over any workspace, every operation can be done with walks
that enter blocks one by one and leave in the end what they have entered; it gives the same answer or error
then, and in the end exactly the blocks are being rendered that were before. -/
theorem perform_restores_rendering (s : Setting) (operation : Operation) (pass : Pass) :
    s.performEntering operation pass = some (s.perform operation pass) ∧
      (s.perform operation pass).2.rendering = pass.rendering := by
  have hentering := s.performEntering_eq operation pass
  exact ⟨hentering, s.restores_performEntering operation pass _ _ hentering⟩

end Setting
end BlockProgram
