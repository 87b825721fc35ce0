import BlockProgram.Generator.Program
import Mathlib

/-!
Statements about steps of a run. `Triple P step Q` says what a step makes of a pass that satisfies `P`:
its result and the pass after it satisfy `Q`. A step that would nest too deep has no result, so nothing
is said of it; that none of the steps of a run does is what `Settles` says.
-/

namespace BlockProgram
namespace Rendering

variable {α β : Type} {P P' : Pass → Prop} {step : Rendering α}
  {Q Q' : Except GenerateError α → Pass → Prop} {R : Except GenerateError β → Pass → Prop}

/-- From a pass that satisfies `P`, the result of the step and the pass after it satisfy `Q`. -/
def Triple (P : Pass → Prop) (step : Rendering α) (Q : Except GenerateError α → Pass → Prop) : Prop :=
  ∀ pass, P pass → ∀ result after, step pass = some (result, after) → Q result after

theorem Triple.mono (h : Triple P step Q) (hpre : ∀ pass, P' pass → P pass)
    (hpost : ∀ result pass, Q result pass → Q' result pass) : Triple P' step Q' :=
  fun pass hpass result after heq => hpost result after (h pass (hpre pass hpass) result after heq)

theorem Triple.pure {a : α} (h : ∀ pass, P pass → Q (.ok a) pass) :
    Triple P (Pure.pure a : Rendering α) Q := by
  intro pass hpass result after heq
  cases heq
  exact h pass hpass

theorem Triple.throw {e : GenerateError} (h : ∀ pass, P pass → Q (.error e) pass) :
    Triple P (MonadExcept.throw e : Rendering α) Q := by
  intro pass hpass result after heq
  cases heq
  exact h pass hpass

/-- What runs after a step starts from the pass that the step leaves. -/
theorem bind_apply (step : Rendering α) (next : α → Rendering β) (pass : Pass) :
    (step >>= next) pass =
      match step pass with
      | none => none
      | some (.ok a, mid) => next a mid
      | some (.error e, mid) => some (.error e, mid) := by
  show (StateT.bind step _) pass = _
  simp only [StateT.bind]
  cases step pass with
  | none => rfl
  | some ended =>
    obtain ⟨ended, mid⟩ := ended
    cases ended <;> rfl

/-- What runs after a step starts from what the step leaves; an error of the step is kept. -/
theorem Triple.bind {next : α → Rendering β} (hstep : Triple P step Q)
    (hok : ∀ a, Triple (Q (.ok a)) (next a) R)
    (herror : ∀ e pass, Q (.error e) pass → R (.error e) pass) : Triple P (step >>= next) R := by
  intro pass hpass result after heq
  rw [bind_apply] at heq
  cases hended : step pass with
  | none => simp [hended] at heq
  | some ended =>
    obtain ⟨ended, mid⟩ := ended
    have hmid := hstep pass hpass ended mid hended
    rw [hended] at heq
    cases ended with
    | ok a => exact hok a mid hmid result after heq
    | error e =>
      cases heq
      exact herror e _ hmid

/-- Looking up a block: what follows runs with the block, from the same pass. -/
theorem Triple.lookup_bind {ws : Workspace} {id : BlockId} {next : Block → Rendering β}
    (hsome : ∀ block, ws.get? id = some block → Triple P (next block) R)
    (hnone : ws.get? id = none → ∀ pass, P pass → R (.error (.missingBlock id)) pass) :
    Triple P (lookup ws id >>= next) R := by
  intro pass hpass result after heq
  unfold lookup at heq
  cases hget : ws.get? id with
  | none =>
    rw [hget] at heq
    cases heq
    exact hnone hget pass hpass
  | some block =>
    rw [hget] at heq
    exact hsome block hget pass hpass result after heq

/-- A block that exists is found. -/
theorem Triple.lookup_bind_of_get? {ws : Workspace} {id : BlockId} {block : Block}
    (hget : ws.get? id = some block) {next : Block → Rendering β} (hnext : Triple P (next block) R) :
    Triple P (lookup ws id >>= next) R := by
  refine Triple.lookup_bind (fun other hother => ?_) fun hnone => ?_
  · rw [hget] at hother
    cases hother
    exact hnext
  · rw [hget] at hnone
    cases hnone

/-- A marked block is an error; any other one is marked while the body runs. -/
theorem Triple.during {id : BlockId} {block : Block}
    (hmarked : ∀ pass, P pass → id ∈ pass.rendering → Q (.error (.ofRepeated block)) pass)
    (hbody : Triple (fun entered => ∃ pass, P pass ∧ id ∉ pass.rendering ∧ entered = pass.enter id) step
      fun result after => Q result (after.leave id)) :
    Triple P (during id block step) Q := by
  intro pass hpass result after heq
  unfold Rendering.during at heq
  split at heq
  · rename_i hid
    cases heq
    exact hmarked pass hpass hid
  · rename_i hid
    obtain ⟨⟨ended, mid⟩, hended, heq⟩ := Option.map_eq_some_iff.1 heq
    cases heq
    exact hbody _ ⟨pass, hpass, hid, rfl⟩ _ _ hended

theorem Triple.consume {id : BlockId} {Q : Except GenerateError Unit → Pass → Prop}
    (h : ∀ pass, P pass → Q (.ok ()) (pass.consume id)) : Triple P (consume id) Q := by
  intro pass hpass result after heq
  cases heq
  exact h pass hpass

theorem Triple.takeConsumed {id : BlockId} {Q : Except GenerateError Bool → Pass → Prop}
    (h : ∀ pass, P pass → Q (.ok (pass.takeConsumed id).1) (pass.takeConsumed id).2) :
    Triple P (takeConsumed id) Q := by
  intro pass hpass result after heq
  cases heq
  exact h pass hpass

theorem Triple.tooDeep : Triple P (tooDeep : Rendering α) Q := by
  intro pass _ result after heq
  cases heq

/-- A step that always settles has a result. -/
theorem step_unlimited (step : Rendering α) (settles : ∀ taken, Settles taken step) (pass : Pass) :
    step pass = some (Setting.unlimited step settles pass) :=
  (Option.some_get _).symm

/-- Of the result of a step that always settles, its triples speak. -/
theorem Triple.unlimited (h : Triple P step Q) (settles : ∀ taken, Settles taken step) {pass : Pass}
    (hpass : P pass) :
    Q (Setting.unlimited step settles pass).1 (Setting.unlimited step settles pass).2 :=
  h pass hpass _ _ (step_unlimited step settles pass)

end Rendering

/-! ### Runs -/

/-- What runs after a step of a run starts from the pass that the step leaves. -/
theorem Run.bind_apply {α β : Type} (step : Run α) (next : α → Run β) (pass : Pass) :
    (step >>= next) pass =
      match step pass with
      | (.ok a, mid) => next a mid
      | (.error e, mid) => (.error e, mid) := by
  rcases h : step pass with ⟨result, mid⟩
  cases result with
  | ok a => simp [bind, ExceptT.bind, ExceptT.mk, ExceptT.bindCont, StateT.bind, h]
  | error e =>
    simp [bind, ExceptT.bind, ExceptT.mk, ExceptT.bindCont, StateT.bind, h]
    rfl

namespace Setting

variable (s : Setting)

/-- The first block on the canvas is rendered, and from the pass that it leaves the others are. -/
theorem topTexts_cons (id : BlockId) (rest : List BlockId) (pass : Pass) :
    s.topTexts (id :: rest) pass =
      match s.renderBlock id .chain pass with
      | (.error e, mid) => (.error e, mid)
      | (.ok code, mid) =>
        match s.topTexts rest mid with
        | (.error e, after) => (.error e, after)
        | (.ok texts, after) =>
          (.ok (if code.text.isEmpty then texts else code.text :: texts), after) := by
  rw [topTexts, Run.bind_apply]
  rcases s.renderBlock id .chain pass with ⟨code, mid⟩
  cases code with
  | error e => rfl
  | ok code =>
    dsimp only
    rw [Run.bind_apply]
    rcases s.topTexts rest mid with ⟨texts, after⟩
    cases texts <;> rfl

/-- The program of a workspace: a custom type without a text is an error, and otherwise the texts of the
canvas are put under each other. -/
theorem program_eq : s.program =
    match s.workspace.blocks.toList.findSome? s.generator.missingLiteral? with
    | some name => .error (.unknownCustomType name)
    | none => (s.topTexts s.workspace.topBlocks {}).1.map fun texts =>
      Text.tidy (Text.terminate (Text.unlines texts)) := by
  have hcanvas : (s.canvasText {}).1 = (s.topTexts s.workspace.topBlocks {}).1.map fun texts =>
      Text.tidy (Text.terminate (Text.unlines texts)) := by
    rw [canvasText, Run.bind_apply]
    rcases s.topTexts s.workspace.topBlocks {} with ⟨texts, after⟩
    cases texts <;> rfl
  rw [program]
  cases s.workspace.blocks.toList.findSome? s.generator.missingLiteral? with
  | some name => rfl
  | none => exact hcanvas

end Setting

/-- A program is put together from the texts of the canvas. -/
theorem Generator.exists_texts_of_generate {g : Generator} {ws : Workspace} {code : String}
    (h : g.generate ws = .ok code) :
    ∃ texts, (Setting.topTexts ⟨ws, g⟩ ws.topBlocks {}).1 = .ok texts ∧
      code.toList = Text.tidy (Text.terminate (Text.unlines texts)) := by
  rw [generate, Setting.program_eq] at h
  cases hcustom : ws.blocks.toList.findSome? g.missingLiteral? with
  | some name => simp [hcustom, Except.map] at h
  | none =>
    cases htexts : (Setting.topTexts ⟨ws, g⟩ ws.topBlocks {}).1 with
    | error e => simp [hcustom, htexts, Except.map] at h
    | ok texts =>
      simp only [hcustom, htexts, Except.map, Except.ok.injEq] at h
      exact ⟨texts, rfl, by rw [← h, String.toList_ofList]⟩

end BlockProgram
