import BlockProgram.Proofs.Rendering.Suppression

/-!
Several operations in one pass. What an operation leaves in the pass is there for the next one, so operations
may disturb each other: a block that stays consumed is missing from what is rendered later.

Where nothing but parameters comes after calls, operations that succeed do not disturb each other, as long as
no call is rendered without its chain. One that fails does, if it comes to a call among the items of a chain:
the parameters of the call stay consumed, and rendered once more, the call has no arguments.
-/

namespace BlockProgram

/-- A way to read from a workspace in a pass. -/
inductive Operation where
  /-- Renders a block, alone or with its chain. -/
  | render (id : BlockId) (extent : Extent)
  /-- Reads a value socket. -/
  | value (id : BlockId) (input : String) (order : Order)
  /-- Reads a socket for statements. -/
  | body (id : BlockId) (input : String)
  /-- Reads a socket for a chain of items. -/
  | items (id : BlockId) (input : String)
  deriving DecidableEq, Repr

/-- What an operation gives. -/
inductive Answer where
  | code (code : Code)
  | text (text : Text)
  | texts (texts : List Text)
  deriving DecidableEq, Repr

/-- The operation does not render a call without its chain. -/
def Operation.KeepsCalls (ws : Workspace) : Operation → Prop
  | .render id .alone => ∀ block, ws.get? id = some block → block.kind ≠ .functionCall
  | _ => True

/-- An operation, the answer and the pass after it. -/
structure Performed where
  operation : Operation
  answer : Answer
  after : Pass
  deriving DecidableEq, Repr

namespace Setting

open Rendering

def perform (s : Setting) : Operation → Run Answer
  | .render id extent => do
    let code ← s.renderBlock id extent
    return .code code
  | .value id input order => do
    let text ← s.readValue id input order
    return .text text
  | .body id input => do
    let text ← s.readBody id input
    return .text text
  | .items id input => do
    let texts ← s.readItems id input
    return .texts texts

/-- Operations that succeed, each from the pass that the one before it leaves. -/
inductive Session (s : Setting) : Pass → List Performed → Prop where
  | nil {pass} : Session s pass []
  | cons {pass step rest} (hstep : s.perform step.operation pass = (.ok step.answer, step.after))
    (hrest : Session s step.after rest) : Session s pass (step :: rest)

variable {s : Setting} {α : Type} {step : Rendering α} {done : α → List BlockId → Prop} {pass : Pass}

/-! ### Operations -/

/-- What a run with nothing consumed ends with. -/
def Closes (s : Setting) (pass : Pass) (done : α → List BlockId → Prop) :
    Except GenerateError α × Pass → Prop
  | (.ok a, after) => after.rendering = pass.rendering ∧ done a after.consumed
  | (.error e, after) => s.workspace.FailsWith e after.consumed

theorem closes_unlimited (h : ∀ taken, Leaves s.workspace taken [] step done)
    (settles : ∀ taken, Settles taken step) (hpass : pass.consumed = []) :
    s.Closes pass done (unlimited step settles pass) := by
  have hpost := (h pass.rendering).unlimited settles ⟨rfl, hpass⟩
  rcases hrun : unlimited step settles pass with ⟨result, after⟩
  rw [hrun] at hpost
  cases result with
  | ok a => exact hpost
  | error e => exact hpost

theorem Closes.answer {run : Run α} {f : α → Answer} {weaker : List BlockId → Prop}
    (h : s.Closes pass done (run pass)) (hdone : ∀ a consumed, done a consumed → weaker consumed) :
    s.Closes pass (fun _ => weaker) ((run >>= fun a => (return f a : Run Answer)) pass) := by
  rw [Run.bind_apply]
  rcases hrun : run pass with ⟨result, after⟩
  rw [hrun] at h
  cases result with
  | ok a => exact ⟨h.1, hdone a _ h.2⟩
  | error e => exact h

theorem closes_socket {id : BlockId} {read : Block → Rendering α}
    (hread : ∀ taken block, s.workspace.get? id = some block →
      Leaves s.workspace taken [] (read block) fun _ consumed => consumed = [])
    (settles : ∀ taken, Settles taken (lookup s.workspace id >>= read)) (hpass : pass.consumed = []) :
    s.Closes pass (fun _ consumed => consumed = []) (unlimited (lookup s.workspace id >>= read) settles pass) :=
  closes_unlimited (fun taken => .lookup_bind (hread taken)) settles hpass

/-- A block that is rendered alone, and the parameters that it leaves. -/
theorem closes_alone (hpaired : s.workspace.CallsPaired) (hpass : pass.consumed = []) (id : BlockId) :
    s.Closes pass
      (fun code consumed => (∃ block, s.workspace.get? id = some block ∧ consumed = block.owed) ∧
        ∀ text, code = .statement text → consumed = [])
      (s.renderBlock id .alone pass) := by
  have hrender := clears_renderAt hpaired s.enoughDepth
  refine closes_unlimited (fun taken => (hrender.alone taken id).mono ?_) _ hpass
  rintro code consumed ⟨-, block, hget, halone⟩
  exact ⟨⟨block, hget, halone.owes⟩, halone.statement⟩

theorem closes_perform (hpaired : s.workspace.CallsPaired) (hpass : pass.consumed = [])
    (operation : Operation) :
    s.Closes pass (fun _ consumed => operation.KeepsCalls s.workspace → consumed = [])
      (s.perform operation pass) := by
  have hrender := clears_renderAt hpaired s.enoughDepth
  cases operation with
  | render id extent =>
    cases extent with
    | alone =>
      refine Closes.answer (closes_alone hpaired hpass id) ?_
      rintro code consumed ⟨⟨block, hget, howed⟩, -⟩ hkeeps
      rw [howed, Block.owed_other (hkeeps block hget)]
    | chain =>
      exact Closes.answer (closes_unlimited (fun taken => hrender.chain taken id)
        (fun taken => s.settles_renderEnough taken id .chain) hpass) fun _ _ h _ => h
  | value id input order =>
    exact Closes.answer (closes_socket (fun _ block _ => leaves_valueText hrender block input order) _ hpass)
      fun _ _ h _ => h
  | body id input =>
    exact Closes.answer (closes_socket (fun _ block _ => leaves_bodyText hrender block input) _ hpass)
      fun _ _ h _ => h
  | items id input =>
    exact Closes.answer (closes_socket (fun _ block hget => leaves_chainItems hrender hget input) _ hpass)
      fun _ _ h _ => h

/-- An operation that succeeds leaves the pass as it was. -/
theorem perform_restores (hpaired : s.workspace.CallsPaired) (hpass : pass.consumed = [])
    {operation : Operation} (hkeeps : operation.KeepsCalls s.workspace) {answer : Answer} {after : Pass}
    (h : s.perform operation pass = (.ok answer, after)) : after = pass := by
  have hclose := closes_perform hpaired hpass operation
  rw [h] at hclose
  rcases pass with ⟨consumed, rendering⟩
  rcases after with ⟨consumed', rendering'⟩
  cases hclose.1
  cases hclose.2 hkeeps
  cases hpass
  rfl

/-- All operations of a session start from one and the same pass. -/
theorem Session.restores (hpaired : s.workspace.CallsPaired) (hpass : pass.consumed = [])
    {session : List Performed} (hsession : s.Session pass session)
    (hkeeps : ∀ step ∈ session, step.operation.KeepsCalls s.workspace) :
    ∀ step ∈ session, s.perform step.operation pass = (.ok step.answer, step.after) ∧ step.after = pass := by
  induction hsession with
  | nil => exact fun _ h => by cases h
  | @cons pass first rest hfirst hrest ih =>
    have hafter := perform_restores hpaired hpass (hkeeps first (List.mem_cons_self ..)) hfirst
    rw [hafter] at ih
    intro step hstep
    rcases List.mem_cons.1 hstep with rfl | hstep
    · exact ⟨hfirst, hafter⟩
    · exact ih hpass (fun other hother => hkeeps other (List.mem_cons_of_mem _ hother)) step hstep

/-- Operations that succeed do not disturb each other: each gives what it gives in a pass of its own, and
nothing is consumed after it. -/
theorem session_undisturbed (hpaired : s.workspace.CallsPaired) {session : List Performed}
    (hsession : s.Session {} session) (hkeeps : ∀ step ∈ session, step.operation.KeepsCalls s.workspace) :
    ∀ step ∈ session, (s.perform step.operation {}).1 = .ok step.answer ∧ step.after.consumed = [] := by
  intro step hstep
  obtain ⟨hperform, hafter⟩ := hsession.restores hpaired rfl hkeeps step hstep
  exact ⟨by rw [hperform], by rw [hafter]⟩

end Setting

/-- Reads of the call and of its parameters, and of the call once more. -/
def callSession : List Performed :=
  [⟨.render ⟨0⟩ .chain, .code (.expression "log(1)".toList .functionCall), {}⟩,
    ⟨.items ⟨2⟩ "PARAMS", .texts ["1,".toList], {}⟩,
    ⟨.render ⟨2⟩ .alone, .code (.statement "1".toList), {}⟩,
    ⟨.body ⟨2⟩ "PARAMS", .text "  1,".toList, {}⟩,
    ⟨.value ⟨0⟩ "FUNCTION_NAME" .none, .text "log".toList, {}⟩,
    ⟨.render ⟨0⟩ .chain, .code (.expression "log(1)".toList .functionCall), {}⟩]

theorem callSession_undisturbed :
    callWorkspace.CallsPaired ∧ Setting.Session ⟨callWorkspace, {}⟩ {} callSession ∧
      (∀ step ∈ callSession, step.operation.KeepsCalls callWorkspace) ∧
      ∀ step ∈ callSession,
        (Setting.perform ⟨callWorkspace, {}⟩ step.operation {}).1 = .ok step.answer ∧
          step.after.consumed = [] := by
  have hsession : Setting.Session ⟨callWorkspace, {}⟩ {} callSession :=
    .cons (by cbv) (.cons (by cbv) (.cons (by cbv) (.cons (by cbv) (.cons (by cbv) (.cons (by cbv) .nil)))))
  have hkeeps : ∀ step ∈ callSession, step.operation.KeepsCalls callWorkspace := by
    simp [callSession, Operation.KeepsCalls, Workspace.get?, callWorkspace]
  exact ⟨callWorkspace_callsPaired, hsession, hkeeps,
    Setting.session_undisturbed callWorkspace_callsPaired hsession hkeeps⟩

/-! ### Calls among items -/

namespace Setting

open Rendering

variable {s : Setting} {pass : Pass}

/-- Items that are statements are read from one and the same pass, until an expression is refused. -/
theorem itemTexts_refuse {render : Renderer} {block : Block} {input : String} {stop : ChainEnd}
    {items rest : List BlockId} {call : BlockId} {after : Pass}
    (hitems : ∀ item ∈ items, ∃ text, render item .alone pass = some (.ok (.statement text), pass))
    {text : Text} {order : Order}
    (hcall : render call .alone pass = some (.ok (.expression text order), after)) :
    s.itemTexts render block input stop (items ++ call :: rest) pass =
      some (.error (.expectedStatement block.id input (s.typeNameAt call)), after) := by
  induction items with
  | nil =>
    rw [List.nil_append, itemTexts, bind_apply, hcall]
    rfl
  | cons item more ih =>
    obtain ⟨itemText, hitem⟩ := hitems item (List.mem_cons_self ..)
    rw [List.cons_append, itemTexts, bind_apply, hitem]
    dsimp only
    rw [bind_apply, ih fun other hother => hitems other (List.mem_cons_of_mem _ hother)]

/-- A statement that is rendered alone leaves the pass as it was. -/
theorem renderBlock_statement (hpaired : s.workspace.CallsPaired) (hpass : pass.consumed = []) {id : BlockId}
    {text : Text} (h : (s.renderBlock id .alone pass).1 = .ok (.statement text)) :
    s.renderBlock id .alone pass = (.ok (.statement text), pass) := by
  have hclose := closes_alone hpaired hpass id
  rcases hrun : s.renderBlock id .alone pass with ⟨result, ⟨consumed, rendering⟩⟩
  rw [hrun] at h hclose
  cases h
  obtain ⟨hrendering, -, hconsumed⟩ := hclose
  rcases pass with ⟨before, rendering'⟩
  cases hrendering
  cases hconsumed text rfl
  cases hpass
  rfl

/-- A call that is rendered alone is an expression, and leaves its parameters consumed. -/
theorem renderBlock_call (hpaired : s.workspace.CallsPaired) (hpass : pass.consumed = []) {call params : BlockId}
    {callBlock : Block} (hcall : s.workspace.get? call = some callBlock)
    (hkind : callBlock.kind = .functionCall) (hparams : callBlock.next = some params) {code : Code}
    (h : (s.renderBlock call .alone pass).1 = .ok code) :
    ∃ text order, s.renderBlock call .alone pass =
      (.ok (.expression text order), { pass with consumed := [params] }) := by
  have hclose := closes_alone hpaired hpass call
  rcases hrun : s.renderBlock call .alone pass with ⟨result, ⟨consumed, rendering⟩⟩
  rw [hrun] at h hclose
  cases h
  obtain ⟨hrendering, ⟨block, hget, howed⟩, hstatement⟩ := hclose
  rw [hcall] at hget
  cases hget
  rw [Block.owed_call hkind, hparams] at howed
  cases hrendering
  cases howed
  cases code with
  | expression text order => exact ⟨text, order, rfl⟩
  | statement text => cases hstatement text rfl

/-- A chain of statements and then a call with parameters, each of which can be rendered alone, cannot be read
as items, and the parameters of the call stay consumed. -/
theorem perform_items_call (hpaired : s.workspace.CallsPaired) (hpass : pass.consumed = [])
    {holder call params : BlockId} {block callBlock : Block} {input : String} {items rest : List BlockId}
    (hholder : s.workspace.get? holder = some block)
    (hchain : (s.workspace.chainFrom (block.input? input)).1 = items ++ call :: rest)
    (hitems : ∀ item ∈ items, ∃ text, (s.renderBlock item .alone pass).1 = .ok (.statement text))
    (hcall : s.workspace.get? call = some callBlock) (hkind : callBlock.kind = .functionCall)
    (hparams : callBlock.next = some params) {code : Code}
    (hcode : (s.renderBlock call .alone pass).1 = .ok code) :
    s.perform (.items holder input) pass =
      (.error (.expectedStatement block.id input "function_call"), { pass with consumed := [params] }) := by
  have hrender (id : BlockId) : s.renderAt s.enoughDepth id .alone pass = some (s.renderBlock id .alone pass) :=
    step_unlimited _ (fun taken => s.settles_renderEnough taken id .alone) pass
  have hitems (item : BlockId) (hitem : item ∈ items) :
      ∃ text, s.renderAt s.enoughDepth item .alone pass = some (.ok (.statement text), pass) := by
    obtain ⟨text, htext⟩ := hitems item hitem
    exact ⟨text, by rw [hrender, renderBlock_statement hpaired hpass htext]⟩
  obtain ⟨text, order, hcall'⟩ := renderBlock_call hpaired hpass hcall hkind hparams hcode
  have hname : s.typeNameAt call = "function_call" := by
    rw [typeNameAt, hcall, Option.map_some, hkind]
    rfl
  have hread : (lookup s.workspace holder >>= fun block => s.chainItems (s.renderAt s.enoughDepth) block input)
      pass = some (.error (.expectedStatement block.id input "function_call"),
        { pass with consumed := [params] }) := by
    rw [lookup, hholder, ← hname, ← itemTexts_refuse hitems ((hrender call).trans (congrArg some hcall')),
      ← hchain]
    rfl
  rw [step_unlimited _ fun taken => (Closed.settles taken).bind ((Closed.settles taken).lookup _ _)
    fun block => closed_chainItems (.settles taken) (s.settles_renderEnough taken) block input] at hread
  rw [perform, Run.bind_apply, readItems, Option.some.inj hread]

/-- What is consumed when an operation fails: nothing, or the parameters of a call, which is among the items of
a chain as the error says. A chain of items that can be rendered but for a call among them fails that way. -/
theorem perform_error (hpaired : s.workspace.CallsPaired) (pass : Pass) (hpass : pass.consumed = []) :
    (∀ operation e after, s.perform operation pass = (.error e, after) →
      after.consumed = [] ∨ s.workspace.Strands e after.consumed) ∧
    ∀ holder call params block callBlock input items rest code,
      s.workspace.get? holder = some block →
      (s.workspace.chainFrom (block.input? input)).1 = items ++ call :: rest →
      (∀ item ∈ items, ∃ text, (s.renderBlock item .alone pass).1 = .ok (.statement text)) →
      s.workspace.get? call = some callBlock → callBlock.kind = .functionCall →
      callBlock.next = some params → (s.renderBlock call .alone pass).1 = .ok code →
      s.perform (.items holder input) pass =
        (.error (.expectedStatement block.id input "function_call"), { pass with consumed := [params] }) := by
  refine ⟨fun operation e after h => ?_, ?_⟩
  · have hclose := closes_perform hpaired hpass operation
    rw [h] at hclose
    exact hclose
  · intro holder call params block callBlock input items rest code hholder hchain hitems hcall hkind hparams
    exact perform_items_call hpaired hpass hholder hchain hitems hcall hkind hparams

end Setting

/-- An array whose chain of items holds an item and then a call with a parameter. -/
def listedCall : Workspace where
  blocks :=
    #[{ id := "b0", kind := .arrayLiteral, inputs := [("ITEMS", ⟨1⟩)] },
      { id := "b1", kind := .arrayItem, inputs := [("VALUE", ⟨2⟩)], next := some ⟨3⟩ },
      { id := "b2", kind := .numberLiteral, fields := [("NUM", "0")] },
      { id := "b3", kind := .functionCall, inputs := [("FUNCTION_NAME", ⟨4⟩)], next := some ⟨5⟩ },
      { id := "b4", kind := .variableReference, fields := [("VAR_NAME", "log")] },
      { id := "b5", kind := .functionParams, inputs := [("PARAMS", ⟨6⟩)] },
      { id := "b6", kind := .functionParameter, inputs := [("PARAM_VALUE", ⟨7⟩)] },
      { id := "b7", kind := .numberLiteral, fields := [("NUM", "1")] }]
  top := [⟨0⟩]

theorem listedCall_callsPaired : listedCall.CallsPaired := by
  decide

/-- The items cannot be read, and then the call has lost its argument. -/
theorem listedCall_strands :
    listedCall.CallsPaired ∧
      Setting.perform ⟨listedCall, {}⟩ (.items ⟨0⟩ "ITEMS") {} =
        (.error (.expectedStatement "b0" "ITEMS" "function_call"), { consumed := [⟨5⟩] }) ∧
      listedCall.Strands (.expectedStatement "b0" "ITEMS" "function_call") [⟨5⟩] ∧
      (Setting.perform ⟨listedCall, {}⟩ (.render ⟨3⟩ .chain) { consumed := [⟨5⟩] }).1 =
        .ok (.code (.expression "log()".toList .functionCall)) ∧
      (Setting.perform ⟨listedCall, {}⟩ (.render ⟨3⟩ .chain) {}).1 =
        .ok (.code (.expression "log(1)".toList .functionCall)) := by
  obtain ⟨hstrands, hitems⟩ := Setting.perform_error (s := ⟨listedCall, {}⟩) listedCall_callsPaired {} rfl
  have hitem : (Setting.renderBlock ⟨listedCall, {}⟩ ⟨1⟩ .alone {}).1 = .ok (.statement "0,\n".toList) := by
    cbv
  have hcall : (Setting.renderBlock ⟨listedCall, {}⟩ ⟨3⟩ .alone {}).1 =
      .ok (.expression "log(1)".toList .functionCall) := by
    cbv
  have hfailed := hitems ⟨0⟩ ⟨3⟩ ⟨5⟩ _ _ "ITEMS" [⟨1⟩] [⟨5⟩] _ rfl (by cbv)
    (List.forall_mem_singleton.2 ⟨_, hitem⟩) rfl rfl rfl hcall
  have hleft := (hstrands _ _ _ hfailed).resolve_left (List.cons_ne_nil _ _)
  exact ⟨listedCall_callsPaired, hfailed, hleft, by cbv, by cbv⟩

end BlockProgram
