import BlockProgram.Proofs.Rendering.Ending
import BlockProgram.Proofs.Text.Callee

/-!
Calls as they are rendered. A call is read from its two parts (`callCode`), the callee in its socket and the
arguments in the block after it:

    callee   ──▶  placeholder if it has no text  ──▶  without quotes and parentheses  ──▶  name
    next     ──▶  its own code, and it is consumed                                     ──▶  (arguments)

The placeholder stands in before anything is taken off, so it does not help a callee that has text and loses
all of it (`call_callee`); and what is taken off a literal are its quotes but not its escapes
(`literal_callee`).
-/

namespace BlockProgram

/-- The name that a call is written with, given the text in the socket of its callee. -/
def Text.calleeName (callee : Text) : Text :=
  Text.bareCallee (if callee.isEmpty then "undefined".toList else callee)

theorem Text.calleeName_nil : Text.calleeName [] = "undefined".toList := by
  decide

theorem Text.calleeName_of_ne_nil {callee : Text} (h : callee ≠ []) :
    Text.calleeName callee = Text.bareCallee callee := by
  rw [calleeName, if_neg (by simpa using h)]

/-- A call is written with a blank name exactly if its callee has text, which is hollow. -/
theorem Text.isBlank_calleeName_iff (callee : Text) :
    Text.isBlank (Text.calleeName callee) = true ↔ callee ≠ [] ∧ Text.Hollow callee := by
  by_cases h : callee = []
  · rw [h, calleeName_nil]
    simp only [ne_eq, not_true_eq_false, false_and, iff_false]
    decide
  · rw [calleeName_of_ne_nil h, Text.isBlank_bareCallee_iff]
    simp [h]

/-! ### Steps that succeed -/

section

variable {α β : Type} {a : α} {b : β} {pass after : Pass}

theorem Rendering.bind_ok {step : Rendering α} {next : α → Rendering β}
    (h : (step >>= next) pass = some (.ok b, after)) :
    ∃ a mid, step pass = some (.ok a, mid) ∧ next a mid = some (.ok b, after) := by
  rw [bind_apply] at h
  rcases hstep : step pass with _ | ⟨_ | a, mid⟩
  · simp [hstep] at h
  · rw [hstep] at h
    cases h
  · rw [hstep] at h
    exact ⟨a, mid, rfl, h⟩

theorem Rendering.during_ok {id : BlockId} {block : Block} {step : Rendering α}
    (h : during id block step pass = some (.ok a, after)) :
    id ∉ pass.rendering ∧ ∃ last, step (pass.enter id) = some (.ok a, last) ∧ after = last.leave id := by
  rw [during] at h
  split at h
  · cases h
  · rename_i hid
    obtain ⟨⟨result, last⟩, hstep, hended⟩ := Option.map_eq_some_iff.1 h
    cases hended
    exact ⟨hid, last, hstep, rfl⟩

theorem Rendering.bind_ok_iff {step : Rendering α} {next : α → Rendering β} :
    (step >>= next) pass = some (.ok b, after) ↔
      ∃ a mid, step pass = some (.ok a, mid) ∧ next a mid = some (.ok b, after) := by
  refine ⟨bind_ok, ?_⟩
  rintro ⟨a, mid, hstep, hnext⟩
  rw [bind_apply, hstep]
  exact hnext

/-- A last step that succeeds and leaves the pass as it is. -/
theorem Rendering.map_ok_iff {step : Rendering α} {f : α → β} :
    (step >>= fun a => return f a) pass = some (.ok b, after) ↔ ∃ a, step pass = some (.ok a, after) ∧ b = f a := by
  rw [bind_ok_iff]
  constructor
  · rintro ⟨a, mid, hstep, hended⟩
    cases hended
    exact ⟨a, hstep, rfl⟩
  · rintro ⟨a, hstep, rfl⟩
    exact ⟨a, after, hstep, rfl⟩

theorem Rendering.during_ok_iff {id : BlockId} {block : Block} {step : Rendering α} :
    during id block step pass = some (.ok a, after) ↔
      id ∉ pass.rendering ∧ ∃ last, step (pass.enter id) = some (.ok a, last) ∧ after = last.leave id := by
  refine ⟨during_ok, ?_⟩
  rintro ⟨hid, last, hstep, rfl⟩
  rw [during, if_neg hid, hstep]
  rfl

/-- A run as a step, which always has a result. -/
def Run.asStep (run : Run α) : Rendering α :=
  fun pass => some (run pass)

theorem Run.asStep_bind (run : Run α) (next : α → Run β) :
    (run >>= next).asStep = run.asStep >>= fun a => (next a).asStep := by
  funext pass
  rw [Rendering.bind_apply, asStep, Run.bind_apply, asStep]
  rcases run pass with ⟨result, mid⟩
  cases result <;> rfl

theorem Run.asStep_unlimited (step : Rendering α) (settles : ∀ taken, Rendering.Settles taken step) :
    (Setting.unlimited step settles).asStep = step := by
  funext pass
  exact (Rendering.step_unlimited step settles pass).symm

theorem Run.bind_ok {run : Run α} {next : α → Run β} (h : (run >>= next) pass = (.ok b, after)) :
    ∃ a mid, run pass = (.ok a, mid) ∧ next a mid = (.ok b, after) := by
  have hstep : (run >>= next).asStep pass = some (.ok b, after) := congrArg some h
  rw [Run.asStep_bind] at hstep
  obtain ⟨a, mid, hrun, hnext⟩ := Rendering.bind_ok hstep
  exact ⟨a, mid, Option.some.inj hrun, Option.some.inj hnext⟩

end

namespace Setting

open Rendering

variable {s : Setting} {id : BlockId} {block : Block} {pass after : Pass}

/-! ### Rendering without a limit -/

theorem asStep_renderBlock (s : Setting) (id : BlockId) (extent : Extent) :
    (s.renderBlock id extent).asStep = s.renderFreely id extent := rfl

theorem asStep_readValue (hget : s.workspace.get? id = some block) (input : String) (order : Order) :
    (s.readValue id input order).asStep = s.valueText s.renderFreely block input order := by
  rw [readValue, Run.asStep_unlimited, lookup_of_get? hget, pure_bind, renderAt_enoughDepth]

theorem renderBlock_eq {extent : Extent} {ended : Except GenerateError Code × Pass}
    (h : s.renderFreely id extent pass = some ended) : s.renderBlock id extent pass = ended :=
  Option.some.inj h

theorem readValue_eq (hget : s.workspace.get? id = some block) {input : String} {order : Order}
    {ended : Except GenerateError Text × Pass}
    (h : s.valueText s.renderFreely block input order pass = some ended) :
    s.readValue id input order pass = ended := by
  rw [← asStep_readValue hget] at h
  exact Option.some.inj h

/-- A block that is rendered alone is marked while its own code is read. -/
theorem renderFreely_alone (hget : s.workspace.get? id = some block) :
    s.renderFreely id .alone = during id block (s.blockCode s.renderFreely id block) := by
  conv_lhs => rw [← renderLevel_renderFreely, renderLevel, lookup_of_get? hget, pure_bind]
  exact congrArg (during id block) (bind_pure _)

/-- A block that is rendered with its chain is marked while its own code and the chain are read. -/
theorem renderFreely_chain (hget : s.workspace.get? id = some block) :
    s.renderFreely id .chain = during id block (do
      let code ← s.blockCode s.renderFreely id block
      let after ← s.chainText s.renderFreely (s.workspace.followers id).2 (s.workspace.followers id).1
      return code.append after) := by
  conv_lhs => rw [← renderLevel_renderFreely, renderLevel, lookup_of_get? hget, pure_bind]

/-- The code of a block with its chain starts with the code of the block alone. -/
theorem renderBlock_chain_eq_append {code : Code} (h : s.renderBlock id .chain pass = (.ok code, after)) :
    ∃ own mid more, s.renderBlock id .alone pass = (.ok own, mid) ∧ code = own.append more := by
  have hchain : s.renderFreely id .chain pass = some (.ok code, after) := congrArg some h
  cases hget : s.workspace.get? id with
  | none =>
    rw [← renderLevel_renderFreely, renderLevel, lookup_of_get?_none hget] at hchain
    cases hchain
  | some block =>
    rw [renderFreely_chain hget] at hchain
    obtain ⟨hid, last, hlast, -⟩ := during_ok hchain
    obtain ⟨own, mid, hown, hlast⟩ := bind_ok hlast
    obtain ⟨more, ended, -, hlast⟩ := bind_ok hlast
    cases hlast
    refine ⟨own, mid.leave id, more, renderBlock_eq ?_, rfl⟩
    rw [renderFreely_alone hget, during, if_neg hid, hown]
    rfl

/-! ### Calls -/

/-- The arguments of a call, which are the code of the block after it. That block is consumed. -/
def readArguments (s : Setting) (block : Block) : Run Text :=
  match block.next with
  | none => return []
  | some params => do
    let code ← s.renderBlock params .alone
    Setting.consume params
    return code.text

/-- A call: the name that is read from the socket of its callee, and the arguments in parentheses. -/
def callCode (s : Setting) (id : BlockId) (block : Block) : Run Code := do
  let callee ← s.readValue id "FUNCTION_NAME" .atomic
  let arguments ← s.readArguments block
  return .expression (Text.calleeName callee ++ Text.parenthesize arguments) .functionCall

theorem asStep_readArguments (block : Block) :
    (s.readArguments block).asStep = argumentsText s.renderFreely block := by
  rw [readArguments, argumentsText]
  cases block.next with
  | none => rfl
  | some params =>
    dsimp only
    rw [Run.asStep_bind, asStep_renderBlock]
    rfl

/-- The pieces of a call are read as its callee and its arguments. -/
theorem blockCode_call (hget : s.workspace.get? id = some block) (hkind : block.kind = .functionCall) :
    s.blockCode s.renderFreely id block = (s.callCode id block).asStep := by
  rw [callCode, Run.asStep_bind, asStep_readValue hget, blockCode, hkind]
  simp only [BlockKind.template, piecesText, pieceText, valueOr, bind_assoc, pure_bind, Code.ofShape,
    Run.asStep_bind, asStep_readArguments, Text.calleeName]
  rfl

/-- A call that is rendered alone is marked while its callee and its arguments are read. -/
theorem renderFreely_call (hget : s.workspace.get? id = some block) (hkind : block.kind = .functionCall) :
    s.renderFreely id .alone = during id block (s.callCode id block).asStep := by
  rw [renderFreely_alone hget, blockCode_call hget hkind]

theorem renderBlock_alone_call (hget : s.workspace.get? id = some block) (hkind : block.kind = .functionCall)
    (hid : id ∉ pass.rendering) :
    s.renderBlock id .alone pass =
      ((s.callCode id block (pass.enter id)).1, (s.callCode id block (pass.enter id)).2.leave id) := by
  refine renderBlock_eq ?_
  rw [renderFreely_call hget hkind, during, if_neg hid]
  rfl

/-- A call that has code has a callee and arguments. -/
theorem exists_of_renderBlock_call (hget : s.workspace.get? id = some block)
    (hkind : block.kind = .functionCall) {code : Code} (h : s.renderBlock id .alone pass = (.ok code, after)) :
    ∃ callee mid arguments, s.readValue id "FUNCTION_NAME" .atomic (pass.enter id) = (.ok callee, mid) ∧
      (s.readArguments block mid).1 = .ok arguments ∧
      code = .expression (Text.calleeName callee ++ Text.parenthesize arguments) .functionCall := by
  have halone : s.renderFreely id .alone pass = some (.ok code, after) := congrArg some h
  rw [renderFreely_call hget hkind] at halone
  obtain ⟨-, last, hcode, -⟩ := during_ok halone
  obtain ⟨callee, mid, hcallee, hcode⟩ := Run.bind_ok (Option.some.inj hcode)
  obtain ⟨arguments, ended, harguments, hcode⟩ := Run.bind_ok hcode
  cases hcode
  exact ⟨callee, mid, arguments, hcallee, by rw [harguments], rfl⟩

/-- Nothing is read from the socket of a callee that is not filled. -/
theorem readValue_unfilled (hget : s.workspace.get? id = some block) {input : String} (order : Order)
    (hinput : block.input? input = none) (pass : Pass) : s.readValue id input order pass = (.ok [], pass) := by
  refine readValue_eq hget ?_
  rw [valueText, hinput]
  rfl

/-- **The name of a call is what is left of its callee,** or the placeholder if the callee has no text. It is
blank exactly if the callee has text, of which nothing is left. -/
theorem call_callee (s : Setting) {id : BlockId} {block : Block} (hget : s.workspace.get? id = some block)
    (hkind : block.kind = .functionCall) {pass after : Pass} {text : Text} {order : Order}
    (h : s.renderBlock id .alone pass = (.ok (.expression text order), after)) :
    ∃ callee mid name arguments, s.readValue id "FUNCTION_NAME" .atomic (pass.enter id) = (.ok callee, mid) ∧
      (s.readArguments block mid).1 = .ok arguments ∧ text = name ++ Text.parenthesize arguments ∧
      (block.input? "FUNCTION_NAME" = none → callee = []) ∧
      (callee = [] → name = "undefined".toList) ∧ (callee ≠ [] → name = Text.bareCallee callee) ∧
      (Text.isBlank name = true ↔ callee ≠ [] ∧ Text.Hollow callee) := by
  obtain ⟨callee, mid, arguments, hcallee, harguments, hcode⟩ := exists_of_renderBlock_call hget hkind h
  refine ⟨callee, mid, Text.calleeName callee, arguments, hcallee, harguments, (Code.expression.inj hcode).1,
    fun hinput => ?_, ?_, Text.calleeName_of_ne_nil, Text.isBlank_calleeName_iff callee⟩
  · rw [readValue_unfilled hget .atomic hinput] at hcallee
    cases hcallee
    rfl
  · rintro rfl
    exact Text.calleeName_nil

end Setting

/-- A call of an empty literal, and a call without a callee. -/
def emptyCallees : Workspace where
  blocks :=
    #[{ id := "b0", kind := .functionCall, inputs := [("FUNCTION_NAME", ⟨1⟩)] },
      { id := "b1", kind := .stringLiteral },
      { id := "b2", kind := .functionCall }]

/-- Only the callee that is missing is replaced by the placeholder. -/
theorem emptyCallees_named :
    ((Setting.renderBlock ⟨emptyCallees, {}⟩ ⟨0⟩ .alone {}).1 = .ok (.expression "()".toList .functionCall) ∧
      ∃ name arguments, "()".toList = name ++ Text.parenthesize arguments ∧ Text.isBlank name = true) ∧
    (Setting.renderBlock ⟨emptyCallees, {}⟩ ⟨2⟩ .alone {}).1 =
        .ok (.expression "undefined()".toList .functionCall) ∧
      ∃ name arguments, "undefined()".toList = name ++ Text.parenthesize arguments ∧
        name = "undefined".toList ∧ Text.isBlank name = false := by
  have hempty : Setting.renderBlock ⟨emptyCallees, {}⟩ ⟨0⟩ .alone {} =
      (.ok (.expression "()".toList .functionCall), {}) := by
    cbv
  have hmissing : Setting.renderBlock ⟨emptyCallees, {}⟩ ⟨2⟩ .alone {} =
      (.ok (.expression "undefined()".toList .functionCall), {}) := by
    cbv
  obtain ⟨callee, mid, name, arguments, hcallee, -, htext, -, -, -, hblank⟩ :=
    Setting.call_callee ⟨emptyCallees, {}⟩ rfl rfl hempty
  obtain ⟨callee', mid', name', arguments', -, -, htext', hnone, hplaceholder, -, -⟩ :=
    Setting.call_callee ⟨emptyCallees, {}⟩ rfl rfl hmissing
  have hquoted : Setting.readValue ⟨emptyCallees, {}⟩ ⟨0⟩ "FUNCTION_NAME" .atomic (Pass.enter ⟨0⟩ {}) =
      (.ok (Text.quote []), Pass.enter ⟨0⟩ {}) := by
    cbv
  cases hquoted.symm.trans hcallee
  have hhollow : Text.Hollow (Text.quote []) := .inr ⟨[], ⟨[], [], rfl, rfl, rfl⟩, .inl rfl⟩
  have hname := hplaceholder (hnone rfl)
  exact ⟨⟨by rw [hempty], name, arguments, htext, hblank.2 ⟨List.cons_ne_nil _ _, hhollow⟩⟩, by rw [hmissing],
    name', arguments', htext', hname, by rw [hname]; decide⟩

/-! ### Literals as callees -/

namespace Setting

open Rendering

variable {s : Setting} {id call lit : BlockId} {block literal : Block} {text : Text} {pass : Pass}

theorem leave_enter (pass : Pass) (id : BlockId) : (pass.enter id).leave id = pass := by
  rw [Pass.enter, Pass.leave, List.erase_cons_head]

/-- A literal without a block after it is rendered with its own text, and leaves the pass as it was. -/
theorem renderFreely_literal (hget : s.workspace.get? id = some block) (hkind : block.kind = .stringLiteral)
    (hnext : block.next = none) (hid : id ∉ pass.rendering) :
    s.renderFreely id .chain pass =
      some (.ok (.expression (Text.quote ((block.field? "TEXT").getD "").toList) .atomic), pass) := by
  have hfollowers : s.workspace.followers id = ([], .complete) := by
    rw [Workspace.followers, hget, Option.bind_some, hnext, Workspace.walk]
  have hcode : s.blockCode s.renderFreely id block =
      pure (.expression (Text.quote ((block.field? "TEXT").getD "").toList) .atomic) := by
    rw [blockCode, hkind]
    show (pure (Code.expression (_ ++ []) .atomic) : Rendering Code) = _
    rw [List.append_nil]
  rw [renderFreely_chain hget, during, if_neg hid, hcode, hfollowers, pure_bind]
  show some (Except.ok (Code.expression (_ ++ []) .atomic), (pass.enter id).leave id) = _
  rw [List.append_nil, leave_enter]

/-- A block that is marked cannot be rendered. -/
theorem renderFreely_marked (hget : s.workspace.get? id = some block) (hid : id ∈ pass.rendering) :
    s.renderFreely id .chain pass = some (.error (.ofRepeated block), pass) := by
  rw [renderFreely_chain hget, during, if_pos hid]

/-- The text of a literal is read from the socket of a callee with its quotes and escapes. -/
theorem readValue_literal (hget : s.workspace.get? id = some block) {input : String}
    (hinput : block.input? input = some lit) (hlit : s.workspace.get? lit = some literal)
    (hliteral : literal.kind = .stringLiteral) (hnext : literal.next = none)
    (htext : text = ((literal.field? "TEXT").getD "").toList) (hfree : lit ∉ pass.rendering) :
    s.readValue id input .atomic pass = (.ok (Text.quote text), pass) := by
  refine readValue_eq hget ?_
  rw [valueText, hinput]
  dsimp only
  rw [bind_apply, renderFreely_literal hlit hliteral hnext hfree, ← htext]
  rfl

theorem readValue_marked (hget : s.workspace.get? id = some block) {input : String}
    (hinput : block.input? input = some lit) (hlit : s.workspace.get? lit = some literal) (order : Order)
    (hmarked : lit ∈ pass.rendering) :
    s.readValue id input order pass = (.error (.ofRepeated literal), pass) := by
  refine readValue_eq hget ?_
  rw [valueText, hinput]
  dsimp only
  rw [bind_apply, renderFreely_marked hlit hmarked]

/-- **A literal names the function that is called by its text with escapes,** which is its own text exactly if
it has no quote, backslash, line break or tab. -/
theorem literal_callee (s : Setting) {call lit : BlockId} {block literal : Block}
    (hget : s.workspace.get? call = some block) (hkind : block.kind = .functionCall)
    (hinput : block.input? "FUNCTION_NAME" = some lit) (hlit : s.workspace.get? lit = some literal)
    (hliteral : literal.kind = .stringLiteral) (hnext : literal.next = none) {text : Text}
    (htext : text = ((literal.field? "TEXT").getD "").toList)
    (hplain : Text.between? '(' ')' (Text.trim text) = none) :
    (∀ pass : Pass, call ∉ pass.rendering → lit ∉ pass.rendering →
      s.renderBlock call .alone pass =
        let read := s.readArguments block (pass.enter call)
        (read.1.map fun arguments => .expression
          (Text.trim (text.flatMap Text.escape) ++ Text.parenthesize arguments) .functionCall,
          read.2.leave call)) ∧
    (∀ pass code after, s.renderBlock call .chain pass = (.ok code, after) →
      ∃ arguments more, code = .expression
        (Text.trim (text.flatMap Text.escape) ++ Text.parenthesize arguments ++ more) .functionCall) ∧
    (Text.trim (text.flatMap Text.escape) = Text.trim text ↔ ∀ c ∈ text, c ∉ Text.escapedChars) := by
  have hne : lit ≠ call := by
    rintro rfl
    cases hget.symm.trans hlit
    cases hkind.symm.trans hliteral
  have hname : Text.calleeName (Text.quote text) = Text.trim (text.flatMap Text.escape) := by
    rw [Text.calleeName_of_ne_nil (by simp [Text.quote]), Text.bareCallee_quote hplain]
  have hread {pass : Pass} (hfree : lit ∉ pass.rendering) :
      s.readValue call "FUNCTION_NAME" .atomic pass = (.ok (Text.quote text), pass) :=
    readValue_literal hget hinput hlit hliteral hnext htext hfree
  refine ⟨fun pass hcall hfree => ?_, fun pass code after h => ?_, Text.trim_escaped_eq_trim_iff⟩
  · have hfree : lit ∉ (pass.enter call).rendering := by simpa [Pass.enter, hne] using hfree
    rw [renderBlock_alone_call hget hkind hcall, callCode, Run.bind_apply, hread hfree]
    dsimp only
    rw [Run.bind_apply, hname]
    rcases s.readArguments block (pass.enter call) with ⟨_ | arguments, after⟩ <;> rfl
  · obtain ⟨own, mid, more, halone, rfl⟩ := renderBlock_chain_eq_append h
    obtain ⟨callee, ended, arguments, hcallee, -, rfl⟩ := exists_of_renderBlock_call hget hkind halone
    by_cases hfree : lit ∈ (pass.enter call).rendering
    · rw [readValue_marked hget hinput hlit .atomic hfree] at hcallee
      cases hcallee
    · rw [hread hfree] at hcallee
      cases hcallee
      exact ⟨arguments, more, by rw [hname]; rfl⟩

end Setting

def literalCall : Block :=
  { id := "b0", kind := .functionCall, inputs := [("FUNCTION_NAME", ⟨1⟩)] }

def indexedName : Block :=
  { id := "b1", kind := .stringLiteral, fields := [("TEXT", "users[\"name\"].get")] }

/-- A call whose callee is a literal with quotes in its text. -/
def indexedCallee : Workspace where
  blocks := #[literalCall, indexedName]

/-- It is not called by that text. -/
theorem indexedCallee_escaped :
    Text.between? '(' ')' (Text.trim "users[\"name\"].get".toList) = none ∧
      (Setting.renderBlock ⟨indexedCallee, {}⟩ ⟨0⟩ .alone {}).1 =
        .ok (.expression "users[\\\"name\\\"].get()".toList .functionCall) ∧
      Text.trim ("users[\"name\"].get".toList.flatMap Text.escape) ≠ Text.trim "users[\"name\"].get".toList := by
  have hcall : indexedCallee.get? ⟨0⟩ = some literalCall := rfl
  have hlit : indexedCallee.get? ⟨1⟩ = some indexedName := rfl
  have htext : "users[\"name\"].get".toList = ((indexedName.field? "TEXT").getD "").toList := rfl
  have hplain : Text.between? '(' ')' (Text.trim "users[\"name\"].get".toList) = none := by
    decide
  obtain ⟨halone, -, hself⟩ :=
    Setting.literal_callee ⟨indexedCallee, {}⟩ hcall rfl rfl hlit rfl rfl htext hplain
  have hread : Setting.readArguments ⟨indexedCallee, {}⟩ literalCall (Pass.enter ⟨0⟩ {}) =
      (.ok [], Pass.enter ⟨0⟩ {}) := rfl
  refine ⟨hplain, ?_, fun h => absurd (hself.1 h '"' (by decide)) (by decide)⟩
  rw [halone {} List.not_mem_nil List.not_mem_nil, hread]
  cbv

end BlockProgram
