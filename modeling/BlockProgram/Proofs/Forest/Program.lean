import BlockProgram.Proofs.Forest.Load
import BlockProgram.Proofs.Forest.Rendering

/-!
The program of a forest is read off its stacks. That holds of every loaded workspace under the chain rule
that tells what becomes of spent parameters (`program_eq_spent`), and under the plain rule as soon as
only parameters come after calls.
-/

namespace BlockProgram

/-- The program of stacks on the canvas of a workspace. Custom types without a text are refused before
any block is read. -/
def Workspace.programOf (ws : Workspace) (g : Generator) (rule : ChainRule) (forest : List Stack) :
    Except GenerateError Text :=
  match ws.blocks.toList.findSome? g.missingLiteral? with
  | some name => .error (.unknownCustomType name)
  | none => Stack.program g rule forest

/-! ### The canvas -/

namespace Setting

open Rendering

variable {s : Setting} {tops : List BlockId} {forest : List Stack}

/-- Nothing is marked, and nothing held. -/
def Idle (s : Setting) (pass : Pass) : Prop :=
  s.workspace.Holding [] (fun _ => False) pass

theorem idle_start (s : Setting) : s.Idle {} :=
  ⟨rfl, .nil, fun _ _ _ _ => by simp⟩

/-- An idle run renders a stack as its text, and is idle afterwards. -/
theorem renderBlock_stack {id : BlockId} {stack : Stack} (hat : stack.At s.workspace (some id))
    (hnodup : stack.ids.Nodup) {pass mid : Pass} (hpass : s.Idle pass)
    {result : Except GenerateError Code} (h : s.renderBlock id .chain pass = (result, mid)) :
    result.map Code.text = stack.text s.generator Segment.spent ∧
      ((∃ code, result = .ok code) → s.Idle mid) := by
  have hfits : stack.Fits [] (fun _ => False) false :=
    ⟨hnodup, fun _ _ => List.not_mem_nil, fun _ _ => by simp⟩
  rw [Stack.text]
  cases hsegments : stack.segments s.generator Segment.spent with
  | nil =>
    cases stack with
    | nil => cases hat
    | cons => rw [Stack.segments_cons] at hsegments; cases hsegments
  | cons first others =>
    have hchain := (simulates_renderAt s s.enoughDepth hat hfits).2 rfl first others hsegments
    obtain ⟨hresult, hafter⟩ :=
      Triple.unlimited hchain (fun taken => s.settles_renderEnough taken id .chain) hpass
    rw [← renderBlock, h] at hresult hafter
    dsimp only
    refine ⟨by rw [← hresult], fun ⟨code, hcode⟩ => hafter code ?_⟩
    rw [← hresult, hcode]

theorem topTexts_stacks (hforest : s.workspace.Forest tops forest) {pass : Pass} (hpass : s.Idle pass) :
    (s.topTexts tops pass).1 = Stack.texts s.generator Segment.spent forest := by
  rcases hforest with ⟨hat, hnodup⟩
  induction hat generalizing pass with
  | nil => rfl
  | @cons top stack tops forest hstack _ ih =>
    rw [List.flatMap_cons, List.nodup_append] at hnodup
    rw [topTexts_cons, Stack.texts]
    rcases hcode : s.renderBlock top .chain pass with ⟨result, mid⟩
    obtain ⟨htext, hidle⟩ := renderBlock_stack hstack hnodup.1 hpass hcode
    rw [← htext]
    cases result with
    | error e => rfl
    | ok code =>
      have hrest := ih (hidle ⟨code, rfl⟩) hnodup.2.1
      dsimp only
      rw [← hrest]
      rcases s.topTexts tops mid with ⟨texts, after⟩
      cases texts <;> rfl

/-- The program of a forest is read off its stacks. -/
theorem program_eq_spent (hforest : s.workspace.Forest s.workspace.topBlocks forest) :
    s.program = s.workspace.programOf s.generator Segment.spent forest := by
  rw [program_eq, Workspace.programOf, topTexts_stacks hforest s.idle_start]
  cases s.workspace.blocks.toList.findSome? s.generator.missingLiteral? with
  | some name => rfl
  | none =>
    rw [Stack.program]
    cases Stack.texts s.generator Segment.spent forest <;> rfl

end Setting

/-! ### Calls with their parameters -/

/-- Nothing but parameters comes after a call. -/
def Workspace.CallsPaired (ws : Workspace) : Prop :=
  ∀ id block next, ws.get? id = some block → block.kind = .functionCall → block.next = some next →
    ∃ params, ws.get? next = some params ∧ params.kind = .functionParams

theorem Workspace.callsPaired_iff (ws : Workspace) :
    ws.CallsPaired ↔ ∀ block ∈ ws.blocks.toList, block.kind = .functionCall →
      ∀ next ∈ block.next, ∃ params ∈ ws.get? next, params.kind = .functionParams := by
  constructor
  · intro h block hblock hkind next hnext
    obtain ⟨index, hindex⟩ := List.mem_iff_getElem?.1 hblock
    exact h ⟨index⟩ block next (by simpa [get?] using hindex) hkind hnext
  · intro h id block next hget hkind hnext
    exact h block (Array.mem_toList_iff.2 (Array.mem_of_getElem? hget)) hkind next hnext

instance (ws : Workspace) : Decidable ws.CallsPaired :=
  decidable_of_iff _ ws.callsPaired_iff.symm

namespace Segment

/-- If the first of two blocks is a call, the second holds its parameters. -/
def Pairs (previous next : Segment) : Prop :=
  previous.kind = .functionCall → next.kind = .functionParams

/-- The two chain rules agree where only parameters come after calls. -/
theorem paired_eq_spent {previous : Segment} {rest : List Segment}
    (h : List.IsChain Pairs (previous :: rest)) : paired previous rest = spent previous rest := by
  induction rest generalizing previous with
  | nil => rfl
  | cons next rest ih =>
    obtain ⟨hpairs, hrest⟩ := List.isChain_cons_cons.1 h
    rw [paired, spent, ih hrest]
    by_cases hcall : previous.kind = .functionCall
    · rw [if_pos ⟨hcall, hpairs hcall⟩, spentCode, if_pos ⟨decide_eq_true hcall, hpairs hcall⟩]
      rfl
    · rw [if_neg fun h => hcall h.1, decide_eq_false hcall, spentCode_false]

end Segment

/-- The own code of a block asks a chain rule about the chains in its inputs alone. -/
theorem Block.code_congr {rule rule' : ChainRule} {plugged : String → List Segment} (g : Generator)
    (block : Block)
    (h : ∀ input first rest, plugged input = first :: rest → rule first rest = rule' first rest) :
    block.code g rule plugged = block.code g rule' plugged := by
  have hvalue (input : String) (order : Order) :
      block.valueText rule plugged input order = block.valueText rule' plugged input order := by
    rw [valueText, valueText]
    cases hplugged : plugged input with
    | nil => rfl
    | cons first rest => simp only [Segment.chainCode, h input first rest hplugged]
  have hbody (input : String) :
      block.bodyText g rule plugged input = block.bodyText g rule' plugged input := by
    rw [bodyText, bodyText]
    cases hplugged : plugged input with
    | nil => rfl
    | cons first rest => simp only [Segment.chainCode, h input first rest hplugged]
  have hpiece (arguments : Except GenerateError Text) (piece : Piece) :
      block.pieceText g rule plugged arguments piece =
        block.pieceText g rule' plugged arguments piece := by
    cases piece <;> simp only [pieceText, valueOr, hvalue, hbody]
  have hpieces (arguments : Except GenerateError Text) (pieces : List Piece) :
      block.piecesText g rule plugged arguments pieces =
        block.piecesText g rule' plugged arguments pieces := by
    induction pieces with
    | nil => rfl
    | cons piece rest ih => rw [piecesText, piecesText, hpiece, ih]
  funext arguments
  rw [code, code, hpieces]

section

variable {ws : Workspace} {g : Generator}

theorem Stack.pairs_segments (hpaired : ws.CallsPaired) (rule : ChainRule) {first? : Option BlockId}
    {stack : Stack} (hat : stack.At ws first?) : List.IsChain Segment.Pairs (stack.segments g rule) := by
  induction stack generalizing first? with
  | nil =>
    rw [Stack.segments_nil]
    exact .nil
  | cons id block sockets rest ih =>
    rcases hat with ⟨-, hget, -, hrest⟩
    have htail := ih hrest
    rw [Stack.segments_cons]
    cases rest with
    | nil =>
      rw [Stack.segments_nil]
      exact .singleton _
    | cons next other plugged more =>
      rw [Stack.segments_cons] at htail ⊢
      refine .cons_cons (fun hcall => ?_) htail
      obtain ⟨params, hparams, hkind⟩ := hpaired id block next hget hcall hrest.1
      rw [hrest.2.1] at hparams
      cases hparams
      exact hkind

/-- Where only parameters come after calls, both chain rules read the same. -/
theorem Stack.segments_paired (hpaired : ws.CallsPaired) {first? : Option BlockId} {stack : Stack}
    (hat : stack.At ws first?) : stack.segments g Segment.paired = stack.segments g Segment.spent := by
  induction stack using Stack.deep_induction generalizing first? with
  | nil => rw [Stack.segments_nil, Stack.segments_nil]
  | cons id block sockets rest ihsockets ihrest =>
    rcases hat with ⟨-, -, hsockets, hrest⟩
    have hplugged : sockets.segments g Segment.paired = sockets.segments g Segment.spent := by
      funext input
      rw [Sockets.segments_eq, Sockets.segments_eq, ihsockets input (hsockets.find input)]
    have hcode : block.code g Segment.paired (sockets.segments g Segment.spent) =
        block.code g Segment.spent (sockets.segments g Segment.spent) := by
      refine block.code_congr g fun input first others hothers => Segment.paired_eq_spent ?_
      rw [← hothers, Sockets.segments_eq]
      exact Stack.pairs_segments hpaired _ (hsockets.find input)
    rw [Stack.segments_cons, Stack.segments_cons, hplugged, hcode, ihrest hrest]

end

section

variable {ws : Workspace} (g : Generator)

theorem Stack.text_paired (hpaired : ws.CallsPaired) {first? : Option BlockId} {stack : Stack}
    (hat : stack.At ws first?) : stack.text g Segment.paired = stack.text g Segment.spent := by
  have hchain := Stack.pairs_segments (g := g) hpaired Segment.spent hat
  rw [Stack.text, Stack.text, Stack.segments_paired hpaired hat]
  cases hsegments : stack.segments g Segment.spent with
  | nil => rfl
  | cons first rest =>
    rw [hsegments] at hchain
    dsimp only
    rw [Segment.chainCode, Segment.chainCode, Segment.paired_eq_spent hchain]

theorem Stack.texts_paired (hpaired : ws.CallsPaired) {tops : List BlockId} {forest : List Stack}
    (hat : List.Forall₂ (fun top stack => stack.At ws (some top)) tops forest) :
    Stack.texts g Segment.paired forest = Stack.texts g Segment.spent forest := by
  induction hat with
  | nil => rfl
  | cons hstack _ ih => rw [Stack.texts, Stack.texts, Stack.text_paired g hpaired hstack, ih]

end

/-- The program of a loaded workspace in which only parameters come after calls is read off its stacks,
each block with its own text and the parameters of a call within the call. -/
theorem Generator.generate_eq_paired (g : Generator) {value : Json} {ws : Workspace}
    (hload : Workspace.ofJson value = .ok ws) (hpaired : ws.CallsPaired) :
    ∃ forest, ws.Forest ws.topBlocks forest ∧
      g.generate ws = (ws.programOf g Segment.paired forest).map String.ofList := by
  obtain ⟨forest, hforest⟩ := Workspace.forest_of_ofJson hload (List.mergeSort_perm ws.top _)
  refine ⟨forest, hforest, ?_⟩
  rw [generate, Setting.program_eq_spent hforest, Workspace.programOf, Workspace.programOf,
    Stack.program, Stack.program, Stack.texts_paired g hpaired hforest.at_eq]

/-! ### A call with parameters -/

/-- A saved call with one parameter, after which the call is over. -/
def callDocument : Json :=
  .object [("blocks", .object [("blocks", .array [.object [
    ("type", .string "function_call"),
    ("inputs", .object [("FUNCTION_NAME", .object [("block", .object [
      ("type", .string "variable_reference"),
      ("fields", .object [("VAR_NAME", .string "log")])])])]),
    ("next", .object [("block", .object [
      ("type", .string "function_params"),
      ("inputs", .object [("PARAMS", .object [("block", .object [
        ("type", .string "function_parameter"),
        ("inputs", .object [("PARAM_VALUE", .object [("block", .object [
          ("type", .string "number_literal"),
          ("fields", .object [("NUM", .string "1")])])])])])])])])])]])])]

/-- The workspace that it describes. -/
def callWorkspace : Workspace where
  blocks :=
    #[{ id := "b0", kind := .functionCall, inputs := [("FUNCTION_NAME", ⟨1⟩)], next := some ⟨2⟩,
        position := some ⟨.zero, .zero⟩ },
      { id := "b1", kind := .variableReference, fields := [("VAR_NAME", "log")] },
      { id := "b2", kind := .functionParams, inputs := [("PARAMS", ⟨3⟩)] },
      { id := "b3", kind := .functionParameter, inputs := [("PARAM_VALUE", ⟨4⟩)] },
      { id := "b4", kind := .numberLiteral, fields := [("NUM", "1")] }]
  top := [⟨0⟩]

theorem callWorkspace_loaded : Workspace.ofJson callDocument = .ok callWorkspace := by
  cbv

theorem callWorkspace_callsPaired : callWorkspace.CallsPaired := by
  decide

theorem callWorkspace_program :
    Workspace.ofJson callDocument = .ok callWorkspace ∧ callWorkspace.CallsPaired ∧
      Generator.generate {} callWorkspace = .ok "log(1);" ∧
      ∃ forest, callWorkspace.Forest callWorkspace.topBlocks forest ∧
        Generator.generate {} callWorkspace =
          (callWorkspace.programOf {} Segment.paired forest).map String.ofList :=
  ⟨callWorkspace_loaded, callWorkspace_callsPaired, by cbv,
    Generator.generate_eq_paired {} callWorkspace_loaded callWorkspace_callsPaired⟩

end BlockProgram
