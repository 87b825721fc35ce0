import BlockProgram.Proofs.Forest.Acceptance

/-!
Custom types without a text. They are looked for in all blocks, in the order of creation, before any block is
rendered:

    blocks      not         pi          tau         (pi and tau without a text, nothing leads to them)
    program     refused: pi

So no block that is rendered lacks its text, and the routine of custom literals never comes to refuse one
(`Generator.generate_refuses_custom_types`). Which errors rendering can end with is said once, for any property
of errors (`Setting.raises_renderBlock`): it is enough that the property holds of the errors that the routines
throw, each where it is thrown.
-/

namespace BlockProgram

/-! ### Blocks without a text -/

namespace Generator

variable {g : Generator} {block : Block} {name : String}

theorem missingLiteral?_eq_some_iff :
    g.missingLiteral? block = some name ↔ block.kind = .custom name ∧ g.literal? name = none := by
  rw [missingLiteral?]
  split
  · rename_i other hkind
    rw [hkind, BlockKind.custom.injEq]
    cases hliteral : g.literal? other with
    | none =>
      rw [Option.isSome_none, if_neg Bool.false_ne_true, Option.some_inj]
      exact ⟨fun h => ⟨h, h ▸ hliteral⟩, And.left⟩
    | some text =>
      rw [Option.isSome_some, if_pos rfl]
      constructor
      · rintro ⟨⟩
      · rintro ⟨rfl, hnone⟩
        rw [hliteral] at hnone
        cases hnone
  · rename_i hother
    constructor
    · rintro ⟨⟩
    · exact fun h => absurd h.1 (hother name)

end Generator

namespace Workspace

variable {ws : Workspace} {g : Generator} {name : String}

/-- Some block has this custom type, which has no text. -/
def Lacks (ws : Workspace) (g : Generator) (name : String) : Prop :=
  ∃ id block, ws.get? id = some block ∧ block.kind = .custom name ∧ g.literal? name = none

/-- The first block whose custom type has no text has this one. -/
def LacksFirst (ws : Workspace) (g : Generator) (name : String) : Prop :=
  ∃ earlier block later, ws.blocks.toList = earlier ++ block :: later ∧
    (block.kind = .custom name ∧ g.literal? name = none) ∧
    ∀ other ∈ earlier, ∀ otherName, ¬ (other.kind = .custom otherName ∧ g.literal? otherName = none)

theorem lacksFirst_iff :
    ws.LacksFirst g name ↔ ws.blocks.toList.findSome? g.missingLiteral? = some name := by
  rw [List.findSome?_eq_some_iff, LacksFirst]
  simp only [Generator.missingLiteral?_eq_some_iff, Option.eq_none_iff_forall_not_mem, Option.mem_def]

theorem spelled_iff_not_lacks : ws.Spelled g ↔ ∀ name, ¬ ws.Lacks g name := by
  constructor
  · rintro h name ⟨id, block, hget, hkind, hnone⟩
    have hsome := h id block name hget hkind
    rw [hnone] at hsome
    cases hsome
  · intro h id block name hget hkind
    by_contra hnone
    exact h name ⟨id, block, hget, hkind, Option.not_isSome_iff_eq_none.1 hnone⟩

end Workspace

/-! ### Errors of steps -/

namespace Rendering

variable {α β : Type} {ws : Workspace} {id : BlockId} {block : Block} {step : Rendering α}
  {P : GenerateError → Prop}

/-- Every error that the step ends with has a property, whatever pass it starts from. -/
def Raises (P : GenerateError → Prop) (step : Rendering α) : Prop :=
  Triple (fun _ => True) step fun result _ => ∀ e, result = .error e → P e

theorem Raises.pure {a : α} : Raises P (Pure.pure a : Rendering α) :=
  Triple.pure fun _ _ _ h => by cases h

theorem Raises.throw {e : GenerateError} (h : P e) : Raises P (MonadExcept.throw e : Rendering α) :=
  Triple.throw fun _ _ _ heq => by cases heq; exact h

theorem Raises.bind {next : α → Rendering β} (hstep : Raises P step) (hnext : ∀ a, Raises P (next a)) :
    Raises P (step >>= next) :=
  Triple.bind hstep (fun a => (hnext a).mono (fun _ _ => trivial) fun _ _ h => h)
    fun e _ h _ heq => by cases heq; exact h e rfl

theorem Raises.lookup_bind {next : Block → Rendering β} (hmissing : P (.missingBlock id))
    (hnext : ∀ block, ws.get? id = some block → Raises P (next block)) :
    Raises P (lookup ws id >>= next) :=
  Triple.lookup_bind hnext fun _ _ _ _ heq => by cases heq; exact hmissing

theorem Raises.during (hcycle : P (.ofRepeated block)) (hbody : Raises P step) :
    Raises P (during id block step) :=
  Triple.during (fun _ _ _ _ heq => by cases heq; exact hcycle)
    (hbody.mono (fun _ _ => trivial) fun _ _ h => h)

theorem Raises.consume : Raises P (consume id) :=
  Triple.consume fun _ _ _ heq => by cases heq

theorem Raises.takeConsumed : Raises P (takeConsumed id) :=
  Triple.takeConsumed fun _ _ _ heq => by cases heq

end Rendering

/-! ### Errors of blocks -/

namespace Setting

open Rendering

variable {s : Setting} {render : Renderer} {id : BlockId} {block : Block} {P : GenerateError → Prop}

/-- A property holds of the errors that routines throw. A custom type is only refused for a block that has it. -/
structure Admits (s : Setting) (P : GenerateError → Prop) : Prop where
  missingBlock : ∀ id, P (.missingBlock id)
  cycle : ∀ id typeName, P (.cycle id typeName)
  expectedValue : ∀ id input childType, P (.expectedValue id input childType)
  expectedStatement : ∀ id input childType, P (.expectedStatement id input childType)
  unknownCustomType : ∀ name, s.workspace.Lacks s.generator name → P (.unknownCustomType name)

theorem Admits.settleEnd (h : s.Admits P) (stop : ChainEnd) : Raises P (settleEnd s.workspace stop) := by
  cases stop with
  | complete => exact .pure
  | missing id => exact .throw (h.missingBlock id)
  | back id => exact .lookup_bind (h.missingBlock id) fun _ _ => .throw (h.cycle _ _)

section

variable (h : s.Admits P) (hrender : ∀ id extent, Raises P (render id extent))

include h hrender

theorem raises_valueText (block : Block) (input : String) (order : Order) :
    Raises P (s.valueText render block input order) := by
  unfold valueText
  split
  · exact .pure
  · refine (hrender _ .chain).bind fun code => ?_
    cases code with
    | expression => exact .pure
    | statement => exact .throw (h.expectedValue _ _ _)

theorem raises_valueOr (block : Block) (input : String) (order : Order) (placeholder : String) :
    Raises P (s.valueOr render block input order placeholder) :=
  (raises_valueText h hrender block input order).bind fun _ => .pure

theorem raises_bodyText (block : Block) (input : String) : Raises P (s.bodyText render block input) := by
  unfold bodyText
  split
  · exact .pure
  · refine (hrender _ .chain).bind fun code => ?_
    cases code with
    | expression => exact .throw (h.expectedStatement _ _ _)
    | statement => exact .pure

theorem raises_itemTexts (block : Block) (input : String) (stop : ChainEnd) (items : List BlockId) :
    Raises P (s.itemTexts render block input stop items) := by
  induction items with
  | nil => exact (h.settleEnd stop).bind fun _ => .pure
  | cons item rest ih =>
    refine (hrender item .alone).bind fun code => ?_
    cases code with
    | expression => exact .throw (h.expectedStatement _ _ _)
    | statement => exact ih.bind fun _ => .pure

theorem raises_chainItems (block : Block) (input : String) : Raises P (s.chainItems render block input) :=
  raises_itemTexts h hrender block input _ _

omit h in
theorem raises_argumentsText (block : Block) : Raises P (argumentsText render block) := by
  unfold argumentsText
  split
  · exact .pure
  · exact (hrender _ .alone).bind fun _ => Raises.consume.bind fun _ => .pure

/-- The text of a literal is only missed where the block has the custom type of that name. -/
theorem raises_pieceText (hget : s.workspace.get? id = some block) {piece : Piece}
    (hpiece : piece ∈ block.kind.template.pieces) : Raises P (s.pieceText render id block piece) := by
  cases piece with
  | text | field | quoted => exact .pure
  | value => exact raises_valueOr h hrender block _ _ _
  | body => exact raises_bodyText h hrender block _
  | list | properties => exact (raises_chainItems h hrender block _).bind fun _ => .pure
  | callee => exact (raises_valueOr h hrender block _ _ _).bind fun _ => .pure
  | arguments => exact raises_argumentsText hrender block
  | parameters =>
    refine Raises.takeConsumed.bind fun consumed => ?_
    cases consumed with
    | true => exact .pure
    | false => exact (raises_chainItems h hrender block _).bind fun _ => .pure
  | literal name =>
    rw [pieceText]
    cases hliteral : s.generator.literal? name with
    | none => exact .throw (h.unknownCustomType name ⟨id, block, hget, Block.kind_of_literal hpiece, hliteral⟩)
    | some text => exact .pure

theorem raises_blockCode (hget : s.workspace.get? id = some block) :
    Raises P (s.blockCode render id block) := by
  have hpieces (pieces : List Piece) (hsubset : pieces ⊆ block.kind.template.pieces) :
      Raises P (s.piecesText render id block pieces) := by
    induction pieces with
    | nil => exact .pure
    | cons piece rest ih =>
      obtain ⟨hpiece, hrest⟩ := List.cons_subset.1 hsubset
      exact (raises_pieceText h hrender hget hpiece).bind fun _ => (ih hrest).bind fun _ => .pure
  exact (hpieces _ (List.Subset.refl _)).bind fun _ => .pure

theorem raises_chainText (stop : ChainEnd) (ids : List BlockId) :
    Raises P (s.chainText render stop ids) := by
  induction ids with
  | nil => exact (h.settleEnd stop).bind fun _ => .pure
  | cons id rest ih =>
    refine .lookup_bind (h.missingBlock id) fun block hget => .during (h.cycle _ _) ?_
    exact (raises_blockCode h hrender hget).bind fun _ => ih.bind fun _ => .pure

end

theorem raises_renderAt (h : s.Admits P) (depth : Nat) (id : BlockId) (extent : Extent) :
    Raises P (s.renderAt depth id extent) := by
  induction depth generalizing id extent with
  | zero => exact Triple.tooDeep
  | succ depth ih =>
    refine .lookup_bind (h.missingBlock id) fun block hget => .during (h.cycle _ _) ?_
    refine (raises_blockCode h ih hget).bind fun code => ?_
    cases extent with
    | alone => exact .pure
    | chain => exact (raises_chainText h ih _ _).bind fun _ => .pure

/-- An error of a block is one that its routine, or that of a block below it, may throw. -/
theorem raises_renderBlock (h : s.Admits P) {extent : Extent} {pass : Pass} {e : GenerateError}
    (herror : (s.renderBlock id extent pass).1 = .error e) : P e :=
  (raises_renderAt h s.enoughDepth id extent).unlimited
    (fun taken => s.settles_renderEnough taken id extent) trivial e herror

theorem raises_topTexts (h : s.Admits P) {ids : List BlockId} {pass : Pass} {e : GenerateError}
    (herror : (s.topTexts ids pass).1 = .error e) : P e := by
  induction ids generalizing pass with
  | nil => cases herror
  | cons id rest ih =>
    rw [topTexts_cons] at herror
    rcases hcode : s.renderBlock id .chain pass with ⟨code, mid⟩
    rw [hcode] at herror
    cases code with
    | error found =>
      cases herror
      exact raises_renderBlock h (congrArg Prod.fst hcode)
    | ok code =>
      dsimp only at herror
      rcases htexts : s.topTexts rest mid with ⟨texts, after⟩
      rw [htexts] at herror
      cases texts with
      | error found =>
        cases herror
        exact ih (congrArg Prod.fst htexts)
      | ok texts => cases herror

/-- A custom type that is refused is that of a block, and has no text. -/
theorem admits_lacks (s : Setting) :
    s.Admits fun e => ∀ name, e = .unknownCustomType name → s.workspace.Lacks s.generator name where
  missingBlock := by rintro _ _ ⟨⟩
  cycle := by rintro _ _ _ ⟨⟩
  expectedValue := by rintro _ _ _ _ ⟨⟩
  expectedStatement := by rintro _ _ _ _ ⟨⟩
  unknownCustomType := by
    rintro _ hlacks _ ⟨⟩
    exact hlacks

end Setting

/-! ### Programs -/

namespace Generator

variable {g : Generator} {ws : Workspace} {name : String}

theorem generate_eq_unknownCustomType_iff :
    g.generate ws = .error (.unknownCustomType name) ↔ ws.LacksFirst g name := by
  rw [Workspace.lacksFirst_iff, generate, Setting.program_eq]
  dsimp only
  cases hfound : ws.blocks.toList.findSome? g.missingLiteral? with
  | some found => simp [Except.map]
  | none =>
    constructor
    · intro h
      cases htexts : (Setting.topTexts ⟨ws, g⟩ ws.topBlocks {}).1 with
      | ok texts =>
        rw [htexts] at h
        cases h
      | error e =>
        rw [htexts] at h
        cases h
        -- rendering refuses no type, since the search has found none
        have hlacks : ws.Lacks g name :=
          Setting.raises_topTexts (Setting.admits_lacks ⟨ws, g⟩) htexts name rfl
        have hspelled : ws.Spelled g := Workspace.spelled_iff.2 hfound
        exact absurd hlacks (Workspace.spelled_iff_not_lacks.1 hspelled name)
    · rintro ⟨⟩

/-- **Custom types are refused first, and only then.** The program of a workspace is refused for a custom type
exactly if that is the type of the first block, within reach or not, whose custom type has no text. It is refused
for a custom type whenever there is such a block, so whatever else is wrong with the workspace. If there is none,
no block that is rendered, in any pass, is refused for its custom type. -/
theorem generate_refuses_custom_types (g : Generator) (ws : Workspace) :
    (∀ name, g.generate ws = .error (.unknownCustomType name) ↔ ws.LacksFirst g name) ∧
      ((∃ name, g.generate ws = .error (.unknownCustomType name)) ↔ ∃ name, ws.Lacks g name) ∧
      ((∀ name, ¬ ws.Lacks g name) → ∀ id extent pass name,
        (Setting.renderBlock ⟨ws, g⟩ id extent pass).1 ≠ .error (.unknownCustomType name)) := by
  refine ⟨fun name => generate_eq_unknownCustomType_iff, ?_, fun hnone id extent pass name herror => ?_⟩
  · simp only [generate_eq_unknownCustomType_iff, Workspace.lacksFirst_iff]
    rw [← Option.ne_none_iff_exists', Ne, ← Workspace.spelled_iff, Workspace.spelled_iff_not_lacks]
    simp only [not_forall, not_not]
  · exact hnone name (Setting.raises_renderBlock (Setting.admits_lacks ⟨ws, g⟩) herror name rfl)

end Generator

/-- A negation that is plugged into itself, beside constants that nothing leads to. -/
def looseConstants : Workspace where
  blocks := #[
    { id := "b0", kind := .logicNot, inputs := [("BOOL", ⟨0⟩)] },
    { id := "b1", kind := .custom "tau" },
    { id := "b2", kind := .custom "pi" },
    { id := "b3", kind := .custom "e" }]
  top := [⟨0⟩]

theorem looseConstants_refused :
    Generator.generate { literals := [("tau", "6.28")] } looseConstants = .error (.unknownCustomType "pi") ∧
      (∀ name, ¬ looseConstants.Lacks { literals := [("e", "2.72"), ("pi", "3.14"), ("tau", "6.28")] } name) ∧
      (∀ extent pass name, (Setting.renderBlock
        ⟨looseConstants, { literals := [("e", "2.72"), ("pi", "3.14"), ("tau", "6.28")] }⟩ ⟨0⟩ extent pass).1 ≠
          .error (.unknownCustomType name)) ∧
      Generator.generate { literals := [("e", "2.72"), ("pi", "3.14"), ("tau", "6.28")] } looseConstants =
        .error (.cycle "b0" "logic_not") := by
  have hfirst : looseConstants.LacksFirst { literals := [("tau", "6.28")] } "pi" := by
    rw [Workspace.lacksFirst_iff]
    decide
  have hnone : ∀ name, ¬ looseConstants.Lacks
      { literals := [("e", "2.72"), ("pi", "3.14"), ("tau", "6.28")] } name := by
    rw [← Workspace.spelled_iff_not_lacks, Workspace.spelled_iff]
    decide
  refine ⟨((Generator.generate_refuses_custom_types _ looseConstants).1 "pi").2 hfirst, hnone, ?_, by cbv⟩
  exact (Generator.generate_refuses_custom_types _ looseConstants).2.2 hnone ⟨0⟩

end BlockProgram
