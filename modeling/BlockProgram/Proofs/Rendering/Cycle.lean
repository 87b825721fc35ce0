import BlockProgram.Generator.Program
import BlockProgram.Proofs.Rendering.Link
import BlockProgram.Proofs.Rendering.Triple
import BlockProgram.Proofs.Rendering.Walk

/-!
Cycles are found, and only cycles. What carries the argument, whatever the graph:

* every marked block leads to the block that is rendered next, so a block that is found marked lies on a
  cycle;
* once a block is rendered, every path from the blocks in its inputs ends, and every path from the block
  itself once its chain has ended too;
* a consumed block was rendered before, so its inputs need not be looked at again.

Three mechanisms notice a cycle (the marks, the walk along a chain of followers and the walk along the
items of a list), and each is covered by the same two facts about links.
-/

namespace BlockProgram

open Relation (TransGen ReflTransGen)

namespace Workspace

/-- Every path from the blocks in the inputs of a block ends. -/
def InputsEnd (ws : Workspace) (id : BlockId) : Prop :=
  ∀ child, ws.Plugs id child → ws.Ends child

/-- A cycle that is reported goes through a block with the id and the type name of the report. -/
def Reports (ws : Workspace) (e : GenerateError) : Prop :=
  ∀ id typeName, e = .cycle id typeName →
    ∃ a block, ws.get? a = some block ∧ block.id = id ∧ block.kind.typeName = typeName ∧ ws.OnCycle a

theorem reports_ofRepeated {ws : Workspace} {id : BlockId} {block : Block}
    (hget : ws.get? id = some block) (hcycle : ws.OnCycle id) : ws.Reports (.ofRepeated block) := by
  intro name typeName heq
  cases heq
  exact ⟨id, block, hget, rfl, rfl, hcycle⟩

/-- A pass that renders the blocks `taken`, and whose consumed blocks have been rendered. -/
structure Visiting (ws : Workspace) (taken : List BlockId) (pass : Pass) : Prop where
  rendering : pass.rendering = taken
  consumed : ∀ id ∈ pass.consumed, ws.InputsEnd id

end Workspace

open Workspace

namespace Rendering

variable {α β : Type} {ws : Workspace} {taken : List BlockId} {id : BlockId} {block : Block}

/-- A step during which the marks and the consumed blocks stay as they should be; it ends with a value
for which `done` holds, or with an error that reports no cycle but a real one. -/
def Visits (ws : Workspace) (taken : List BlockId) (step : Rendering α) (done : α → Prop) : Prop :=
  Triple (ws.Visiting taken) step fun result after =>
    ws.Visiting taken after ∧
      match result with
      | .ok a => done a
      | .error e => ws.Reports e

variable {step : Rendering α} {done : α → Prop} {done' : β → Prop}

theorem Visits.mono {weaker : α → Prop} (h : Visits ws taken step done)
    (hdone : ∀ a, done a → weaker a) : Visits ws taken step weaker := by
  refine Triple.mono h (fun _ hpass => hpass) fun result after hpost => ⟨hpost.1, ?_⟩
  cases result with
  | ok a => exact hdone a hpost.2
  | error e => exact hpost.2

theorem Visits.pure {a : α} (h : done a) : Visits ws taken (Pure.pure a) done :=
  Triple.pure fun _ hpass => ⟨hpass, h⟩

theorem Visits.throw {e : GenerateError} (h : ws.Reports e) :
    Visits ws taken (MonadExcept.throw e : Rendering α) done :=
  Triple.throw fun _ hpass => ⟨hpass, h⟩

theorem Visits.bind {next : α → Rendering β} (hstep : Visits ws taken step done)
    (hnext : ∀ a, done a → Visits ws taken (next a) done') : Visits ws taken (step >>= next) done' := by
  refine Triple.bind hstep (fun a pass hpass => ?_) fun e pass hpass => hpass
  exact hnext a hpass.2 pass hpass.1

theorem reports_missing (id : BlockId) : ws.Reports (.missingBlock id) := by
  intro _ _ heq
  cases heq

theorem Visits.lookup_bind {next : Block → Rendering β}
    (hnext : ∀ block, ws.get? id = some block → Visits ws taken (next block) done') :
    Visits ws taken (lookup ws id >>= next) done' :=
  Triple.lookup_bind hnext fun _ _ hpass => ⟨hpass, reports_missing id⟩

/-- A block that is marked already lies on a cycle; any other one is visited while it is marked. -/
theorem Visits.during (hcycle : id ∈ taken → ws.Reports (.ofRepeated block))
    (hbody : Visits ws (id :: taken) step done) : Visits ws taken (during id block step) done := by
  refine Triple.during (fun pass hpass hmarked => ⟨hpass, ?_⟩) ?_
  · rw [hpass.rendering] at hmarked
    exact hcycle hmarked
  · refine Triple.mono hbody ?_ fun result after hpost => ⟨⟨?_, hpost.1.consumed⟩, hpost.2⟩
    · rintro _ ⟨pass, hpass, -, rfl⟩
      exact ⟨by simp [Pass.enter, hpass.rendering], hpass.consumed⟩
    · simp [Pass.leave, hpost.1.rendering]

theorem Visits.consume (h : ws.InputsEnd id) : Visits ws taken (consume id) fun _ => True := by
  refine Triple.consume fun pass hpass => ⟨⟨?_, fun other hother => ?_⟩, trivial⟩
  · unfold Pass.consume
    split <;> exact hpass.rendering
  · unfold Pass.consume at hother
    split at hother
    · exact hpass.consumed other hother
    · rcases List.mem_cons.1 hother with rfl | hother
      · exact h
      · exact hpass.consumed other hother

/-- A block that turns out to be consumed has been rendered. -/
theorem Visits.takeConsumed :
    Visits ws taken (takeConsumed id) fun consumed => consumed = true → ws.InputsEnd id := by
  refine Triple.takeConsumed fun pass hpass => ⟨⟨hpass.rendering, fun other hother => ?_⟩, fun h => ?_⟩
  · exact hpass.consumed other (List.mem_of_mem_erase hother)
  · exact hpass.consumed id (of_decide_eq_true h)

end Rendering

namespace Setting

open Rendering

variable {s : Setting} {render : Renderer} {taken : List BlockId} {id : BlockId} {block : Block}

/-- Every block that is not marked is visited, if all marked blocks lead to it. -/
def Explores (s : Setting) (render : Renderer) : Prop :=
  ∀ (taken : List BlockId) (id : BlockId) (extent : Extent),
    (∀ marked ∈ taken, TransGen s.workspace.Link marked id) →
    Visits s.workspace taken (render id extent) fun _ =>
      s.workspace.InputsEnd id ∧ (extent = .chain → s.workspace.Ends id)

/-- From an input of a block that a template reads, every path ends. -/
def InputEnds (s : Setting) (block : Block) (input : String) : Prop :=
  ∀ child, block.input? input = some child → s.workspace.Ends child

/-- All marked blocks lead to a block, or are it. -/
def Leads (s : Setting) (taken : List BlockId) (id : BlockId) : Prop :=
  ∀ marked ∈ taken, ReflTransGen s.workspace.Link marked id

theorem Leads.link (h : s.Leads taken id) {next : BlockId} (hlink : s.workspace.Link id next) :
    ∀ marked ∈ taken, TransGen s.workspace.Link marked next :=
  fun marked hmarked => TransGen.tail' (h marked hmarked) hlink

/-- A block that is entered is marked, and leads to itself. -/
theorem leads_enter (h : ∀ marked ∈ taken, TransGen s.workspace.Link marked id) :
    s.Leads (id :: taken) id := by
  intro marked hmarked
  rcases List.mem_cons.1 hmarked with rfl | hmarked
  · exact .refl
  · exact (h marked hmarked).to_reflTransGen

theorem visits_valueText (hrender : s.Explores render) {input : String} {order : Order}
    (hlead : ∀ child, block.input? input = some child →
      ∀ marked ∈ taken, TransGen s.workspace.Link marked child) :
    Visits s.workspace taken (s.valueText render block input order) fun _ =>
      s.InputEnds block input := by
  unfold valueText InputEnds
  cases hinput : block.input? input with
  | none => exact .pure fun child h => by cases h
  | some child =>
    refine .bind (hrender taken child .chain (hlead child hinput)) ?_
    intro code hends
    cases code with
    | expression => exact .pure fun other h => by cases h; exact hends.2 rfl
    | statement => exact .throw fun _ _ heq => by cases heq

theorem visits_valueOr (hrender : s.Explores render) {input : String} {order : Order}
    (placeholder : String)
    (hlead : ∀ child, block.input? input = some child →
      ∀ marked ∈ taken, TransGen s.workspace.Link marked child) :
    Visits s.workspace taken (s.valueOr render block input order placeholder) fun _ =>
      s.InputEnds block input :=
  .bind (visits_valueText hrender hlead) fun _ h => .pure h

theorem visits_bodyText (hrender : s.Explores render) {input : String}
    (hlead : ∀ child, block.input? input = some child →
      ∀ marked ∈ taken, TransGen s.workspace.Link marked child) :
    Visits s.workspace taken (s.bodyText render block input) fun _ => s.InputEnds block input := by
  unfold bodyText InputEnds
  cases hinput : block.input? input with
  | none => exact .pure fun child h => by cases h
  | some child =>
    refine .bind (hrender taken child .chain (hlead child hinput)) ?_
    intro code hends
    cases code with
    | expression => exact .throw fun _ _ heq => by cases heq
    | statement => exact .pure fun other h => by cases h; exact hends.2 rfl

/-! ### Chains -/

/-- All marked blocks, and all blocks passed on the way, lead to the next block. -/
def LeadsOn (s : Setting) (blocks : List BlockId) (next : Option BlockId) : Prop :=
  ∀ id, next = some id → ∀ other ∈ blocks, TransGen s.workspace.Link other id

/-- Going on from a block, that block leads to the next one too. -/
theorem LeadsOn.step {blocks : List BlockId} (h : s.LeadsOn blocks (some id))
    (hget : s.workspace.get? id = some block) : s.LeadsOn (id :: blocks) block.next := by
  intro next hnext other hother
  have hlink : s.workspace.Link id next := .inr ⟨block, hget, hnext⟩
  rcases List.mem_cons.1 hother with rfl | hother
  · exact .single hlink
  · exact (h id rfl other hother).tail hlink

/-- A chain that leads to a block it has passed is a cycle. -/
theorem visits_settleEnd {α : Type} {passed : List BlockId} {next : Option BlockId} {stop : ChainEnd}
    {a : α} (hwalk : s.workspace.Walks passed next [] stop) (hpassed : s.LeadsOn passed next) :
    Visits s.workspace taken
      (do
        settleEnd s.workspace stop
        return a)
      fun _ => ∀ id, next = some id → s.workspace.Ends id := by
  cases hwalk with
  | complete =>
    have hstop : Visits s.workspace taken (settleEnd s.workspace .complete) fun _ => True :=
      .pure trivial
    exact .bind hstop fun _ _ => .pure fun id h => by cases h
  | @missing _ id hget =>
    have hthrow : Visits s.workspace taken (settleEnd s.workspace (.missing id)) fun _ => False :=
      .throw (reports_missing id)
    exact .bind hthrow fun _ h => h.elim
  | @back _ id _ hget hid =>
    have hthrow : Visits s.workspace taken (settleEnd s.workspace (.back id)) fun _ => False :=
      .lookup_bind fun block hget => .throw (reports_ofRepeated hget (hpassed id rfl id hid))
    exact .bind hthrow fun _ h => h.elim

/-- From a block whose inputs and whose next block end, every path ends. -/
theorem ends_of_next (hget : s.workspace.get? id = some block) (hinputs : s.workspace.InputsEnd id)
    (hnext : ∀ next, block.next = some next → s.workspace.Ends next) : s.workspace.Ends id := by
  refine .of_link ?_
  intro b hlink
  rcases hlink with hplugs | ⟨other, hother, hb⟩
  · exact hinputs b hplugs
  · rw [hget] at hother
    cases hother
    exact hnext b hb

theorem visits_itemTexts (hrender : s.Explores render) (input : String) {passed : List BlockId}
    {next : Option BlockId} {items : List BlockId} {stop : ChainEnd}
    (hwalk : s.workspace.Walks passed next items stop) (htaken : s.LeadsOn taken next)
    (hpassed : s.LeadsOn passed next) :
    Visits s.workspace taken (s.itemTexts render block input stop items) fun _ =>
      ∀ id, next = some id → s.workspace.Ends id := by
  induction items generalizing passed next with
  | nil => exact visits_settleEnd hwalk hpassed
  | cons item rest ih =>
    cases hwalk with
    | step hget hid hrest =>
      refine .bind (hrender taken item .alone (htaken item rfl)) ?_
      intro code hinputs
      cases code with
      | expression => exact .throw fun _ _ heq => by cases heq
      | statement =>
        have htaken' : s.LeadsOn taken _ := fun next hnext other hother =>
          (htaken item rfl other hother).tail (.inr ⟨_, hget, hnext⟩)
        refine .bind (ih hrest htaken' (hpassed.step hget)) fun texts hends => .pure ?_
        intro id h
        cases h
        exact ends_of_next hget hinputs.1 hends

theorem visits_chainItems (hrender : s.Explores render) {input : String}
    (hlead : ∀ child, block.input? input = some child →
      ∀ marked ∈ taken, TransGen s.workspace.Link marked child) :
    Visits s.workspace taken (s.chainItems render block input) fun _ => s.InputEnds block input :=
  visits_itemTexts hrender input (walks_walk s.workspace [] (block.input? input)) hlead
    (by simp [LeadsOn])

/-! ### Pieces -/

theorem visits_argumentsText (hrender : s.Explores render)
    (hlead : ∀ next, block.next = some next →
      ∀ marked ∈ taken, TransGen s.workspace.Link marked next) :
    Visits s.workspace taken (argumentsText render block) fun _ => True := by
  unfold argumentsText
  cases hnext : block.next with
  | none => exact .pure trivial
  | some params =>
    refine .bind (hrender taken params .alone (hlead params hnext)) ?_
    intro code hinputs
    exact .bind (.consume hinputs.1) fun _ _ => .pure trivial

/-- A piece is visited, and with it the input that it reads. -/
theorem visits_pieceText (hrender : s.Explores render) (hget : s.workspace.get? id = some block)
    (hlead : s.Leads taken id) {piece : Piece} (hpiece : piece ∈ block.kind.template.pieces) :
    Visits s.workspace taken (s.pieceText render id block piece) fun _ =>
      ∀ input, piece.input? = some input → s.InputEnds block input := by
  have hplugs {input : String} (hinput : piece.input? = some input) (child : BlockId)
      (hchild : block.input? input = some child) : s.workspace.Plugs id child :=
    ⟨block, hget, input, Piece.mem_inputs hpiece hinput, hchild⟩
  have hinput {input : String} (hinput : piece.input? = some input) (child : BlockId)
      (hchild : block.input? input = some child) :
      ∀ marked ∈ taken, TransGen s.workspace.Link marked child :=
    hlead.link (.inl (hplugs hinput child hchild))
  cases piece with
  | text | field | quoted => exact .pure fun _ h => by cases h
  | value input order placeholder =>
    exact (visits_valueOr hrender placeholder (hinput rfl)).mono fun _ h _ heq => by cases heq; exact h
  | body input =>
    exact (visits_bodyText hrender (hinput rfl)).mono fun _ h _ heq => by cases heq; exact h
  | list input | properties input =>
    exact .bind (visits_chainItems hrender (hinput rfl)) fun _ h =>
      .pure fun _ heq => by cases heq; exact h
  | callee input order placeholder =>
    exact .bind (visits_valueOr hrender placeholder (hinput rfl)) fun _ h =>
      .pure fun _ heq => by cases heq; exact h
  | arguments =>
    have hnext : ∀ next, block.next = some next →
        ∀ marked ∈ taken, TransGen s.workspace.Link marked next :=
      fun next h => hlead.link (.inr ⟨block, hget, h⟩)
    exact (visits_argumentsText hrender hnext).mono fun _ _ _ heq => by cases heq
  | parameters input =>
    refine .bind .takeConsumed ?_
    intro consumed hconsumed
    cases consumed with
    | true =>
      refine .pure ?_
      intro _ heq child hchild
      cases heq
      exact hconsumed rfl child (hplugs rfl child hchild)
    | false =>
      exact .bind (visits_chainItems hrender (hinput rfl)) fun _ h =>
        .pure fun _ heq => by cases heq; exact h
  | literal name =>
    rw [pieceText]
    cases s.generator.literal? name with
    | none => exact .throw fun _ _ heq => by cases heq
    | some text => exact .pure fun _ h => by cases h

theorem visits_piecesText (hrender : s.Explores render) (hget : s.workspace.get? id = some block)
    (hlead : s.Leads taken id) {pieces : List Piece}
    (hpieces : ∀ piece ∈ pieces, piece ∈ block.kind.template.pieces) :
    Visits s.workspace taken (s.piecesText render id block pieces) fun _ =>
      ∀ piece ∈ pieces, ∀ input, piece.input? = some input → s.InputEnds block input := by
  induction pieces with
  | nil => exact .pure fun _ h => by cases h
  | cons piece rest ih =>
    refine .bind (visits_pieceText hrender hget hlead (hpieces piece (List.mem_cons_self ..)))
      fun text hpiece => ?_
    refine .bind (ih fun other hother => hpieces other (List.mem_cons_of_mem _ hother))
      fun more hrest => .pure fun other hother => ?_
    rcases List.mem_cons.1 hother with rfl | hother
    · exact hpiece
    · exact hrest other hother

/-- The routine of a block visits all inputs that its template reads. -/
theorem visits_blockCode (hrender : s.Explores render) (hget : s.workspace.get? id = some block)
    (hlead : s.Leads taken id) :
    Visits s.workspace taken (s.blockCode render id block) fun _ => s.workspace.InputsEnd id := by
  refine .bind (visits_piecesText hrender hget hlead fun _ h => h) fun text hpieces => .pure ?_
  rintro child ⟨other, hother, input, hinput, hchild⟩
  rw [hget] at hother
  cases hother
  obtain ⟨piece, hpiece, hpieceInput⟩ := List.mem_filterMap.1 hinput
  exact hpieces piece hpiece input hpieceInput child hchild

/-! ### Blocks with their chains -/

theorem visits_chainText (hrender : s.Explores render) {passed : List BlockId}
    {next : Option BlockId} {ids : List BlockId} {stop : ChainEnd}
    (hwalk : s.workspace.Walks passed next ids stop) (htaken : s.LeadsOn taken next)
    (hpassed : s.LeadsOn passed next) :
    Visits s.workspace taken (s.chainText render stop ids) fun _ =>
      ∀ id, next = some id → s.workspace.Ends id := by
  induction ids generalizing passed next taken with
  | nil => exact visits_settleEnd hwalk hpassed
  | cons id rest ih =>
    cases hwalk with
    | step hget hid hrest =>
      refine .lookup_bind ?_
      intro block hother
      rw [hget] at hother
      cases hother
      refine .during (fun hmarked => reports_ofRepeated hget (htaken id rfl id hmarked)) ?_
      refine .bind (visits_blockCode hrender hget (leads_enter (htaken id rfl))) ?_
      intro code hinputs
      refine .bind (ih hrest (htaken.step hget) (hpassed.step hget)) fun after hends => .pure ?_
      intro other h
      cases h
      exact ends_of_next hget hinputs hends

/-- Rendering visits every block, to any depth. -/
theorem explores_renderAt (s : Setting) (depth : Nat) : s.Explores (s.renderAt depth) := by
  induction depth with
  | zero => exact fun _ _ _ _ => Triple.tooDeep
  | succ depth ih =>
    intro taken id extent htaken
    refine .lookup_bind ?_
    intro block hget
    refine .during (fun hmarked => reports_ofRepeated hget (htaken id hmarked)) ?_
    refine .bind (visits_blockCode ih hget (leads_enter htaken)) ?_
    intro code hinputs
    cases extent with
    | alone => exact .pure ⟨hinputs, fun h => by cases h⟩
    | chain =>
      have hnext : s.LeadsOn (id :: taken) block.next :=
        LeadsOn.step (fun other h => by cases h; exact htaken) hget
      have hback : s.LeadsOn [id] block.next :=
        LeadsOn.step (fun other _ marked hmarked => by cases hmarked) hget
      refine .bind (visits_chainText ih (walks_followers hget) hnext hback) fun after hends => .pure ?_
      exact ⟨hinputs, fun _ => ends_of_next hget hinputs hends⟩

/-! ### The canvas -/

/-- A run ends with a value only if all paths end, and reports no cycle but a real one. -/
def Visited {α : Type} (s : Setting) (ends : Prop) : Except GenerateError α → Prop
  | .ok _ => ends
  | .error e => s.workspace.Reports e

theorem visiting_start (ws : Workspace) : ws.Visiting [] {} :=
  ⟨rfl, fun _ h => by cases h⟩

/-- A run in which no block is being rendered visits a block with its chain. -/
theorem visits_renderBlock {pass mid : Pass} (hpass : s.workspace.Visiting [] pass)
    {result : Except GenerateError Code} (h : s.renderBlock id .chain pass = (result, mid)) :
    s.workspace.Visiting [] mid ∧ s.Visited (s.workspace.Ends id) result := by
  have hexplores := explores_renderAt s s.enoughDepth [] id .chain fun _ hmarked => by cases hmarked
  have hvisit := (hexplores.mono fun _ hvisited => hvisited.2 rfl).unlimited
    (fun taken => s.settles_renderEnough taken id .chain) hpass
  rw [← renderBlock, h] at hvisit
  refine ⟨hvisit.1, ?_⟩
  cases result <;> exact hvisit.2

theorem visits_topTexts {ids : List BlockId} {pass after : Pass}
    (hpass : s.workspace.Visiting [] pass) {result : Except GenerateError (List Text)}
    (h : s.topTexts ids pass = (result, after)) :
    s.Visited (∀ id ∈ ids, s.workspace.Ends id) result := by
  induction ids generalizing pass result after with
  | nil =>
    cases h
    exact fun id hid => by cases hid
  | cons id rest ih =>
    rw [topTexts_cons] at h
    rcases hcode : s.renderBlock id .chain pass with ⟨code, mid⟩
    have hfirst := visits_renderBlock hpass hcode
    rw [hcode] at h
    cases code with
    | error e =>
      cases h
      exact hfirst.2
    | ok code =>
      dsimp only at h
      rcases htexts : s.topTexts rest mid with ⟨texts, last⟩
      have hrest := ih hfirst.1 htexts
      rw [htexts] at h
      cases texts with
      | error e =>
        cases h
        exact hrest
      | ok texts =>
        cases h
        intro other hother
        rcases List.mem_cons.1 hother with rfl | hother
        · exact hfirst.2
        · exact hrest other hother

/-- A program is only made of blocks from which every path ends. -/
theorem ends_of_program {text : Text} (h : s.program = .ok text) {top : BlockId}
    (htop : top ∈ s.workspace.top) : s.workspace.Ends top := by
  rw [program_eq] at h
  split at h
  · cases h
  · rcases htexts : s.topTexts s.workspace.topBlocks {} with ⟨texts, after⟩
    have hvisit := visits_topTexts (visiting_start s.workspace) htexts
    cases texts with
    | error e =>
      rw [htexts] at h
      cases h
    | ok texts => exact hvisit top (List.mem_mergeSort.2 htop)

theorem reports_of_program {e : GenerateError} (h : s.program = .error e) : s.workspace.Reports e := by
  rw [program_eq] at h
  split at h
  · cases h
    exact fun _ _ heq => by cases heq
  · rcases htexts : s.topTexts s.workspace.topBlocks {} with ⟨texts, after⟩
    have hvisit := visits_topTexts (visiting_start s.workspace) htexts
    rw [htexts] at h
    cases texts with
    | error e =>
      cases h
      exact hvisit
    | ok texts => cases h

end Setting

/-- A workspace that has a program has no cycle within reach of its canvas, and one that is refused for
a cycle has a block with the reported id and type on a cycle. -/
theorem Generator.generate_finds_cycles (g : Generator) (ws : Workspace) :
    (∀ code, g.generate ws = .ok code →
      ∀ top ∈ ws.top, ∀ a, ReflTransGen ws.Link top a → ¬ ws.OnCycle a) ∧
    (∀ id typeName, g.generate ws = .error (.cycle id typeName) →
      ∃ a block, ws.get? a = some block ∧ block.id = id ∧ block.kind.typeName = typeName ∧
        ws.OnCycle a) := by
  constructor
  · intro code h top htop a hreach
    obtain ⟨text, htext⟩ : ∃ text, Setting.program ⟨ws, g⟩ = .ok text := by
      rw [generate] at h
      cases hprogram : Setting.program ⟨ws, g⟩ with
      | error e => rw [hprogram] at h; cases h
      | ok text => exact ⟨text, rfl⟩
    exact ((Setting.ends_of_program htext htop).reaches hreach).not_onCycle
  · intro id typeName h
    have hprogram : Setting.program ⟨ws, g⟩ = .error (.cycle id typeName) := by
      rw [generate] at h
      cases hprogram : Setting.program ⟨ws, g⟩ with
      | error e => rw [hprogram] at h; cases h; rfl
      | ok text => rw [hprogram] at h; cases h
    exact Setting.reports_of_program hprogram id typeName rfl

/-- A negation that is plugged into itself. -/
def selfNegation : Workspace where
  blocks := #[{ id := "b0", kind := .logicNot, inputs := [("BOOL", ⟨0⟩)] }]
  top := [⟨0⟩]

/-- A variable that is both operands of a sum. -/
def sharedOperand : Workspace where
  blocks :=
    #[{ id := "b0", kind := .anyConcat, inputs := [("A", ⟨1⟩), ("B", ⟨1⟩)] },
      { id := "b1", kind := .variableReference, fields := [("VAR_NAME", "x")] }]
  top := [⟨0⟩]

/-- A block that leads to itself is reported, and one that is only shared is not. -/
theorem cycle_and_shared_operand :
    (Generator.generate {} selfNegation = .error (.cycle "b0" "logic_not") ∧
      ∃ a block, selfNegation.get? a = some block ∧ block.id = "b0" ∧
        block.kind.typeName = "logic_not" ∧ selfNegation.OnCycle a) ∧
    (Generator.generate {} sharedOperand = .ok "x + x;" ∧ ¬ sharedOperand.OnCycle ⟨0⟩) := by
  have hrefused : Generator.generate {} selfNegation = .error (.cycle "b0" "logic_not") := by
    cbv
  have hshared : Generator.generate {} sharedOperand = .ok "x + x;" := by
    cbv
  exact ⟨⟨hrefused, (Generator.generate_finds_cycles {} selfNegation).2 _ _ hrefused⟩,
    hshared, (Generator.generate_finds_cycles {} sharedOperand).1 _ hshared _ (.head _) _ .refl⟩

end BlockProgram
