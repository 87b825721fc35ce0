import BlockProgram.Proofs.Forest.Parts

/-!
Which loaded workspaces have code. Two things are asked: that every custom type has a text, and that
the blocks within reach fit where they are plugged in. A value socket takes a block that is no statement,
a body a statement, and a chain of items nothing but statements; which of these an input is the template of
its block says. All else a workspace may lack: what is not plugged in has a placeholder, and a forest has
neither cycles nor links that lead nowhere.

That a block is where it may not be is noticed even where parameters are skipped, since the call before
them has read them. So the two conditions are exact (`Generator.generate_ok_iff_fits`), and an error says
which of them fails.
-/

namespace BlockProgram

open Relation (ReflTransGen)

/-! ### Sockets -/

/-- What an input takes. -/
inductive Socket where
  /-- A block that gives an expression. -/
  | value
  /-- A statement, with the blocks after it. -/
  | body
  /-- A chain of statements. -/
  | items
  deriving DecidableEq, Repr

/-- The input that a piece reads, and what that takes. -/
def Piece.socket? : Piece → Option (Socket × String)
  | .value input _ _ | .callee input _ _ => some (.value, input)
  | .body input => some (.body, input)
  | .list input | .properties input | .parameters input => some (.items, input)
  | _ => none

/-- The inputs that the template of a kind reads, and what they take. -/
def BlockKind.sockets (kind : BlockKind) : List (Socket × String) :=
  kind.template.pieces.filterMap Piece.socket?

namespace Workspace

variable {ws : Workspace} {g : Generator}

/-- What is plugged into the sockets of a block are blocks of the kinds that they take. -/
structure Fits (ws : Workspace) (block : Block) : Prop where
  value : ∀ {input child plugged}, (.value, input) ∈ block.kind.sockets →
    block.input? input = some child → ws.get? child = some plugged → plugged.kind.isStatement = false
  body : ∀ {input child plugged}, (.body, input) ∈ block.kind.sockets →
    block.input? input = some child → ws.get? child = some plugged → plugged.kind.isStatement = true
  items : ∀ {input first item plugged}, (.items, input) ∈ block.kind.sockets →
    block.input? input = some first → ReflTransGen ws.Precedes first item →
      ws.get? item = some plugged → plugged.kind.isStatement = true

/-- Every block within reach of the canvas fits. -/
def AllFit (ws : Workspace) : Prop :=
  ∀ id block, ws.Reached id → ws.get? id = some block → ws.Fits block

/-- Every custom type has a text. -/
def Spelled (ws : Workspace) (g : Generator) : Prop :=
  ∀ id block name, ws.get? id = some block → block.kind = .custom name → (g.literal? name).isSome

/-- The custom types are looked for in all blocks. -/
theorem spelled_iff : ws.Spelled g ↔ ws.blocks.toList.findSome? g.missingLiteral? = none := by
  rw [List.findSome?_eq_none_iff]
  constructor
  · intro h block hblock
    obtain ⟨i, hi⟩ := List.mem_iff_getElem?.1 hblock
    rw [Array.getElem?_toList] at hi
    rw [Generator.missingLiteral?]
    split
    · next name hkind => rw [if_pos (h ⟨i⟩ block name hi hkind)]
    · rfl
  · intro h id block name hget hkind
    have hmem : block ∈ ws.blocks.toList :=
      List.mem_iff_getElem?.2 ⟨id.index, by rw [Array.getElem?_toList]; exact hget⟩
    have hnone := h block hmem
    rw [Generator.missingLiteral?, hkind] at hnone
    by_contra hliteral
    dsimp only at hnone
    rw [if_neg hliteral] at hnone
    cases hnone

end Workspace

/-! ### Kinds along a chain -/

namespace Stack

variable {ws : Workspace} {stack : Stack} {first id : BlockId} {block : Block}

/-- The kinds of the blocks of the chain. -/
def kinds : Stack → List BlockKind
  | .nil => []
  | .cons _ block _ rest => block.kind :: rest.kinds

theorem map_kind_segments (g : Generator) (rule : ChainRule) (stack : Stack) :
    (stack.segments g rule).map Segment.kind = stack.kinds := by
  induction stack with
  | nil => rw [segments_nil, kinds, List.map_nil]
  | cons id block sockets rest ih => rw [segments_cons, kinds, List.map_cons, ih]

/-- A stack that starts at a block is that block with more. -/
theorem At.exists_cons (h : stack.At ws (some id)) (hget : ws.get? id = some block) :
    ∃ sockets rest, stack = cons id block sockets rest := by
  cases stack with
  | nil => cases h
  | cons other found sockets rest =>
    obtain ⟨heq, hfound, -, -⟩ := h
    cases heq
    rw [hget] at hfound
    cases hfound
    exact ⟨sockets, rest, rfl⟩

/-- The blocks that come after the first block of a stack are those of its chain. -/
theorem At.mem_kinds (h : stack.At ws (some first)) (hafter : ReflTransGen ws.Precedes first id)
    (hget : ws.get? id = some block) : block.kind ∈ stack.kinds := by
  induction hafter using ReflTransGen.head_induction_on generalizing stack with
  | refl =>
    obtain ⟨sockets, rest, rfl⟩ := h.exists_cons hget
    exact List.mem_cons_self ..
  | head hprecedes _ ih =>
    cases stack with
    | nil => cases h
    | cons other found sockets rest =>
      obtain ⟨heq, hfound, -, hrest⟩ := h
      cases heq
      obtain ⟨previous, hprevious, hnext⟩ := hprecedes
      rw [hfound] at hprevious
      cases hprevious
      rw [hnext] at hrest
      exact List.mem_cons_of_mem _ (ih hrest)

theorem At.exists_of_mem_kinds {kind : BlockKind} (h : stack.At ws (some first))
    (hkind : kind ∈ stack.kinds) : ∃ id block, ReflTransGen ws.Precedes first id ∧
      ws.get? id = some block ∧ block.kind = kind := by
  induction stack generalizing first with
  | nil => cases h
  | cons other found sockets rest ih =>
    obtain ⟨heq, hfound, -, hrest⟩ := h
    cases heq
    rcases List.mem_cons.1 hkind with rfl | hkind
    · exact ⟨other, found, .refl, hfound, rfl⟩
    · cases hnext : found.next with
      | none =>
        rw [hnext] at hrest
        cases rest with
        | nil => cases hkind
        | cons => cases hrest.1
      | some next =>
        rw [hnext] at hrest
        obtain ⟨id, block, hafter, hget, hkind⟩ := ih hrest hkind
        exact ⟨id, block, .head ⟨found, hfound, hnext⟩ hafter, hget, hkind⟩

end Stack

/-! ### Blocks with code fit -/

theorem Code.expression_ne_statement (text : Text) (order : Order) :
    ¬ ∃ statements, Code.expression text order = .statement statements := by
  rintro ⟨statements, heq⟩
  cases heq

namespace Segment

/-- A segment whose code is an expression is no statement, and the other way round. -/
theorem Proper.isStatement {segment : Segment} (h : segment.Proper)
    {arguments : Except GenerateError Text} {code : Code} (hcode : segment.code arguments = .ok code) :
    (∃ text, code = .statement text) ↔ segment.kind.isStatement = true := by
  obtain ⟨text, rfl⟩ := h.shape arguments code hcode
  rw [← BlockKind.shape_eq_statement_iff]
  cases segment.kind.template.shape with
  | statement => exact iff_of_true ⟨text, rfl⟩ rfl
  | expression order =>
    exact iff_of_false (Code.expression_ne_statement text order) fun heq => by cases heq

/-- The code of a chain is a statement exactly if its first block is one. -/
theorem Proper.isStatement_chain {rule : ChainRule} {first : Segment} {rest : List Segment}
    (h : first.Proper) {code : Code} (hcode : chainCode rule first rest = .ok code) :
    (∃ text, code = .statement text) ↔ first.kind.isStatement = true := by
  obtain ⟨own, hown, hcode⟩ := exists_of_bind hcode
  obtain ⟨after, -, hcode⟩ := exists_of_bind hcode
  obtain rfl := Except.ok.inj hcode
  rw [← h.isStatement hown]
  cases own with
  | statement text => exact iff_of_true ⟨text ++ after, rfl⟩ ⟨text, rfl⟩
  | expression text order =>
    exact iff_of_false (Code.expression_ne_statement _ order) (Code.expression_ne_statement text order)

end Segment

namespace Block

variable {g : Generator} {rule : ChainRule} {plugged : String → List Segment} {block : Block}
  {input : String} {first : Segment} {rest : List Segment}

theorem isStatement_of_valueText {order : Order} {text : Text}
    (h : block.valueText rule plugged input order = .ok text) (hplugged : plugged input = first :: rest)
    (hfirst : first.Proper) : first.kind.isStatement = false := by
  obtain ⟨shown, childOrder, hcode, -⟩ := valueText_ok h hplugged
  rw [← Bool.not_eq_true, ← hfirst.isStatement_chain hcode]
  exact Code.expression_ne_statement shown childOrder

theorem isStatement_of_bodyText {text : Text} (h : block.bodyText g rule plugged input = .ok text)
    (hplugged : plugged input = first :: rest) (hfirst : first.Proper) :
    first.kind.isStatement = true := by
  obtain ⟨inner, hcode, -⟩ := bodyText_ok h hplugged
  exact (hfirst.isStatement_chain hcode).1 ⟨inner, rfl⟩

theorem isStatement_of_itemTexts {segments : List Segment} {texts : List Text}
    (h : block.itemTexts input segments = .ok texts) (hproper : ∀ segment ∈ segments, segment.Proper) :
    ∀ segment ∈ segments, segment.kind.isStatement = true := by
  induction segments generalizing texts with
  | nil => exact fun segment hsegment => by cases hsegment
  | cons item rest ih =>
    rw [List.forall_mem_cons] at hproper ⊢
    obtain ⟨text, more, hcode, hmore, -⟩ := itemTexts_ok h
    rw [Segment.ownCode] at hcode
    exact ⟨(hproper.1.isStatement hcode).1 ⟨text, rfl⟩, ih hmore hproper.2⟩

end Block

/-- A block whose stack has text fits. -/
theorem Stack.fits_of_text {ws : Workspace} {g : Generator} {id : BlockId} {block : Block}
    {sockets : Sockets} {rest : Stack} {text : Text} (hat : (cons id block sockets rest).At ws (some id))
    (htext : (cons id block sockets rest).text g Segment.spent = .ok text) : ws.Fits block := by
  obtain ⟨code, -, hown, -⟩ := text_cons_eq htext
  rw [segments_cons, Segment.ownCode] at hown
  have hpart := Block.exists_of_code hown
  have hplugged {input : String} {child : BlockId} (hinput : block.input? input = some child) :
      (sockets.find input).At ws (some child) := by
    have hfind := hat.2.2.1.find input
    rwa [← Block.input?, hinput] at hfind
  have hfirst {input : String} {child : BlockId} {plugged : Block}
      (hinput : block.input? input = some child) (hget : ws.get? child = some plugged) :
      ∃ first others, sockets.segments g Segment.spent input = first :: others ∧ first.Proper ∧
        first.kind = plugged.kind := by
    obtain ⟨inner, others, hcons⟩ := (hplugged hinput).exists_cons hget
    rw [Sockets.segments_eq, hcons, segments_cons]
    exact ⟨_, _, rfl, Block.proper .., rfl⟩
  constructor
  · intro input child plugged hsocket hinput hget
    obtain ⟨piece, hpiece, hread⟩ := List.mem_filterMap.1 hsocket
    obtain ⟨part, hpart⟩ := hpart piece hpiece
    obtain ⟨first, others, hsegments, hproper, hkind⟩ := hfirst hinput hget
    rw [← hkind]
    cases piece with
    | value name order placeholder =>
      cases hread
      obtain ⟨text, htext, -⟩ := exists_of_bind hpart
      exact Block.isStatement_of_valueText htext hsegments hproper
    | callee name order placeholder =>
      cases hread
      obtain ⟨shown, hshown, -⟩ := exists_of_bind hpart
      obtain ⟨text, htext, -⟩ := exists_of_bind hshown
      exact Block.isStatement_of_valueText htext hsegments hproper
    | _ => cases hread
  · intro input child plugged hsocket hinput hget
    obtain ⟨piece, hpiece, hread⟩ := List.mem_filterMap.1 hsocket
    obtain ⟨part, hpart⟩ := hpart piece hpiece
    obtain ⟨first, others, hsegments, hproper, hkind⟩ := hfirst hinput hget
    rw [← hkind]
    cases piece with
    | body name =>
      cases hread
      exact Block.isStatement_of_bodyText hpart hsegments hproper
    | _ => cases hread
  · intro input child item plugged hsocket hinput hafter hget
    obtain ⟨piece, hpiece, hread⟩ := List.mem_filterMap.1 hsocket
    obtain ⟨part, hpart⟩ := hpart piece hpiece
    have hkind := (hplugged hinput).mem_kinds hafter hget
    rw [← map_kind_segments g Segment.spent, List.mem_map] at hkind
    obtain ⟨segment, hsegment, hkind⟩ := hkind
    rw [← hkind]
    cases piece with
    | list name | properties name | parameters name =>
      cases hread
      obtain ⟨texts, htexts, -⟩ := exists_of_bind hpart
      rw [Sockets.segments_eq] at htexts
      exact Block.isStatement_of_itemTexts htexts (proper_segments g Segment.spent _) segment hsegment
    | _ => cases hread

/-! ### Errors tell of blocks that do not fit -/

/-- The errors of a block that is where it may not be. -/
def GenerateError.IsMisfit : GenerateError → Prop
  | expectedValue .. | expectedStatement .. => True
  | _ => False

/-- The value is no error but that of a misfit, and none at all if the blocks fit. -/
def Checked {α : Type} (fit : Prop) (value : Except GenerateError α) : Prop :=
  ∀ e, value = .error e → e.IsMisfit ∧ ¬ fit

namespace Checked

variable {α β : Type} {fit : Prop} {value : Except GenerateError α}

theorem ok (a : α) : Checked fit (.ok a : Except GenerateError α) :=
  fun e h => by cases h

theorem misfit {e : GenerateError} (he : e.IsMisfit) (hfit : ¬ fit) :
    Checked fit (.error e : Except GenerateError α) := by
  intro other h
  cases h
  exact ⟨he, hfit⟩

theorem bind {next : α → Except GenerateError β} (hvalue : Checked fit value)
    (hnext : ∀ a, value = .ok a → Checked fit (next a)) : Checked fit (value >>= next) := by
  cases value with
  | error e =>
    intro other h
    cases h
    exact hvalue e rfl
  | ok a => exact hnext a rfl

theorem map {f : α → β} (hvalue : Checked fit value) : Checked fit (value.map f) := by
  cases value with
  | error e =>
    intro other h
    cases h
    exact hvalue e rfl
  | ok a => exact .ok _

theorem exists_ok (hvalue : Checked fit value) (hfit : fit) : ∃ a, value = .ok a := by
  cases value with
  | error e => exact absurd hfit (hvalue e rfl).2
  | ok a => exact ⟨a, rfl⟩

end Checked

namespace Segment

variable {fit : Prop} {first : Segment} {rest : List Segment}

/-- A segment whose code is checked if its arguments are, and has the shape of its kind. -/
structure Reliable (fit : Prop) (segment : Segment) : Prop where
  proper : segment.Proper
  checked : ∀ arguments, Checked fit arguments → Checked fit (segment.code arguments)

theorem checked_spentCode (wasSpent : Bool) {segments : List Segment}
    (h : ∀ segment ∈ segments, segment.Reliable fit) : Checked fit (spentCode wasSpent segments) := by
  induction segments with
  | nil => exact .ok _
  | cons first rest ih =>
    rw [List.forall_mem_cons] at h
    rw [spentCode]
    split
    · exact .ok _
    · exact h.1.checked _ (ih h.2).map

theorem checked_ownCode {segments : List Segment} (h : ∀ segment ∈ segments, segment.Reliable fit) :
    Checked fit (ownCode segments) := by
  rw [← spentCode_false]
  exact checked_spentCode false h

theorem checked_spent (h : ∀ segment ∈ rest, segment.Reliable fit) : Checked fit (spent first rest) := by
  induction rest generalizing first with
  | nil => exact .ok _
  | cons next rest ih =>
    rw [spent]
    exact (checked_spentCode _ h).map.bind fun _ _ =>
      (ih (List.forall_mem_cons.1 h).2).bind fun _ _ => .ok _

theorem checked_chainCode (h : ∀ segment ∈ first :: rest, segment.Reliable fit) :
    Checked fit (chainCode spent first rest) :=
  (checked_ownCode h).bind fun _ _ => (checked_spent (List.forall_mem_cons.1 h).2).bind fun _ _ => .ok _

end Segment

namespace Block

variable {fit : Prop} {g : Generator} {plugged : String → List Segment} {block : Block}
  {input : String}

theorem checked_valueText (order : Order) (h : ∀ segment ∈ plugged input, segment.Reliable fit)
    (hkind : fit → ∀ first rest, plugged input = first :: rest → first.kind.isStatement = false) :
    Checked fit (block.valueText Segment.spent plugged input order) := by
  rw [valueText]
  cases hplugged : plugged input with
  | nil => exact .ok _
  | cons first rest =>
    rw [hplugged] at h
    refine (Segment.checked_chainCode h).bind fun code hcode => ?_
    cases code with
    | expression => exact .ok _
    | statement text =>
      refine .misfit trivial fun hfit => ?_
      have hstatement := ((List.forall_mem_cons.1 h).1.proper.isStatement_chain hcode).1 ⟨text, rfl⟩
      rw [hkind hfit first rest hplugged] at hstatement
      cases hstatement

theorem checked_valueOr (order : Order) (placeholder : String)
    (h : ∀ segment ∈ plugged input, segment.Reliable fit)
    (hkind : fit → ∀ first rest, plugged input = first :: rest → first.kind.isStatement = false) :
    Checked fit (block.valueOr Segment.spent plugged input order placeholder) :=
  (checked_valueText order h hkind).bind fun _ _ => .ok _

theorem checked_bodyText (h : ∀ segment ∈ plugged input, segment.Reliable fit)
    (hkind : fit → ∀ first rest, plugged input = first :: rest → first.kind.isStatement = true) :
    Checked fit (block.bodyText g Segment.spent plugged input) := by
  rw [bodyText]
  cases hplugged : plugged input with
  | nil => exact .ok _
  | cons first rest =>
    rw [hplugged] at h
    refine (Segment.checked_chainCode h).bind fun code hcode => ?_
    cases code with
    | statement => exact .ok _
    | expression =>
      refine .misfit trivial fun hfit => ?_
      have hstatement := ((List.forall_mem_cons.1 h).1.proper.isStatement_chain hcode).2
        (hkind hfit first rest hplugged)
      obtain ⟨_, heq⟩ := hstatement
      cases heq

theorem checked_itemTexts {segments : List Segment} (h : ∀ segment ∈ segments, segment.Reliable fit)
    (hkind : fit → ∀ segment ∈ segments, segment.kind.isStatement = true) :
    Checked fit (block.itemTexts input segments) := by
  induction segments with
  | nil => exact .ok _
  | cons item rest ih =>
    rw [itemTexts]
    refine (Segment.checked_ownCode h).bind fun code hcode => ?_
    cases code with
    | statement =>
      refine (ih (List.forall_mem_cons.1 h).2 fun hfit => ?_).bind fun _ _ => .ok _
      exact (List.forall_mem_cons.1 (hkind hfit)).2
    | expression =>
      refine .misfit trivial fun hfit => ?_
      rw [Segment.ownCode] at hcode
      have hstatement := ((List.forall_mem_cons.1 h).1.proper.isStatement hcode).2
        (List.forall_mem_cons.1 (hkind hfit)).1
      obtain ⟨_, heq⟩ := hstatement
      cases heq

/-- Only a custom kind is written as a literal, and as its own. -/
theorem kind_of_literal {kind : BlockKind} {name : String}
    (h : .literal name ∈ kind.template.pieces) : kind = .custom name := by
  cases kind with
  | custom other =>
    obtain rfl : name = other := by simpa [BlockKind.template, Template.atomic] using h
    rfl
  | _ => simp [BlockKind.template, Template.atomic, Template.statement, Template.binary] at h

/-- What is known of the segments in the sockets of a block. -/
structure Reliable (fit : Prop) (block : Block) (plugged : String → List Segment) : Prop where
  segments : ∀ input ∈ block.kind.inputs, ∀ segment ∈ plugged input, segment.Reliable fit
  value : fit → ∀ input first rest, (.value, input) ∈ block.kind.sockets →
    plugged input = first :: rest → first.kind.isStatement = false
  body : fit → ∀ input first rest, (.body, input) ∈ block.kind.sockets →
    plugged input = first :: rest → first.kind.isStatement = true
  items : fit → ∀ input, (.items, input) ∈ block.kind.sockets →
    ∀ segment ∈ plugged input, segment.kind.isStatement = true

theorem Reliable.checked_pieceText (h : block.Reliable fit plugged)
    (hliteral : ∀ name, block.kind = .custom name → (g.literal? name).isSome)
    {arguments : Except GenerateError Text} (harguments : Checked fit arguments) {piece : Piece}
    (hpiece : piece ∈ block.kind.template.pieces) :
    Checked fit (block.pieceText g Segment.spent plugged arguments piece) := by
  have hsocket {socket : Socket} {input : String} (hread : piece.socket? = some (socket, input)) :
      (socket, input) ∈ block.kind.sockets := List.mem_filterMap.2 ⟨piece, hpiece, hread⟩
  have hsegments {input : String} (hread : piece.input? = some input) :
      ∀ segment ∈ plugged input, segment.Reliable fit :=
    h.segments input (Piece.mem_inputs hpiece hread)
  cases piece with
  | text | field | quoted => exact .ok _
  | value input order placeholder =>
    exact checked_valueOr order placeholder (hsegments rfl)
      fun hfit first rest => h.value hfit input first rest (hsocket rfl)
  | callee input order placeholder =>
    exact (checked_valueOr order placeholder (hsegments rfl)
      fun hfit first rest => h.value hfit input first rest (hsocket rfl)).bind fun _ _ => .ok _
  | body input =>
    exact checked_bodyText (hsegments rfl) fun hfit first rest => h.body hfit input first rest (hsocket rfl)
  | list input | properties input | parameters input =>
    exact (checked_itemTexts (hsegments rfl) fun hfit => h.items hfit input (hsocket rfl)).bind
      fun _ _ => .ok _
  | arguments => exact harguments
  | literal name =>
    obtain ⟨text, htext⟩ := Option.isSome_iff_exists.1 (hliteral name (kind_of_literal hpiece))
    rw [pieceText, htext]
    exact .ok _

theorem Reliable.segment (h : block.Reliable fit plugged)
    (hliteral : ∀ name, block.kind = .custom name → (g.literal? name).isSome) :
    Segment.Reliable fit ⟨block.kind, block.code g Segment.spent plugged⟩ where
  proper := Block.proper ..
  checked arguments harguments := by
    have hpieces (pieces : List Piece) (hpieces : ∀ piece ∈ pieces, piece ∈ block.kind.template.pieces) :
        Checked fit (block.piecesText g Segment.spent plugged arguments pieces) := by
      induction pieces with
      | nil => exact .ok _
      | cons piece rest ih =>
        rw [List.forall_mem_cons] at hpieces
        exact (h.checked_pieceText hliteral harguments hpieces.1).bind fun _ _ =>
          (ih hpieces.2).bind fun _ _ => .ok _
    exact (hpieces _ fun _ hpiece => hpiece).bind fun _ _ => .ok _

end Block

namespace Stack

variable {ws : Workspace} {g : Generator} {rule : ChainRule} {first? : Option BlockId} {stack : Stack}

theorem At.exists_first {first : Segment} {rest : List Segment} (hat : stack.At ws first?)
    (hsegments : stack.segments g rule = first :: rest) :
    ∃ child block, first? = some child ∧ ws.get? child = some block ∧ block.kind = first.kind := by
  cases stack with
  | nil => rw [segments_nil] at hsegments; cases hsegments
  | cons id block sockets others =>
    rw [segments_cons] at hsegments
    cases hsegments
    exact ⟨id, block, hat.1, hat.2.1, rfl⟩

/-- The blocks of a stack within reach are checked: they fail only if some block does not fit. -/
theorem reliable_segments (hspelled : ws.Spelled g) (hat : stack.At ws first?)
    (hreached : ∀ first, first? = some first → ws.Reached first) :
    ∀ segment ∈ stack.segments g Segment.spent, segment.Reliable ws.AllFit := by
  induction stack using Stack.deep_induction generalizing first? with
  | nil =>
    rw [segments_nil]
    exact fun segment hsegment => by cases hsegment
  | cons id block sockets rest ihsockets ihrest =>
    obtain ⟨hfirst, hget, hsockets, hrest⟩ := hat
    have hid := hreached id hfirst
    have hplugged (input : String) : (sockets.find input).At ws (block.input? input) :=
      hsockets.find input
    have hblock : block.Reliable ws.AllFit (sockets.segments g Segment.spent) := by
      constructor
      · intro input hinput
        rw [Sockets.segments_eq]
        refine ihsockets input (hplugged input) fun child hchild => ?_
        exact hid.link (.inl ⟨block, hget, input, hinput, hchild⟩)
      · intro hfit input first others hsocket hsegments
        rw [Sockets.segments_eq] at hsegments
        obtain ⟨child, found, hchild, hfound, hkind⟩ := (hplugged input).exists_first hsegments
        rw [← hkind]
        exact (hfit id block hid hget).value hsocket hchild hfound
      · intro hfit input first others hsocket hsegments
        rw [Sockets.segments_eq] at hsegments
        obtain ⟨child, found, hchild, hfound, hkind⟩ := (hplugged input).exists_first hsegments
        rw [← hkind]
        exact (hfit id block hid hget).body hsocket hchild hfound
      · intro hfit input hsocket segment hsegment
        rw [Sockets.segments_eq] at hsegment
        have hkind : segment.kind ∈ (sockets.find input).kinds := by
          rw [← map_kind_segments g Segment.spent]
          exact List.mem_map_of_mem hsegment
        cases hchild : block.input? input with
        | none =>
          have hnone := hplugged input
          rw [hchild] at hnone
          cases hstack : sockets.find input with
          | nil => rw [hstack] at hkind; cases hkind
          | cons => rw [hstack] at hnone; cases hnone.1
        | some child =>
          have hsome := hplugged input
          rw [hchild] at hsome
          obtain ⟨item, found, hafter, hfound, hkind⟩ := hsome.exists_of_mem_kinds hkind
          rw [← hkind]
          exact (hfit id block hid hget).items hsocket hchild hafter hfound
    rw [segments_cons, List.forall_mem_cons]
    refine ⟨hblock.segment fun name hkind => hspelled id block name hget hkind, ?_⟩
    exact ihrest hrest fun next hnext => hid.link (.inr ⟨block, hget, hnext⟩)

theorem checked_text {fit : Prop} (h : ∀ segment ∈ stack.segments g Segment.spent, segment.Reliable fit) :
    Checked fit (stack.text g Segment.spent) := by
  rw [text]
  cases hsegments : stack.segments g Segment.spent with
  | nil => exact .ok _
  | cons first rest => exact (Segment.checked_chainCode (hsegments ▸ h)).map

theorem checked_texts {fit : Prop} {forest : List Stack}
    (h : ∀ stack ∈ forest, Checked fit (stack.text g Segment.spent)) :
    Checked fit (Stack.texts g Segment.spent forest) := by
  induction forest with
  | nil => exact .ok _
  | cons stack rest ih =>
    rw [List.forall_mem_cons] at h
    exact h.1.bind fun _ _ => (ih h.2).bind fun _ _ => .ok _

end Stack

/-! ### Which workspaces have code -/

namespace Workspace

variable {ws : Workspace} {g : Generator} {tops : List BlockId} {forest : List Stack}

theorem Forest.checked_texts (hforest : ws.Forest tops forest) (htops : ∀ top ∈ tops, top ∈ ws.top)
    (hspelled : ws.Spelled g) : Checked ws.AllFit (Stack.texts g Segment.spent forest) := by
  refine Stack.checked_texts fun stack hstack => Stack.checked_text ?_
  obtain ⟨top, htop, hat⟩ := exists_of_forall₂ hforest.at_eq.flip hstack
  refine Stack.reliable_segments hspelled hat fun first hfirst => ?_
  cases hfirst
  exact ⟨top, htops top htop, .refl⟩

/-- The blocks within reach fit if the stacks on the canvas have text. -/
theorem Forest.allFit (hforest : ws.Forest tops forest) (htops : ∀ top ∈ ws.top, top ∈ tops)
    {texts : List Text} (htexts : Stack.texts g Segment.spent forest = .ok texts) : ws.AllFit := by
  intro id block hreached hget
  obtain ⟨stack, hat, -, text, htext⟩ := hforest.exists_stack htops htexts hreached
  obtain ⟨sockets, rest, rfl⟩ := hat.exists_cons hget
  exact Stack.fits_of_text hat htext

end Workspace

/-- A loaded workspace has code exactly if every custom type has a text and every block within reach
fits. If it has none, the error is that of a custom type without a text when there is one, and else that
of a block that does not fit; it is never a cycle or a missing block. -/
theorem Generator.generate_ok_iff_fits {value : Json} {ws : Workspace}
    (hload : Workspace.ofJson value = .ok ws) (g : Generator) :
    ((∃ code, g.generate ws = .ok code) ↔ ws.Spelled g ∧ ws.AllFit) ∧
      ∀ e, g.generate ws = .error e →
        (¬ ws.Spelled g → ∃ name, e = .unknownCustomType name) ∧
          (ws.Spelled g → (∃ id input childType, e = .expectedValue id input childType) ∨
            ∃ id input childType, e = .expectedStatement id input childType) := by
  have hperm : ws.topBlocks.Perm ws.top := List.mergeSort_perm ws.top _
  obtain ⟨forest, hforest⟩ := Workspace.forest_of_ofJson hload hperm
  have hgenerate : g.generate ws = (ws.programOf g Segment.spent forest).map String.ofList := by
    rw [generate, Setting.program_eq_spent hforest]
  by_cases hspelled : ws.Spelled g
  · have htexts : g.generate ws = (Stack.texts g Segment.spent forest).map fun texts =>
        String.ofList (Text.tidy (Text.terminate (Text.unlines texts))) := by
      rw [hgenerate, Workspace.programOf, Workspace.spelled_iff.1 hspelled]
      show (Stack.program g Segment.spent forest).map _ = _
      rw [Stack.program]
      cases Stack.texts g Segment.spent forest <;> rfl
    have hchecked := hforest.checked_texts (fun top htop => hperm.subset htop) hspelled
    rw [htexts]
    refine ⟨⟨?_, fun h => hchecked.map.exists_ok h.2⟩, fun e he => ?_⟩
    · rintro ⟨code, hcode⟩
      obtain ⟨texts, hok, -⟩ := exists_of_map hcode
      exact ⟨hspelled, hforest.allFit (fun top htop => hperm.symm.subset htop) hok⟩
    · refine ⟨fun hnot => absurd hspelled hnot, fun _ => ?_⟩
      have hmisfit := (hchecked.map e he).1
      cases e with
      | expectedValue id input childType => exact .inl ⟨id, input, childType, rfl⟩
      | expectedStatement id input childType => exact .inr ⟨id, input, childType, rfl⟩
      | _ => cases hmisfit
  · obtain ⟨name, hname⟩ := Option.ne_none_iff_exists'.1 (mt Workspace.spelled_iff.2 hspelled)
    have herror : g.generate ws = .error (.unknownCustomType name) := by
      rw [hgenerate, Workspace.programOf, hname]
      rfl
    rw [herror]
    refine ⟨⟨?_, fun h => absurd h.1 hspelled⟩, fun e he => ?_⟩
    · rintro ⟨code, hcode⟩
      cases hcode
    · cases he
      exact ⟨fun _ => ⟨name, rfl⟩, fun h => absurd h hspelled⟩

/-- A saved call whose parameters hold a number in place of a parameter. -/
def misplacedDocument : Json :=
  .object [("blocks", .object [("blocks", .array [.object [
    ("type", .string "function_call"),
    ("next", .object [("block", .object [
      ("type", .string "function_params"),
      ("inputs", .object [("PARAMS", .object [("block", .object [
        ("type", .string "number_literal")])])])])])]])])]

/-- The workspace that it describes. -/
def misplacedWorkspace : Workspace where
  blocks :=
    #[{ id := "b0", kind := .functionCall, next := some ⟨1⟩, position := some ⟨.zero, .zero⟩ },
      { id := "b1", kind := .functionParams, inputs := [("PARAMS", ⟨2⟩)] },
      { id := "b2", kind := .numberLiteral }]
  top := [⟨0⟩]

theorem misplacedWorkspace_loaded : Workspace.ofJson misplacedDocument = .ok misplacedWorkspace := by
  cbv

theorem misplacedWorkspace_spelled : misplacedWorkspace.Spelled {} := by
  rw [Workspace.spelled_iff]
  rfl

/-- The chain skips the parameters, but the call reads them, so the number is noticed. -/
theorem misplacedWorkspace_no_code :
    Workspace.ofJson misplacedDocument = .ok misplacedWorkspace ∧ misplacedWorkspace.Spelled {} ∧
      Generator.generate {} misplacedWorkspace =
        .error (.expectedStatement "b1" "PARAMS" "number_literal") ∧
      ¬ misplacedWorkspace.AllFit := by
  have herror : Generator.generate {} misplacedWorkspace =
      .error (.expectedStatement "b1" "PARAMS" "number_literal") := by
    cbv
  have hiff := (Generator.generate_ok_iff_fits misplacedWorkspace_loaded {}).1
  refine ⟨misplacedWorkspace_loaded, misplacedWorkspace_spelled, herror, fun hfit => ?_⟩
  obtain ⟨code, hcode⟩ := hiff.2 ⟨misplacedWorkspace_spelled, hfit⟩
  rw [herror] at hcode
  cases hcode

end BlockProgram
