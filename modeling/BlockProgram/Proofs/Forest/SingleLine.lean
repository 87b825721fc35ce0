import BlockProgram.Proofs.Forest.Closing
import BlockProgram.Proofs.Text.Callee

/-!
Expressions on one line. A newline is written at the end of a command, after the brace that opens a body and
after an item of an array; the last is cut off with the comma before it. So no newline is in an expression, as
long as none is in a field or a literal, no command is among the items, and nothing comes after an expression
but the parameters of a call:

    own text of an item          1,⏎        trimmed before it is joined to the others
    own text of a property       x: 1,
    own text of an expression    [1, 2]
-/

namespace BlockProgram

open Text
open Relation (ReflTransGen)

/-! ### Texts without newlines -/

namespace Text

variable {text : Text} {items : List Text} {c : Char}

theorem trim_subset (text : Text) : trim text ⊆ text := by
  rw [trim_eq]
  exact fun _ hmem => List.dropWhile_subset _ ((List.rdropWhile_prefix _ _).subset hmem)

theorem bareItem_subset (text : Text) : bareItem text ⊆ trim text := by
  refine fun c hmem => ?_
  have hcomma := trim_subset _ hmem
  rw [dropComma] at hcomma
  split at hcomma
  · exact List.mem_of_mem_dropLast hcomma
  · exact hcomma

theorem unwrap_subset (opening closing : Char) (text : Text) : unwrap opening closing text ⊆ text := by
  rw [unwrap]
  cases hinner : between? opening closing text with
  | none => exact List.Subset.refl text
  | some inner =>
    rw [between?_eq_some hinner]
    exact fun c hmem => List.mem_cons_of_mem _ (List.mem_append_left _ (trim_subset inner hmem))

theorem bareCallee_subset (text : Text) : bareCallee text ⊆ text :=
  fun _ hmem => trim_subset text (unwrap_subset _ _ _ (unwrap_subset _ _ _ hmem))

theorem not_mem_intercalate {separator : Text} (hseparator : c ∉ separator) (h : ∀ item ∈ items, c ∉ item) :
    c ∉ separator.intercalate items := by
  induction items with
  | nil => exact List.not_mem_nil
  | cons item rest ih =>
    rw [List.forall_mem_cons] at h
    cases rest with
    | nil =>
      rw [List.intercalate_singleton]
      exact h.1
    | cons next others =>
      rw [List.intercalate_cons_cons, List.mem_append, List.mem_append, not_or, not_or]
      exact ⟨⟨h.1, hseparator⟩, ih h.2⟩

theorem newline_not_mem_commaSeparated (h : ∀ item ∈ items, '\n' ∉ trim item) :
    '\n' ∉ commaSeparated items := by
  refine not_mem_intercalate (by decide) fun bare hbare => ?_
  obtain ⟨item, hitem, rfl⟩ := List.mem_map.1 (List.mem_filter.1 hbare).1
  exact fun hmem => h item hitem (bareItem_subset item hmem)

theorem newline_not_mem_braced (h : ∀ item ∈ items, '\n' ∉ trim item) : '\n' ∉ braced items := by
  have hproperties : '\n' ∉ [' '].intercalate ((items.map trim).filter fun item => !item.isEmpty) := by
    refine not_mem_intercalate (by decide) fun property hproperty => ?_
    obtain ⟨item, hitem, rfl⟩ := List.mem_map.1 (List.mem_filter.1 hproperty).1
    exact h item hitem
  rw [braced]
  split
  · decide
  · simp [hproperties]

theorem newline_not_mem_quote (text : Text) : '\n' ∉ quote text :=
  fun hmem => (quote_unbroken text _ hmem).1 rfl

end Text

/-! ### Places of blocks -/

/-- The kinds of blocks that do something: they stand on lines of their own. -/
def BlockKind.isCommand : BlockKind → Bool
  | variableDeclaration | returnStatement | ifStatement | loopStatement => true
  | _ => false

/-- The inputs that take a chain of items, with the kind of its blocks. -/
def itemKinds : List (String × BlockKind) :=
  [("ITEMS", .arrayItem), ("PROPERTIES", .objectProperty), ("PARAMS", .functionParameter)]

theorem BlockKind.not_command_of_value {kind : BlockKind} (h : kind.isStatement = false) :
    kind.isCommand = false ∧ kind ≠ .arrayItem := by
  cases kind with
  | custom name => exact ⟨rfl, by simp⟩
  | _ => revert h; decide

theorem BlockKind.not_command_of_item {input : String} {kind : BlockKind} (h : (input, kind) ∈ itemKinds) :
    kind.isCommand = false := by
  simp only [itemKinds, List.mem_cons, Prod.mk.injEq, List.not_mem_nil, or_false] at h
  rcases h with ⟨-, rfl⟩ | ⟨-, rfl⟩ | ⟨-, rfl⟩ <;> rfl

theorem BlockKind.isStatement_of_item {kind : BlockKind} (h : kind ∈ itemKinds.map Prod.snd) :
    kind.isStatement = true := by
  simp only [itemKinds, List.map_cons, List.map_nil, List.mem_cons, List.not_mem_nil, or_false] at h
  rcases h with rfl | rfl | rfl <;> rfl

/-- Commands are on the canvas and in bodies, expressions in value sockets and items of each kind in their
chains; and nothing comes after an expression or after parameters, but parameters after a call. -/
structure Workspace.Orderly (ws : Workspace) : Prop where
  canvas : ∀ {top id block}, top ∈ ws.top → ReflTransGen ws.Precedes top id → ws.get? id = some block →
    block.kind.isCommand = true
  body : ∀ {id block input first later found}, ws.get? id = some block →
    (.body, input) ∈ block.kind.sockets → block.input? input = some first →
    ReflTransGen ws.Precedes first later → ws.get? later = some found → found.kind.isCommand = true
  value : ∀ {id block input child found}, ws.get? id = some block → (.value, input) ∈ block.kind.sockets →
    block.input? input = some child → ws.get? child = some found → found.kind.isStatement = false
  items : ∀ {id block input first item found}, ws.get? id = some block →
    (.items, input) ∈ block.kind.sockets → block.input? input = some first →
    ReflTransGen ws.Precedes first item → ws.get? item = some found → (input, found.kind) ∈ itemKinds
  call : ∀ {id block next}, ws.get? id = some block → block.kind = .functionCall → block.next = some next →
    ∃ params, ws.get? next = some params ∧ params.kind = .functionParams
  last : ∀ {id block}, ws.get? id = some block →
    (block.kind.isStatement = false ∧ block.kind ≠ .functionCall ∨ block.kind = .functionParams) →
    block.next = none

namespace Workspace.Orderly

variable {ws : Workspace} {id : BlockId} {block : Block}

theorem standsAlone (h : ws.Orderly) (hget : ws.get? id = some block)
    (hvalue : block.kind.isStatement = false) : ws.StandsAlone block := by
  by_cases hcall : block.kind = .functionCall
  · cases hnext : block.next with
    | none => exact .inl hnext
    | some next =>
      obtain ⟨params, hparams, hkind⟩ := h.call hget hcall hnext
      exact .inr ⟨hcall, next, params, hnext, hparams, hkind, h.last hparams (.inr hkind)⟩
  · exact .inl (h.last hget (.inl ⟨hvalue, hcall⟩))

end Workspace.Orderly

/-- A command may come after a command in a chain, an item after an item of the same kind, and parameters after a
call. -/
def BlockKind.MayPrecede (previous next : BlockKind) : Prop :=
  previous.isCommand = true ∧ next.isCommand = true ∨
    previous ∈ itemKinds.map Prod.snd ∧ next = previous ∨ previous = .functionCall ∧ next = .functionParams

instance (previous next : BlockKind) : Decidable (previous.MayPrecede next) :=
  inferInstanceAs (Decidable (_ ∨ _))

namespace BlockKind.MayPrecede

variable {previous next : BlockKind}

theorem isCommand (h : previous.MayPrecede next) (hprevious : previous.isCommand = true) :
    next.isCommand = true := by
  rcases h with ⟨-, hnext⟩ | ⟨-, rfl⟩ | ⟨rfl, -⟩
  · exact hnext
  · exact hprevious
  · cases hprevious

theorem item {input : String} (h : previous.MayPrecede next) (hprevious : (input, previous) ∈ itemKinds) :
    (input, next) ∈ itemKinds := by
  rcases h with ⟨hkind, -⟩ | ⟨-, rfl⟩ | ⟨rfl, -⟩
  · rw [not_command_of_item hprevious] at hkind
    cases hkind
  · exact hprevious
  · simp [itemKinds] at hprevious

theorem parameters (h : functionCall.MayPrecede next) : next = .functionParams := by
  rcases h with ⟨hkind, -⟩ | ⟨hkind, -⟩ | ⟨-, hkind⟩
  · cases hkind
  · exact absurd hkind (by decide)
  · exact hkind

/-- Nothing may come after an expression that is no call. -/
theorem isStatement (h : previous.MayPrecede next) (hcall : previous ≠ .functionCall) :
    previous.isStatement = true := by
  rw [← Bool.not_eq_false]
  intro hvalue
  rcases h with ⟨hkind, -⟩ | ⟨hkind, -⟩ | ⟨hkind, -⟩
  · rw [(not_command_of_value hvalue).1] at hkind
    cases hkind
  · rw [isStatement_of_item hkind] at hvalue
    cases hvalue
  · exact hcall hkind

theorem ne_parameters (h : previous.MayPrecede next) : previous ≠ .functionParams := by
  rintro rfl
  exact absurd h (by simp [BlockKind.MayPrecede, BlockKind.isCommand, itemKinds])

end BlockKind.MayPrecede

/-- The kinds of blocks that a socket takes. -/
def Socket.Takes (socket : Socket) (input : String) (kind : BlockKind) : Prop :=
  match socket with
  | .value => kind.isStatement = false
  | .body => kind.isCommand = true
  | .items => (input, kind) ∈ itemKinds

instance (socket : Socket) (input : String) (kind : BlockKind) : Decidable (socket.Takes input kind) :=
  match socket with
  | .value => inferInstanceAs (Decidable (kind.isStatement = false))
  | .body => inferInstanceAs (Decidable (kind.isCommand = true))
  | .items => inferInstanceAs (Decidable ((input, kind) ∈ itemKinds))

/-- What the first block of a chain is, the others are, if each block that may come after one that is it is, too. -/
theorem Workspace.kind_of_precedes {ws : Workspace}
    (hnext : ∀ block ∈ ws.blocks, ∀ next ∈ block.next, ∃ found ∈ ws.get? next,
      block.kind.MayPrecede found.kind)
    {P : BlockKind → Prop} (hkeeps : ∀ previous next : BlockKind, previous.MayPrecede next → P previous → P next)
    {first id : BlockId} {block : Block} (hfirst : ∀ found, ws.get? first = some found → P found.kind)
    (hafter : ReflTransGen ws.Precedes first id) (hget : ws.get? id = some block) : P block.kind := by
  induction hafter generalizing block with
  | refl => exact hfirst block hget
  | tail _ hprecedes ih =>
    obtain ⟨previous, hprevious, hlink⟩ := hprecedes
    obtain ⟨found, hfound, hmay⟩ := hnext previous (Array.mem_of_getElem? hprevious) _ hlink
    cases hget.symm.trans hfound
    exact hkeeps _ _ hmay (ih hprevious)

/-- It is enough to look at each link by itself. -/
theorem Workspace.orderly_of_links {ws : Workspace}
    (hcanvas : ∀ top ∈ ws.top, ∀ block ∈ ws.get? top, block.kind.isCommand = true)
    (hnext : ∀ block ∈ ws.blocks, ∀ next ∈ block.next, ∃ found ∈ ws.get? next,
      block.kind.MayPrecede found.kind)
    (hsockets : ∀ block ∈ ws.blocks, ∀ socket ∈ block.kind.sockets, ∀ child ∈ block.input? socket.2,
      ∀ found ∈ ws.get? child, socket.1.Takes socket.2 found.kind) : ws.Orderly := by
  have hplugged {id : BlockId} {block : Block} {socket : Socket} {input : String}
      (hget : ws.get? id = some block) (hsocket : (socket, input) ∈ block.kind.sockets) (child : BlockId)
      (hchild : block.input? input = some child) (found : Block) (hfound : ws.get? child = some found) :
      socket.Takes input found.kind :=
    hsockets block (Array.mem_of_getElem? hget) _ hsocket child hchild found hfound
  refine ⟨?_, ?_, ?_, ?_, ?_, ?_⟩
  · intro top id block htop hafter hget
    exact kind_of_precedes hnext (fun _ _ hmay => hmay.isCommand) (hcanvas top htop) hafter hget
  · intro id block input first later found hget hsocket hfirst hafter hfound
    exact kind_of_precedes hnext (fun _ _ hmay => hmay.isCommand) (hplugged hget hsocket first hfirst) hafter
      hfound
  · intro id block input child found hget hsocket hchild hfound
    exact hplugged hget hsocket child hchild found hfound
  · intro id block input first item found hget hsocket hfirst hafter hfound
    exact kind_of_precedes hnext (fun _ _ hmay => hmay.item) (hplugged hget hsocket first hfirst) hafter hfound
  · intro id block next hget hcall hlink
    obtain ⟨params, hparams, hmay⟩ := hnext block (Array.mem_of_getElem? hget) next hlink
    rw [hcall] at hmay
    exact ⟨params, hparams, hmay.parameters⟩
  · intro id block hget hkind
    refine Option.eq_none_iff_forall_not_mem.2 fun next hlink => ?_
    obtain ⟨found, -, hmay⟩ := hnext block (Array.mem_of_getElem? hget) next hlink
    rcases hkind with ⟨hvalue, hcall⟩ | hparams
    · rw [hmay.isStatement hcall] at hvalue
      cases hvalue
    · exact hmay.ne_parameters hparams

/-! ### Chains -/

/-- Of a chain, the own text of each block that is no command is on one line when it is trimmed, and an array
item aside before that. -/
def Quiet : List Segment → Prop
  | [] => True
  | first :: rest => (first.kind.isCommand = false → ∀ code, Segment.ownCode (first :: rest) = .ok code →
      '\n' ∉ trim code.text ∧ (first.kind ≠ .arrayItem → '\n' ∉ code.text)) ∧ Quiet rest

theorem Quiet.itemTexts {block : Block} {input : String} {segments : List Segment} (h : Quiet segments)
    (hkinds : ∀ segment ∈ segments, segment.kind.isCommand = false) {texts : List Text}
    (htexts : block.itemTexts input segments = .ok texts) : ∀ text ∈ texts, '\n' ∉ trim text := by
  induction segments generalizing texts with
  | nil =>
    cases htexts
    exact fun text htext => (List.not_mem_nil htext).elim
  | cons item rest ih =>
    rw [List.forall_mem_cons] at hkinds
    obtain ⟨text, more, hcode, hmore, rfl⟩ := Block.itemTexts_ok htexts
    exact List.forall_mem_cons.2 ⟨(h.1 hkinds.1 _ hcode).1, ih h.2 hkinds.2 hmore⟩

/-! ### Blocks -/

/-- The kinds in an input are those of the blocks of the chain in it. -/
theorem Sockets.At.exists_of_mem_kinds {ws : Workspace} {inputs : Table BlockId} {sockets : Sockets}
    {input : String} {kind : BlockKind} (h : sockets.At ws inputs)
    (hkind : kind ∈ (sockets.find input).kinds) :
    ∃ first item found, Table.find? input inputs = some first ∧ ReflTransGen ws.Precedes first item ∧
      ws.get? item = some found ∧ found.kind = kind := by
  have hat := h.find input
  cases hfirst : Table.find? input inputs with
  | some first =>
    rw [hfirst] at hat
    obtain ⟨item, found, hafter, hfound, hkind⟩ := hat.exists_of_mem_kinds hkind
    exact ⟨first, item, found, rfl, hafter, hfound, hkind⟩
  | none =>
    rw [hfirst] at hat
    cases hfind : sockets.find input with
    | nil =>
      rw [hfind] at hkind
      cases hkind
    | cons =>
      rw [hfind] at hat
      cases hat.1

theorem BlockKind.mem_sockets {kind : BlockKind} {piece : Piece} (hpiece : piece ∈ kind.template.pieces)
    {socket : Socket × String} (hsocket : piece.socket? = some socket) : socket ∈ kind.sockets :=
  List.mem_filterMap.2 ⟨piece, hpiece, hsocket⟩

theorem BlockKind.call_of_arguments {kind : BlockKind} (h : .arguments ∈ kind.template.pieces) :
    kind = .functionCall := by
  cases kind with
  | functionCall => rfl
  | _ => simp [BlockKind.template, Template.statement, Template.atomic, Template.binary] at h

/-- No default has a newline, and no body and no newline is among the pieces of what is neither a command nor an
item of an array. -/
theorem BlockKind.single_pieces (kind : BlockKind) : ∀ piece ∈ kind.template.pieces, '\n' ∉ piece.default ∧
    (kind.isCommand = false → kind ≠ .arrayItem →
      piece.socket?.map Prod.fst ≠ some .body ∧ '\n' ∉ piece.keyword) := by
  cases kind with
  | custom name =>
    intro piece hpiece
    rw [List.mem_singleton.1 hpiece]
    exact ⟨List.not_mem_nil, fun _ _ => ⟨by simp [Piece.socket?], List.not_mem_nil⟩⟩
  | _ => decide

namespace Block

section

variable {ws : Workspace} {g : Generator} {id : BlockId} {block : Block} {sockets : Sockets}
  {input : String} {arguments : Except GenerateError Text} {text : Text}

variable (horderly : ws.Orderly) (hget : ws.get? id = some block) (hsockets : sockets.At ws block.inputs)
  (hquiet : ∀ input, Quiet (sockets.segments g Segment.spent input))

include horderly hget hsockets hquiet

/-- What is read in a value socket is the own text of one block. -/
theorem newline_not_mem_valueText (hsocket : (.value, input) ∈ block.kind.sockets) {order : Order}
    (h : block.valueText Segment.spent (sockets.segments g Segment.spent) input order = .ok text) :
    '\n' ∉ text := by
  have hat := hsockets.find input
  have hquiet := hquiet input
  rw [Sockets.segments_eq] at hquiet
  rw [valueText, Sockets.segments_eq] at h
  cases hfind : sockets.find input with
  | nil =>
    rw [hfind, Stack.segments_nil] at h
    cases h
    exact List.not_mem_nil
  | cons child found plugged rest =>
    rw [hfind] at hat hquiet h
    obtain ⟨hchild, hfound, -, hrest⟩ := hat
    have hvalue := horderly.value hget hsocket hchild hfound
    have hafter := Stack.after_of_standsAlone (g := g) hrest (horderly.standsAlone hfound hvalue)
      ⟨found.kind, found.code g Segment.spent (plugged.segments g Segment.spent)⟩ rfl
    rw [Stack.segments_cons] at h hquiet
    obtain ⟨whole, hwhole, h⟩ := exists_of_bind h
    obtain ⟨own, hown, hwhole⟩ := exists_of_bind hwhole
    rw [hafter] at hwhole
    cases hwhole
    have hsingle : '\n' ∉ own.text :=
      (hquiet.1 (BlockKind.not_command_of_value hvalue).1 own hown).2 (BlockKind.not_command_of_value hvalue).2
    cases own with
    | statement => cases h
    | expression own order =>
      have hsingle : '\n' ∉ own ++ [] := by rwa [List.append_nil]
      cases h
      split
      · simpa [parenthesize] using hsingle
      · exact hsingle

theorem newline_not_mem_items (hsocket : (.items, input) ∈ block.kind.sockets) {texts : List Text}
    (h : block.itemTexts input (sockets.segments g Segment.spent input) = .ok texts) :
    ∀ item ∈ texts, '\n' ∉ trim item := by
  refine (hquiet input).itemTexts (fun segment hsegment => ?_) h
  rw [Sockets.segments_eq] at hsegment
  have hkind : segment.kind ∈ (sockets.find input).kinds := by
    rw [← Stack.map_kind_segments g Segment.spent]
    exact List.mem_map_of_mem hsegment
  obtain ⟨first, item, found, hfirst, hafter, hfound, hkind⟩ := hsockets.exists_of_mem_kinds hkind
  rw [← hkind]
  exact BlockKind.not_command_of_item (horderly.items hget hsocket hfirst hafter hfound)

variable (htexts : ws.AllTexts ('\n' ∉ ·) g)
  (harguments : block.kind = .functionCall → ∀ text, arguments = .ok text → '\n' ∉ text)

include htexts harguments

theorem newline_not_mem_pieceText {piece : Piece} (hpiece : piece ∈ block.kind.template.pieces)
    (hbody : piece.socket?.map Prod.fst ≠ some .body) (hkeyword : '\n' ∉ piece.keyword) {part : Text}
    (h : block.pieceText g Segment.spent (sockets.segments g Segment.spent) arguments piece = .ok part) :
    '\n' ∉ part := by
  have hdefault := (block.kind.single_pieces piece hpiece).1
  have hvalue {input : String} {order : Order} {placeholder : String} {shown : Text}
      (hsocket : (.value, input) ∈ block.kind.sockets) (hplaceholder : '\n' ∉ placeholder.toList)
      (h : block.valueOr Segment.spent (sockets.segments g Segment.spent) input order placeholder = .ok shown) :
      '\n' ∉ shown := by
    obtain ⟨found, hfound, rfl⟩ := valueOr_eq h
    split
    · exact hplaceholder
    · exact newline_not_mem_valueText horderly hget hsockets hquiet hsocket hfound
  cases piece with
  | text fixed =>
    cases h
    exact hkeyword
  | field name missing =>
    cases h
    rcases htexts.field hget name missing with ⟨-, heq⟩ | hfield
    · rwa [heq]
    · exact hfield
  | quoted name =>
    cases h
    exact newline_not_mem_quote _
  | value input order placeholder => exact hvalue (BlockKind.mem_sockets hpiece rfl) hdefault h
  | body input => exact absurd rfl hbody
  | list input | parameters input =>
    obtain ⟨items, hitems, h⟩ := exists_of_bind h
    cases h
    exact newline_not_mem_commaSeparated
      (newline_not_mem_items horderly hget hsockets hquiet (BlockKind.mem_sockets hpiece rfl) hitems)
  | properties input =>
    obtain ⟨items, hitems, h⟩ := exists_of_bind h
    cases h
    exact newline_not_mem_braced
      (newline_not_mem_items horderly hget hsockets hquiet (BlockKind.mem_sockets hpiece rfl) hitems)
  | callee input order placeholder =>
    obtain ⟨shown, hshown, h⟩ := exists_of_bind h
    cases h
    exact fun hmem => hvalue (BlockKind.mem_sockets hpiece rfl) hdefault hshown (bareCallee_subset shown hmem)
  | arguments => exact harguments (BlockKind.call_of_arguments hpiece) part h
  | literal name => exact htexts.literal h

theorem newline_not_mem_piecesText {pieces : List Piece}
    (hpieces : ∀ piece ∈ pieces, piece ∈ block.kind.template.pieces ∧
      piece.socket?.map Prod.fst ≠ some .body ∧ '\n' ∉ piece.keyword)
    (h : block.piecesText g Segment.spent (sockets.segments g Segment.spent) arguments pieces = .ok text) :
    '\n' ∉ text := by
  induction pieces generalizing text with
  | nil =>
    cases h
    exact List.not_mem_nil
  | cons piece rest ih =>
    rw [List.forall_mem_cons] at hpieces
    rw [piecesText] at h
    obtain ⟨part, hpart, h⟩ := exists_of_bind h
    obtain ⟨more, hmore, h⟩ := exists_of_bind h
    cases h
    rw [List.mem_append, not_or]
    refine ⟨?_, ih hpieces.2 hmore⟩
    exact newline_not_mem_pieceText horderly hget hsockets hquiet htexts harguments hpieces.1.1 hpieces.1.2.1
      hpieces.1.2.2 hpart

theorem quiet_code (hkind : block.kind.isCommand = false) {code : Code}
    (h : block.code g Segment.spent (sockets.segments g Segment.spent) arguments = .ok code) :
    '\n' ∉ trim code.text ∧ (block.kind ≠ .arrayItem → '\n' ∉ code.text) := by
  obtain ⟨text, htext, h⟩ := exists_of_bind h
  cases h
  rw [Code.text_ofShape]
  by_cases hitem : block.kind = .arrayItem
  · rw [hitem] at htext
    have hsplit : block.piecesText g Segment.spent (sockets.segments g Segment.spent) arguments
        ([.value "VALUE" .comma "\"\""] ++ [.text ",\n"]) = .ok text := htext
    obtain ⟨front, back, hfront, hback, rfl⟩ := piecesText_append hsplit
    cases piecesText_singleton hback
    have hsingle : '\n' ∉ front :=
      newline_not_mem_piecesText horderly hget hsockets hquiet htexts harguments (by rw [hitem]; decide) hfront
    refine ⟨?_, fun hne => absurd hitem hne⟩
    -- the newline after the comma is white space
    have htrim : trim (front ++ ",\n".toList) = trim (front ++ [',']) := by
      rw [show ",\n".toList = [','] ++ ['\n'] from rfl, ← List.append_assoc]
      exact trim_append_blank (by decide) _
    rw [htrim]
    exact fun hmem => by simpa [hsingle] using trim_subset _ hmem
  · have hsingle : '\n' ∉ text := by
      refine newline_not_mem_piecesText horderly hget hsockets hquiet htexts harguments
        (fun piece hpiece => ⟨hpiece, ?_⟩) htext
      exact (block.kind.single_pieces piece hpiece).2 hkind hitem
    exact ⟨fun hmem => hsingle (trim_subset text hmem), fun _ => hsingle⟩

end

end Block

/-! ### Stacks -/

theorem quiet_stack {ws : Workspace} {g : Generator} (horderly : ws.Orderly)
    (htexts : ws.AllTexts ('\n' ∉ ·) g) {first? : Option BlockId} {stack : Stack} (hat : stack.At ws first?) :
    Quiet (stack.segments g Segment.spent) := by
  induction stack using Stack.deep_induction generalizing first? with
  | nil =>
    rw [Stack.segments_nil]
    exact trivial
  | cons id block sockets rest ihsockets ihrest =>
    obtain ⟨-, hget, hsockets, hrest⟩ := hat
    have hafter := ihrest hrest
    rw [Stack.segments_cons]
    refine ⟨fun hkind code hcode => ?_, hafter⟩
    have hplugged (input : String) : Quiet (sockets.segments g Segment.spent input) := by
      rw [Sockets.segments_eq]
      exact ihsockets input (hsockets.find input)
    refine Block.quiet_code horderly hget hsockets hplugged htexts (fun hcall text htext => ?_) hkind hcode
    obtain ⟨own, hown, rfl⟩ := exists_of_map htext
    cases rest with
    | nil =>
      rw [Stack.segments_nil] at hown
      cases hown
      exact List.not_mem_nil
    | cons next found plugged more =>
      obtain ⟨hnext, hfound, -, -⟩ := hrest
      obtain ⟨params, hparams, hkind⟩ := horderly.call hget hcall hnext
      cases hparams.symm.trans hfound
      rw [Stack.segments_cons] at hafter hown
      exact (hafter.1 (by rw [hkind]; rfl) own hown).2 (by simp [hkind])

end BlockProgram
