import BlockProgram.Proofs.Forest.Code
import BlockProgram.Proofs.Forest.Edit
import BlockProgram.Proofs.Forest.Family
import BlockProgram.Proofs.Forest.Tally

/-!
What a name in a variable block becomes. The stacks of a forest are read for a whole family of names at
once: all of them fail alike, or all give the text of one pattern, filled with the name. The pattern has
as many holes as the block is written times, and its other characters do not come from the name.
-/

namespace BlockProgram

open Text Pattern

/-! ### Own code -/

/-- The text that a piece writes by itself, whatever the block. -/
def Piece.fixedText : Piece → Text
  | .text fixed => fixed.toList
  | .field _ missing => missing.toList
  | .value _ _ placeholder | .callee _ _ placeholder => placeholder.toList
  | _ => []

/-- A set of characters to which all belong that a workspace is written with, but for the fields of
block `v`. -/
structure Alphabet (ws : Workspace) (g : Generator) (v : BlockId) (P : Char → Prop) : Prop where
  marks : ∀ c, isPlainChar c = false → P c
  fixed : ∀ kind : BlockKind, ∀ piece ∈ kind.template.pieces, ∀ c ∈ piece.fixedText, P c
  indent : ∀ c ∈ g.indent, P c
  literals : ∀ type text, g.literal? type = some text → ∀ c ∈ text.toList, P c
  fields : ∀ id block, ws.get? id = some block → id ≠ v →
    ∀ field text, block.field? field = some text → ∀ c ∈ text.toList, P c

section

variable {ι : Type} {P : Char → Prop} {name : ι → Text}

/-- What a family of chains comes to, block by block and as a whole. -/
structure Emits (P : Char → Prop) (name : ι → Text) (segments : ι → List Segment)
    (tallies : List Tally) : Prop where
  own : ∀ spent, ∃ shape, Uniform (WritesCode P name (Tally.own spent tallies) shape)
    fun i => Segment.spentCode spent (segments i)
  followers : ∀ afterCall (previous : ι → Segment),
    (∀ i, decide ((previous i).kind = .functionCall) = afterCall) →
    Uniform (Writes P name (Tally.chain afterCall tallies)) fun i =>
      Segment.spent (previous i) (segments i)
  items : ∀ (block : Block) (input : String), Uniform (WritesAll P name (Tally.chain false tallies))
    fun i => block.itemTexts input (segments i)
  code : (tallies = [] ∧ ∀ i, segments i = []) ∨
    ∃ (first : ι → Segment) (rest : ι → List Segment) (kind : BlockKind) (shape : CodeShape),
    (∀ i, segments i = first i :: rest i) ∧ (∀ i, (first i).kind = kind) ∧
      Uniform (WritesCode P name (Tally.chain false tallies) shape) fun i =>
        Segment.chainCode Segment.spent (first i) (rest i)

variable {ws : Workspace} {g : Generator} {v : BlockId} {block : Block}
  {plugged : ι → String → List Segment} {tallies : String → List Tally}

/-- A field of another block, or the default for it. -/
theorem Alphabet.fieldText (halphabet : Alphabet ws g v P) {id : BlockId}
    (hget : ws.get? id = some block) (hid : id ≠ v) (field : String) {missing : String}
    (hmissing : ∀ c ∈ missing.toList, P c) :
    ∀ c ∈ ((block.field? field).getD missing).toList, P c := by
  cases hfield : block.field? field with
  | none => exact hmissing
  | some text => exact halphabet.fields id block hget hid field text hfield

/-- The letters of escapes occur in keywords, too. -/
theorem Alphabet.quote (halphabet : Alphabet ws g v P) {text : Text} (htext : ∀ c ∈ text, P c) :
    ∀ c ∈ Text.quote text, P c := by
  have hmark (c : Char) (hc : c ∈ ['"', '\\']) : P c := by
    refine halphabet.marks c ?_
    fin_cases hc <;> decide
  have hletter (c : Char) (hc : c ∈ ['n', 'r', 't']) : P c := by
    fin_cases hc
    · exact halphabet.fixed .returnStatement (.value "VALUE" .none "null") (by decide) _ (by decide)
    · exact halphabet.fixed .returnStatement (.text "res ") (by decide) _ (by decide)
    · exact halphabet.fixed .booleanLiteral (.field "BOOL" "true") (by decide) _ (by decide)
  have hescape (c : Char) (hc : c ∈ text) : ∀ d ∈ Text.escape c, P d := by
    intro d hd
    unfold Text.escape at hd
    split at hd <;> simp only [List.mem_cons, List.not_mem_nil, or_false] at hd
    · rcases hd with rfl | rfl <;> exact hmark _ (by decide)
    · rcases hd with rfl | rfl <;> exact hmark _ (by decide)
    · rcases hd with rfl | rfl
      · exact hmark _ (by decide)
      · exact hletter _ (by decide)
    · rcases hd with rfl | rfl
      · exact hmark _ (by decide)
      · exact hletter _ (by decide)
    · rcases hd with rfl | rfl
      · exact hmark _ (by decide)
      · exact hletter _ (by decide)
    · subst hd
      exact htext _ hc
  intro c hc
  simp only [Text.quote, List.mem_cons, List.mem_append, List.mem_flatMap, List.not_mem_nil,
    or_false] at hc
  rcases hc with rfl | ⟨d, hd, hc⟩ | rfl
  · exact hmark _ (by decide)
  · exact hescape d hd c hc
  · exact hmark _ (by decide)

/-- How often a piece writes the name, if it is written `a` times in the arguments. -/
def Piece.copies (tallies : String → List Tally) (a : Nat) (piece : Piece) : Nat :=
  match piece.input? with
  | some input => Tally.chain false (tallies input)
  | none => if piece = .arguments then a else 0

theorem Piece.sum_copies (tallies : String → List Tally) (a : Nat) (pieces : List Piece) :
    (pieces.map (Piece.copies tallies a)).sum =
      ((pieces.filterMap Piece.input?).map fun input => Tally.chain false (tallies input)).sum +
        pieces.count .arguments * a := by
  induction pieces with
  | nil => simp
  | cons piece rest ih =>
    rw [List.map_cons, List.sum_cons, ih, Piece.copies]
    cases hinput : piece.input? with
    | some input =>
      have hne : piece ≠ .arguments := by
        rintro rfl
        cases hinput
      rw [List.filterMap_cons_some hinput, List.map_cons, List.sum_cons, List.count_cons_of_ne hne,
        Nat.add_assoc]
    | none =>
      rw [List.filterMap_cons_none hinput]
      by_cases harguments : piece = .arguments
      · rw [if_pos harguments, harguments, List.count_cons_self]
        ring
      · rw [if_neg harguments, List.count_cons_of_ne harguments, Nat.zero_add]

theorem BlockKind.count_arguments (kind : BlockKind) :
    kind.template.pieces.count .arguments = if kind = .functionCall then 1 else 0 := by
  cases kind with
  | custom => rfl
  | _ => decide

section Inputs

variable (halphabet : Alphabet ws g v P)
  (h : ∀ input, Emits P name (fun i => plugged i input) (tallies input)) (input : String)

include halphabet h

theorem uniform_valueText (order : Order) :
    Uniform (Writes P name (Tally.chain false (tallies input)))
      fun i => block.valueText Segment.spent (plugged i) input order := by
  rcases (h input).code with ⟨htallies, hnil⟩ | ⟨first, rest, kind, shape, hcons, hkind, hcode⟩
  · simp only [Block.valueText, hnil, htallies]
    exact .ok (.const (by simp))
  · simp only [Block.valueText, hcons, hkind]
    refine hcode.bind ?_
    rintro codes ⟨texts, hcodes, hwrites⟩
    cases shape with
    | statement =>
      simp only [hcodes, Code.ofShape]
      exact .error _
    | expression childOrder =>
      simp only [hcodes, Code.ofShape]
      obtain ⟨empty, hempty, -⟩ := hwrites.isEmpty
      refine .ok ?_
      by_cases hparens : (!empty && childOrder.needsParens order) = true
      · refine (hwrites.transparent (transparent_parenthesize halphabet.marks)).congr ?_
        intro i hi
        rw [hempty i hi, if_pos hparens]
      · refine hwrites.congr ?_
        intro i hi
        rw [hempty i hi, if_neg hparens]

theorem uniform_valueOr (order : Order) {placeholder : String}
    (hplaceholder : ∀ c ∈ placeholder.toList, P c) :
    Uniform (Writes P name (Tally.chain false (tallies input)))
      fun i => block.valueOr Segment.spent (plugged i) input order placeholder := by
  refine (uniform_valueText halphabet h input order).bind fun texts hwrites => .ok ?_
  obtain ⟨empty, hempty, hzero⟩ := hwrites.isEmpty
  cases empty with
  | true =>
    rw [hzero rfl]
    refine (Writes.const hplaceholder).congr ?_
    intro i hi
    rw [hempty i hi, if_pos rfl]
  | false =>
    refine hwrites.congr ?_
    intro i hi
    rw [hempty i hi, if_neg (by decide)]

theorem uniform_bodyText : Uniform (Writes P name (Tally.chain false (tallies input)))
    fun i => block.bodyText g Segment.spent (plugged i) input := by
  rcases (h input).code with ⟨htallies, hnil⟩ | ⟨first, rest, kind, shape, hcons, hkind, hcode⟩
  · simp only [Block.bodyText, hnil, htallies]
    exact .ok (.const (by simp))
  · simp only [Block.bodyText, hcons, hkind]
    refine hcode.bind ?_
    rintro codes ⟨texts, hcodes, hwrites⟩
    cases shape with
    | statement =>
      simp only [hcodes, Code.ofShape]
      exact .ok (hwrites.transparent (transparent_indentLines halphabet.indent))
    | expression =>
      simp only [hcodes, Code.ofShape]
      exact .error _

theorem uniform_pieceText {arguments : ι → Except GenerateError Text} {a : Nat}
    (harguments : Uniform (Writes P name a) arguments) {id : BlockId} (hget : ws.get? id = some block)
    (hid : id ≠ v) {piece : Piece} (hpiece : piece ∈ block.kind.template.pieces) :
    Uniform (Writes P name (piece.copies tallies a))
      fun i => block.pieceText g Segment.spent (plugged i) (arguments i) piece := by
  have hfixed := halphabet.fixed block.kind piece hpiece
  cases piece with
  | text text => exact .ok (.const hfixed)
  | field field missing => exact .ok (.const (halphabet.fieldText hget hid field hfixed))
  | quoted field =>
    exact .ok (.const (halphabet.quote (halphabet.fieldText hget hid field fun c hc => by cases hc)))
  | value input order placeholder => exact uniform_valueOr halphabet h input order hfixed
  | body input => exact uniform_bodyText halphabet h input
  | list input | parameters input =>
    exact ((h input).items block input).bind fun _ hwrites =>
      .ok (hwrites.join (transparent_commaSeparated halphabet.marks))
  | properties input =>
    exact ((h input).items block input).bind fun _ hwrites =>
      .ok (hwrites.join (transparent_braced halphabet.marks))
  | callee input order placeholder =>
    exact (uniform_valueOr halphabet h input order hfixed).bind fun _ hwrites =>
      .ok (hwrites.transparent transparent_bareCallee)
  | arguments => exact harguments
  | literal type =>
    simp only [Block.pieceText]
    cases hliteral : g.literal? type with
    | none => exact .error _
    | some text => exact .ok (.const (halphabet.literals type text hliteral))

theorem uniform_piecesText {arguments : ι → Except GenerateError Text} {a : Nat}
    (harguments : Uniform (Writes P name a) arguments) {id : BlockId} (hget : ws.get? id = some block)
    (hid : id ≠ v) {pieces : List Piece}
    (hpieces : ∀ piece ∈ pieces, piece ∈ block.kind.template.pieces) :
    Uniform (Writes P name ((pieces.map (Piece.copies tallies a)).sum))
      fun i => block.piecesText g Segment.spent (plugged i) (arguments i) pieces := by
  induction pieces with
  | nil => exact .ok (.const fun c hc => by cases hc)
  | cons piece rest ih =>
    have hpiece := hpieces piece (List.mem_cons_self ..)
    refine (uniform_pieceText halphabet h harguments hget hid hpiece).bind fun texts hwrites => ?_
    refine (ih fun other hother => hpieces other (List.mem_cons_of_mem _ hother)).bind
      fun more hmore => .ok ?_
    exact hwrites.append hmore

end Inputs

/-- The own code of another block. -/
theorem uniform_code (halphabet : Alphabet ws g v P)
    (h : ∀ input, Emits P name (fun i => plugged i input) (tallies input))
    {arguments : ι → Except GenerateError Text} {a : Nat}
    (harguments : Uniform (Writes P name a) arguments) {id : BlockId}
    (hget : ws.get? id = some block) (hid : id ≠ v) :
    Uniform (WritesCode P name
        ((block.tally v id tallies).part + if block.kind = .functionCall then a else 0)
        block.kind.template.shape)
      fun i => block.code g Segment.spent (plugged i) (arguments i) := by
  have hcount : (block.tally v id tallies).part + (if block.kind = .functionCall then a else 0) =
      (block.kind.template.pieces.map (Piece.copies tallies a)).sum := by
    rw [Piece.sum_copies, BlockKind.count_arguments, Block.tally, if_neg hid, Nat.zero_add]
    split
    · rw [Nat.one_mul]
      rfl
    · rw [Nat.zero_mul]
      rfl
  rw [hcount]
  exact (uniform_piecesText halphabet h harguments hget hid fun _ hpiece => hpiece).bind
    fun texts hwrites => .ok ⟨texts, fun _ => rfl, hwrites⟩

/-- The own code of the variable itself is its name. -/
theorem uniform_variable {blocks : ι → Block} (hkind : ∀ i, (blocks i).kind = .variableReference)
    (hfield : ∀ i, (blocks i).field? "VAR_NAME" = some (String.ofList (name i)))
    (arguments : ι → Except GenerateError Text) :
    Uniform (WritesCode P name 1 (.expression .atomic))
      fun i => (blocks i).code g Segment.spent (plugged i) (arguments i) := by
  have hcode (i : ι) : (blocks i).code g Segment.spent (plugged i) (arguments i) =
      .ok (.expression (name i) .atomic) := by
    rw [Block.code, hkind i]
    simp only [BlockKind.template, Template.atomic, Block.piecesText, Block.pieceText, hfield i,
      Option.getD_some, String.toList_ofList, pure_bind, List.append_nil]
    rfl
  refine .inr ⟨fun i => .expression (name i) .atomic, hcode, name, fun _ => rfl, ?_⟩
  exact ⟨[none], by simp, by simp, fun i _ => by simp⟩

/-- A family of edits that give a variable block its names and leave the other blocks as they are. -/
structure Renames (ws : Workspace) (v : BlockId) (name : ι → Text) (edits : ι → Edit) : Prop where
  other : ∀ i id, id ≠ v → edits i id = fun fields => fields
  variable_kind : ∀ block, ws.get? v = some block → block.kind = .variableReference
  variable_name : ∀ i block, ws.get? v = some block →
    Table.find? "VAR_NAME" (edits i v block.fields) = some (String.ofList (name i))

variable {edits : ι → Edit} {id : BlockId} {sockets : Sockets} {rest stack : Stack}

theorem emits_nil : Emits P name (fun _ : ι => []) [] where
  own spent := ⟨.statement, .ok ⟨fun _ => [], fun _ => rfl, .const (by simp)⟩⟩
  followers afterCall previous _ := .ok (.const (by simp))
  items block input := .ok .nil
  code := .inl ⟨rfl, fun _ => rfl⟩

/-- The blocks of a stack as they are read under each of the edits. -/
def Stack.family (g : Generator) (edits : ι → Edit) (stack : Stack) (i : ι) : List Segment :=
  (stack.edit (edits i)).segments g Segment.spent

theorem Stack.family_nil (g : Generator) (edits : ι → Edit) :
    Stack.nil.family g edits = fun _ => [] := by
  funext i
  rw [family, Stack.edit, segments_nil]

theorem Stack.family_cons (g : Generator) (edits : ι → Edit) (id : BlockId) (block : Block)
    (sockets : Sockets) (rest : Stack) :
    (Stack.cons id block sockets rest).family g edits = fun i =>
      ⟨block.kind, (block.edit (edits i id)).code g Segment.spent
        fun input => (sockets.find input).family g edits i⟩ :: rest.family g edits i := by
  funext i
  have hsockets : (sockets.edit (edits i)).segments g Segment.spent =
      fun input => (sockets.find input).family g edits i := by
    funext input
    rw [Sockets.segments_eq, Sockets.find_edit, family]
  rw [family, Stack.edit, segments_cons, hsockets, Block.kind_edit, family]

/-- The own code of the first block of a stack. -/
theorem uniform_own (halphabet : Alphabet ws g v P) (hrenames : Renames ws v name edits)
    (hget : ws.get? id = some block)
    (hsockets : ∀ input, Emits P name ((sockets.find input).family g edits)
      ((sockets.find input).tallies v))
    (hrest : Emits P name (rest.family g edits) (rest.tallies v)) (spent : Bool) :
    Uniform (WritesCode P name (Tally.own spent ((Stack.cons id block sockets rest).tallies v))
        block.kind.template.shape)
      fun i => Segment.spentCode spent ((Stack.cons id block sockets rest).family g edits i) := by
  obtain ⟨shape, hargument⟩ := hrest.own spent
  have harguments := hargument.text
  have htally : (block.tally v id (sockets.read (Block.tally v))).kind = block.kind := rfl
  simp only [Stack.family_cons, Stack.tallies_cons, Segment.spentCode, Tally.own, htally]
  by_cases hparams : spent = true ∧ block.kind = .functionParams
  · simp only [if_pos hparams]
    rw [hparams.2]
    exact .ok ⟨fun _ => [], fun _ => rfl, .const (by simp)⟩
  · simp only [if_neg hparams]
    by_cases hid : id = v
    · subst hid
      have hkind := hrenames.variable_kind block hget
      have hpart : (block.tally id id (sockets.read (Block.tally id))).part = 1 := by
        rw [Block.tally, if_pos rfl, hkind]
        rfl
      rw [if_neg (by rw [hkind]; decide), hpart, hkind]
      refine uniform_variable ?_ ?_ _
      · exact fun _ => hkind
      · exact fun i => hrenames.variable_name i block hget
    · have hsame (i : ι) : block.edit (edits i id) = block := by
        rw [hrenames.other i id hid]
        rfl
      simp only [hsame]
      have hplugged : (sockets.read (Block.tally v)) = fun input => (sockets.find input).tallies v := by
        funext input
        rw [Stack.tallies, Sockets.read_eq]
      rw [hplugged]
      exact uniform_code halphabet hsockets harguments hget hid

/-- The own code of a block, followed by what comes after it. -/
theorem Emits.cons {first : ι → Segment} {others : ι → List Segment} {one : Tally} {more : List Tally}
    (hkind : ∀ i, (first i).kind = one.kind)
    (hown : ∀ spent, Uniform (WritesCode P name (Tally.own spent (one :: more)) one.kind.template.shape)
      fun i => Segment.spentCode spent (first i :: others i))
    (hothers : Emits P name others more) :
    Emits P name (fun i => first i :: others i) (one :: more) := by
  have hfollowers := hothers.followers (one.kind = .functionCall) first fun i => by rw [hkind i]
  refine ⟨fun spent => ⟨_, hown spent⟩, fun afterCall previous hprevious => ?_, fun block input => ?_,
    .inr ⟨first, others, one.kind, one.kind.template.shape, fun _ => rfl, hkind, ?_⟩⟩
  · simp only [Segment.spent, hprevious]
    exact (hown afterCall).text.bind fun _ htext =>
      hfollowers.bind fun _ hafter => .ok (htext.append hafter)
  · simp only [Block.itemTexts, ← Segment.spentCode_false, hkind]
    refine (hown false).bind ?_
    rintro codes ⟨texts, hcodes, htexts⟩
    simp only [hcodes]
    cases hshape : one.kind.template.shape with
    | expression order => exact .error _
    | statement =>
      -- a call is an expression, so the items after this one do not come after a call
      have hcall : one.kind ≠ .functionCall := by
        intro hcall
        rw [hcall] at hshape
        cases hshape
      rw [Tally.chain, decide_eq_false hcall]
      exact (hothers.items block input).bind fun _ hitems => .ok (.cons htexts hitems)
  · simp only [Segment.chainCode, ← Segment.spentCode_false]
    refine (hown false).bind ?_
    rintro codes ⟨texts, hcodes, htexts⟩
    refine hfollowers.bind fun after hafter => .ok ⟨fun i => texts i ++ after i, fun i => ?_, ?_⟩
    · dsimp only
      rw [hcodes i]
      cases one.kind.template.shape <;> rfl
    · exact htexts.append hafter

/-- A stack in which one variable is renamed writes its name as often as it is counted. -/
theorem emits_stack (halphabet : Alphabet ws g v P) (hrenames : Renames ws v name edits)
    {first? : Option BlockId} (hat : stack.At ws first?) :
    Emits P name (stack.family g edits) (stack.tallies v) := by
  induction stack using Stack.deep_induction generalizing first? with
  | nil =>
    rw [Stack.family_nil, Stack.tallies, Stack.read_nil]
    exact emits_nil
  | cons id block sockets rest ihsockets ihrest =>
    rcases hat with ⟨-, hget, hsockets, hrest⟩
    have hplugged (input : String) := ihsockets input (hsockets.find input)
    have hown := uniform_own halphabet hrenames hget hplugged (ihrest hrest)
    simp only [Stack.family_cons, Stack.tallies_cons] at hown ⊢
    exact .cons (fun _ => rfl) hown (ihrest hrest)

end
end BlockProgram
