import BlockProgram.Proofs.Rendering.Call
import BlockProgram.Proofs.Rendering.Session

/-!
The elements of a list, in an array or between the parentheses of a call. An item is written as its value with a
separator of its own after it, and the list cuts that separator off again, as text:

    value      "a,"   " b "   ""           what is read from the sockets of the items
    item       a,,⏎    b ,⏎   "",⏎          with the placeholder where there is no text
    element    a,     b      ""           trimmed, one comma dropped, trimmed again
    list       [a,, b, ""]

What is cut off is never a part of the value, whatever its text (`bareItem_append`), so the elements are the values
without the white space around them, and those that are blank are left out (`list_elements`).
-/

namespace BlockProgram

/-! ### Items as texts -/

namespace Text

variable {blanks : Text}

/-- The values as elements of a list: without the white space around them, and without the blank ones. -/
def elements (values : List Text) : Text :=
  [',', ' '].intercalate ((values.map trim).filter fun value => !value.isEmpty)

/-- The text of a value, or the placeholder where there is none. -/
def shown (text : Text) : Text :=
  if text.isEmpty then "\"\"".toList else text

/-- A text with a comma after it loses this comma and no other. -/
theorem bareItem_append (hblanks : isBlank blanks = true) (value : Text) :
    bareItem (value ++ ',' :: blanks) = trim value := by
  have htrim : trim (value ++ ',' :: blanks) = value.dropWhile isBlankChar ++ [','] := by
    have hcomma : isBlankChar ',' = false := by decide
    rw [← List.singleton_append, ← List.append_assoc, trim_append_blank hblanks, trim_eq]
    have hstart : (value ++ [',']).dropWhile isBlankChar = value.dropWhile isBlankChar ++ [','] := by
      rw [List.dropWhile_append]
      split
      · rename_i hnone
        rw [List.isEmpty_iff.1 hnone, List.dropWhile_cons_of_neg (by simp [hcomma]), List.nil_append]
      · rfl
    rw [hstart, List.rdropWhile_concat_neg _ _ _ (by simp [hcomma])]
  rw [bareItem, htrim, dropComma, if_pos List.getLast?_concat, List.dropLast_concat]
  conv_rhs => rw [← List.takeWhile_append_dropWhile (p := isBlankChar) (l := value)]
  exact (trim_blank_append (List.all_eq_true.2 fun c hc => List.mem_takeWhile_imp hc) _).symm

theorem commaSeparated_eq_elements (hblanks : isBlank blanks = true) (values : List Text) :
    commaSeparated (values.map (· ++ ',' :: blanks)) = elements values := by
  rw [commaSeparated, elements, List.map_map]
  congr 2
  exact List.map_congr_left fun value _ => bareItem_append hblanks value

end Text

/-- How an item is written: the value in a socket, and a fixed text after it. -/
def Template.item (input tail : String) : Template :=
  .statement [.value input .comma "\"\"", .text tail]

/-! ### Orders -/

/-- No kind of expression binds more loosely than a list asks for. -/
theorem BlockKind.needsParens_comma {kind : BlockKind} {order : Order}
    (h : kind.template.shape = .expression order) : order.needsParens .comma = false := by
  cases kind <;> cases h <;> rfl

namespace Setting

open Rendering

variable {s : Setting} {id item child : BlockId} {block holder : Block} {pass after : Pass} {input tail : String}

/-- An expression has the order of its kind, with or without the blocks after it. -/
theorem needsParens_comma_of_renderBlock {text : Text} {order : Order}
    (h : s.renderBlock child .chain pass = (.ok (.expression text order), after)) :
    order.needsParens .comma = false := by
  obtain ⟨own, mid, more, halone, hcode⟩ := renderBlock_chain_eq_append h
  have hown : s.renderFreely child .alone pass = some (.ok own, mid) := congrArg some halone
  cases hget : s.workspace.get? child with
  | none =>
    rw [← renderLevel_renderFreely, renderLevel, lookup_of_get?_none hget] at hown
    cases hown
  | some block =>
    rw [renderFreely_alone hget] at hown
    obtain ⟨-, last, hown, -⟩ := during_ok hown
    obtain ⟨pieces, ended, -, hown⟩ := bind_ok hown
    cases hown
    cases hshape : block.kind.template.shape with
    | statement =>
      rw [hshape] at hcode
      cases hcode
    | expression kindOrder =>
      rw [hshape] at hcode
      cases hcode
      exact BlockKind.needsParens_comma hshape

/-! ### Items -/

/-- What is read from a socket of an item: nothing if it is empty, and else the text of the expression in it, which
is not put into parentheses. -/
theorem valueText_comma_ok_iff {text : Text} :
    s.valueText s.renderFreely block input .comma pass = some (.ok text, after) ↔
      (block.input? input = none ∧ text = [] ∧ after = pass) ∨
      ∃ child order, block.input? input = some child ∧
        s.renderBlock child .chain pass = (.ok (.expression text order), after) := by
  rw [valueText]
  cases hinput : block.input? input with
  | none =>
    constructor
    · rintro ⟨⟩
      exact .inl ⟨rfl, rfl, rfl⟩
    · rintro (⟨-, rfl, rfl⟩ | ⟨_, _, hchild, -⟩)
      · rfl
      · cases hchild
  | some child =>
    dsimp only
    rw [bind_ok_iff]
    constructor
    · rintro ⟨code, mid, hcode, hended⟩
      cases code with
      | statement => cases hended
      | expression own order =>
        have hchild := renderBlock_eq hcode
        dsimp only at hended
        rw [needsParens_comma_of_renderBlock hchild, Bool.and_false] at hended
        cases hended
        exact .inr ⟨child, order, rfl, hchild⟩
    · rintro (⟨hnone, -⟩ | ⟨_, order, hchild, hrender⟩)
      · cases hnone
      · cases hchild
        refine ⟨_, after, congrArg some hrender, ?_⟩
        dsimp only
        rw [needsParens_comma_of_renderBlock hrender, Bool.and_false]
        rfl

/-- An item as it is written: its value, or the placeholder, and after it a fixed text. -/
theorem renderFreely_item_ok_iff (hget : s.workspace.get? item = some block)
    (htemplate : block.kind.template = .item input tail) {code : Code} :
    s.renderFreely item .alone pass = some (.ok code, after) ↔
      item ∉ pass.rendering ∧ ∃ text mid,
        s.valueText s.renderFreely block input .comma (pass.enter item) = some (.ok text, mid) ∧
        code = .statement (Text.shown text ++ tail.toList) ∧ after = mid.leave item := by
  have hcode : s.blockCode s.renderFreely item block =
      s.valueText s.renderFreely block input .comma >>= fun text =>
        return .statement (Text.shown text ++ tail.toList) := by
    rw [blockCode, htemplate]
    simp only [Template.item, Template.statement, piecesText, pieceText, valueOr, pure_bind, bind_assoc,
      List.append_nil, Code.ofShape]
    rfl
  rw [renderFreely_alone hget, hcode, during_ok_iff]
  simp only [map_ok_iff]
  refine and_congr_right fun _ => ⟨?_, ?_⟩
  · rintro ⟨mid, ⟨text, htext, hcode⟩, hafter⟩
    exact ⟨text, mid, htext, hcode, hafter⟩
  · rintro ⟨text, mid, htext, hcode, hafter⟩
    exact ⟨mid, ⟨text, htext, hcode⟩, hafter⟩

/-- The first item is left before the items after it are read. -/
theorem itemTexts_item_ok_iff (hget : s.workspace.get? item = some block)
    (htemplate : block.kind.template = .item input tail)
    {listInput : String} {stop : ChainEnd} {rest : List BlockId} {texts : List Text} :
    s.itemTexts s.renderFreely holder listInput stop (item :: rest) pass = some (.ok texts, after) ↔
      item ∉ pass.rendering ∧ ∃ text mid more,
        s.valueText s.renderFreely block input .comma (pass.enter item) = some (.ok text, mid) ∧
        s.itemTexts s.renderFreely holder listInput stop rest (mid.leave item) = some (.ok more, after) ∧
        texts = (Text.shown text ++ tail.toList) :: more := by
  rw [itemTexts, bind_ok_iff]
  constructor
  · rintro ⟨code, mid, hcode, hrest⟩
    obtain ⟨hitem, text, last, htext, rfl, rfl⟩ := (renderFreely_item_ok_iff hget htemplate).1 hcode
    obtain ⟨more, hmore, rfl⟩ := map_ok_iff.1 hrest
    exact ⟨hitem, text, last, more, htext, hmore, rfl⟩
  · rintro ⟨hitem, text, mid, more, htext, hmore, rfl⟩
    exact ⟨_, _, (renderFreely_item_ok_iff hget htemplate).2 ⟨hitem, text, mid, htext, rfl, rfl⟩,
      map_ok_iff.2 ⟨more, hmore, rfl⟩⟩

/-- The items of a list have these values, read one after the other. Each item is marked while the expression in
its socket is rendered, and an empty socket gives the placeholder. -/
inductive Values (s : Setting) (input : String) : Pass → List BlockId → List Text → Pass → Prop where
  | nil {pass : Pass} : Values s input pass [] [] pass
  | empty {pass after : Pass} {item : BlockId} {block : Block} {rest : List BlockId} {values : List Text}
    (hget : s.workspace.get? item = some block) (hitem : item ∉ pass.rendering)
    (hinput : block.input? input = none) (hrest : Values s input pass rest values after) :
    Values s input pass (item :: rest) ("\"\"".toList :: values) after
  | filled {pass mid after : Pass} {item child : BlockId} {block : Block} {text : Text} {order : Order}
    {rest : List BlockId} {values : List Text} (hget : s.workspace.get? item = some block)
    (hitem : item ∉ pass.rendering) (hinput : block.input? input = some child)
    (hchild : s.renderBlock child .chain (pass.enter item) = (.ok (.expression text order), mid))
    (hrest : Values s input (mid.leave item) rest values after) :
    Values s input pass (item :: rest) (Text.shown text :: values) after

/-- The texts of items are their values with a fixed text after each. -/
theorem itemTexts_ok_iff {items : List BlockId} {listInput : String} {texts : List Text}
    (hitems : ∀ item ∈ items, ∃ block, s.workspace.get? item = some block ∧
      block.kind.template = .item input tail) :
    s.itemTexts s.renderFreely holder listInput .complete items pass = some (.ok texts, after) ↔
      ∃ values, s.Values input pass items values after ∧ texts = values.map (· ++ tail.toList) := by
  induction items generalizing pass texts with
  | nil =>
    constructor
    · rintro ⟨⟩
      exact ⟨[], .nil, rfl⟩
    · rintro ⟨_, ⟨⟩, rfl⟩
      rfl
  | cons item rest ih =>
    obtain ⟨⟨block, hget, htemplate⟩, hrest⟩ := List.forall_mem_cons.1 hitems
    rw [itemTexts_item_ok_iff hget htemplate]
    constructor
    · rintro ⟨hitem, text, mid, more, htext, hmore, rfl⟩
      obtain ⟨values, hvalues, rfl⟩ := (ih hrest).1 hmore
      rcases valueText_comma_ok_iff.1 htext with ⟨hinput, rfl, rfl⟩ | ⟨child, order, hinput, hchild⟩
      · rw [leave_enter] at hvalues
        exact ⟨_, .empty hget hitem hinput hvalues, rfl⟩
      · exact ⟨_, .filled hget hitem hinput hchild hvalues, rfl⟩
    · rintro ⟨_, hvalues, rfl⟩
      cases hvalues with
      | empty hother hitem hinput hvalues =>
        cases hget.symm.trans hother
        refine ⟨hitem, _, _, _, valueText_comma_ok_iff.2 (.inl ⟨hinput, rfl, rfl⟩), ?_, rfl⟩
        rw [leave_enter]
        exact (ih hrest).2 ⟨_, hvalues, rfl⟩
      | filled hother hitem hinput hchild hvalues =>
        cases hget.symm.trans hother
        exact ⟨hitem, _, _, _, valueText_comma_ok_iff.2 (.inr ⟨_, _, hinput, hchild⟩),
          (ih hrest).2 ⟨_, hvalues, rfl⟩, rfl⟩

/-! ### Lists -/

/-- A chain of items in a socket: blocks of one kind, to the end of the chain. -/
structure ListsItems (s : Setting) (block : Block) (input : String) (kind : BlockKind) (items : List BlockId) :
    Prop where
  chain : s.workspace.chainFrom (block.input? input) = (items, .complete)
  kinds : ∀ item ∈ items, ∀ found, s.workspace.get? item = some found → found.kind = kind

theorem ListsItems.templates {listInput : String} {kind : BlockKind} {items : List BlockId}
    (h : s.ListsItems block listInput kind items)
    (htemplate : kind.template = .item input tail) :
    ∀ item ∈ items, ∃ found, s.workspace.get? item = some found ∧
      found.kind.template = .item input tail := by
  intro item hitem
  obtain ⟨-, hids, -⟩ := (s.workspace.walks_walk [] (block.input? listInput)).found
  have hchain : (s.workspace.walk [] (block.input? listInput)).1 = items := congrArg Prod.fst h.chain
  rw [hchain] at hids
  cases hget : s.workspace.get? item with
  | none =>
    exact absurd (Workspace.mem_ids_iff.1 (hids hitem)) (Nat.not_lt.2 (Workspace.get?_eq_none_iff.1 hget))
  | some found => exact ⟨found, rfl, by rw [h.kinds item hitem found hget, htemplate]⟩

/-- The elements that a block writes, if it reads a list and nothing else. -/
theorem renderBlock_list_ok_iff {listInput : String} {kind : BlockKind} {items : List BlockId} {blanks : Text}
    (hget : s.workspace.get? id = some block) (h : s.ListsItems block listInput kind items)
    (htemplate : kind.template = .item input tail)
    (htail : tail.toList = ',' :: blanks) (hblanks : Text.isBlank blanks = true) (write : Text → Code)
    (hcode : s.blockCode s.renderFreely id block (pass.enter id) =
      (s.chainItems s.renderFreely block listInput >>= fun items => return write (Text.commaSeparated items) :
        Rendering Code) (pass.enter id)) {code : Code} :
    s.renderBlock id .alone pass = (.ok code, after) ↔
      id ∉ pass.rendering ∧ ∃ values last, s.Values input (pass.enter id) items values last ∧
        code = write (Text.elements values) ∧ after = last.leave id := by
  have hrender : s.renderBlock id .alone pass = (.ok code, after) ↔
      s.renderFreely id .alone pass = some (.ok code, after) :=
    ⟨congrArg some, renderBlock_eq⟩
  have hwrite (values : List Text) :
      Text.commaSeparated (values.map (· ++ tail.toList)) = Text.elements values := by
    rw [htail, Text.commaSeparated_eq_elements hblanks]
  rw [hrender, renderFreely_alone hget, during_ok_iff, hcode, chainItems, h.chain]
  simp only [map_ok_iff, itemTexts_ok_iff (h.templates htemplate)]
  refine and_congr_right fun _ => ⟨?_, ?_⟩
  · rintro ⟨last, ⟨_, ⟨values, hvalues, rfl⟩, hended⟩, hafter⟩
    rw [hwrite] at hended
    exact ⟨values, last, hvalues, hended, hafter⟩
  · rintro ⟨values, last, hvalues, hended, hafter⟩
    rw [← hwrite] at hended
    exact ⟨last, ⟨_, ⟨values, hvalues, rfl⟩, hended⟩, hafter⟩

/-- The block is an array with these items. -/
def IsArray (s : Setting) (id : BlockId) (items : List BlockId) : Prop :=
  ∃ block, s.workspace.get? id = some block ∧ block.kind = .arrayLiteral ∧
    s.ListsItems block "ITEMS" .arrayItem items

/-- The blocks are a call and its parameters, with these items. -/
structure IsCall (s : Setting) (call params : BlockId) (items : List BlockId) : Prop where
  called : ∃ block, s.workspace.get? call = some block ∧ block.kind = .functionCall ∧ block.next = some params
  listed : ∃ block, s.workspace.get? params = some block ∧ block.kind = .functionParams ∧
    s.ListsItems block "PARAMS" .functionParameter items

section

variable {items : List BlockId} {code : Code}

/-- An array as it is rendered alone. -/
theorem IsArray.renderBlock_ok_iff (h : s.IsArray id items) :
    s.renderBlock id .alone pass = (.ok code, after) ↔
      id ∉ pass.rendering ∧ ∃ values last, s.Values "VALUE" (pass.enter id) items values last ∧
        code = .expression ('[' :: (Text.elements values ++ [']'])) .atomic ∧ after = last.leave id := by
  obtain ⟨block, hget, hkind, hitems⟩ := h
  refine renderBlock_list_ok_iff hget hitems rfl rfl (by decide)
    (fun text => .expression ('[' :: (text ++ [']'])) .atomic) ?_
  rw [blockCode, hkind]
  simp only [BlockKind.template, Template.atomic, piecesText, pieceText, pure_bind, bind_assoc, Code.ofShape]
  rfl

theorem takeConsumed_of_not_mem (h : id ∉ pass.consumed) :
    Rendering.takeConsumed id pass = some (.ok false, pass) := by
  show some (Except.ok (decide (id ∈ pass.consumed)), { pass with consumed := pass.consumed.erase id }) = _
  rw [decide_eq_false h, List.erase_of_not_mem h]

/-- Parameters as they are rendered alone, while they are not consumed. -/
theorem renderBlock_parameters_ok_iff (hget : s.workspace.get? id = some block)
    (hkind : block.kind = .functionParams) (h : s.ListsItems block "PARAMS" .functionParameter items)
    (hconsumed : id ∉ pass.consumed) :
    s.renderBlock id .alone pass = (.ok code, after) ↔
      id ∉ pass.rendering ∧ ∃ values last, s.Values "PARAM_VALUE" (pass.enter id) items values last ∧
        code = .statement (Text.elements values) ∧ after = last.leave id := by
  refine renderBlock_list_ok_iff hget h rfl rfl rfl .statement ?_
  have hentered : id ∉ (pass.enter id).consumed := hconsumed
  rw [blockCode, hkind]
  simp only [BlockKind.template, Template.statement, piecesText, pieceText, pure_bind, bind_assoc, Code.ofShape,
    List.append_nil]
  rw [bind_apply, takeConsumed_of_not_mem hentered]
  dsimp only
  rw [if_neg Bool.false_ne_true, bind_assoc]
  rfl

/-- A call as it is rendered alone, if its parameters are not consumed after its callee is read. -/
theorem IsCall.renderBlock_ok_iff {call params : BlockId} {callee : Text} {mid : Pass}
    (h : s.IsCall call params items)
    (hcallee : s.readValue call "FUNCTION_NAME" .atomic (pass.enter call) = (.ok callee, mid))
    (hconsumed : params ∉ mid.consumed) :
    s.renderBlock call .alone pass = (.ok code, after) ↔
      call ∉ pass.rendering ∧ params ∉ mid.rendering ∧
        ∃ values last, s.Values "PARAM_VALUE" (mid.enter params) items values last ∧
          code = .expression (Text.calleeName callee ++ Text.parenthesize (Text.elements values)) .functionCall ∧
          after = ((last.leave params).consume params).leave call := by
  obtain ⟨block, hget, hkind, hnext⟩ := h.called
  obtain ⟨list, hparams, hlist, hitems⟩ := h.listed
  have hcode : s.callCode call block (pass.enter call) =
      (s.renderBlock params .alone >>= fun list => do
        Setting.consume params
        return .expression (Text.calleeName callee ++ Text.parenthesize list.text) .functionCall :
          Run Code) mid := by
    rw [callCode, Run.bind_apply, hcallee, readArguments, hnext]
    dsimp only
    rw [bind_assoc]
    rfl
  constructor
  · intro hended
    have halone : s.renderFreely call .alone pass = some (.ok code, after) := congrArg some hended
    rw [renderFreely_call hget hkind] at halone
    obtain ⟨hcall, last, hlast, rfl⟩ := during_ok halone
    have hlast : s.callCode call block (pass.enter call) = (.ok code, last) := Option.some.inj hlast
    rw [hcode] at hlast
    obtain ⟨paramsCode, ended, hparamsCode, hlast⟩ := Run.bind_ok hlast
    obtain ⟨hfree, values, done, hvalues, rfl, rfl⟩ :=
      (renderBlock_parameters_ok_iff hparams hlist hitems hconsumed).1 hparamsCode
    cases hlast
    exact ⟨hcall, hfree, values, done, hvalues, rfl, rfl⟩
  · rintro ⟨hcall, hfree, values, last, hvalues, rfl, rfl⟩
    rw [renderBlock_alone_call hget hkind hcall, hcode, Run.bind_apply,
      (renderBlock_parameters_ok_iff hparams hlist hitems hconsumed).2 ⟨hfree, values, last, hvalues, rfl, rfl⟩]
    rfl

/-- Where nothing but parameters comes after calls, reading a socket leaves nothing consumed. -/
theorem readValue_unconsumed (hpaired : s.workspace.CallsPaired) (hpass : pass.consumed = []) {input : String}
    {order : Order} {text : Text} (h : s.readValue id input order pass = (.ok text, after)) :
    after.consumed = [] := by
  have hrender := clears_renderAt hpaired s.enoughDepth
  have hcloses : s.Closes pass (fun _ consumed => consumed = []) (s.readValue id input order pass) :=
    closes_socket (fun _ block _ => leaves_valueText hrender block input order) _ hpass
  rw [h] at hcloses
  exact hcloses.2

/-- **The elements of a list are the values of its items,** trimmed and in the order of the chain, without the
blank ones: in an array, and in a call whose parameters are not consumed when it comes to them. Such a block is
rendered exactly if its items have values, and with the blocks after it its own code stands first. -/
theorem list_elements (s : Setting) (items : List BlockId) :
    (∀ id, s.IsArray id items → ∀ pass,
      (∀ code after, s.renderBlock id .alone pass = (.ok code, after) ↔
        id ∉ pass.rendering ∧ ∃ values last, s.Values "VALUE" (pass.enter id) items values last ∧
          code = .expression ('[' :: (Text.elements values ++ [']'])) .atomic ∧ after = last.leave id) ∧
      ∀ code after, s.renderBlock id .chain pass = (.ok code, after) →
        ∃ values last more, s.Values "VALUE" (pass.enter id) items values last ∧
          code = .expression ('[' :: (Text.elements values ++ [']']) ++ more) .atomic) ∧
    ∀ call params, s.IsCall call params items → ∀ pass callee mid,
      s.readValue call "FUNCTION_NAME" .atomic (pass.enter call) = (.ok callee, mid) →
      (s.workspace.CallsPaired → pass.consumed = [] → mid.consumed = []) ∧
      (params ∉ mid.consumed →
        (∀ code after, s.renderBlock call .alone pass = (.ok code, after) ↔
          call ∉ pass.rendering ∧ params ∉ mid.rendering ∧
            ∃ values last, s.Values "PARAM_VALUE" (mid.enter params) items values last ∧
              code = .expression (Text.calleeName callee ++ Text.parenthesize (Text.elements values))
                .functionCall ∧
              after = ((last.leave params).consume params).leave call) ∧
        ∀ code after, s.renderBlock call .chain pass = (.ok code, after) →
          ∃ values last more, s.Values "PARAM_VALUE" (mid.enter params) items values last ∧
            code = .expression (Text.calleeName callee ++ Text.parenthesize (Text.elements values) ++ more)
              .functionCall) := by
  refine ⟨fun id harray pass => ⟨fun code after => harray.renderBlock_ok_iff, fun code after hcode => ?_⟩,
    fun call params hcalls pass callee mid hcallee => ⟨fun hpaired hpass => ?_, fun hconsumed =>
      ⟨fun code after => hcalls.renderBlock_ok_iff hcallee hconsumed, fun code after hcode => ?_⟩⟩⟩
  · obtain ⟨own, mid, more, hown, rfl⟩ := renderBlock_chain_eq_append hcode
    obtain ⟨-, values, last, hvalues, rfl, -⟩ := harray.renderBlock_ok_iff.1 hown
    exact ⟨values, last, more, hvalues, rfl⟩
  · have hentered : (pass.enter call).consumed = [] := hpass
    exact readValue_unconsumed hpaired hentered hcallee
  · obtain ⟨own, ended, more, hown, rfl⟩ := renderBlock_chain_eq_append hcode
    obtain ⟨-, -, values, last, hvalues, rfl, -⟩ := (hcalls.renderBlock_ok_iff hcallee hconsumed).1 hown
    exact ⟨values, last, more, hvalues, rfl⟩

end

end Setting

/-- An array of a variable without a name. -/
def namelessItem : Workspace where
  blocks :=
    #[{ id := "b0", kind := .arrayLiteral, inputs := [("ITEMS", ⟨1⟩)] },
      { id := "b1", kind := .arrayItem, inputs := [("VALUE", ⟨2⟩)] },
      { id := "b2", kind := .variableReference }]
  top := [⟨0⟩]

/-- The variable has no text, but its socket is not empty; it is written as the placeholder nevertheless. And a
call that is rendered alone for a second time is written without its parameters, which are still consumed. -/
theorem namelessItem_shown :
    (Setting.renderBlock ⟨namelessItem, {}⟩ ⟨2⟩ .chain {}).1 = .ok (.expression [] .atomic) ∧
    '[' :: (Text.elements [[]] ++ [']']) = "[]".toList ∧
    Generator.generate {} namelessItem = .ok "[\"\"];" ∧
    Setting.renderBlock ⟨callWorkspace, {}⟩ ⟨0⟩ .alone {} =
      (.ok (.expression "log(1)".toList .functionCall), { consumed := [⟨2⟩] }) ∧
    (Setting.renderBlock ⟨callWorkspace, {}⟩ ⟨0⟩ .alone { consumed := [⟨2⟩] }).1 =
      .ok (.expression "log()".toList .functionCall) :=
  ⟨by cbv, by decide, by cbv, by cbv, by cbv⟩

/-- An array of a value that ends in a comma, one of white space and one that is missing. -/
def listedValues : Workspace where
  blocks :=
    #[{ id := "b0", kind := .arrayLiteral, inputs := [("ITEMS", ⟨1⟩)] },
      { id := "b1", kind := .arrayItem, inputs := [("VALUE", ⟨2⟩)], next := some ⟨3⟩ },
      { id := "b2", kind := .variableReference, fields := [("VAR_NAME", " a, ")] },
      { id := "b3", kind := .arrayItem, inputs := [("VALUE", ⟨4⟩)], next := some ⟨5⟩ },
      { id := "b4", kind := .variableReference, fields := [("VAR_NAME", " ")] },
      { id := "b5", kind := .arrayItem }]
  top := [⟨0⟩]

/-- The first value keeps its comma, the second is left out and the third has a placeholder. A call is written
with the value of its parameter. -/
theorem listedValues_elements :
    Setting.renderBlock ⟨listedValues, {}⟩ ⟨0⟩ .alone {} = (.ok (.expression "[a,, \"\"]".toList .atomic), {}) ∧
    Setting.renderBlock ⟨callWorkspace, {}⟩ ⟨0⟩ .alone {} =
      (.ok (.expression "log(1)".toList .functionCall), { consumed := [⟨2⟩] }) := by
  have harray : Setting.IsArray ⟨listedValues, {}⟩ ⟨0⟩ [⟨1⟩, ⟨3⟩, ⟨5⟩] :=
    ⟨_, rfl, rfl, by cbv, by simp [listedValues, Workspace.get?]⟩
  have hvalues : Setting.Values ⟨listedValues, {}⟩ "VALUE" (Pass.enter ⟨0⟩ {}) [⟨1⟩, ⟨3⟩, ⟨5⟩]
      [Text.shown " a, ".toList, Text.shown " ".toList, "\"\"".toList] (Pass.enter ⟨0⟩ {}) :=
    .filled rfl (by decide) rfl (by cbv) (.filled rfl (by decide) rfl (by cbv) (.empty rfl (by decide) rfl .nil))
  have hcall : Setting.IsCall ⟨callWorkspace, {}⟩ ⟨0⟩ ⟨2⟩ [⟨3⟩] :=
    ⟨⟨_, rfl, rfl, rfl⟩, _, rfl, rfl, by cbv, by simp [callWorkspace, Workspace.get?]⟩
  have hcallee : Setting.readValue ⟨callWorkspace, {}⟩ ⟨0⟩ "FUNCTION_NAME" .atomic (Pass.enter ⟨0⟩ {}) =
      (.ok "log".toList, Pass.enter ⟨0⟩ {}) := by
    cbv
  have hargument : Setting.Values ⟨callWorkspace, {}⟩ "PARAM_VALUE" (Pass.enter ⟨2⟩ (Pass.enter ⟨0⟩ {})) [⟨3⟩]
      [Text.shown "1".toList] (Pass.enter ⟨2⟩ (Pass.enter ⟨0⟩ {})) :=
    .filled rfl (by decide) rfl (by cbv) .nil
  obtain ⟨harrays, -⟩ := Setting.list_elements ⟨listedValues, {}⟩ [⟨1⟩, ⟨3⟩, ⟨5⟩]
  obtain ⟨-, hcalls⟩ := Setting.list_elements ⟨callWorkspace, {}⟩ [⟨3⟩]
  obtain ⟨hunconsumed, hcalls⟩ := hcalls _ _ hcall {} _ _ hcallee
  have hconsumed := hunconsumed callWorkspace_callsPaired rfl
  exact ⟨((harrays _ harray {}).1 _ _).2 ⟨List.not_mem_nil, _, _, hvalues, rfl, rfl⟩,
    ((hcalls List.not_mem_nil).1 _ _).2 ⟨List.not_mem_nil, by decide, _, _, hargument, rfl, rfl⟩⟩

end BlockProgram
