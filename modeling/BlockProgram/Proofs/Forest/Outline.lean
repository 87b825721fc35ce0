import BlockProgram.Proofs.Forest.SingleLine
import BlockProgram.Proofs.Text.Whole

/-!
Programs whose indentation shows their nesting. A command stands on a line of its own, and what is in its body is
one level deeper, between the line that opens the body and a line with the brace that closes it:

    loop i in xs {          depth 0
      vl a = i;             depth 1
      if a > 2 {            depth 1
        res a;              depth 2
      }                     depth 1
    }                       depth 0

Every body is indented as a text, with all the bodies in it already indented; since commands are whole lines, that
takes each of their lines one level deeper and nothing else.
-/

namespace BlockProgram

open Text

/-! ### Outlines -/

namespace Setting

/-- What stands for a value socket: the value that a first run reads, or the placeholder if it has no text. -/
def Shows (s : Setting) (id : BlockId) (input : String) (order : Order) (placeholder : String)
    (shown : Text) : Prop :=
  ∃ found, (s.readValue id input order {}).1 = .ok found ∧
    shown = if found.isEmpty then placeholder.toList else found

/-- The line of a declaration or a return. -/
inductive Sentence (s : Setting) (id : BlockId) (block : Block) : Text → Prop where
  | declaration {value : Text} : block.kind = .variableDeclaration →
    s.Shows id "VALUE" .assignment "\"\"" value →
    Sentence s id block ("vl ".toList ++ ((block.field? "VAR_NAME").getD "").toList ++ " = ".toList ++ value ++ [';'])
  | result {value : Text} : block.kind = .returnStatement → s.Shows id "VALUE" .none "null" value →
    Sentence s id block ("res ".toList ++ value ++ [';'])

/-- The line that opens the body of a condition or a loop. -/
inductive Header (s : Setting) (id : BlockId) (block : Block) : Text → Prop where
  | condition {value : Text} : block.kind = .ifStatement → s.Shows id "CONDITION" .none "true" value →
    Header s id block ("if ".toList ++ value ++ [' ', '\x7b'])
  | loop {value : Text} : block.kind = .loopStatement → s.Shows id "ITERABLE" .member "[]" value →
    Header s id block ("loop ".toList ++ ((block.field? "ITER_VAR").getD "").toList ++ " in ".toList ++ value ++
      [' ', '\x7b'])

/-- The rows of a chain of commands at some depth, in the order of the chain. -/
inductive Outline (s : Setting) : Nat → Option BlockId → List Row → Prop where
  | done (depth : Nat) : Outline s depth none []
  | line {depth : Nat} {id : BlockId} {block : Block} {text : Text} {rest : List Row} :
    s.workspace.get? id = some block → s.Sentence id block text → Outline s depth block.next rest →
    Outline s depth (some id) (⟨depth, text⟩ :: rest)
  | body {depth : Nat} {id : BlockId} {block : Block} {text : Text} {inner rest : List Row} :
    s.workspace.get? id = some block → s.Header id block text →
    Outline s (depth + 1) (block.input? "DO") inner → Outline s depth block.next rest →
    Outline s depth (some id) (⟨depth, text⟩ :: (inner ++ ⟨depth, ['\x7d']⟩ :: rest))

variable {s : Setting} {depth : Nat} {first? : Option BlockId} {rows : List Row}

/-- A chain one level deeper has the same rows one level deeper. -/
theorem Outline.deepen (h : s.Outline depth first? rows) :
    s.Outline (depth + 1) first? (rows.map Row.deepen) := by
  induction h with
  | done depth => exact .done _
  | line hget htext _ ih => exact .line hget htext ih
  | body hget htext _ _ ihinner ihrest =>
    rw [List.map_cons, List.map_append, List.map_cons]
    exact .body hget htext ihinner ihrest

theorem Outline.exists_first {id : BlockId} (h : s.Outline depth (some id) rows) :
    ∃ row rest, rows = row :: rest ∧ row.depth = depth := by
  cases h with
  | line => exact ⟨_, _, rfl, rfl⟩
  | body => exact ⟨_, _, rfl, rfl⟩

end Setting

/-! ### Commands -/

namespace Block

variable {g : Generator} {plugged : String → List Segment} {block : Block}
  {arguments : Except GenerateError Text} {text : Text}

theorem exists_declaration (hkind : block.kind = .variableDeclaration)
    (h : block.piecesText g Segment.spent plugged arguments block.kind.template.pieces = .ok text) :
    ∃ shown, block.valueOr Segment.spent plugged "VALUE" .assignment "\"\"" = .ok shown ∧
      text = ("vl ".toList ++ ((block.field? "VAR_NAME").getD "").toList ++ " = ".toList ++ shown ++ [';']) ++
        ['\n'] := by
  rw [hkind] at h
  obtain ⟨_, hname, rfl⟩ := piecesText_text h
  obtain ⟨_, hequals, rfl⟩ := piecesText_field hname
  obtain ⟨_, hvalue, rfl⟩ := piecesText_text hequals
  obtain ⟨shown, _, hshown, hlast, rfl⟩ := piecesText_cons hvalue
  cases piecesText_singleton hlast
  exact ⟨shown, hshown, by simp⟩

theorem exists_return (hkind : block.kind = .returnStatement)
    (h : block.piecesText g Segment.spent plugged arguments block.kind.template.pieces = .ok text) :
    ∃ shown, block.valueOr Segment.spent plugged "VALUE" .none "null" = .ok shown ∧
      text = ("res ".toList ++ shown ++ [';']) ++ ['\n'] := by
  rw [hkind] at h
  obtain ⟨_, hvalue, rfl⟩ := piecesText_text h
  obtain ⟨shown, _, hshown, hlast, rfl⟩ := piecesText_cons hvalue
  cases piecesText_singleton hlast
  exact ⟨shown, hshown, by simp⟩

/-- The pieces after the header of a command with a body. -/
theorem exists_body (h : block.piecesText g Segment.spent plugged arguments
      [.text " \x7b\n", .body "DO", .text "\x7d\n"] = .ok text) :
    ∃ body, block.bodyText g Segment.spent plugged "DO" = .ok body ∧
      text = [' ', '\x7b'] ++ '\n' :: (body ++ ['\x7d', '\n']) := by
  obtain ⟨_, hrest, rfl⟩ := piecesText_text h
  obtain ⟨body, _, hbody, hlast, rfl⟩ := piecesText_cons hrest
  cases piecesText_singleton hlast
  exact ⟨body, hbody, rfl⟩

theorem exists_condition (hkind : block.kind = .ifStatement)
    (h : block.piecesText g Segment.spent plugged arguments block.kind.template.pieces = .ok text) :
    ∃ shown body, block.valueOr Segment.spent plugged "CONDITION" .none "true" = .ok shown ∧
      block.bodyText g Segment.spent plugged "DO" = .ok body ∧
      text = ("if ".toList ++ shown ++ [' ', '\x7b']) ++ '\n' :: (body ++ ['\x7d', '\n']) := by
  rw [hkind] at h
  obtain ⟨_, hvalue, rfl⟩ := piecesText_text h
  obtain ⟨shown, _, hshown, hopening, rfl⟩ := piecesText_cons hvalue
  obtain ⟨body, hbody, rfl⟩ := exists_body hopening
  exact ⟨shown, body, hshown, hbody, by simp only [List.append_assoc]⟩

theorem exists_loop (hkind : block.kind = .loopStatement)
    (h : block.piecesText g Segment.spent plugged arguments block.kind.template.pieces = .ok text) :
    ∃ shown body, block.valueOr Segment.spent plugged "ITERABLE" .member "[]" = .ok shown ∧
      block.bodyText g Segment.spent plugged "DO" = .ok body ∧
      text = ("loop ".toList ++ ((block.field? "ITER_VAR").getD "").toList ++ " in ".toList ++ shown ++
        [' ', '\x7b']) ++ '\n' :: (body ++ ['\x7d', '\n']) := by
  rw [hkind] at h
  obtain ⟨_, hvariable, rfl⟩ := piecesText_text h
  obtain ⟨_, hin, rfl⟩ := piecesText_field hvariable
  obtain ⟨_, hvalue, rfl⟩ := piecesText_text hin
  obtain ⟨shown, _, hshown, hopening, rfl⟩ := piecesText_cons hvalue
  obtain ⟨body, hbody, rfl⟩ := exists_body hopening
  exact ⟨shown, body, hshown, hbody, by simp only [List.append_assoc]⟩

/-- The body of a command is the text of the stack in it, indented. -/
theorem bodyText_eq {sockets : Sockets} {input : String}
    (h : block.bodyText g Segment.spent (sockets.segments g Segment.spent) input = .ok text) :
    ∃ inner, (sockets.find input).text g Segment.spent = .ok inner ∧ text = indentLines g.indent inner := by
  rw [Stack.text, ← Sockets.segments_eq]
  cases hplugged : sockets.segments g Segment.spent input with
  | nil =>
    rw [bodyText, hplugged] at h
    cases h
    exact ⟨[], rfl, rfl⟩
  | cons first rest =>
    obtain ⟨inner, hcode, rfl⟩ := bodyText_ok h hplugged
    exact ⟨inner, congrArg (Except.map Code.text) hcode, rfl⟩

end Block

/-- After a block that is no call, a chain is read as one of its own. -/
theorem Stack.spent_eq_text {g : Generator} {segment : Segment} (h : segment.kind ≠ .functionCall)
    (stack : Stack) : Segment.spent segment (stack.segments g Segment.spent) = stack.text g Segment.spent := by
  rw [Stack.text]
  cases stack.segments g Segment.spent with
  | nil => rfl
  | cons next rest =>
    rw [Segment.spent, decide_eq_false h, Segment.spentCode_false]
    dsimp only
    rw [Segment.chainCode]
    cases Segment.ownCode (next :: rest) with
    | error e => rfl
    | ok code =>
      cases Segment.spent next rest with
      | error e => rfl
      | ok after => cases code <;> rfl

/-! ### Stacks -/

section

variable {ws : Workspace} {g : Generator} {id : BlockId} {block : Block} {sockets : Sockets} {rest : Stack}

/-- The value that a command shows is on one line. -/
theorem Block.shows_of_valueOr (horderly : ws.Orderly) (htexts : ws.AllTexts ('\n' ∉ ·) g)
    (hat : (Stack.cons id block sockets rest).At ws (some id))
    (hnodup : (Stack.cons id block sockets rest).ids.Nodup) {input placeholder : String} {order : Order}
    {shown : Text} (hpiece : .value input order placeholder ∈ block.kind.template.pieces)
    (h : block.valueOr Segment.spent (sockets.segments g Segment.spent) input order placeholder = .ok shown) :
    Setting.Shows ⟨ws, g⟩ id input order placeholder shown ∧ '\n' ∉ shown := by
  have hparts := hat
  obtain ⟨-, hget, hsockets, -⟩ := hparts
  have hquiet (input : String) : Quiet (sockets.segments g Segment.spent input) := by
    rw [Sockets.segments_eq]
    exact quiet_stack horderly htexts (hsockets.find input)
  obtain ⟨found, hfound, rfl⟩ := valueOr_eq h
  refine ⟨⟨found, by rw [Setting.readValue_fresh (s := ⟨ws, g⟩) hat hnodup]; exact hfound, rfl⟩, ?_⟩
  split
  · exact (block.kind.single_pieces _ hpiece).1
  · exact newline_not_mem_valueText horderly hget hsockets hquiet (BlockKind.mem_sockets hpiece rfl) hfound

/-- A command is a sentence, or a header with its body and a closing brace. -/
theorem Block.exists_rows (horderly : ws.Orderly) (htexts : ws.AllTexts ('\n' ∉ ·) g)
    (hat : (Stack.cons id block sockets rest).At ws (some id))
    (hnodup : (Stack.cons id block sockets rest).ids.Nodup) (hkind : block.kind.isCommand = true)
    {arguments : Except GenerateError Text} {text : Text}
    (h : block.piecesText g Segment.spent (sockets.segments g Segment.spent) arguments
      block.kind.template.pieces = .ok text) :
    (∃ line, Setting.Sentence ⟨ws, g⟩ id block line ∧ Row.Proper ⟨0, line⟩ ∧ text = line ++ ['\n']) ∨
      ∃ line body, Setting.Header ⟨ws, g⟩ id block line ∧ Row.Proper ⟨0, line⟩ ∧
        (.body, "DO") ∈ block.kind.sockets ∧
        block.bodyText g Segment.spent (sockets.segments g Segment.spent) "DO" = .ok body ∧
        text = line ++ '\n' :: (body ++ ['\x7d', '\n']) := by
  have hfield (name : String) : '\n' ∉ ((block.field? name).getD "").toList := by
    rcases htexts.field hat.2.1 name "" with ⟨-, heq⟩ | hfield
    · rw [heq]
      decide
    · exact hfield
  have hshows {input placeholder : String} {order : Order} {shown : Text}
      (hpiece : .value input order placeholder ∈ block.kind.template.pieces)
      (hshown : block.valueOr Segment.spent (sockets.segments g Segment.spent) input order placeholder =
        .ok shown) :=
    Block.shows_of_valueOr horderly htexts hat hnodup hpiece hshown
  cases hcases : block.kind with
  | variableDeclaration =>
    obtain ⟨shown, hshown, rfl⟩ := exists_declaration hcases h
    obtain ⟨hshows, hsingle⟩ := hshows (by rw [hcases]; decide) hshown
    refine .inl ⟨_, .declaration hcases hshows, ⟨?_, ⟨'v', _, rfl, by decide⟩, ⟨_, ';', rfl, rfl⟩⟩, rfl⟩
    simp [hsingle, hfield]
  | returnStatement =>
    obtain ⟨shown, hshown, rfl⟩ := exists_return hcases h
    obtain ⟨hshows, hsingle⟩ := hshows (by rw [hcases]; decide) hshown
    refine .inl ⟨_, .result hcases hshows, ⟨?_, ⟨'r', _, rfl, by decide⟩, ⟨_, ';', rfl, rfl⟩⟩, rfl⟩
    simp [hsingle]
  | ifStatement =>
    obtain ⟨shown, body, hshown, hbody, rfl⟩ := exists_condition hcases h
    obtain ⟨hshows, hsingle⟩ := hshows (by rw [hcases]; decide) hshown
    refine .inr ⟨_, body, .condition hcases hshows,
      ⟨?_, ⟨'i', _, rfl, by decide⟩, ⟨_, '\x7b', List.append_cons .., rfl⟩⟩, by decide, hbody, rfl⟩
    simp [hsingle]
  | loopStatement =>
    obtain ⟨shown, body, hshown, hbody, rfl⟩ := exists_loop hcases h
    obtain ⟨hshows, hsingle⟩ := hshows (by rw [hcases]; decide) hshown
    refine .inr ⟨_, body, .loop hcases hshows,
      ⟨?_, ⟨'l', _, rfl, by decide⟩, ⟨_, '\x7b', List.append_cons .., rfl⟩⟩, by decide, hbody, rfl⟩
    simp [hsingle, hfield]
  | _ =>
    rw [hcases] at hkind
    cases hkind

end

/-- The text of a chain of commands is made of its rows. -/
theorem Stack.exists_outline {ws : Workspace} {g : Generator} (horderly : ws.Orderly)
    (htexts : ws.AllTexts ('\n' ∉ ·) g) (hindent : '\n' ∉ g.indent) {first? : Option BlockId} {stack : Stack}
    (hat : stack.At ws first?) (hnodup : stack.ids.Nodup) (hkinds : ∀ kind ∈ stack.kinds, kind.isCommand = true)
    {text : Text} (h : stack.text g Segment.spent = .ok text) :
    ∃ rows, Setting.Outline ⟨ws, g⟩ 0 first? rows ∧ (∀ row ∈ rows, row.Proper) ∧
      text = ofRows g.indent rows := by
  induction stack using Stack.deep_induction generalizing first? text with
  | nil =>
    rw [Stack.text, segments_nil] at h
    cases h
    rw [show first? = none from hat]
    exact ⟨[], .done 0, fun row hrow => (List.not_mem_nil hrow).elim, rfl⟩
  | cons id block sockets rest ihsockets ihrest =>
    have hparts := hat
    obtain ⟨rfl, hget, hsockets, hrest⟩ := hparts
    obtain ⟨-, -, hnodupSockets, hnodupRest, -⟩ := Stack.nodup_cons hnodup
    obtain ⟨hkind, hkindsRest⟩ := List.forall_mem_cons.1 hkinds
    obtain ⟨code, after, hown, hafter, rfl⟩ := text_cons_eq h
    -- the rows of the commands after this one
    have hcall : block.kind ≠ .functionCall := by
      intro hcall
      rw [hcall] at hkind
      cases hkind
    rw [spent_eq_text (by exact hcall)] at hafter
    obtain ⟨rows, houtline, hproper, rfl⟩ := ihrest hrest hnodupRest hkindsRest hafter
    rw [segments_cons, Segment.ownCode] at hown
    obtain ⟨own, hpieces, hown⟩ := exists_of_bind hown
    cases hown
    rw [Code.text_ofShape]
    rcases Block.exists_rows horderly htexts hat hnodup hkind hpieces with
      ⟨line, hsentence, hline, rfl⟩ | ⟨line, body, hheader, hline, hsocket, hbody, rfl⟩
    · refine ⟨⟨0, line⟩ :: rows, .line hget hsentence houtline, List.forall_mem_cons.2 ⟨hline, hproper⟩, ?_⟩
      rw [ofRows_cons, List.append_assoc]
      rfl
    · obtain ⟨inner, hinner, rfl⟩ := Block.bodyText_eq hbody
      have hkindsBody : ∀ kind ∈ (sockets.find "DO").kinds, kind.isCommand = true := by
        intro kind hkind
        obtain ⟨first, later, found, hfirst, hafter, hfound, rfl⟩ := hsockets.exists_of_mem_kinds hkind
        exact horderly.body hget hsocket hfirst hafter hfound
      obtain ⟨body, hbodyOutline, hbodyProper, rfl⟩ := ihsockets "DO" (hsockets.find "DO")
        (hnodupSockets.sublist (sockets.ids_find_sublist "DO")) hkindsBody hinner
      refine ⟨⟨0, line⟩ :: (body.map Row.deepen ++ ⟨0, ['\x7d']⟩ :: rows),
        .body hget hheader hbodyOutline.deepen houtline, ?_, ?_⟩
      · have hclosing : Row.Proper ⟨0, ['\x7d']⟩ :=
          ⟨by decide, ⟨'\x7d', [], rfl, by decide⟩, ⟨[], '\x7d', rfl, rfl⟩⟩
        have hdeeper : ∀ row ∈ body.map Row.deepen, row.Proper :=
          List.forall_mem_map.2 fun row hrow => (hbodyProper row hrow).deepen
        exact List.forall_mem_cons.2 ⟨hline, List.forall_mem_append.2
          ⟨hdeeper, List.forall_mem_cons.2 ⟨hclosing, hproper⟩⟩⟩
      · rw [indentLines_ofRows hindent hbodyProper, ofRows_cons, ofRows_append, ofRows_cons]
        simp [Row.line]

/-! ### Programs -/

/-- The texts of the canvas are made of the rows of their chains, and none of them is left out. -/
theorem Stack.exists_outlines {ws : Workspace} {g : Generator} (horderly : ws.Orderly)
    (htexts : ws.AllTexts ('\n' ∉ ·) g) (hindent : '\n' ∉ g.indent) {tops : List BlockId}
    (htops : ∀ top ∈ tops, top ∈ ws.top) {forest : List Stack}
    (hat : List.Forall₂ (fun top stack => stack.At ws (some top)) tops forest)
    (hnodup : ∀ stack ∈ forest, stack.ids.Nodup) {texts : List Text}
    (h : Stack.texts g Segment.spent forest = .ok texts) :
    ∃ outlines, List.Forall₂ (fun top rows => Setting.Outline ⟨ws, g⟩ 0 (some top) rows) tops outlines ∧
      (∀ rows ∈ outlines, ∀ row ∈ rows, row.Proper) ∧ texts = outlines.map (ofRows g.indent) := by
  induction hat generalizing texts with
  | nil =>
    cases h
    exact ⟨[], .nil, fun rows hrows => (List.not_mem_nil hrows).elim, rfl⟩
  | @cons top stack tops forest hstack _ ih =>
    rw [List.forall_mem_cons] at htops hnodup
    rw [Stack.texts] at h
    obtain ⟨text, htext, h⟩ := exists_of_bind h
    obtain ⟨more, hmore, h⟩ := exists_of_bind h
    cases h
    have hkinds : ∀ kind ∈ stack.kinds, kind.isCommand = true := by
      intro kind hkind
      obtain ⟨id, block, hafter, hget, rfl⟩ := hstack.exists_of_mem_kinds hkind
      exact horderly.canvas htops.1 hafter hget
    obtain ⟨rows, houtline, hproper, rfl⟩ :=
      Stack.exists_outline horderly htexts hindent hstack hnodup.1 hkinds htext
    obtain ⟨outlines, houtlines, hothers, rfl⟩ := ih htops.2 hnodup.2 hmore
    refine ⟨rows :: outlines, .cons houtline houtlines, List.forall_mem_cons.2 ⟨hproper, hothers⟩, ?_⟩
    have hvisible : (ofRows g.indent rows).isEmpty = false := by
      obtain ⟨c, rest, hopens, -⟩ := (whole_ofRows hindent hproper houtline.exists_first).opens
      rw [hopens]
      rfl
    rw [hvisible]
    rfl

/-- **Indentation shows nesting.** The lines of a program are the rows of the chains on the canvas, each with as
many copies of the indent as it is deep, and with a blank line between two chains. -/
theorem Generator.generate_outlined (g : Generator) {value : Json} {ws : Workspace}
    (hload : Workspace.ofJson value = .ok ws) (horderly : ws.Orderly) (htexts : ws.AllTexts ('\n' ∉ ·) g)
    (hindent : ∀ c ∈ g.indent, c = ' ') {code : String} (hcode : g.generate ws = .ok code) :
    ∃ outlines, List.Forall₂ (fun top rows => Setting.Outline ⟨ws, g⟩ 0 (some top) rows) ws.topBlocks outlines ∧
      Text.lines code.toList =
        [[]].intercalate (outlines.map fun rows => rows.map (Row.line g.indent)) ++ [[]] ∧
      ∀ rows ∈ outlines, ∀ row ∈ rows, row.text.head? ≠ some ' ' := by
  have hindent : '\n' ∉ g.indent := fun hmem => absurd (hindent _ hmem) (by decide)
  obtain ⟨forest, hforest⟩ := Workspace.forest_of_ofJson hload (List.mergeSort_perm ws.top _)
  obtain ⟨texts, hstacks, heq⟩ := exists_texts_of_program hforest hcode
  obtain ⟨outlines, houtlines, hproper, rfl⟩ := Stack.exists_outlines horderly htexts hindent
    (fun top htop => List.mem_mergeSort.1 htop) hforest.at_eq (List.nodup_flatMap.1 hforest.nodup).1 hstacks
  refine ⟨outlines, houtlines, ?_, fun rows hrows row hrow => ?_⟩
  · have htidy : tidy (terminate (unlines (outlines.map (ofRows g.indent)))) =
        unlines (outlines.map (ofRows g.indent)) := by
      rcases eq_or_ne outlines [] with rfl | hne
      · rfl
      · have hwhole : Whole (unlines (outlines.map (ofRows g.indent))) := by
          refine whole_unlines (List.forall_mem_map.2 fun rows hrows => ?_) (by simpa using hne)
          obtain ⟨top, -, houtline⟩ := exists_of_forall₂ houtlines.flip hrows
          exact whole_ofRows hindent (hproper rows hrows) houtline.exists_first
        rw [hwhole.terminate, hwhole.tidy]
    rw [heq, htidy, lines_unlines_ofRows hindent hproper]
  · obtain ⟨c, rest, htext, hc⟩ := (hproper rows hrows row hrow).opens
    rw [htext]
    rintro heq
    cases heq
    exact absurd hc (by decide)

/-! ### A search -/

/-- The node of a loop that returns the first number above two, with a return after it. -/
def searchNode : Json :=
  let named (name : String) : Json := blockNode .variableReference [("VAR_NAME", name)] [] none
  let two := blockNode .numberLiteral [("NUM", "2")] [] none
  let above := blockNode .comparisonGt [] [("A", named "i"), ("B", two)] none
  let found := blockNode .returnStatement [] [("VALUE", named "i")] none
  let choice := blockNode .ifStatement [] [("CONDITION", above), ("DO", found)] none
  blockNode .loopStatement [("ITER_VAR", "i")] [("DO", choice), ("ITERABLE", named "xs")]
    (some (blockNode .returnStatement [] [] none))

/-- The workspace of the search. -/
def searchWorkspace : Workspace where
  blocks :=
    #[{ id := "b0", kind := .loopStatement, fields := [("ITER_VAR", "i")],
        inputs := [("DO", ⟨1⟩), ("ITERABLE", ⟨7⟩)], next := some ⟨8⟩, position := some ⟨.zero, .zero⟩ },
      { id := "b1", kind := .ifStatement, inputs := [("CONDITION", ⟨2⟩), ("DO", ⟨5⟩)] },
      { id := "b2", kind := .comparisonGt, inputs := [("A", ⟨3⟩), ("B", ⟨4⟩)] },
      { id := "b3", kind := .variableReference, fields := [("VAR_NAME", "i")] },
      { id := "b4", kind := .numberLiteral, fields := [("NUM", "2")] },
      { id := "b5", kind := .returnStatement, inputs := [("VALUE", ⟨6⟩)] },
      { id := "b6", kind := .variableReference, fields := [("VAR_NAME", "i")] },
      { id := "b7", kind := .variableReference, fields := [("VAR_NAME", "xs")] },
      { id := "b8", kind := .returnStatement }]
  top := [⟨0⟩]

theorem searchWorkspace_loaded : Workspace.ofJson (canvasDocument searchNode) = .ok searchWorkspace := by
  cbv

theorem searchWorkspace_orderly : searchWorkspace.Orderly :=
  Workspace.orderly_of_links (by decide) (by decide) (by decide)

theorem searchWorkspace_code : Generator.generate {} searchWorkspace =
    .ok "loop i in xs \x7b\n  if i > 2 \x7b\n    res i;\n  \x7d\n\x7d\nres null;\n" := by
  cbv

theorem searchWorkspace_outlined :
    Workspace.ofJson (canvasDocument searchNode) = .ok searchWorkspace ∧ searchWorkspace.Orderly ∧
      searchWorkspace.AllTexts ('\n' ∉ ·) {} ∧ (∀ c ∈ ({} : Generator).indent, c = ' ') ∧
      ∃ outlines, List.Forall₂ (fun top rows => Setting.Outline ⟨searchWorkspace, {}⟩ 0 (some top) rows)
          searchWorkspace.topBlocks outlines ∧
        ["loop i in xs \x7b".toList, "  if i > 2 \x7b".toList, "    res i;".toList, "  \x7d".toList,
          "\x7d".toList, "res null;".toList, []] =
          [[]].intercalate (outlines.map fun rows => rows.map (Row.line [' ', ' '])) ++ [[]] := by
  have htexts : searchWorkspace.AllTexts ('\n' ∉ ·) {} :=
    Workspace.allTexts_of_forall (by decide) (by decide)
  have hindent : ∀ c ∈ ({} : Generator).indent, c = ' ' := by simp
  obtain ⟨outlines, houtlines, hlines, -⟩ := Generator.generate_outlined {} searchWorkspace_loaded
    searchWorkspace_orderly htexts hindent searchWorkspace_code
  refine ⟨searchWorkspace_loaded, searchWorkspace_orderly, htexts, hindent, outlines, houtlines, ?_⟩
  exact Eq.trans (by decide) hlines

end BlockProgram
