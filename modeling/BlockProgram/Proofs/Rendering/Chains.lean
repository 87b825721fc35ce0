import BlockProgram.Proofs.Rendering.Call
import BlockProgram.Proofs.Rendering.Cycle

/-!
Two ways along a chain. A chain is rendered either as one code, in which each block stays marked until the
chain has ended, or as items, each of which is left before the next one is entered:

    marks inside      a      b        c
    as one code      [a]   [b, a]  [c, b, a]
    as items         [a]    [b]      [c]

The first way notices a link that leads back into the chain by its marks, through sockets as well, the second
one only inside of one item or from item to item. They agree nevertheless (`chain_agrees_with_items`):

* rendering a block depends on the marks of the blocks only that it leads to (`local_renderAt`), and where no
  link leads back these are never blocks of the chain before it;
* both ways succeed only where no link leads back, because both visit every block that the chain leads to.
-/

namespace BlockProgram

open Relation (TransGen ReflTransGen)

/-! ### What a step depends on -/

namespace Rendering

variable {α β : Type} {within wider : BlockId → Prop}

/-- How a step has ended, with other marks. -/
def remark (marks : List BlockId) (ended : Option (Except GenerateError α × Pass)) :
    Option (Except GenerateError α × Pass) :=
  ended.map fun (result, after) => (result, { after with rendering := marks })

theorem remark_eq_of_restores {step : Rendering α} (h : Restores step) (pass : Pass) :
    remark pass.rendering (step pass) = step pass := by
  rcases hstep : step pass with _ | ⟨result, after⟩
  · rfl
  · rw [← h pass result after hstep]
    rfl

/-- The same of the blocks told are marked in both lists. -/
def SameMarks (within : BlockId → Prop) (marks marks' : List BlockId) : Prop :=
  ∀ id, within id → (id ∈ marks ↔ id ∈ marks')

theorem SameMarks.cons {marks marks' : List BlockId} (h : SameMarks within marks marks') (id : BlockId) :
    SameMarks within (id :: marks) (id :: marks') := by
  intro other hother
  rw [List.mem_cons, List.mem_cons, h other hother]

/-- A step that depends on the marks of the blocks told only, and restores all marks. -/
structure Local (within : BlockId → Prop) (step : Rendering α) : Prop where
  restores : Restores step
  remark (pass : Pass) (marks : List BlockId) (hmarks : SameMarks within marks pass.rendering) :
    step { pass with rendering := marks } = remark marks (step pass)

theorem Local.mono {step : Rendering α} (h : Local within step) (hwider : ∀ id, within id → wider id) :
    Local wider step :=
  ⟨h.restores, fun pass marks hmarks => h.remark pass marks fun id hid => hmarks id (hwider id hid)⟩

theorem Local.bind {step : Rendering α} {next : α → Rendering β} (hstep : Local within step)
    (hnext : ∀ a, Local within (next a)) : Local within (step >>= next) where
  restores := hstep.restores.bind fun a => (hnext a).restores
  remark pass marks hmarks := by
    rw [bind_apply, bind_apply, hstep.remark pass marks hmarks]
    cases hmid : step pass with
    | none => rfl
    | some ended =>
      obtain ⟨result, mid⟩ := ended
      cases result with
      | error e => rfl
      | ok a =>
        have hrendering := hstep.restores pass _ mid hmid
        exact (hnext a).remark mid marks (hrendering ▸ hmarks)

theorem Closed.local (within : BlockId → Prop) : Closed fun {_} step => Local within step where
  pure a := ⟨Closed.restores.pure a, fun _ _ _ => rfl⟩
  throw e := ⟨Closed.restores.throw e, fun _ _ _ => rfl⟩
  bind := .bind
  consume id := by
    refine ⟨Closed.restores.consume id, fun pass marks _ => ?_⟩
    show some _ = some _
    unfold Pass.consume
    split <;> rfl
  takeConsumed id := ⟨Closed.restores.takeConsumed id, fun _ _ _ => rfl⟩

theorem Local.tooDeep : Local within (tooDeep : Rendering α) where
  restores _ _ _ h := by cases h
  remark _ _ _ := rfl

/-- What follows a block that is marked meanwhile, and what follows it once it is left: they end alike but for
the mark. -/
theorem during_bind_remark {id : BlockId} {block : Block} {body : Rendering α}
    {inside outside : α → Rendering β} {pass : Pass} {marks : List BlockId} (hid : within id)
    (hbody : Local within body) (hmarks : SameMarks within marks pass.rendering)
    (hnext : ∀ a mid, mid.rendering = pass.rendering →
      inside a { mid with rendering := id :: marks } = remark (id :: marks) (outside a mid)) :
    during id block (body >>= inside) { pass with rendering := marks } =
      remark marks ((during id block body >>= outside) pass) := by
  rw [bind_apply, during, during]
  by_cases hmarked : id ∈ pass.rendering
  · rw [if_pos hmarked, if_pos ((hmarks id hid).2 hmarked)]
    rfl
  · rw [if_neg hmarked, if_neg fun h => hmarked ((hmarks id hid).1 h)]
    rw [show Pass.enter id { pass with rendering := marks } =
        { pass.enter id with rendering := id :: marks } from rfl,
      bind_apply, hbody.remark (pass.enter id) (id :: marks) (hmarks.cons id)]
    cases hmid : body (pass.enter id) with
    | none => rfl
    | some ended =>
      obtain ⟨result, mid⟩ := ended
      have hrendering : mid.rendering = id :: pass.rendering := hbody.restores _ _ _ hmid
      cases result with
      | error e => simp [remark, Pass.leave]
      | ok a =>
        have hinside := hnext a (mid.leave id) (by simp [Pass.leave, hrendering])
        simp only [remark, Option.map_some]
        rw [show ({ mid with rendering := id :: marks } : Pass) =
          { mid.leave id with rendering := id :: marks } from rfl, hinside]
        simp [remark, Option.map_map, Function.comp_def, Pass.leave]

theorem Local.during {id : BlockId} {block : Block} {body : Rendering α} (hid : within id)
    (hbody : Local within body) : Local within (during id block body) where
  restores := hbody.restores.during
  remark pass marks hmarks := by
    have hended : Rendering.during id block (body >>= pure) { pass with rendering := marks } =
        Rendering.remark marks ((Rendering.during id block body >>= pure) pass) :=
      during_bind_remark hid hbody hmarks fun _ _ _ => rfl
    rwa [bind_pure, bind_pure] at hended

theorem during_map {id : BlockId} {block : Block} (body : Rendering α) (f : α → β) :
    during id block (body >>= fun a => return f a) = during id block body >>= fun a => return f a := by
  funext pass
  rw [bind_apply, during, during]
  split
  · rfl
  · rw [bind_apply]
    rcases body (pass.enter id) with _ | ⟨_ | a, mid⟩ <;> rfl

theorem map_eq_remark {step step' : Rendering α} {pass pass' : Pass} {marks : List BlockId}
    (h : step pass' = remark marks (step' pass)) (f : α → β) :
    (step >>= fun a => return f a : Rendering β) pass' =
      remark marks ((step' >>= fun a => return f a : Rendering β) pass) := by
  rw [bind_apply, bind_apply, h]
  rcases step' pass with _ | ⟨_ | a, after⟩ <;> rfl

end Rendering

namespace Workspace

variable {ws : Workspace} {passed ids : List BlockId} {first : BlockId} {stop : ChainEnd}

/-- A walk finds blocks only that links lead to. -/
theorem Walks.reaches {next : Option BlockId} (h : ws.Walks passed next ids stop) {id : BlockId}
    (hid : id ∈ ids) : ∃ first, next = some first ∧ ReflTransGen ws.Link first id := by
  induction h with
  | complete | missing | back => cases hid
  | @step passed other block rest stop hget _ _ ih =>
    refine ⟨other, rfl, ?_⟩
    rcases List.mem_cons.1 hid with rfl | hid
    · exact .refl
    · obtain ⟨first, hfirst, hreach⟩ := ih hid
      exact .head (.inr ⟨block, hget, hfirst⟩) hreach

/-- The chain that starts at a block is the block and those after it. -/
theorem chainFrom_eq_cons {block : Block} (hget : ws.get? first = some block) :
    ws.chainFrom (some first) = (first :: (ws.followers first).1, (ws.followers first).2) := by
  rw [chainFrom, walk_step hget List.not_mem_nil, followers, hget, Option.bind_some]

end Workspace

namespace Setting

open Rendering Workspace

variable {s : Setting} {render : Renderer} {id : BlockId} {block : Block}

/-! ### A block depends on the marks of what it leads to -/

section

variable {P : {α : Type} → Rendering α → Prop}

theorem closed_lookup_bind {α : Type} (h : Closed P) {next : Block → Rendering α}
    (hnext : ∀ block, s.workspace.get? id = some block → P (next block)) :
    P (lookup s.workspace id >>= next) := by
  cases hget : s.workspace.get? id with
  | none =>
    rw [lookup_of_get?_none hget]
    exact h.throw _
  | some block =>
    rw [lookup_of_get? hget, pure_bind]
    exact hnext block hget

/-- What a block is read from has a property that is closed, if the blocks have it that the block leads to. -/
theorem closed_ownPieces (h : Closed P) (hget : s.workspace.get? id = some block)
    (hrender : ∀ other extent, TransGen s.workspace.Link id other → P (render other extent)) :
    P (s.piecesText render id block block.kind.template.pieces) := by
  refine closed_piecesText h id block fun piece hpiece => ?_
  have hlink (input : String) (hinput : piece.input? = some input) (child : BlockId)
      (hchild : block.input? input = some child) : s.workspace.Link id child :=
    .inl ⟨block, hget, input, Piece.mem_inputs hpiece hinput, hchild⟩
  refine closed_pieceText h id block piece (fun input hinput child hchild => ?_) (fun input hinput item hitem => ?_)
    fun params hparams => ?_
  · exact hrender child .chain (.single (hlink input hinput child hchild))
  · obtain ⟨first, hfirst, hreach⟩ := (walks_walk _ _ _).reaches hitem
    exact hrender item .alone (.head' (hlink input hinput first hfirst) hreach)
  · exact hrender params .alone (.single (.inr ⟨block, hget, hparams⟩))

end

/-- A renderer that depends, at the blocks told, on the marks of the blocks only that they lead to. -/
def RendersLocally (s : Setting) (render : Renderer) : Prop :=
  ∀ id extent, Local (ReflTransGen s.workspace.Link id) (render id extent)

theorem RendersLocally.of_link (h : s.RendersLocally render) {root : BlockId}
    (hroot : ReflTransGen s.workspace.Link root id) (other : BlockId) (extent : Extent)
    (hother : TransGen s.workspace.Link id other) :
    Local (ReflTransGen s.workspace.Link root) (render other extent) :=
  (h other extent).mono fun _ hreach => (hroot.trans hother.to_reflTransGen).trans hreach

theorem local_blockCode (h : s.RendersLocally render) (hget : s.workspace.get? id = some block)
    {root : BlockId} (hroot : ReflTransGen s.workspace.Link root id) :
    Local (ReflTransGen s.workspace.Link root) (s.blockCode render id block) :=
  (closed_ownPieces (.local _) hget (h.of_link hroot)).bind fun _ => (Closed.local _).pure _

theorem local_chainText (h : s.RendersLocally render) {root : BlockId} (stop : ChainEnd) {ids : List BlockId}
    (hids : ∀ id ∈ ids, ReflTransGen s.workspace.Link root id) :
    Local (ReflTransGen s.workspace.Link root) (s.chainText render stop ids) := by
  induction ids with
  | nil => exact .bind ((Closed.local _).settleEnd _ _) fun _ => (Closed.local _).pure _
  | cons id rest ih =>
    have hid := hids id (List.mem_cons_self ..)
    have hrest := ih fun other hother => hids other (List.mem_cons_of_mem _ hother)
    exact closed_lookup_bind (.local _) fun block hget =>
      .during hid (.bind (local_blockCode h hget hid) fun _ => .bind hrest fun _ => (Closed.local _).pure _)

/-- What a block gives depends on the marks of the blocks only that it leads to, to any depth. -/
theorem local_renderAt (s : Setting) (depth : Nat) : s.RendersLocally (s.renderAt depth) := by
  induction depth with
  | zero => exact fun _ _ => .tooDeep
  | succ depth ih =>
    intro id extent
    refine closed_lookup_bind (.local _) fun block hget =>
      .during .refl (.bind (local_blockCode ih hget .refl) fun code => ?_)
    cases extent with
    | alone => exact (Closed.local _).pure _
    | chain =>
      refine .bind (local_chainText ih _ fun other hother => ?_) fun _ => (Closed.local _).pure _
      obtain ⟨next, hnext, hreach⟩ := (walks_followers hget).reaches hother
      exact .head (.inr ⟨block, hget, hnext⟩) hreach

theorem local_renderFreely (s : Setting) : s.RendersLocally s.renderFreely := by
  rw [← renderAt_enoughDepth]
  exact s.local_renderAt _

/-! ### One code and items -/

/-- The text of a statement, without the blocks after it. -/
def ownText (s : Setting) (id : BlockId) (block : Block) : Rendering Text :=
  s.piecesText s.renderFreely id block block.kind.template.pieces

theorem blockCode_statement (hkind : block.kind.isStatement = true) :
    s.blockCode s.renderFreely id block = s.ownText id block >>= fun text => return .statement text := by
  have hshape := (BlockKind.shape_eq_statement_iff block.kind).2 hkind
  simp only [blockCode, hshape, Code.ofShape, ownText]

/-- A statement among items is left before the items after it are read. -/
theorem itemTexts_statement (hget : s.workspace.get? id = some block) (hkind : block.kind.isStatement = true)
    (holder : Block) (input : String) (stop : ChainEnd) (rest : List BlockId) :
    s.itemTexts s.renderFreely holder input stop (id :: rest) =
      during id block (s.ownText id block) >>= fun text =>
        s.itemTexts s.renderFreely holder input stop rest >>= fun texts => return text :: texts := by
  rw [itemTexts, renderFreely_alone hget, blockCode_statement hkind, during_map, bind_assoc]
  rfl

/-- A statement of a chain stays marked until the blocks after it are read. -/
theorem chainText_statement (hget : s.workspace.get? id = some block) (hkind : block.kind.isStatement = true)
    (stop : ChainEnd) (rest : List BlockId) :
    s.chainText s.renderFreely stop (id :: rest) =
      during id block (s.ownText id block >>= fun text =>
        s.chainText s.renderFreely stop rest >>= fun after => return text ++ after) := by
  rw [chainText, lookup_of_get? hget, pure_bind, blockCode_statement hkind, bind_assoc]
  rfl

/-- A statement with its chain. -/
theorem renderFreely_statement (hget : s.workspace.get? id = some block)
    (hkind : block.kind.isStatement = true) :
    s.renderFreely id .chain =
      s.chainText s.renderFreely (s.workspace.followers id).2 (id :: (s.workspace.followers id).1) >>=
        fun text => return .statement text := by
  rw [renderFreely_chain hget, chainText_statement hget hkind, ← during_map, blockCode_statement hkind]
  simp only [bind_assoc, pure_bind]
  rfl

/-- The items of a chain of statements from which every path ends, and the chain as one code, which is read
with the blocks before it marked. -/
theorem chainText_eq_remark_items (holder : Block) (input : String) {passed : List BlockId}
    {next : Option BlockId} {ids : List BlockId} {stop : ChainEnd}
    (hwalk : s.workspace.Walks passed next ids stop)
    (hends : ∀ first, next = some first → s.workspace.Ends first)
    (hkinds : ∀ id ∈ ids, ∀ block, s.workspace.get? id = some block → block.kind.isStatement = true)
    (pass : Pass) (marks : List BlockId) (hmarks : ∀ first, next = some first →
      SameMarks (ReflTransGen s.workspace.Link first) marks pass.rendering) :
    s.chainText s.renderFreely stop ids { pass with rendering := marks } =
      remark marks ((s.itemTexts s.renderFreely holder input stop ids >>= fun texts =>
        return texts.flatten) pass) := by
  induction ids generalizing passed next pass marks with
  | nil =>
    have hlocal : Local (fun _ => False) (s.chainText s.renderFreely stop []) :=
      .bind ((Closed.local _).settleEnd _ _) fun _ => (Closed.local _).pure _
    rw [hlocal.remark pass marks fun _ h => h.elim, itemTexts, bind_assoc]
    rfl
  | cons id rest ih =>
    cases hwalk with
    | @step _ _ block _ _ hget hid hrest =>
      have hkind := hkinds id (List.mem_cons_self ..) block hget
      have hlocal := closed_ownPieces (.local _) hget (s.local_renderFreely.of_link .refl)
      rw [chainText_statement hget hkind, itemTexts_statement hget hkind, bind_assoc]
      refine during_bind_remark .refl hlocal (hmarks id rfl) fun text mid hmid => ?_
      have hlink {later : BlockId} (hlater : block.next = some later) : s.workspace.Link id later :=
        .inr ⟨block, hget, hlater⟩
      have hmarks' : ∀ later, block.next = some later →
          SameMarks (ReflTransGen s.workspace.Link later) (id :: marks) mid.rendering := by
        intro later hlater other hother
        -- no link leads back to the block that is still marked
        have hne : other ≠ id := by
          rintro rfl
          exact (hends other rfl).not_reaches_back (hlink hlater) hother
        rw [List.mem_cons, or_iff_right hne, hmid]
        exact hmarks id rfl other (.head (hlink hlater) hother)
      have hafter := ih hrest (fun later hlater => (hends id rfl).inv (hlink hlater))
        (fun other hother => hkinds other (List.mem_cons_of_mem _ hother)) mid (id :: marks) hmarks'
      simpa only [bind_assoc, pure_bind, List.flatten_cons] using map_eq_remark hafter (text ++ ·)

/-- Where no link leads back, a chain of statements gives its items, joined. -/
theorem renderFreely_eq_items {first : BlockId} {input : String} (hinput : block.input? input = some first)
    (hends : s.workspace.Ends first)
    (hkinds : ∀ id ∈ (s.workspace.chainFrom (some first)).1, ∀ found, s.workspace.get? id = some found →
      found.kind.isStatement = true) (pass : Pass) :
    s.renderFreely first .chain pass =
      (s.chainItems s.renderFreely block input >>= fun texts => return .statement texts.flatten :
        Rendering Code) pass := by
  cases hget : s.workspace.get? first with
  | none =>
    rw [← renderLevel_renderFreely, renderLevel, lookup_of_get?_none hget, chainItems, hinput,
      chainFrom, walk_missing hget]
    rfl
  | some found =>
    have hwalk := s.workspace.walks_walk [] (some first)
    rw [← chainFrom] at hwalk
    have hrestores : Restores (s.itemTexts s.renderFreely block input (s.workspace.chainFrom (some first)).2
        (s.workspace.chainFrom (some first)).1 >>= fun texts => return texts.flatten) :=
      (closed_itemTexts .restores block input _ fun _ _ => (s.local_renderFreely _ _).restores).bind fun _ =>
        Closed.restores.pure _
    have hchain := chainText_eq_remark_items block input hwalk (fun _ h => by cases h; exact hends) hkinds
      pass pass.rendering fun _ _ _ _ => Iff.rfl
    rw [remark_eq_of_restores hrestores] at hchain
    rw [chainFrom_eq_cons hget] at hkinds hchain
    rw [renderFreely_statement hget (hkinds first (List.mem_cons_self ..) found hget), chainItems, hinput,
      chainFrom_eq_cons hget, bind_apply, hchain, ← bind_apply, bind_assoc]
    simp only [pure_bind]

theorem asStep_readItems (hget : s.workspace.get? id = some block) (input : String) :
    (s.readItems id input).asStep = s.chainItems s.renderFreely block input := by
  rw [readItems, Run.asStep_unlimited, lookup_of_get? hget, pure_bind, renderAt_enoughDepth]

/-- Items can be read only where no link leads back. -/
theorem ends_of_readItems (hget : s.workspace.get? id = some block) {input : String} {texts : List Text}
    {after : Pass} (h : s.readItems id input {} = (.ok texts, after)) : s.InputEnds block input := by
  have hread : s.chainItems s.renderFreely block input {} = some (.ok texts, after) := by
    rw [← asStep_readItems hget, Run.asStep, h]
  have hexplores : s.Explores s.renderFreely := by
    rw [← renderAt_enoughDepth]
    exact explores_renderAt s _
  have hlead : ∀ child, block.input? input = some child →
      ∀ marked ∈ ([] : List BlockId), TransGen s.workspace.Link marked child := fun _ _ _ h => by cases h
  exact (visits_chainItems hexplores hlead {} (visiting_start _) _ _ hread).2

/-- **Both ways along a chain agree.** Whatever the workspace, a chain of statements in a socket can be read as
items exactly if it can be rendered as one code from its first block on; that code is a statement then, whose
text is the items one after another, and the pass is left alike. -/
theorem chain_agrees_with_items (s : Setting) {holder first : BlockId} {input : String}
    (hholder : s.workspace.get? holder = some block) (hinput : block.input? input = some first)
    (hkinds : ∀ id ∈ (s.workspace.chainFrom (some first)).1, ∀ found, s.workspace.get? id = some found →
      found.kind.isStatement = true) :
    ((∃ texts, (s.readItems holder input {}).1 = .ok texts) ↔
      ∃ code, (s.renderBlock first .chain {}).1 = .ok code) ∧
    ∀ texts after, s.readItems holder input {} = (.ok texts, after) →
      s.renderBlock first .chain {} = (.ok (.statement texts.flatten), after) := by
  have hagree (hends : s.workspace.Ends first) : s.renderBlock first .chain {} =
      (s.readItems holder input >>= fun texts => return .statement texts.flatten : Run Code) {} := by
    have hstep := renderFreely_eq_items hinput hends hkinds {}
    rw [← asStep_readItems hholder] at hstep
    have hrun := Run.asStep_bind (s.readItems holder input) fun texts => return Code.statement texts.flatten
    exact Option.some.inj (hstep.trans (congrFun hrun.symm {}))
  have hitems : ∀ texts after, s.readItems holder input {} = (.ok texts, after) →
      s.renderBlock first .chain {} = (.ok (.statement texts.flatten), after) := by
    intro texts after hread
    rw [hagree (ends_of_readItems hholder hread first hinput), Run.bind_apply, hread]
    rfl
  refine ⟨⟨fun ⟨texts, htexts⟩ => ?_, fun ⟨code, hcode⟩ => ?_⟩, hitems⟩
  · rw [hitems texts _ (Prod.ext htexts rfl)]
    exact ⟨_, rfl⟩
  · have hends := (visits_renderBlock (visiting_start _) (Prod.ext hcode rfl)).2
    rw [hagree hends, Run.bind_apply] at hcode
    rcases hread : s.readItems holder input {} with ⟨_ | texts, after⟩
    · rw [hread] at hcode
      cases hcode
    · exact ⟨texts, rfl⟩

end Setting

/-- A branch that declares the result of a call and returns it, with one block for the call's argument and for
what is returned. -/
def sharedResult : Workspace where
  blocks :=
    #[{ id := "b0", kind := .ifStatement, inputs := [("DO", ⟨1⟩)] },
      { id := "b1", kind := .variableDeclaration, fields := [("VAR_NAME", "x")], inputs := [("VALUE", ⟨2⟩)],
        next := some ⟨3⟩ },
      { id := "b2", kind := .functionCall, inputs := [("FUNCTION_NAME", ⟨4⟩)], next := some ⟨5⟩ },
      { id := "b3", kind := .returnStatement, inputs := [("VALUE", ⟨7⟩)] },
      { id := "b4", kind := .variableReference, fields := [("VAR_NAME", "f")] },
      { id := "b5", kind := .functionParams, inputs := [("PARAMS", ⟨6⟩)] },
      { id := "b6", kind := .functionParameter, inputs := [("PARAM_VALUE", ⟨7⟩)] },
      { id := "b7", kind := .variableReference, fields := [("VAR_NAME", "x")] }]
  top := [⟨0⟩]

/-- A branch whose second statement has the first one in its own branch. -/
def nestedBack : Workspace where
  blocks :=
    #[{ id := "b0", kind := .ifStatement, inputs := [("DO", ⟨1⟩)] },
      { id := "b1", kind := .variableDeclaration, fields := [("VAR_NAME", "x")], next := some ⟨2⟩ },
      { id := "b2", kind := .ifStatement, inputs := [("DO", ⟨1⟩)] }]
  top := [⟨0⟩]

/-- A block that is only shared is read both ways. A link back to an earlier item, from inside a later one, is
an error both ways, which each of them notices at another block. -/
theorem sharedResult_agrees_and_nestedBack_fails :
    ((∀ id ∈ (sharedResult.chainFrom (some ⟨1⟩)).1, ∀ found, sharedResult.get? id = some found →
        found.kind.isStatement = true) ∧
      (Setting.readItems ⟨sharedResult, {}⟩ ⟨0⟩ "DO" {}).1 = .ok ["vl x = f(x);\n".toList, "res x;\n".toList] ∧
      (Setting.renderBlock ⟨sharedResult, {}⟩ ⟨1⟩ .chain {}).1 =
        .ok (.statement "vl x = f(x);\nres x;\n".toList)) ∧
    (Setting.readItems ⟨nestedBack, {}⟩ ⟨0⟩ "DO" {}).1 = .error (.cycle "b2" "if_statement") ∧
    (Setting.renderBlock ⟨nestedBack, {}⟩ ⟨1⟩ .chain {}).1 = .error (.cycle "b1" "variable_declaration") := by
  have hchain : sharedResult.chainFrom (some ⟨1⟩) = ([⟨1⟩, ⟨3⟩], .complete) := by
    cbv
  have hkinds : ∀ id ∈ (sharedResult.chainFrom (some ⟨1⟩)).1, ∀ found, sharedResult.get? id = some found →
      found.kind.isStatement = true := by
    rw [hchain]
    simp [sharedResult, Workspace.get?, BlockKind.isStatement]
  have hitems : Setting.readItems ⟨sharedResult, {}⟩ ⟨0⟩ "DO" {} =
      (.ok ["vl x = f(x);\n".toList, "res x;\n".toList], {}) := by
    cbv
  have hcode := (Setting.chain_agrees_with_items ⟨sharedResult, {}⟩ rfl rfl hkinds).2 _ _ hitems
  refine ⟨⟨hkinds, by rw [hitems], ?_⟩, by cbv, by cbv⟩
  rw [hcode]
  rfl

end BlockProgram
