import BlockProgram.Proofs.Forest.Unfolding

/-!
Which documents are loaded, and at which node a load fails. A load comes to the nodes one after the other: a node
comes first, then what is in its inputs, each input with its whole chain, and after them the next node.

    nodes       [ a ]   with b in its input X and d next;   b with c next
    visits      a     b       c       d
    path        –     X       X       –

All that a load does apart from building blocks is to check each node that it comes to: has it a type, and is its
id none of those before it (`Loader.Checks`, one rule for each way to put steps together). So a document is loaded
if every node has a type and no id stands twice, and else the first node at fault is reported, with the inputs that
lead to it from the canvas (`Workspace.ofJson_faults`). The visits are read off the JSON value itself.
-/

namespace BlockProgram

/-! ### Visits -/

/-- The type that a node gives, if it is a text. -/
def nodeType? (node : Json) : Option String :=
  (node.member? "type").bind Json.string?

/-- The id that a node gives, if it is a text. -/
def nodeId? (node : Json) : Option String :=
  (node.member? "id").bind Json.string?

/-- A node that a load comes to, and the inputs that lead to it, the outermost first. -/
structure Visit where
  path : List InputStep
  node : Json

namespace Visit

/-- The same visit, as part of what is in an input. -/
def within (step : InputStep) (visit : Visit) : Visit :=
  ⟨step :: visit.path, visit.node⟩

/-- What is wrong with a node, after the ids of others. The type is looked at first. -/
inductive Offends (given : List String) (visit : Visit) : NodeFault → Prop where
  | untyped (htype : nodeType? visit.node = none) : Offends given visit .missingType
  | repeated {type id : String} (htype : nodeType? visit.node = some type)
    (hid : nodeId? visit.node = some id) (hgiven : id ∈ given) : Offends given visit (.duplicateId id)

end Visit

mutual

/-- The visits to the chain that starts at a node. No input leads from a node to the next one. -/
def chainVisits (node : Json) : List Visit :=
  ⟨[], node⟩ :: (inputVisits ((nodeType? node).getD "") (inputMembers node) ++
    match _h : nextNode? node with
    | none => []
    | some next => chainVisits next)
termination_by 2 * sizeOf node + 1
decreasing_by
  · have := sizeOf_inputMembers_le node
    omega
  · have := sizeOf_nextNode?_lt _h
    omega

/-- The visits to what is in the inputs of a node, in their order. -/
def inputVisits (typeName : String) : List (String × Json) → List Visit
  | [] => []
  | (name, input) :: rest =>
    (match _h : inputNode? input with
      | none => []
      | some node => (chainVisits node).map (Visit.within ⟨name, typeName⟩)) ++ inputVisits typeName rest
termination_by members => 2 * sizeOf members
decreasing_by
  all_goals simp only [List.cons.sizeOf_spec, Prod.mk.sizeOf_spec]
  · have := sizeOf_inputNode?_lt _h
    omega
  · omega

end

/-- The visits to all nodes of a canvas. -/
def canvasVisits (nodes : List Json) : List Visit :=
  nodes.flatMap chainVisits

/-- The ids that are given by the nodes of some visits. -/
def visitedIds (visits : List Visit) : List String :=
  visits.filterMap fun visit => nodeId? visit.node

/-- Every node has a type, and no id stands on two nodes. -/
structure Flawless (visits : List Visit) : Prop where
  typed : ∀ visit ∈ visits, (nodeType? visit.node).isSome = true
  nodup : (visitedIds visits).Nodup

section

variable {node next input : Json} {name typeName : String} {members : List (String × Json)}

theorem chainVisits_last (h : nextNode? node = none) :
    chainVisits node = ⟨[], node⟩ :: inputVisits ((nodeType? node).getD "") (inputMembers node) := by
  rw [chainVisits]
  split
  · rw [List.append_nil]
  · rename_i hnext
    cases h.symm.trans hnext

theorem chainVisits_link (h : nextNode? node = some next) :
    chainVisits node =
      (⟨[], node⟩ :: inputVisits ((nodeType? node).getD "") (inputMembers node)) ++ chainVisits next := by
  rw [chainVisits]
  split
  · rename_i hnext
    cases h.symm.trans hnext
  · rename_i hnext
    cases h.symm.trans hnext
    rfl

theorem inputVisits_skip (h : inputNode? input = none) :
    inputVisits typeName ((name, input) :: members) = inputVisits typeName members := by
  rw [inputVisits]
  split
  · rfl
  · rename_i hnode
    cases h.symm.trans hnode

theorem inputVisits_plug (h : inputNode? input = some node) :
    inputVisits typeName ((name, input) :: members) =
      (chainVisits node).map (Visit.within ⟨name, typeName⟩) ++ inputVisits typeName members := by
  rw [inputVisits]
  split
  · rename_i hnode
    cases h.symm.trans hnode
  · rename_i hnode
    cases h.symm.trans hnode
    rfl

end

/-! ### Checking visits -/

/-- Checks a node after the ids given so far, and adds its own id to them. -/
def Visit.check (given : List String) (visit : Visit) : Except LoadError (List String) :=
  match nodeType? visit.node, nodeId? visit.node with
  | none, _ => .error (.node visit.path .missingType)
  | some _, none => .ok given
  | some _, some id => if id ∈ given then .error (.node visit.path (.duplicateId id)) else .ok (id :: given)

/-- Checks nodes one after the other. -/
def checkVisits (given : List String) (visits : List Visit) : Except LoadError (List String) :=
  visits.foldlM Visit.check given

section

variable {visits before after : List Visit} {visit : Visit} {given : List String} {fault : NodeFault}

theorem Visit.check_within (step : InputStep) (given : List String) (visit : Visit) :
    (visit.within step).check given = (visit.check given).mapError (LoadError.within step) := by
  rw [check, check, within]
  dsimp only
  cases nodeType? visit.node with
  | none => rfl
  | some type =>
    cases nodeId? visit.node with
    | none => rfl
    | some id =>
      dsimp only
      split <;> rfl

theorem checkVisits_cons (given : List String) (visit : Visit) (visits : List Visit) :
    checkVisits given (visit :: visits) = visit.check given >>= (checkVisits · visits) :=
  List.foldlM_cons ..

theorem checkVisits_append (given : List String) (visits more : List Visit) :
    checkVisits given (visits ++ more) = checkVisits given visits >>= (checkVisits · more) :=
  List.foldlM_append ..

theorem checkVisits_within (step : InputStep) (given : List String) (visits : List Visit) :
    checkVisits given (visits.map (Visit.within step)) =
      (checkVisits given visits).mapError (LoadError.within step) := by
  induction visits generalizing given with
  | nil => rfl
  | cons visit rest ih =>
    rw [List.map_cons, checkVisits_cons, checkVisits_cons, Visit.check_within]
    cases visit.check given with
    | error e => rfl
    | ok given => exact ih given

/-- A node at fault is reported. -/
theorem Visit.Offends.check_eq (h : visit.Offends given fault) :
    visit.check given = .error (.node visit.path fault) := by
  rw [check]
  cases h with
  | untyped htype => rw [htype]
  | repeated htype hid hgiven =>
    rw [htype, hid]
    exact if_pos hgiven

/-- The id of any other node is added to those given. -/
theorem Visit.check_of_not_offends (h : ∀ fault, ¬visit.Offends given fault) :
    visit.check given = .ok ((nodeId? visit.node).toList ++ given) := by
  rw [check]
  cases htype : nodeType? visit.node with
  | none => exact absurd (.untyped htype) (h _)
  | some type =>
    cases hid : nodeId? visit.node with
    | none => rfl
    | some id => exact if_neg fun hgiven => h _ (.repeated htype hid hgiven)

/-- It does not matter in which order ids were given. -/
theorem Visit.offends_reverse_iff : visit.Offends given.reverse fault ↔ visit.Offends given fault := by
  constructor
  · rintro (htype | ⟨htype, hid, hgiven⟩)
    · exact .untyped htype
    · exact .repeated htype hid (List.mem_reverse.1 hgiven)
  · rintro (htype | ⟨htype, hid, hgiven⟩)
    · exact .untyped htype
    · exact .repeated htype hid (List.mem_reverse.2 hgiven)

theorem visitedIds_concat (visits : List Visit) (visit : Visit) :
    visitedIds (visits ++ [visit]) = visitedIds visits ++ (nodeId? visit.node).toList := by
  rw [visitedIds, visitedIds, List.filterMap_append]
  cases h : nodeId? visit.node <;> simp [h]

theorem flawless_nil : Flawless [] :=
  ⟨fun _ hvisit => absurd hvisit List.not_mem_nil, .nil⟩

/-- One more node leaves nodes without a flaw unless it is at fault after them. -/
theorem flawless_concat_iff : Flawless (visits ++ [visit]) ↔
    Flawless visits ∧ ∀ fault, ¬visit.Offends (visitedIds visits) fault := by
  constructor
  · rintro ⟨htyped, hnodup⟩
    rw [visitedIds_concat] at hnodup
    refine ⟨⟨fun other hother => htyped other (List.mem_append_left _ hother),
      (List.nodup_append.1 hnodup).1⟩, ?_⟩
    rintro fault (htype | ⟨-, hid, hgiven⟩)
    · have := htyped visit (List.mem_append_right _ (List.mem_singleton_self visit))
      rw [htype] at this
      cases this
    · rw [hid] at hnodup
      exact (List.nodup_append.1 hnodup).2.2 _ hgiven _ (List.mem_singleton_self _) rfl
  · rintro ⟨⟨htyped, hnodup⟩, hsound⟩
    have htype : (nodeType? visit.node).isSome = true := by
      by_contra hnone
      exact hsound _ (.untyped (Option.not_isSome_iff_eq_none.1 hnone))
    obtain ⟨type, hsome⟩ := Option.isSome_iff_exists.1 htype
    refine ⟨fun other hother => ?_, ?_⟩
    · rcases List.mem_append.1 hother with hother | hother
      · exact htyped other hother
      · rwa [List.mem_singleton.1 hother]
    · rw [visitedIds_concat]
      refine List.nodup_append.2 ⟨hnodup, ?_, fun id hid other hother heq => ?_⟩
      · cases nodeId? visit.node <;> simp
      · subst heq
        exact hsound _ (.repeated hsome (Option.mem_toList.1 hother) hid)

theorem checkVisits_of_flawless (h : Flawless visits) :
    checkVisits [] visits = .ok (visitedIds visits).reverse := by
  induction visits using List.reverseRecOn with
  | nil => rfl
  | append_singleton visits visit ih =>
    obtain ⟨hvisits, hsound⟩ := flawless_concat_iff.1 h
    have hcheck : visit.check (visitedIds visits).reverse =
        .ok ((nodeId? visit.node).toList ++ (visitedIds visits).reverse) :=
      Visit.check_of_not_offends fun fault hfault => hsound fault (Visit.offends_reverse_iff.1 hfault)
    rw [checkVisits_append, ih hvisits]
    change checkVisits _ [visit] = _
    rw [checkVisits_cons, hcheck, visitedIds_concat, List.reverse_append]
    cases nodeId? visit.node <;> rfl

/-- The first node at fault is the one that is reported. -/
theorem checkVisits_of_offends (h : Flawless before) (hvisit : visit.Offends (visitedIds before) fault) :
    checkVisits [] (before ++ visit :: after) = .error (.node visit.path fault) := by
  rw [checkVisits_append, checkVisits_of_flawless h]
  change checkVisits _ (visit :: after) = _
  rw [checkVisits_cons, (Visit.offends_reverse_iff.2 hvisit).check_eq]
  rfl

/-- If there is a flaw, there is a first node at fault. -/
theorem flawless_or_offends (visits : List Visit) : Flawless visits ∨
    ∃ before visit after fault, visits = before ++ visit :: after ∧ Flawless before ∧
      visit.Offends (visitedIds before) fault := by
  induction visits using List.reverseRecOn with
  | nil => exact .inl flawless_nil
  | append_singleton visits visit ih =>
    rcases ih with hflawless | ⟨before, first, after, fault, rfl, hbefore, hfirst⟩
    · by_cases hsound : ∀ fault, ¬visit.Offends (visitedIds visits) fault
      · exact .inl (flawless_concat_iff.2 ⟨hflawless, hsound⟩)
      · obtain ⟨fault, hfault⟩ := not_forall_not.1 hsound
        exact .inr ⟨visits, visit, [], fault, rfl, hflawless, hfault⟩
    · exact .inr ⟨before, first, after ++ [visit], fault, by simp, hbefore, hfirst⟩

end

/-! ### What a load checks -/

namespace Loader

variable {α β : Type} {step : Loader α} {next : α → Loader β} {visits more : List Visit}

/-- The step checks the nodes of some visits, and what it does beside that does not fail. -/
def Checks (step : Loader α) (visits : List Visit) : Prop :=
  ∀ loading, (step loading).map (fun ended => ended.2.seen) = checkVisits loading.seen visits

/-- An id that was not given before is given to the block. -/
theorem identify_some (id : BlockId) (given : String) (loading : Loading) :
    identify id (some given) loading = if given ∈ loading.seen then .error (.node [] (.duplicateId given))
      else .ok ((), ⟨loading.workspace.modify id fun block => { block with id := given },
        given :: loading.seen⟩) := by
  rw [identify]
  by_cases hgiven : given ∈ loading.seen
  · rw [if_pos hgiven]
    change (if given ∈ loading.seen then _ else _ : Loader Unit) loading = _
    rw [if_pos hgiven]
    rfl
  · rw [if_neg hgiven]
    change (if given ∈ loading.seen then _ else _ : Loader Unit) loading = _
    rw [if_neg hgiven]
    rfl

theorem Checks.pure (a : α) : Checks (Pure.pure a : Loader α) [] :=
  fun _ => rfl

theorem Checks.change (f : Workspace → Workspace) : Checks (Loader.change f) [] :=
  fun _ => rfl

theorem Checks.bind (h : Checks step visits)
    (hnext : ∀ loading a after, step loading = .ok (a, after) → Checks (next a) more) :
    Checks (step >>= next) (visits ++ more) := by
  intro loading
  have hstep := h loading
  rw [checkVisits_append, ← hstep]
  change Except.map _ (step loading >>= fun ended => next ended.1 ended.2) = _
  cases hended : step loading with
  | error e => rfl
  | ok ended => exact hnext loading ended.1 ended.2 hended ended.2

/-- A last step that checks nothing. -/
theorem Checks.bind_change (h : Checks step visits) (hnext : ∀ a, Checks (next a) []) :
    Checks (step >>= next) visits := by
  have hbind := h.bind fun _ a _ _ => hnext a
  rwa [List.append_nil] at hbind

theorem Checks.within (h : Checks step visits) (input : InputStep) :
    Checks (Loader.within input step) (visits.map (Visit.within input)) := by
  intro loading
  rw [checkVisits_within, ← h loading, Loader.within]
  cases step loading <;> rfl

/-- Creating the block of a node is checking the node. -/
theorem checks_block (node : Json) : Checks (Loader.block (.ofJson node)) [⟨[], node⟩] := by
  intro loading
  have htype : (NodeLabel.ofJson node).type? = nodeType? node := rfl
  have hid : (NodeLabel.ofJson node).id? = nodeId? node := rfl
  rw [checkVisits_cons, Loader.block, Visit.check, htype, hid]
  cases nodeType? node with
  | none => rfl
  | some type =>
    cases nodeId? node with
    | none => rfl
    | some id =>
      change Except.map _ (identify _ (some id) ⟨_, loading.seen⟩ >>= _) = _
      rw [identify_some]
      dsimp only
      split <;> rfl

/-- The block of a node is created with the type of the node. -/
theorem nodeType?_of_block {node : Json} {loading after : Loading} {created : BlockId × String}
    (h : Loader.block (.ofJson node) loading = .ok (created, after)) : nodeType? node = some created.2 := by
  have hlabel : (NodeLabel.ofJson node).type? = nodeType? node := rfl
  rw [Loader.block, hlabel] at h
  cases htype : nodeType? node with
  | none =>
    rw [htype] at h
    cases h
  | some type =>
    rw [htype] at h
    obtain ⟨_, _, -, h⟩ := bind_ok h
    obtain ⟨_, _, -, h⟩ := bind_ok h
    obtain ⟨_, _, -, h⟩ := bind_ok h
    cases h
    rfl

/-- A node is checked first, and after it what is in its inputs. -/
theorem checks_node {node : Json}
    (hinputs : ∀ parent typeName, Checks ((Inputs.ofMembers (inputMembers node)).load parent typeName)
      (inputVisits typeName (inputMembers node))) :
    Checks (Node.load (.mk (.ofJson node) (.ofMembers (inputMembers node))))
      (⟨[], node⟩ :: inputVisits ((nodeType? node).getD "") (inputMembers node)) := by
  rw [Node.load]
  refine (checks_block node).bind fun loading created mid hblock => ?_
  have htype := nodeType?_of_block hblock
  rw [htype, Option.getD_some]
  exact (hinputs created.1 created.2).bind_change fun _ => .pure created.1

mutual

/-- Loading a chain is checking the visits to it. -/
theorem checks_chain (node : Json) : Checks (Chain.ofJson node).load (chainVisits node) := by
  have hlt := sizeOf_inputMembers_le node
  have hnode := checks_node fun parent typeName => checks_inputs parent typeName (inputMembers node)
  cases hnext : nextNode? node with
  | none =>
    rw [Chain.ofJson_last hnext, chainVisits_last hnext, Chain.load]
    exact hnode
  | some next =>
    have hless := sizeOf_nextNode?_lt hnext
    rw [Chain.ofJson_link hnext, chainVisits_link hnext, Chain.load]
    refine hnode.bind fun _ id _ _ => (checks_chain next).bind_change fun after => ?_
    exact (Checks.change _).bind_change fun _ => .pure id
termination_by 2 * sizeOf node + 1

/-- Loading inputs is checking the visits to what is in them. -/
theorem checks_inputs (parent : BlockId) (typeName : String) (members : List (String × Json)) :
    Checks ((Inputs.ofMembers members).load parent typeName) (inputVisits typeName members) := by
  match members with
  | [] =>
    rw [Inputs.ofMembers, Inputs.load, inputVisits]
    exact .pure ()
  | (name, input) :: rest =>
    cases hinput : inputNode? input with
    | none =>
      rw [Inputs.ofMembers_skip hinput, inputVisits_skip hinput]
      exact checks_inputs parent typeName rest
    | some node =>
      have hless := sizeOf_inputNode?_lt hinput
      rw [Inputs.ofMembers_plug hinput, inputVisits_plug hinput, Inputs.load]
      refine ((checks_chain node).within ⟨name, typeName⟩).bind fun _ child _ _ => ?_
      exact (Checks.change _).bind fun _ _ _ _ => checks_inputs parent typeName rest
termination_by 2 * sizeOf members
decreasing_by
  all_goals simp only [List.cons.sizeOf_spec, Prod.mk.sizeOf_spec]
  all_goals omega

end

/-- Loading what is on a canvas is checking the visits to all its nodes. -/
theorem checks_canvas (nodes : List Json) :
    Checks ((nodes.map fun node => Entry.mk (Chain.ofJson node) (Position.ofJson node)).forM Entry.load)
      (canvasVisits nodes) := by
  induction nodes with
  | nil => exact .pure ()
  | cons node rest ih =>
    have hentry : Checks (Entry.load ⟨Chain.ofJson node, Position.ofJson node⟩) (chainVisits node) :=
      (checks_chain node).bind_change fun _ => .change _
    exact hentry.bind fun _ _ _ _ => ih

end Loader

/-! ### Key order -/

mutual

/-- The nodes of an ordered value are ordered. -/
theorem ordered_of_mem_chainVisits {node : Json} (h : node.Ordered) {visit : Visit}
    (hvisit : visit ∈ chainVisits node) : visit.node.Ordered := by
  have hlt := sizeOf_inputMembers_le node
  have hfirst (hvisit : visit ∈ (⟨[], node⟩ :: inputVisits ((nodeType? node).getD "") (inputMembers node) :
      List Visit)) : visit.node.Ordered := by
    rcases List.mem_cons.1 hvisit with rfl | hvisit
    · exact h
    · exact ordered_of_mem_inputVisits h.inputMembers.2 hvisit
  cases hnext : nextNode? node with
  | none =>
    rw [chainVisits_last hnext] at hvisit
    exact hfirst hvisit
  | some next =>
    have hless := sizeOf_nextNode?_lt hnext
    rw [chainVisits_link hnext] at hvisit
    rcases List.mem_append.1 hvisit with hvisit | hvisit
    · exact hfirst hvisit
    · exact ordered_of_mem_chainVisits (h.nextNode? hnext) hvisit
termination_by 2 * sizeOf node + 1

theorem ordered_of_mem_inputVisits {typeName : String} {members : List (String × Json)}
    (h : ∀ entry ∈ members, entry.2.Ordered) {visit : Visit} (hvisit : visit ∈ inputVisits typeName members) :
    visit.node.Ordered := by
  match members with
  | [] =>
    rw [inputVisits] at hvisit
    cases hvisit
  | (name, input) :: rest =>
    have hrest (hvisit : visit ∈ inputVisits typeName rest) : visit.node.Ordered :=
      ordered_of_mem_inputVisits (fun entry hentry => h entry (List.mem_cons_of_mem _ hentry)) hvisit
    cases hinput : inputNode? input with
    | none =>
      rw [inputVisits_skip hinput] at hvisit
      exact hrest hvisit
    | some node =>
      have hless := sizeOf_inputNode?_lt hinput
      rw [inputVisits_plug hinput] at hvisit
      rcases List.mem_append.1 hvisit with hvisit | hvisit
      · obtain ⟨inner, hinner, rfl⟩ := List.mem_map.1 hvisit
        show inner.node.Ordered
        exact ordered_of_mem_chainVisits ((h _ (List.mem_cons_self ..)).inputNode? hinput) hinner
      · exact hrest hvisit
termination_by 2 * sizeOf members
decreasing_by
  all_goals simp only [List.cons.sizeOf_spec, Prod.mk.sizeOf_spec]
  all_goals omega

end

/-! ### Loading a document -/

/-- The nodes are those that a value lists as the blocks of a canvas. -/
def Json.ListsNodes (value : Json) (nodes : List Json) : Prop :=
  ∃ blocks, value.member? "blocks" = some blocks ∧ blocks.member? "blocks" = some (.array nodes)

theorem Json.ListsNodes.topNodes?_eq {value : Json} {nodes : List Json} (h : value.ListsNodes nodes) :
    topNodes? value = some nodes := by
  obtain ⟨blocks, hblocks, hnodes⟩ := h
  rw [topNodes?, hblocks]
  dsimp only
  rw [hnodes]
  rfl

namespace Workspace

variable {value : Json} {nodes : List Json} {e : LoadError}

/-- Why a value is refused: it has no list of nodes where there should be one, or there is a first node at fault. -/
inductive Refusal (value : Json) : LoadError → Prop where
  | noBlockList {blocks : Json} (hblocks : value.member? "blocks" = some blocks)
    (hnodes : ∀ nodes, blocks.member? "blocks" ≠ some (.array nodes)) : Refusal value .noBlockList
  | node {nodes before visit after fault} (hnodes : value.ListsNodes nodes)
    (hvisits : canvasVisits nodes = before ++ visit :: after) (hbefore : Flawless before)
    (hvisit : visit.Offends (visitedIds before) fault) : Refusal value (.node visit.path fault)

/-- A load fails as the check of the nodes does. -/
theorem ofJson_eq_error_iff (h : topNodes? value = some nodes) :
    ofJson value = .error e ↔ checkVisits [] (canvasVisits nodes) = .error e := by
  rw [← Loader.checks_canvas nodes {}, ofJson, Document.ofJson?_eq, h, Option.map_some]
  dsimp only
  rw [Document.load]
  change (List.forM _ Entry.load {} >>= _) = _ ↔ _
  cases List.forM _ Entry.load {} with
  | error e' =>
    constructor
    · rintro ⟨⟩
      rfl
    · rintro ⟨⟩
      rfl
  | ok ended =>
    constructor
    · rintro ⟨⟩
    · rintro ⟨⟩

theorem ofJson_of_flawless (h : topNodes? value = some nodes) (hnodes : Flawless (canvasVisits nodes)) :
    ∃ ws, ofJson value = .ok ws := by
  cases hended : ofJson value with
  | ok ws => exact ⟨ws, rfl⟩
  | error e => cases (checkVisits_of_flawless hnodes).symm.trans ((ofJson_eq_error_iff h).1 hended)

theorem ofJson_of_refusal (h : Refusal value e) : ofJson value = .error e := by
  cases h with
  | noBlockList hblocks hnodes =>
    have hnone : topNodes? value = none := by
      rw [topNodes?, hblocks]
      refine Option.bind_eq_none_iff.2 fun list hlist => ?_
      cases list with
      | array nodes => exact absurd hlist (hnodes nodes)
      | _ => rfl
    rw [ofJson, Document.ofJson?_eq, hnone]
    rfl
  | node hnodes hvisits hbefore hvisit =>
    rw [ofJson_eq_error_iff hnodes.topNodes?_eq, hvisits, checkVisits_of_offends hbefore hvisit]

/-- What is asked of a value that is to be loaded. -/
def Loadable (value : Json) : Prop :=
  value.member? "blocks" = none ∨ ∃ nodes, value.ListsNodes nodes ∧ Flawless (canvasVisits nodes)

theorem ofJson_of_loadable (h : Loadable value) : ∃ ws, ofJson value = .ok ws := by
  rcases h with hnone | ⟨nodes, hnodes, hflawless⟩
  · have hnodes : topNodes? value = some [] := by rw [topNodes?, hnone]
    exact ofJson_of_flawless hnodes flawless_nil
  · exact ofJson_of_flawless hnodes.topNodes?_eq hflawless

theorem loadable_or_refusal (value : Json) : Loadable value ∨ ∃ e, Refusal value e := by
  cases hblocks : value.member? "blocks" with
  | none => exact .inl (.inl hblocks)
  | some blocks =>
    by_cases hlist : ∃ nodes, blocks.member? "blocks" = some (.array nodes)
    · obtain ⟨nodes, hnodes⟩ := hlist
      have hlists : value.ListsNodes nodes := ⟨blocks, hblocks, hnodes⟩
      rcases flawless_or_offends (canvasVisits nodes) with
        hflawless | ⟨before, visit, after, fault, hvisits, hbefore, hvisit⟩
      · exact .inl (.inr ⟨nodes, hlists, hflawless⟩)
      · exact .inr ⟨_, .node hlists hvisits hbefore hvisit⟩
    · exact .inr ⟨_, .noBlockList hblocks (not_exists.1 hlist)⟩

/-- **What is loaded, and what is said of the rest.** A value is loaded if it has no blocks, or lists nodes of which
each has a type and no two have one id. Any other value is refused for the lack of such a list or for the first
node at fault, in the order of the load, and the texts of the error name the inputs on the way to this node, the
outermost first. In a value that was read from a text, the inputs of each node come in the order of their names. -/
theorem ofJson_faults (value : Json) :
    ((∃ ws, ofJson value = .ok ws) ↔ Loadable value) ∧
    (∀ e, ofJson value = .error e ↔ Refusal value e) ∧
    (∀ path fault, (LoadError.node path fault).messages =
      path.map (fun step => "In input '" ++ step.input ++ "' of a '" ++ step.typeName ++ "' block.") ++
        [fault.message]) ∧
    (value.Ordered → ∀ nodes, value.ListsNodes nodes →
      ∀ visit ∈ canvasVisits nodes, Table.Increasing (inputMembers visit.node)) := by
  refine ⟨⟨fun hload => ?_, ofJson_of_loadable⟩, fun e => ⟨fun hload => ?_, ofJson_of_refusal⟩,
    fun path fault => rfl, fun hvalue nodes hnodes visit hvisit => ?_⟩
  · obtain ⟨ws, hws⟩ := hload
    refine (loadable_or_refusal value).resolve_right ?_
    rintro ⟨e, he⟩
    cases hws.symm.trans (ofJson_of_refusal he)
  · rcases loadable_or_refusal value with hloadable | ⟨e', he'⟩
    · obtain ⟨ws, hws⟩ := ofJson_of_loadable hloadable
      cases hws.symm.trans hload
    · cases (ofJson_of_refusal he').symm.trans hload
      exact he'
  · obtain ⟨node, hnode, hvisit⟩ := List.mem_flatMap.1 hvisit
    have hordered := hvalue.topNodes? hnodes.topNodes?_eq node hnode
    exact (ordered_of_mem_chainVisits hordered hvisit).inputMembers.1

/-- A branch with two statements in it, the second of which declares a variable with a shadow that has no type. -/
def untypedShadow : Json :=
  .object [("blocks", .object [("blocks", .array [
    .object [
      ("inputs", .object [("DO", .object [("block", .object [
        ("id", .string "a"),
        ("next", .object [("block", .object [
          ("inputs", .object [("VALUE", .object [("shadow", .object [("id", .string "a")])])]),
          ("type", .string "variable_declaration")])]),
        ("type", .string "return_statement")])])]),
      ("type", .string "if_statement")],
    .object [("id", .string "a"), ("type", .string "boolean_literal")]])])]

/-- The shadow is at fault for its type, and not for its id; what comes after it is not looked at. -/
theorem untypedShadow_refused :
    ∃ e, ofJson untypedShadow = .error e ∧ Refusal untypedShadow e ∧ ¬Loadable untypedShadow ∧
      e.messages = ["In input 'DO' of a 'if_statement' block.",
        "In input 'VALUE' of a 'variable_declaration' block.", "Block is missing its 'type'."] ∧
      untypedShadow.Ordered ∧ ∀ nodes, untypedShadow.ListsNodes nodes →
        ∀ visit ∈ canvasVisits nodes, Table.Increasing (inputMembers visit.node) := by
  obtain ⟨hloaded, hrefused, hmessages, hnames⟩ := ofJson_faults untypedShadow
  have hordered : untypedShadow.Ordered := by
    simp +decide [untypedShadow]
  have herror : ofJson untypedShadow =
      .error (.node [⟨"DO", "if_statement"⟩, ⟨"VALUE", "variable_declaration"⟩] .missingType) := by
    cbv
  refine ⟨_, herror, (hrefused _).1 herror, fun hloadable => ?_, ?_, hordered, hnames hordered⟩
  · obtain ⟨ws, hws⟩ := hloaded.2 hloadable
    cases hws.symm.trans herror
  · rw [hmessages]
    decide

end Workspace
end BlockProgram
