import BlockProgram.Proofs.Forest.Layout

/-!
Which documents load. A load looks at nothing but the types and the ids of the nodes: it succeeds as soon
as each node has a type and no id is given twice, wherever in the document the nodes stand
(`Document.load_ok_iff`). So neither the order of the nodes nor how they lie in each other makes a
difference to whether a document loads.

Each step of a load adds the ids of its nodes to those that were seen, and the nodes that are still to
come must be admitted after it.
-/

namespace BlockProgram

/-- The nodes that are still to be loaded have types, and ids that differ from each other and from
those that were seen. -/
structure Loading.Admits (loading : Loading) (labels : List NodeLabel) : Prop where
  typed : ∀ label ∈ labels, label.type?.isSome = true
  nodup : ((givenIds labels).reverse ++ loading.seen).Nodup

/-- A step that loads nodes with the given labels comes to its end. -/
def Loader.Loads {α : Type} (step : Loader α) (loading : Loading) (labels : List NodeLabel) : Prop :=
  ∃ a after, step loading = .ok (a, after) ∧ after.seen = (givenIds labels).reverse ++ loading.seen

section

variable {α β : Type} {step : Loader α} {loading after : Loading} {labels more : List NodeLabel}

theorem Loading.Admits.left (h : loading.Admits (labels ++ more)) : loading.Admits labels := by
  refine ⟨fun label hlabel => h.typed label (List.mem_append_left _ hlabel), ?_⟩
  have hnodup := h.nodup
  rw [givenIds_append, List.reverse_append, List.append_assoc] at hnodup
  exact hnodup.sublist (List.sublist_append_right ..)

/-- After the first nodes the others are still admitted. -/
theorem Loading.Admits.right (h : loading.Admits (labels ++ more))
    (hseen : after.seen = (givenIds labels).reverse ++ loading.seen) : after.Admits more := by
  refine ⟨fun label hlabel => h.typed label (List.mem_append_right _ hlabel), ?_⟩
  have hnodup := h.nodup
  rwa [givenIds_append, List.reverse_append, List.append_assoc, ← hseen] at hnodup

namespace Loader

theorem Loads.pure (a : α) : Loads (Pure.pure a : Loader α) loading [] :=
  ⟨a, loading, rfl, rfl⟩

/-- A change to the workspace is no matter. -/
theorem Loads.change (f : Workspace → Workspace) : Loads (Loader.change f) loading [] :=
  ⟨(), _, rfl, rfl⟩

theorem Loads.bind {next : α → Loader β} (h : Loads step loading labels)
    (hnext : ∀ a after, after.seen = (givenIds labels).reverse ++ loading.seen →
      Loads (next a) after more) : Loads (step >>= next) loading (labels ++ more) := by
  obtain ⟨a, mid, hstep, hseen⟩ := h
  obtain ⟨b, after, hrun, hseen'⟩ := hnext a mid hseen
  refine ⟨b, after, ?_, ?_⟩
  · have hbind : (step >>= next) loading = (step loading).bind fun ended => next ended.1 ended.2 := rfl
    rw [hbind, hstep]
    exact hrun
  · rw [hseen', hseen, givenIds_append, List.reverse_append, List.append_assoc]

/-- What follows a step loads no more nodes. -/
theorem Loads.bind_last {next : α → Loader β} (h : Loads step loading labels)
    (hnext : ∀ a after, Loads (next a) after []) : Loads (step >>= next) loading labels := by
  have hbind := h.bind fun a after _ => hnext a after
  rwa [List.append_nil] at hbind

theorem Loads.within (input : InputStep) (h : Loads step loading labels) :
    Loads (Loader.within input step) loading labels := by
  obtain ⟨a, after, hstep, hseen⟩ := h
  exact ⟨a, after, by rw [Loader.within, hstep]; rfl, hseen⟩

/-- A new id is given, and seen from then on. -/
theorem loads_identify (id : BlockId) {label : NodeLabel} (h : loading.Admits [label]) :
    Loads (identify id label.id?) loading [label] := by
  obtain ⟨type?, given?, fields⟩ := label
  cases given? with
  | none => exact ⟨(), loading, rfl, rfl⟩
  | some given =>
    have hnew : given ∉ loading.seen := (List.nodup_cons.1 h.nodup).1
    refine ⟨(), ⟨loading.workspace.modify id fun block => { block with id := given },
      given :: loading.seen⟩, ?_, rfl⟩
    show (do
      if given ∈ loading.seen then throw (.node [] (.duplicateId given))
      modify fun loading => { loading with seen := given :: loading.seen }
      Loader.change fun ws => ws.modify id fun block => { block with id := given } : Loader Unit)
        loading = _
    rw [if_neg hnew]
    rfl

/-- The block of a node that is admitted is created. -/
theorem loads_block {label : NodeLabel} (h : loading.Admits [label]) :
    Loads (Loader.block label) loading [label] := by
  obtain ⟨name, hname⟩ := Option.isSome_iff_exists.1 (h.typed _ (List.mem_singleton_self _))
  have hcreate : Loads (create (.ofTypeName name)) loading [] := ⟨_, _, rfl, rfl⟩
  have hadmits : loading.Admits ([] ++ [label]) := h
  show Loads _ loading ([] ++ [label])
  rw [block, hname]
  refine hcreate.bind fun id after hseen => ?_
  exact (loads_identify id (hadmits.right hseen)).bind_last fun _ _ =>
    (Loads.change _).bind_last fun _ _ => .pure _

end Loader

mutual

/-- A node loads if its labels are admitted. -/
theorem Node.loads {node : Node} {loading : Loading} (h : loading.Admits node.labels) :
    Loader.Loads node.load loading node.labels := by
  match node with
  | .mk label inputs =>
    have hadmits : loading.Admits ([label] ++ inputs.labels) := h
    show Loader.Loads _ loading ([label] ++ inputs.labels)
    rw [Node.load]
    refine (Loader.loads_block hadmits.left).bind fun created after hseen => ?_
    exact (Inputs.loads created.1 created.2 (hadmits.right hseen)).bind_last fun _ _ => .pure _

theorem Chain.loads {chain : Chain} {loading : Loading} (h : loading.Admits chain.labels) :
    Loader.Loads chain.load loading chain.labels := by
  match chain with
  | .last node =>
    rw [Chain.labels] at h ⊢
    rw [Chain.load]
    exact Node.loads h
  | .link node rest =>
    rw [Chain.labels] at h ⊢
    rw [Chain.load]
    refine (Node.loads h.left).bind fun id after hseen => ?_
    exact (Chain.loads (h.right hseen)).bind_last fun _ _ =>
      (Loader.Loads.change _).bind_last fun _ _ => .pure _

theorem Inputs.loads {inputs : Inputs} (parent : BlockId) (typeName : String) {loading : Loading}
    (h : loading.Admits inputs.labels) :
    Loader.Loads (inputs.load parent typeName) loading inputs.labels := by
  match inputs with
  | .nil =>
    rw [Inputs.load, Inputs.labels]
    exact .pure _
  | .cons name chain rest =>
    rw [Inputs.labels] at h ⊢
    rw [Inputs.load]
    refine ((Chain.loads h.left).within _).bind fun child after hseen => ?_
    show Loader.Loads _ after ([] ++ rest.labels)
    exact (Loader.Loads.change _).bind fun _ changed hsame =>
      Inputs.loads parent typeName (h.right (hsame.trans hseen))

end

theorem entries_loads {entries : List Entry} {loading : Loading}
    (h : loading.Admits (entries.flatMap fun entry => entry.chain.labels)) :
    Loader.Loads (entries.forM Entry.load) loading
      (entries.flatMap fun entry => entry.chain.labels) := by
  induction entries generalizing loading with
  | nil => exact .pure _
  | cons entry rest ih =>
    rw [List.flatMap_cons] at h ⊢
    have hentry : Loader.Loads entry.load loading entry.chain.labels :=
      (Chain.loads h.left).bind_last fun _ _ => .change _
    exact hentry.bind fun _ after hseen => ih (h.right hseen)

/-- A document loads exactly if each of its nodes has a type and no id is given twice. -/
theorem Document.load_ok_iff {document : Document} :
    (∃ ws, document.load = .ok ws) ↔ Acceptable document.labels := by
  constructor
  · rintro ⟨ws, hws⟩
    exact (Document.load_layout hws).2
  · intro h
    have hadmits : Loading.Admits {} document.labels := by
      refine ⟨h.typed, ?_⟩
      rw [List.append_nil, List.nodup_reverse]
      exact h.nodup
    obtain ⟨a, after, hrun, -⟩ := entries_loads hadmits
    refine ⟨after.workspace, ?_⟩
    rw [Document.load, show (document.entries.forM Entry.load).run {} = .ok (a, after) from hrun]
    rfl

end

/-- The order of the nodes is no matter. -/
theorem Acceptable.perm {labels labels' : List NodeLabel} (h : Acceptable labels)
    (hperm : labels.Perm labels') : Acceptable labels' :=
  ⟨fun label hlabel => h.typed label (hperm.symm.subset hlabel),
    (hperm.filterMap _).nodup_iff.1 h.nodup⟩

end BlockProgram
