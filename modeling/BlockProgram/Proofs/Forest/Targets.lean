import BlockProgram.Proofs.Forest.Unfolding

/-!
A loaded workspace is a forest: its links lead forward, and each block is either on the canvas or the
target of one link. Each part of the load covers a run of numbers: the blocks on which the part starts
(`roots`), together with the targets of all its blocks, are the blocks of the run, each once. Parts that
follow each other cover the two runs together, and a block in front of the parts that it links to covers
one more number.

    n           n + 1               k
    block       its targets and all that they lead to
-/

namespace BlockProgram

/-! ### Links of a block -/

/-- Where a block can link to another: one of its inputs, or the block after it. -/
inductive Connection where
  | input (name : String)
  | next
  deriving DecidableEq, Repr

namespace Block

/-- What a connection of a block leads to. -/
def link? (block : Block) : Connection → Option BlockId
  | .input name => block.input? name
  | .next => block.next

/-- All that a block links to. -/
def targets (block : Block) : List BlockId :=
  block.inputs.map Prod.snd ++ block.next.toList

variable {block : Block} {target : BlockId} {connection connection' : Connection}

theorem link?_input_iff (h : Table.Increasing block.inputs) {name : String} :
    block.link? (.input name) = some target ↔ (name, target) ∈ block.inputs :=
  Table.find?_eq_some_iff h.nodup

theorem mem_targets_iff (h : Table.Increasing block.inputs) :
    target ∈ block.targets ↔ ∃ connection, block.link? connection = some target := by
  rw [targets, List.mem_append, Option.mem_toList]
  constructor
  · rintro (hinput | hnext)
    · obtain ⟨⟨name, found⟩, hentry, rfl⟩ := List.mem_map.1 hinput
      exact ⟨.input name, (link?_input_iff h).2 hentry⟩
    · exact ⟨.next, hnext⟩
  · rintro ⟨_ | _, hlink⟩
    · exact .inl (List.mem_map.2 ⟨_, (link?_input_iff h).1 hlink, rfl⟩)
    · exact .inr hlink

/-- Of the connections of a block with distinct targets only one leads to a block. -/
theorem connection_unique (h : Table.Increasing block.inputs) (hnodup : block.targets.Nodup)
    (hlink : block.link? connection = some target) (hlink' : block.link? connection' = some target) :
    connection = connection' := by
  obtain ⟨hinputs, -, hdisjoint⟩ := List.nodup_append'.1 hnodup
  have happart {name : String} (hinput : block.link? (.input name) = some target)
      (hnext : block.link? .next = some target) : False :=
    hdisjoint (List.mem_map.2 ⟨_, (link?_input_iff h).1 hinput, rfl⟩) (Option.mem_toList.2 hnext)
  cases connection with
  | input name =>
    cases connection' with
    | input name' =>
      rw [link?_input_iff h] at hlink hlink'
      cases List.inj_on_of_nodup_map hinputs hlink hlink' rfl
      rfl
    | next => exact (happart hlink hlink').elim
  | next =>
    cases connection' with
    | input name' => exact (happart hlink' hlink).elim
    | next => rfl

end Block

namespace Workspace

variable {ws : Workspace} {n m k : Nat} {roots roots' : List BlockId} {block : Block}

/-- What the block with a number links to. -/
def targetsOf (ws : Workspace) (n : Nat) : List BlockId :=
  (ws.get? ⟨n⟩).elim [] Block.targets

/-- What the blocks from number `n` up to `m` link to. -/
def targets (ws : Workspace) (n m : Nat) : List BlockId :=
  (List.range' n (m - n)).flatMap ws.targetsOf

/-- The blocks from number `n` up to `m`. -/
def run (n m : Nat) : List BlockId :=
  (List.range' n (m - n)).map BlockId.mk

theorem mem_run_iff {id : BlockId} : id ∈ run n m ↔ n ≤ id.index ∧ id.index < m := by
  cases id
  simp [run]
  omega

theorem nodup_run (n m : Nat) : (run n m).Nodup :=
  (List.nodup_range' _).map fun _ _ h => congrArg BlockId.index h

theorem range'_split (hn : n ≤ m) (hm : m ≤ k) :
    List.range' n (k - n) = List.range' n (m - n) ++ List.range' m (k - m) := by
  rw [show k - n = (m - n) + (k - m) by omega, ← List.range'_append_1]
  congr 2
  omega

/-- A part of a workspace: its roots and all targets in it are its blocks, each once, and every link in it
leads forward. -/
structure Covers (ws : Workspace) (roots : List BlockId) (n m : Nat) : Prop where
  le : n ≤ m
  perm : (roots ++ ws.targets n m).Perm (run n m)
  blocks : ∀ i, n ≤ i → i < m → ∃ block, ws.get? ⟨i⟩ = some block ∧ Table.Increasing block.inputs ∧
    ∀ target ∈ block.targets, i < target.index

theorem Covers.nil (ws : Workspace) (n : Nat) : ws.Covers [] n n :=
  ⟨le_rfl, by simp [targets, run], fun i hi hlt => by omega⟩

theorem Covers.append (h : ws.Covers roots n m) (h' : ws.Covers roots' m k) :
    ws.Covers (roots ++ roots') n k := by
  refine ⟨h.le.trans h'.le, ?_, fun i hi hlt => ?_⟩
  · have htargets : ws.targets n k = ws.targets n m ++ ws.targets m k := by
      rw [targets, range'_split h.le h'.le, List.flatMap_append]
      rfl
    have hrun : run n k = run n m ++ run m k := by
      rw [run, range'_split h.le h'.le, List.map_append]
      rfl
    rw [htargets, hrun, List.append_assoc]
    refine .trans ?_ (h.perm.append h'.perm)
    rw [List.append_assoc]
    refine .append_left _ ?_
    rw [← List.append_assoc, ← List.append_assoc]
    exact .append_right _ List.perm_append_comm
  · rcases Nat.lt_or_ge i m with hlt' | hge
    · exact h.blocks i hi hlt'
    · exact h'.blocks i hge hlt

/-- A block in front of the parts that it links to. -/
theorem Covers.node (hget : ws.get? ⟨n⟩ = some block) (hnames : Table.Increasing block.inputs)
    (h : ws.Covers block.targets (n + 1) k) : ws.Covers [⟨n⟩] n k := by
  have hle := h.le
  have hrange : List.range' n (k - n) = n :: List.range' (n + 1) (k - (n + 1)) := by
    rw [show k - n = (k - (n + 1)) + 1 by omega, List.range'_succ]
  refine ⟨by omega, ?_, fun i hi hlt => ?_⟩
  · have htargets : ws.targets n k = block.targets ++ ws.targets (n + 1) k := by
      rw [targets, hrange, List.flatMap_cons, targetsOf, hget]
      rfl
    rw [htargets, run, hrange]
    exact h.perm.cons _
  · rcases hi.eq_or_lt with rfl | hi
    · refine ⟨block, hget, hnames, fun target htarget => ?_⟩
      have hmem := h.perm.subset (List.mem_append_left _ htarget)
      exact (mem_run_iff.1 hmem).1
    · exact h.blocks i hi hlt

/-! ### The load -/

mutual

/-- The block of a node covers the numbers up to those of a part that starts with the next block. -/
theorem HoldsNode.covers {position? : Option Position} {next? : Option BlockId} {n m k : Nat}
    {node : Json} (h : ws.HoldsNode position? next? n node m) (hnext : ws.Covers next?.toList m k) :
    ws.Covers [⟨n⟩] n k :=
  match h with
  | .mk hget _ _ hlink hnames hinputs =>
    .node hget hnames (by
      rw [Block.targets, hlink]
      exact (HoldsInputs.covers hinputs).append hnext)

/-- A chain covers its numbers from its first block on. -/
theorem HoldsChain.covers {position? : Option Position} {n m : Nat} {node : Json}
    (h : ws.HoldsChain position? n node m) : ws.Covers [⟨n⟩] n m :=
  match h with
  | .last hnode _ => HoldsNode.covers hnode (.nil ws m)
  | .link hnode _ hrest => HoldsNode.covers hnode (HoldsChain.covers hrest)

/-- Inputs cover their numbers from the blocks in them on. -/
theorem HoldsInputs.covers {n m : Nat} {members : List (String × Json)} {inputs : Table BlockId}
    (h : ws.HoldsInputs n members inputs m) : ws.Covers (inputs.map Prod.snd) n m :=
  match h with
  | .nil => .nil ws n
  | .skip _ hrest => HoldsInputs.covers hrest
  | .plug _ hchain hrest => (HoldsChain.covers hchain).append (HoldsInputs.covers hrest)

end

theorem HoldsEntries.covers {nodes : List Json} {tops : List BlockId}
    (h : ws.HoldsEntries n nodes tops m) : ws.Covers tops n m := by
  induction h with
  | nil => exact .nil ws _
  | cons hchain _ ih => exact hchain.covers.append ih

/-! ### Forests -/

/-- Links lead forward to blocks that exist, and every block has one place: it is on the canvas, or
plugged into one input of one block, or next after one block. -/
structure IsForest (ws : Workspace) : Prop where
  links : ∀ source block connection target, ws.get? source = some block →
    block.link? connection = some target → source.index < target.index ∧ target.index < ws.size
  top : ∀ id ∈ ws.top, id.index < ws.size
  top_nodup : ws.top.Nodup
  top_root : ∀ id ∈ ws.top, ∀ source block connection, ws.get? source = some block →
    block.link? connection ≠ some id
  place : ∀ id, id.index < ws.size → id ∉ ws.top →
    ∃! link : BlockId × Connection, ∃ block, ws.get? link.1 = some block ∧ block.link? link.2 = some id

theorem targetsOf_of_get? {source : BlockId} (hget : ws.get? source = some block) :
    ws.targetsOf source.index = block.targets := by
  rw [targetsOf, hget]
  rfl

/-- Every block of a workspace that is covered is in the part that covers it. -/
theorem Covers.of_get? (h : ws.Covers roots 0 ws.size) {source : BlockId}
    (hget : ws.get? source = some block) :
    Table.Increasing block.inputs ∧ ∀ target ∈ block.targets, source.index < target.index := by
  have hlt := mem_ids_iff.1 (mem_ids_of_get? hget)
  obtain ⟨other, hother, hblock⟩ := h.blocks source.index (Nat.zero_le _) hlt
  cases hother.symm.trans hget
  exact hblock

theorem Covers.mem_targetsOf (h : ws.Covers roots 0 ws.size) {source target : BlockId}
    (hget : ws.get? source = some block) {connection : Connection}
    (hlink : block.link? connection = some target) : target ∈ ws.targetsOf source.index := by
  rw [targetsOf_of_get? hget]
  exact (Block.mem_targets_iff (h.of_get? hget).1).2 ⟨connection, hlink⟩

theorem mem_targets_of_targetsOf {source target : BlockId} (hget : ws.get? source = some block)
    (htarget : target ∈ ws.targetsOf source.index) : target ∈ ws.targets 0 ws.size := by
  have hlt := mem_ids_iff.1 (mem_ids_of_get? hget)
  exact List.mem_flatMap.2 ⟨source.index, by simpa using hlt, htarget⟩

/-- Two blocks with a target in common are one block. -/
theorem source_unique (h : (ws.targets 0 ws.size).Nodup) {i j : Nat} {target : BlockId}
    (hi : i < ws.size) (hj : j < ws.size) (htarget : target ∈ ws.targetsOf i)
    (htarget' : target ∈ ws.targetsOf j) : i = j := by
  by_contra hne
  have hapart := (List.nodup_flatMap.1 h).2
  have : Std.Symm (Function.onFun List.Disjoint ws.targetsOf) := ⟨fun _ _ h => h.symm⟩
  exact hapart.forall (by simpa using hi) (by simpa using hj) hne htarget htarget'

/-- A workspace that its canvas covers is a forest. -/
theorem Covers.isForest (h : ws.Covers ws.top 0 ws.size) : ws.IsForest := by
  obtain ⟨htop, htargets, hdisjoint⟩ :=
    List.nodup_append'.1 (h.perm.nodup_iff.2 (nodup_run 0 ws.size))
  have hmem (id : BlockId) : id ∈ ws.top ++ ws.targets 0 ws.size ↔ id.index < ws.size := by
    rw [h.perm.mem_iff, mem_run_iff]
    simp
  constructor
  case links =>
    intro source block connection target hget hlink
    have htarget := h.mem_targetsOf hget hlink
    have hexists := List.mem_append_right ws.top (mem_targets_of_targetsOf hget htarget)
    rw [targetsOf_of_get? hget] at htarget
    exact ⟨(h.of_get? hget).2 target htarget, (hmem target).1 hexists⟩
  case top => exact fun id hid => (hmem id).1 (List.mem_append_left _ hid)
  case top_nodup => exact htop
  case top_root =>
    intro id hid source block connection hget hlink
    exact hdisjoint hid (mem_targets_of_targetsOf hget (h.mem_targetsOf hget hlink))
  case place =>
    intro id hlt hid
    obtain ⟨i, hi, htarget⟩ :=
      List.mem_flatMap.1 ((List.mem_append.1 ((hmem id).2 hlt)).resolve_left hid)
    have hlt' : i < ws.size := by simpa using hi
    obtain ⟨block, hget, hnames, -⟩ := h.blocks i (Nat.zero_le i) hlt'
    have hdistinct := (List.nodup_flatMap.1 htargets).1 i hi
    rw [targetsOf_of_get? hget] at hdistinct
    obtain ⟨connection, hlink⟩ := (Block.mem_targets_iff hnames).1 (targetsOf_of_get? hget ▸ htarget)
    refine ⟨(⟨i⟩, connection), ⟨block, hget, hlink⟩, ?_⟩
    rintro ⟨⟨j⟩, connection'⟩ ⟨block', hget', hlink'⟩
    dsimp only at hget' hlink'
    obtain rfl := source_unique htargets hlt' (mem_ids_iff.1 (mem_ids_of_get? hget')) htarget
      (h.mem_targetsOf hget' hlink')
    cases hget.symm.trans hget'
    rw [Block.connection_unique hnames hdistinct hlink' hlink]

/-- **A loaded workspace is a forest.** -/
theorem ofJson_isForest {value : Json} (hvalue : value.Ordered) (h : Workspace.ofJson value = .ok ws) :
    ws.IsForest := by
  obtain ⟨nodes, -, hholds⟩ := holdsEntries_of_ofJson hvalue h
  exact hholds.covers.isForest

end Workspace

theorem twoChains_isForest :
    twoChains.Ordered ∧ Workspace.ofJson twoChains = .ok twoChainsWorkspace ∧
      twoChainsWorkspace.IsForest :=
  ⟨twoChains_ordered, twoChains_loaded, Workspace.ofJson_isForest twoChains_ordered twoChains_loaded⟩

end BlockProgram
