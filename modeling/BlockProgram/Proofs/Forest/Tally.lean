import BlockProgram.Proofs.Forest.Load
import BlockProgram.Proofs.Rendering.Link

/-!
How often a block of a forest is written. A block is written with its own code, and once more for each
call before it in an unbroken run of calls; only parameters are spent and written once. So a block is
written exactly once unless on the way to it there is a block, other than parameters, that comes after a
call (`Stack.counted`).
-/

namespace BlockProgram

/-- A block of a chain as it is counted: its kind, and how often its own code holds the block that is
looked for. -/
structure Tally where
  kind : BlockKind
  part : Nat

namespace Tally

/-- How often the own code of the first block of a chain holds the block that is looked for. -/
def own (spent : Bool) : List Tally → Nat
  | [] => 0
  | first :: rest =>
    if spent = true ∧ first.kind = .functionParams then 0
    else first.part + if first.kind = .functionCall then own spent rest else 0

/-- How often the text of a chain holds it. -/
def chain (afterCall : Bool) : List Tally → Nat
  | [] => 0
  | first :: rest => own afterCall (first :: rest) + chain (first.kind = .functionCall) rest

end Tally

/-- The own code of a block holds the block itself and all that its inputs hold. -/
def Block.tally (v : BlockId) (id : BlockId) (block : Block) (plugged : String → List Tally) :
    Tally where
  kind := block.kind
  part := (if id = v then 1 else 0) +
    (block.kind.inputs.map fun input => Tally.chain false (plugged input)).sum

/-- The blocks of a stack as they are counted. -/
def Stack.tallies (v : BlockId) (stack : Stack) : List Tally :=
  stack.read (Block.tally v)

/-! ### Where a block is written -/

namespace Stack

/-- Reading a stack comes to block `v`. -/
inductive Shows (v : BlockId) : Stack → Prop where
  | here {block sockets rest} : Shows v (cons v block sockets rest)
  | input {id block sockets rest input} (hinput : input ∈ block.kind.inputs)
    (h : Shows v (Sockets.find input sockets)) : Shows v (cons id block sockets rest)
  | next {id block sockets rest} (h : Shows v rest) : Shows v (cons id block sockets rest)

/-- The own code of the first block of a stack comes to block `v`. -/
def PartShows (v id : BlockId) (block : Block) (sockets : Sockets) : Prop :=
  id = v ∨ ∃ input ∈ block.kind.inputs, (sockets.find input).Shows v

/-- On the way to block `v` there is a block that comes after a call and holds no parameters. The stack
itself may come after a call. -/
inductive Repeats (v : BlockId) : Bool → Stack → Prop where
  | here {id block sockets rest} (hkind : block.kind ≠ .functionParams)
    (h : PartShows v id block sockets) : Repeats v true (cons id block sockets rest)
  | input {afterCall id block sockets rest input} (hinput : input ∈ block.kind.inputs)
    (h : Repeats v false (Sockets.find input sockets)) : Repeats v afterCall (cons id block sockets rest)
  | next {afterCall id block sockets rest} (h : Repeats v (block.kind = .functionCall) rest) :
    Repeats v afterCall (cons id block sockets rest)

variable {v id : BlockId} {block : Block} {sockets : Sockets} {rest stack : Stack}

theorem shows_cons_iff :
    (cons id block sockets rest).Shows v ↔ PartShows v id block sockets ∨ rest.Shows v := by
  constructor
  · rintro (_ | ⟨hinput, h⟩ | h)
    · exact .inl (.inl rfl)
    · exact .inl (.inr ⟨_, hinput, h⟩)
    · exact .inr h
  · rintro ((rfl | ⟨input, hinput, h⟩) | h)
    · exact .here
    · exact .input hinput h
    · exact .next h

theorem Repeats.shows {afterCall : Bool} (h : stack.Repeats v afterCall) : stack.Shows v := by
  induction h with
  | here _ h => exact shows_cons_iff.2 (.inl h)
  | input hinput _ ih => exact .input hinput ih
  | next _ ih => exact .next ih

theorem repeats_cons_iff {afterCall : Bool} :
    (cons id block sockets rest).Repeats v afterCall ↔
      (afterCall = true ∧ block.kind ≠ .functionParams ∧ PartShows v id block sockets) ∨
      (∃ input ∈ block.kind.inputs, (sockets.find input).Repeats v false) ∨
      rest.Repeats v (block.kind = .functionCall) := by
  constructor
  · rintro (⟨hkind, h⟩ | ⟨hinput, h⟩ | h)
    · exact .inl ⟨rfl, hkind, h⟩
    · exact .inr (.inl ⟨_, hinput, h⟩)
    · exact .inr (.inr h)
  · rintro (⟨rfl, hkind, h⟩ | ⟨input, hinput, h⟩ | h)
    · exact .here hkind h
    · exact .input hinput h
    · exact .next h

/-- A block after a call that is no parameters is repeated with all that its own code comes to. -/
theorem repeats_after_call (hkind : block.kind ≠ .functionParams) :
    (cons id block sockets rest).Repeats v true ↔
      PartShows v id block sockets ∨ rest.Repeats v (block.kind = .functionCall) := by
  rw [repeats_cons_iff]
  constructor
  · rintro (⟨-, -, h⟩ | ⟨input, hinput, h⟩ | h)
    · exact .inl h
    · exact .inl (.inr ⟨input, hinput, h.shows⟩)
    · exact .inr h
  · rintro (h | h)
    · exact .inl ⟨rfl, hkind, h⟩
    · exact .inr (.inr h)

theorem Shows.mem_ids (h : stack.Shows v) : v ∈ stack.ids := by
  induction h with
  | here => simp
  | @input id block sockets rest input _ _ ih =>
    have := (sockets.ids_find_sublist input).subset ih
    simp [this]
  | next _ ih => simp [ih]

end Stack

/-! ### Counting -/

/-- A count that is zero if the block is not shown; otherwise it is one exactly if it is not repeated. -/
structure Counts (n : Nat) (shown repeated : Prop) : Prop where
  zero : ¬ shown → n = 0
  pos : shown → 1 ≤ n
  one_iff : shown → (n = 1 ↔ ¬ repeated)

theorem Counts.congr {n : Nat} {shown shown' repeated repeated' : Prop} (h : Counts n shown repeated)
    (hshown : shown ↔ shown') (hrepeated : repeated ↔ repeated') : Counts n shown' repeated' := by
  rwa [propext hshown, propext hrepeated] at h

theorem Counts.none {shown repeated : Prop} (h : ¬ shown) : Counts 0 shown repeated :=
  ⟨fun _ => rfl, fun hs => absurd hs h, fun hs => absurd hs h⟩

/-- Two counts of which at most one is not zero. -/
theorem Counts.add {n m : Nat} {shown shown' repeated repeated' : Prop} (h : Counts n shown repeated)
    (h' : Counts m shown' repeated') (hdisjoint : shown → ¬ shown') (hshown : repeated → shown)
    (hshown' : repeated' → shown') : Counts (n + m) (shown ∨ shown') (repeated ∨ repeated') := by
  by_cases hs : shown
  · have hs' := hdisjoint hs
    have hm := h'.zero hs'
    have hr' : ¬ repeated' := fun hr => hs' (hshown' hr)
    have hn := h.pos hs
    have hone := h.one_iff hs
    refine ⟨fun hnone => absurd (.inl hs) hnone, fun _ => by omega, ?_⟩
    intro _
    rw [hm, Nat.add_zero, hone]
    simp [hr']
  · have hn := h.zero hs
    have hr : ¬ repeated := fun hr => hs (hshown hr)
    rw [hn, Nat.zero_add]
    exact h'.congr (by simp [hs]) (by simp [hr])

theorem BlockKind.nodup_inputs (kind : BlockKind) : kind.inputs.Nodup := by
  cases kind with
  | custom => exact .nil
  | _ => decide

/-- What is plugged into two inputs shares no block. -/
theorem Sockets.find_disjoint {sockets : Sockets} (hnodup : sockets.ids.Nodup) {input other : String}
    (hne : input ≠ other) {id : BlockId} (hid : id ∈ (sockets.find input).ids) :
    id ∉ (sockets.find other).ids := by
  induction sockets with
  | nil => simp [find]
  | cons name stack rest ih =>
    rw [ids, List.nodup_append] at hnodup
    rcases hnodup with ⟨-, hrest, hdisjoint⟩
    rw [find] at hid ⊢
    intro hother
    by_cases hinput : input = name
    · have hname : other ≠ name := fun h => hne (hinput.trans h.symm)
      rw [if_pos hinput] at hid
      rw [if_neg hname] at hother
      exact hdisjoint id hid id ((rest.ids_find_sublist other).subset hother) rfl
    · rw [if_neg hinput] at hid
      split_ifs at hother
      · exact hdisjoint id hother id ((rest.ids_find_sublist input).subset hid) rfl
      · exact ih hrest hid hother

section

variable {v id : BlockId} {block : Block} {sockets : Sockets} {rest stack : Stack}

/-- The inputs of a block, of which at most one shows the block that is looked for. -/
theorem counts_inputs (hnodup : sockets.ids.Nodup)
    (hcounts : ∀ input, Counts (Tally.chain false ((sockets.find input).tallies v))
      ((sockets.find input).Shows v) ((sockets.find input).Repeats v false))
    {inputs : List String} (hinputs : inputs.Nodup) :
    Counts (inputs.map fun input => Tally.chain false (sockets.read (Block.tally v) input)).sum
      (∃ input ∈ inputs, (sockets.find input).Shows v)
      (∃ input ∈ inputs, (sockets.find input).Repeats v false) := by
  induction inputs with
  | nil => exact .none (by simp)
  | cons input inputs ih =>
    obtain ⟨hinput, hrest⟩ := List.nodup_cons.1 hinputs
    rw [List.map_cons, List.sum_cons, Sockets.read_eq]
    refine ((hcounts input).add (ih hrest) ?_ Stack.Repeats.shows ?_).congr (by simp) (by simp)
    · rintro hshows ⟨other, hother, hshows'⟩
      have hne : input ≠ other := by
        rintro rfl
        exact hinput hother
      exact Sockets.find_disjoint hnodup hne hshows.mem_ids hshows'.mem_ids
    · rintro ⟨other, hother, hrepeats⟩
      exact ⟨other, hother, hrepeats.shows⟩

/-- The own code of a block holds the block that is looked for once, or through one of its inputs. -/
theorem counts_part (hid : id ∉ sockets.ids) (hnodup : sockets.ids.Nodup)
    (hcounts : ∀ input, Counts (Tally.chain false ((sockets.find input).tallies v))
      ((sockets.find input).Shows v) ((sockets.find input).Repeats v false)) :
    Counts (block.tally v id (sockets.read (Block.tally v))).part (Stack.PartShows v id block sockets)
      (∃ input ∈ block.kind.inputs, (sockets.find input).Repeats v false) := by
  have hself : Counts (if id = v then 1 else 0) (id = v) False := by
    by_cases hv : id = v
    · rw [if_pos hv]
      exact ⟨fun h => absurd hv h, fun _ => Nat.le_refl _, fun _ => by simp⟩
    · rw [if_neg hv]
      exact .none hv
  refine (hself.add (counts_inputs hnodup hcounts block.kind.nodup_inputs) ?_ False.elim ?_).congr
    Iff.rfl (by simp)
  · rintro rfl ⟨input, -, hshows⟩
    exact hid ((sockets.ids_find_sublist input).subset hshows.mem_ids)
  · rintro ⟨input, hinput, hrepeats⟩
    exact ⟨input, hinput, hrepeats.shows⟩

/-- What is known of the counts of a stack. After a call the first block is written twice, in the call
and by itself, where its parameters are spent. -/
structure Stack.Counted (v : BlockId) (stack : Stack) : Prop where
  chain : Counts (Tally.chain false (stack.tallies v)) (stack.Shows v) (stack.Repeats v false)
  afterCall : Counts (Tally.own false (stack.tallies v) + Tally.chain true (stack.tallies v))
    (stack.Shows v) (stack.Repeats v true)
  spent : 1 ≤ Tally.own true (stack.tallies v) → stack.Repeats v true

theorem Stack.tallies_cons (v : BlockId) (id : BlockId) (block : Block) (sockets : Sockets)
    (rest : Stack) :
    (Stack.cons id block sockets rest).tallies v =
      block.tally v id (sockets.read (Block.tally v)) :: rest.tallies v := by
  rw [tallies, read_cons, tallies]

/-- Two counts, the first of which is taken twice. -/
theorem Counts.double {part n : Nat} {shown shown' repeated repeated' : Prop}
    (h : Counts part shown repeated) (h' : Counts n shown' repeated') (hdisjoint : shown → ¬ shown') :
    Counts (part + (part + n)) (shown ∨ shown') (shown ∨ repeated') := by
  by_cases hs : shown
  · have hn := h'.zero (hdisjoint hs)
    have hpart := h.pos hs
    refine ⟨fun hnone => absurd (.inl hs) hnone, fun _ => by omega, ?_⟩
    intro _
    constructor
    · intro hone
      omega
    · exact fun hnone => absurd (.inl hs) hnone
  · rw [h.zero hs, Nat.zero_add, Nat.zero_add]
    exact h'.congr (by simp [hs]) (by simp [hs])

theorem Counts.shown_of_pos {n : Nat} {shown repeated : Prop} (h : Counts n shown repeated)
    (hpos : 1 ≤ n) : shown := by
  by_contra hnone
  rw [h.zero hnone] at hpos
  cases hpos

/-- A run of calls that is written once more with its parameters spent. -/
theorem Stack.Counted.run (h : stack.Counted v) :
    Counts (Tally.own false (stack.tallies v) + Tally.chain true (stack.tallies v) +
      Tally.own true (stack.tallies v)) (stack.Shows v) (stack.Repeats v true) := by
  by_cases hspent : 1 ≤ Tally.own true (stack.tallies v)
  · have hrepeats := h.spent hspent
    have hpos := h.afterCall.pos hrepeats.shows
    refine ⟨fun hnone => absurd hrepeats.shows hnone, fun _ => by omega, ?_⟩
    intro _
    constructor
    · intro hone
      omega
    · exact fun hnone => absurd hrepeats hnone
  · have hzero : Tally.own true (stack.tallies v) = 0 := by omega
    rw [hzero]
    exact h.afterCall

section Cons

variable {one : Tally} (hkind : one.kind = block.kind)
  (htallies : (Stack.cons id block sockets rest).tallies v = one :: rest.tallies v)
  (hpart : Counts one.part (Stack.PartShows v id block sockets)
    (∃ input ∈ block.kind.inputs, (sockets.find input).Repeats v false))
  (hrest : rest.Counted v) (hdisjoint : Stack.PartShows v id block sockets → ¬ rest.Shows v)

include hkind htallies hpart hrest hdisjoint

/-- A call before a stack, with which the stack is written once more. -/
theorem Stack.Counted.cons_call (hcall : block.kind = .functionCall) :
    (Stack.cons id block sockets rest).Counted v := by
  have hown (spent : Bool) : Tally.own spent (one :: rest.tallies v) =
      one.part + Tally.own spent (rest.tallies v) := by
    simp [Tally.own, hkind, hcall]
  refine ⟨?_, ?_, ?_⟩
  · rw [htallies, Tally.chain, hown, hkind, hcall, Nat.add_assoc]
    refine (hpart.add hrest.afterCall hdisjoint ?_ Repeats.shows).congr shows_cons_iff.symm ?_
    · rintro ⟨input, hinput, h⟩
      exact .inr ⟨input, hinput, h.shows⟩
    · simp [repeats_cons_iff, hcall]
  · have hcount : Tally.own false (one :: rest.tallies v) + Tally.chain true (one :: rest.tallies v) =
        one.part + (one.part + (Tally.own false (rest.tallies v) + Tally.chain true (rest.tallies v) +
          Tally.own true (rest.tallies v))) := by
      rw [Tally.chain, hown, hown, hkind, decide_eq_true hcall]
      omega
    rw [htallies, hcount]
    refine (hpart.double hrest.run hdisjoint).congr shows_cons_iff.symm ?_
    rw [repeats_after_call (by simp [hcall]), decide_eq_true hcall]
  · rw [htallies, hown]
    intro hpos
    rw [repeats_cons_iff, hcall]
    by_cases hrun : 1 ≤ Tally.own true (rest.tallies v)
    · exact .inr (.inr (hrest.spent hrun))
    · exact .inl ⟨rfl, by decide, hpart.shown_of_pos (by omega)⟩

/-- Another block before a stack. -/
theorem Stack.Counted.cons_other (hcall : block.kind ≠ .functionCall) :
    (Stack.cons id block sockets rest).Counted v := by
  have hchain := hpart.add hrest.chain hdisjoint
    (fun ⟨input, hinput, h⟩ => .inr ⟨input, hinput, h.shows⟩) Repeats.shows
  have hown : Tally.own false (one :: rest.tallies v) = one.part := by
    simp [Tally.own, hkind, hcall]
  refine ⟨?_, ?_, ?_⟩
  · rw [htallies, Tally.chain, hown, hkind, decide_eq_false hcall]
    refine hchain.congr shows_cons_iff.symm ?_
    simp [repeats_cons_iff, hcall]
  · rw [htallies, Tally.chain, hown, hkind, decide_eq_false hcall]
    by_cases hparams : block.kind = .functionParams
    · rw [Tally.own, hkind, if_pos ⟨rfl, hparams⟩, Nat.zero_add]
      refine hchain.congr shows_cons_iff.symm ?_
      simp [repeats_cons_iff, hparams]
    · rw [Tally.own, hkind, if_neg fun h => hparams h.2, if_neg hcall, Nat.add_zero]
      refine (hpart.double hrest.chain hdisjoint).congr shows_cons_iff.symm ?_
      rw [repeats_after_call hparams, decide_eq_false hcall]
  · rw [htallies, Tally.own, hkind, if_neg hcall, Nat.add_zero]
    intro hpos
    split_ifs at hpos with hparams
    · cases hpos
    · exact .here (fun h => hparams ⟨rfl, h⟩) (hpart.shown_of_pos hpos)

end Cons

/-- A block of a stack is written once, unless it comes after a call and is no part of parameters. -/
theorem Stack.counted (hnodup : stack.ids.Nodup) : stack.Counted v := by
  induction stack using Stack.deep_induction with
  | nil =>
    have hnil : ¬ Stack.nil.Shows v := fun h => by cases h
    refine ⟨?_, ?_, ?_⟩
    all_goals rw [Stack.tallies, Stack.read_nil]
    · exact .none hnil
    · exact .none hnil
    · exact fun h => by cases h
  | cons id block sockets rest ihsockets ihrest =>
    obtain ⟨hid, hself, hsockets, hrest, hdisjoint⟩ := Stack.nodup_cons hnodup
    have hinputs (input : String) := ihsockets input (hsockets.sublist (sockets.ids_find_sublist input))
    have hpart : Counts (block.tally v id (sockets.read (Block.tally v))).part
        (PartShows v id block sockets)
        (∃ input ∈ block.kind.inputs, (sockets.find input).Repeats v false) :=
      counts_part hid hsockets fun input => (hinputs input).chain
    have htallies := Stack.tallies_cons v id block sockets rest
    have hnotBoth : PartShows v id block sockets → ¬ rest.Shows v := by
      rintro (rfl | ⟨input, -, hshows⟩) hshows'
      · exact hself hshows'.mem_ids
      · exact hdisjoint v ((sockets.ids_find_sublist input).subset hshows.mem_ids) hshows'.mem_ids
    by_cases hcall : block.kind = .functionCall
    · exact .cons_call rfl htallies hpart (ihrest hrest) hnotBoth hcall
    · exact .cons_other rfl htallies hpart (ihrest hrest) hnotBoth hcall

end

/-! ### Stacks of a workspace -/

namespace Workspace

open Relation (ReflTransGen)

/-- Rendering comes to a block. -/
def Reached (ws : Workspace) (v : BlockId) : Prop :=
  ∃ top ∈ ws.top, ReflTransGen ws.Link top v

/-- A block is a part of the own code of another, which does not hold the blocks after that one. -/
def PartOf (ws : Workspace) (v a : BlockId) : Prop :=
  a = v ∨ ∃ child, ws.Plugs a child ∧ ReflTransGen ws.Link child v

/-- A block is a part of one that comes after a call and holds no parameters. -/
def Repeated (ws : Workspace) (v : BlockId) : Prop :=
  ∃ call next callBlock nextBlock, ws.Reached call ∧ ws.get? call = some callBlock ∧
    callBlock.kind = .functionCall ∧ callBlock.next = some next ∧ ws.get? next = some nextBlock ∧
    nextBlock.kind ≠ .functionParams ∧ ws.PartOf v next

theorem Reached.link {ws : Workspace} {a b : BlockId} (h : ws.Reached a) (hlink : ws.Link a b) :
    ws.Reached b := by
  rcases h with ⟨top, htop, hreach⟩
  exact ⟨top, htop, hreach.tail hlink⟩

end Workspace

namespace Stack

open Relation (ReflTransGen)

variable {ws : Workspace} {v a b id : BlockId} {block : Block} {sockets : Sockets} {rest stack : Stack}
  {input : String}

/-- Following a link from the first block of a stack leads to the stack in an input, or to the rest. -/
theorem At.link (h : stack.At ws (some a)) (hlink : ws.Link a b) :
    ∃ block sockets rest, stack = cons a block sockets rest ∧ ((∃ input ∈ block.kind.inputs,
      (sockets.find input).At ws (some b)) ∨ (block.next = some b ∧ rest.At ws (some b))) := by
  cases stack with
  | nil => cases h
  | cons id block sockets rest =>
    rcases h with ⟨heq, hget, hsockets, hrest⟩
    cases heq
    refine ⟨block, sockets, rest, rfl, ?_⟩
    rcases hlink with ⟨other, hother, input, hinput, hb⟩ | ⟨other, hother, hb⟩
    · rw [hget] at hother
      cases hother
      have hfind := hsockets.find input
      rw [← Block.input?, hb] at hfind
      exact .inl ⟨input, hinput, hfind⟩
    · rw [hget] at hother
      cases hother
      rw [hb] at hrest
      exact .inr ⟨hb, hrest⟩

theorem shows_of_reaches (h : stack.At ws (some a)) (hreach : ReflTransGen ws.Link a v) :
    stack.Shows v := by
  induction hreach using ReflTransGen.head_induction_on generalizing stack with
  | refl =>
    cases stack with
    | nil => cases h
    | cons id block sockets rest =>
      cases h.1
      exact .here
  | head hlink _ ih =>
    obtain ⟨block, sockets, rest, rfl, ⟨input, hinput, hfind⟩ | ⟨-, hrest⟩⟩ := h.link hlink
    · exact .input hinput (ih hfind)
    · exact .next (ih hrest)

theorem Shows.exists_first {first? : Option BlockId} (hshows : stack.Shows v)
    (h : stack.At ws first?) : ∃ a, first? = some a := by
  cases stack with
  | nil => cases hshows
  | cons id => exact ⟨id, h.1⟩

/-- The stack in an input of a block, if it shows anything, starts with a block that is plugged in. -/
theorem At.exists_plugged (h : (cons id block sockets rest).At ws (some id))
    (hinput : input ∈ block.kind.inputs) (hshows : (sockets.find input).Shows v) :
    ∃ child, ws.Plugs id child ∧ (sockets.find input).At ws (some child) := by
  have hfind := h.2.2.1.find input
  obtain ⟨child, hchild⟩ := hshows.exists_first hfind
  rw [hchild] at hfind
  exact ⟨child, ⟨block, h.2.1, input, hinput, hchild⟩, hfind⟩

/-- The rest of a stack, if it shows anything, starts with the next block. -/
theorem At.exists_next (h : (cons id block sockets rest).At ws (some id)) (hshows : rest.Shows v) :
    ∃ next, block.next = some next ∧ rest.At ws (some next) := by
  obtain ⟨next, hnext⟩ := hshows.exists_first h.2.2.2
  exact ⟨next, hnext, hnext ▸ h.2.2.2⟩

theorem reaches_of_shows (hshows : stack.Shows v) (h : stack.At ws (some a)) :
    ReflTransGen ws.Link a v := by
  induction hshows generalizing a with
  | here =>
    cases h.1
    exact .refl
  | input hinput hshows ih =>
    cases h.1
    obtain ⟨child, hplugs, hchild⟩ := h.exists_plugged hinput hshows
    exact .head (.inl hplugs) (ih hchild)
  | next hshows ih =>
    cases h.1
    obtain ⟨next, hnext, hrest⟩ := h.exists_next hshows
    exact .head (.inr ⟨_, h.2.1, hnext⟩) (ih hrest)

theorem partOf_iff_partShows (h : (cons id block sockets rest).At ws (some id)) :
    ws.PartOf v id ↔ PartShows v id block sockets := by
  constructor
  · rintro (rfl | ⟨child, ⟨other, hother, input, hinput, hchild⟩, hreach⟩)
    · exact .inl rfl
    · rw [h.2.1] at hother
      cases hother
      have hfind := h.2.2.1.find input
      rw [← Block.input?, hchild] at hfind
      exact .inr ⟨input, hinput, shows_of_reaches hfind hreach⟩
  · rintro (rfl | ⟨input, hinput, hshows⟩)
    · exact .inl rfl
    · obtain ⟨child, hplugs, hchild⟩ := h.exists_plugged hinput hshows
      exact .inr ⟨child, hplugs, reaches_of_shows hshows hchild⟩

/-- A block that comes after a call within reach of a stack makes the stack repeat what is part of it. -/
theorem repeats_of_after_call {call next : BlockId} {callBlock nextBlock : Block}
    (h : stack.At ws (some a)) (hreach : ReflTransGen ws.Link a call)
    (hcall : ws.get? call = some callBlock) (hkind : callBlock.kind = .functionCall)
    (hnext : callBlock.next = some next) (hget : ws.get? next = some nextBlock)
    (hparams : nextBlock.kind ≠ .functionParams) (hpart : ws.PartOf v next) (afterCall : Bool) :
    stack.Repeats v afterCall := by
  induction hreach using ReflTransGen.head_induction_on generalizing stack afterCall with
  | refl =>
    cases stack with
    | nil => cases h
    | cons id block sockets rest =>
      rcases h with ⟨heq, hblock, -, hrest⟩
      cases heq
      rw [hcall] at hblock
      cases hblock
      rw [hnext] at hrest
      refine .next ?_
      rw [decide_eq_true hkind]
      cases rest with
      | nil => cases hrest
      | cons other block sockets more =>
        have hother := hrest
        rcases hrest with ⟨heq, hblock, -⟩
        cases heq
        rw [hget] at hblock
        cases hblock
        exact .here hparams ((partOf_iff_partShows hother).1 hpart)
  | head hlink _ ih =>
    obtain ⟨block, sockets, rest, rfl, ⟨input, hinput, hfind⟩ | ⟨-, hrest⟩⟩ := h.link hlink
    · exact .input hinput (ih hfind false)
    · exact .next (ih hrest _)

/-- What a stack repeats is part of a block that comes after a call. -/
theorem repeated_of_repeats {afterCall : Bool} (hrepeats : stack.Repeats v afterCall)
    (h : stack.At ws (some a)) (hreached : ws.Reached a)
    (hcall : afterCall = true → ∃ call callBlock, ws.Reached call ∧ ws.get? call = some callBlock ∧
      callBlock.kind = .functionCall ∧ callBlock.next = some a) : ws.Repeated v := by
  induction hrepeats generalizing a with
  | here hkind hshows =>
    cases h.1
    obtain ⟨call, callBlock, hreached', hget, hcallKind, hnext⟩ := hcall rfl
    exact ⟨call, _, callBlock, _, hreached', hget, hcallKind, hnext, h.2.1, hkind,
      (partOf_iff_partShows h).2 hshows⟩
  | input hinput hrepeats ih =>
    cases h.1
    obtain ⟨child, hplugs, hchild⟩ := h.exists_plugged hinput hrepeats.shows
    exact ih hchild (hreached.link (.inl hplugs)) fun hfalse => by cases hfalse
  | next hrepeats ih =>
    cases h.1
    obtain ⟨next, hnext, hrest⟩ := h.exists_next hrepeats.shows
    refine ih hrest (hreached.link (.inr ⟨_, h.2.1, hnext⟩)) ?_
    intro htrue
    exact ⟨_, _, hreached, h.2.1, of_decide_eq_true htrue, hnext⟩

end Stack

/-! ### Forests -/

/-- How often the texts of stacks hold a block. -/
def Stack.copies (v : BlockId) (forest : List Stack) : Nat :=
  (forest.map fun stack => Tally.chain false (stack.tallies v)).sum

theorem Stack.counts_copies {v : BlockId} {forest : List Stack}
    (hnodup : (forest.flatMap Stack.ids).Nodup) :
    Counts (copies v forest) (∃ stack ∈ forest, stack.Shows v)
      (∃ stack ∈ forest, stack.Repeats v false) := by
  induction forest with
  | nil => exact .none (by simp)
  | cons stack rest ih =>
    rw [List.flatMap_cons, List.nodup_append] at hnodup
    rcases hnodup with ⟨hstack, hrest, hdisjoint⟩
    rw [copies, List.map_cons, List.sum_cons]
    refine ((Stack.counted hstack).chain.add (ih hrest) ?_ Repeats.shows ?_).congr (by simp) (by simp)
    · rintro hshows ⟨other, hother, hshows'⟩
      exact hdisjoint v hshows.mem_ids v (List.mem_flatMap.2 ⟨other, hother, hshows'.mem_ids⟩) rfl
    · rintro ⟨other, hother, hrepeats⟩
      exact ⟨other, hother, hrepeats.shows⟩

theorem exists_of_forall₂ {α β : Type} {R : α → β → Prop} {as : List α} {bs : List β}
    (h : List.Forall₂ R as bs) {a : α} (ha : a ∈ as) : ∃ b ∈ bs, R a b := by
  induction h with
  | nil => cases ha
  | cons hab _ ih =>
    rcases List.mem_cons.1 ha with rfl | ha
    · exact ⟨_, List.mem_cons_self .., hab⟩
    · obtain ⟨b, hb, hab⟩ := ih ha
      exact ⟨b, List.mem_cons_of_mem _ hb, hab⟩

/-- A block within reach of the canvas of a forest is written, and once unless it is part of a block that
comes after a call and holds no parameters. -/
theorem Workspace.Forest.counts_copies {ws : Workspace} {tops : List BlockId} {forest : List Stack}
    (hforest : ws.Forest tops forest) (htops : ∀ top, top ∈ tops ↔ top ∈ ws.top) {v : BlockId}
    (hreached : ws.Reached v) : Counts (Stack.copies v forest) True (ws.Repeated v) := by
  have hshown : ∃ stack ∈ forest, stack.Shows v := by
    rcases hreached with ⟨top, htop, hreach⟩
    obtain ⟨stack, hstack, hat⟩ := exists_of_forall₂ hforest.at_eq ((htops top).2 htop)
    exact ⟨stack, hstack, Stack.shows_of_reaches hat hreach⟩
  refine (Stack.counts_copies hforest.nodup).congr (iff_true_intro hshown) ?_
  constructor
  · rintro ⟨stack, hstack, hrepeats⟩
    obtain ⟨top, htop, hat⟩ := exists_of_forall₂ hforest.at_eq.flip hstack
    exact Stack.repeated_of_repeats hrepeats hat ⟨top, (htops top).1 htop, .refl⟩ fun h => by cases h
  · rintro ⟨call, next, callBlock, nextBlock, ⟨top, htop, hreach⟩, hcall, hkind, hnext, hget,
      hparams, hpart⟩
    obtain ⟨stack, hstack, hat⟩ := exists_of_forall₂ hforest.at_eq ((htops top).2 htop)
    refine ⟨stack, hstack, ?_⟩
    exact Stack.repeats_of_after_call hat hreach hcall hkind hnext hget hparams hpart false

end BlockProgram
