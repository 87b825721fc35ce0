import BlockProgram.Workspace.Chain
import Mathlib

/-!
Stacks of blocks. A stack is a chain of blocks with all that is plugged into them, cut out of a
workspace: it holds its blocks, so nothing has to be looked up to read it, and it is finite, so it can be
read by recursion. `Stack.At` says that a workspace holds a stack.
-/

namespace BlockProgram

mutual

/-- A block with what is plugged into it, and the blocks after it. -/
inductive Stack where
  | nil
  | cons (id : BlockId) (block : Block) (sockets : Sockets) (rest : Stack)

/-- The stacks in the inputs of a block, in the order of the names of the inputs. -/
inductive Sockets where
  | nil
  | cons (name : String) (stack : Stack) (rest : Sockets)

end

/-! ### Blocks of a stack -/

mutual

/-- The ids of the blocks of a stack, each before those of the blocks that are plugged into it. -/
def Stack.ids : Stack → List BlockId
  | .nil => []
  | .cons id _ sockets rest => id :: (sockets.ids ++ rest.ids)

def Sockets.ids : Sockets → List BlockId
  | .nil => []
  | .cons _ stack rest => stack.ids ++ rest.ids

end

/-- The ids of the blocks of the chain alone. -/
def Stack.spine : Stack → List BlockId
  | .nil => []
  | .cons id _ _ rest => id :: rest.spine

/-- What is plugged into an input; nothing if the input is empty. -/
def Sockets.find (input : String) : Sockets → Stack
  | .nil => .nil
  | .cons name stack rest => if input = name then stack else find input rest

/-- The sockets with a stack plugged into one of them, in place of what was plugged in there. -/
def Sockets.insert (name : String) (stack : Stack) : Sockets → Sockets
  | .nil => .cons name stack .nil
  | .cons other found rest =>
    if name < other then .cons name stack (.cons other found rest)
    else if name = other then .cons name stack rest
    else .cons other found (insert name stack rest)

attribute [simp] Stack.ids Sockets.ids Stack.spine

/-! ### Reading a stack -/

mutual

/-- Reads a stack block by block, each from what is read in its inputs. -/
def Stack.read {α : Type} (one : BlockId → Block → (String → List α) → α) : Stack → List α
  | .nil => []
  | .cons id block sockets rest => one id block (sockets.read one) :: rest.read one

/-- Reads the stack in an input. -/
def Sockets.read {α : Type} (one : BlockId → Block → (String → List α) → α) : Sockets → String → List α
  | .nil, _ => []
  | .cons name stack rest, input => if input = name then stack.read one else rest.read one input

end

section

variable {α : Type} (one : BlockId → Block → (String → List α) → α)

@[simp]
theorem Stack.read_nil : Stack.nil.read one = [] := by
  rw [read]

@[simp]
theorem Stack.read_cons (id : BlockId) (block : Block) (sockets : Sockets) (rest : Stack) :
    (Stack.cons id block sockets rest).read one =
      one id block (sockets.read one) :: rest.read one := by
  rw [read]

end

/-! ### Induction -/

/-- Sockets are a list of stacks, if one does not look into the stacks. -/
@[elab_as_elim, induction_eliminator]
theorem Sockets.list_induction {motive : Sockets → Prop} (nil : motive .nil)
    (cons : ∀ name stack rest, motive rest → motive (.cons name stack rest)) :
    ∀ sockets, motive sockets
  | .nil => nil
  | .cons name stack rest => cons name stack rest (list_induction nil cons rest)

/-- A stack is a list of blocks, if one does not look into the blocks. -/
@[elab_as_elim, induction_eliminator]
theorem Stack.list_induction {motive : Stack → Prop} (nil : motive .nil)
    (cons : ∀ id block sockets rest, motive rest → motive (.cons id block sockets rest)) :
    ∀ stack, motive stack
  | .nil => nil
  | .cons id block sockets rest => cons id block sockets rest (list_induction nil cons rest)

mutual

/-- What holds of a stack if it holds of the stacks in the inputs of its first block, and of the rest. -/
@[elab_as_elim]
theorem Stack.deep_induction {motive : Stack → Prop} (nil : motive .nil)
    (cons : ∀ id block sockets rest, (∀ input, motive (Sockets.find input sockets)) → motive rest →
      motive (.cons id block sockets rest)) (stack : Stack) : motive stack := by
  match stack with
  | .nil => exact nil
  | .cons id block sockets rest =>
    exact cons id block sockets rest (Sockets.find_induction nil cons sockets)
      (Stack.deep_induction nil cons rest)

/-- What holds of stacks holds of every stack in an input. -/
theorem Sockets.find_induction {motive : Stack → Prop} (nil : motive .nil)
    (cons : ∀ id block sockets rest, (∀ input, motive (Sockets.find input sockets)) → motive rest →
      motive (.cons id block sockets rest)) (sockets : Sockets) (input : String) :
    motive (sockets.find input) := by
  match sockets with
  | .nil => exact nil
  | .cons name stack rest =>
    rw [Sockets.find]
    split
    · exact Stack.deep_induction nil cons stack
    · exact Sockets.find_induction nil cons rest input

end

/-- Reading an input is reading the stack in it. -/
theorem Sockets.read_eq {α : Type} (one : BlockId → Block → (String → List α) → α) (sockets : Sockets)
    (input : String) : sockets.read one input = (sockets.find input).read one := by
  induction sockets with
  | nil => rw [read, find, Stack.read]
  | cons name stack rest ih =>
    rw [read, find, ih]
    split <;> rfl

theorem Stack.spine_sublist (stack : Stack) : stack.spine.Sublist stack.ids := by
  induction stack with
  | nil => simp
  | cons id block sockets rest ih =>
    simp only [spine, ids]
    exact (ih.trans (List.sublist_append_right ..)).cons_cons id

theorem Stack.nodup_cons {id : BlockId} {block : Block} {plugged : Sockets} {rest : Stack}
    (h : (Stack.cons id block plugged rest).ids.Nodup) :
    id ∉ plugged.ids ∧ id ∉ rest.ids ∧ plugged.ids.Nodup ∧ rest.ids.Nodup ∧
      ∀ other ∈ plugged.ids, other ∉ rest.ids := by
  rw [Stack.ids, List.nodup_cons, List.mem_append, not_or, List.nodup_append] at h
  rcases h with ⟨⟨hplugged, hrest⟩, hnodupPlugged, hnodupRest, hdisjoint⟩
  exact ⟨hplugged, hrest, hnodupPlugged, hnodupRest,
    fun other hother hother' => hdisjoint other hother other hother' rfl⟩

theorem Sockets.ids_find_sublist (input : String) (sockets : Sockets) :
    (sockets.find input).ids.Sublist sockets.ids := by
  induction sockets with
  | nil => simp [find]
  | cons name stack rest ih =>
    rw [find, ids]
    split
    · exact List.sublist_append_left ..
    · exact ih.trans (List.sublist_append_right ..)

/-- Plugging in a stack adds its blocks, and no others. -/
theorem Sockets.ids_insert_subperm (name : String) (stack : Stack) (sockets : Sockets) :
    (sockets.insert name stack).ids.Subperm (stack.ids ++ sockets.ids) := by
  induction sockets with
  | nil =>
    rw [insert]
    exact List.Subperm.refl _
  | cons other found rest ih =>
    rw [insert]
    split_ifs
    · exact List.Subperm.refl _
    · exact ((List.sublist_append_right ..).append_left _).subperm
    · have hswap : (found.ids ++ (stack.ids ++ rest.ids)).Perm
          (stack.ids ++ (Sockets.cons other found rest).ids) := by
        simp only [Sockets.ids, ← List.append_assoc]
        exact List.perm_append_comm.append_right _
      rw [Sockets.ids]
      exact (((List.subperm_append_left _).2 ih)).trans hswap.subperm

/-! ### Stacks of a workspace -/

mutual

/-- The chain that starts at a block, if there is one, is the stack. -/
def Stack.At (ws : Workspace) (first? : Option BlockId) : Stack → Prop
  | .nil => first? = none
  | .cons id block sockets rest =>
    first? = some id ∧ ws.get? id = some block ∧ sockets.At ws block.inputs ∧ rest.At ws block.next

/-- What is plugged into the inputs of a table are the stacks of the sockets. -/
def Sockets.At (ws : Workspace) (inputs : Table BlockId) : Sockets → Prop
  | .nil => inputs = []
  | .cons name stack rest =>
    ∃ id others, inputs = (name, id) :: others ∧ stack.At ws (some id) ∧ rest.At ws others

end

variable {ws ws' : Workspace} {first? : Option BlockId} {inputs : Table BlockId}
  {stack : Stack} {sockets : Sockets}

mutual

/-- A stack depends on nothing but its own blocks. -/
theorem Stack.At.frame {first? : Option BlockId} {stack : Stack} (h : stack.At ws first?)
    (hsame : ∀ id ∈ stack.ids, ws'.get? id = ws.get? id) : stack.At ws' first? := by
  match stack with
  | .nil => exact h
  | .cons id block sockets rest =>
    rcases h with ⟨hfirst, hget, hsockets, hrest⟩
    refine ⟨hfirst, ?_, hsockets.frame fun other hother => hsame other ?_,
      hrest.frame fun other hother => hsame other ?_⟩
    · rw [hsame id (by simp), hget]
    · simp [hother]
    · simp [hother]

theorem Sockets.At.frame {inputs : Table BlockId} {sockets : Sockets} (h : sockets.At ws inputs)
    (hsame : ∀ id ∈ sockets.ids, ws'.get? id = ws.get? id) : sockets.At ws' inputs := by
  match sockets with
  | .nil => exact h
  | .cons name stack rest =>
    rcases h with ⟨id, others, hinputs, hstack, hrest⟩
    refine ⟨id, others, hinputs, hstack.frame fun other hother => hsame other ?_,
      hrest.frame fun other hother => hsame other ?_⟩
    · simp [hother]
    · simp [hother]

end

theorem Sockets.At.find (h : sockets.At ws inputs) (input : String) :
    (sockets.find input).At ws (Table.find? input inputs) := by
  induction sockets generalizing inputs with
  | nil =>
    cases h
    rfl
  | cons name stack rest ih =>
    rcases h with ⟨id, others, rfl, hstack, hrest⟩
    rw [Sockets.find, Table.find?, List.lookup_cons]
    by_cases hinput : input = name
    · rw [if_pos hinput, beq_iff_eq.2 hinput]
      exact hstack
    · rw [if_neg hinput, beq_false_of_ne hinput]
      exact ih hrest

/-- Plugging a stack into a block is writing its first block into the table of the inputs. -/
theorem Sockets.At.insert {child : BlockId} (h : sockets.At ws inputs)
    (hstack : stack.At ws (some child)) (name : String) :
    (sockets.insert name stack).At ws (Table.insert name child inputs) := by
  induction sockets generalizing inputs with
  | nil =>
    cases h
    exact ⟨child, [], rfl, hstack, rfl⟩
  | cons other found rest ih =>
    rcases h with ⟨id, others, rfl, hfound, hrest⟩
    rw [Sockets.insert, Table.insert]
    split_ifs
    · exact ⟨child, _, rfl, hstack, id, others, rfl, hfound, hrest⟩
    · exact ⟨child, others, rfl, hstack, hrest⟩
    · exact ⟨id, _, rfl, hfound, ih hrest⟩

/-- Walking along a stack finds its blocks, and comes to an end. -/
theorem Stack.At.walk (h : stack.At ws first?) (hnodup : stack.spine.Nodup) {passed : List BlockId}
    (hpassed : ∀ id ∈ stack.spine, id ∉ passed) : ws.walk passed first? = (stack.spine, .complete) := by
  induction stack generalizing first? passed with
  | nil =>
    cases h
    rw [Workspace.walk, Stack.spine]
  | cons id block sockets rest ih =>
    rcases h with ⟨rfl, hget, -, hrest⟩
    have hid : id ∉ passed := hpassed id (by simp)
    have htail : ws.walk (id :: passed) block.next = (rest.spine, .complete) := by
      refine ih hrest hnodup.of_cons ?_
      intro other hother
      rw [List.mem_cons, not_or]
      refine ⟨fun heq => ?_, hpassed other (by simp [hother])⟩
      subst heq
      exact (List.nodup_cons.1 hnodup).1 hother
    rw [Workspace.walk]
    split
    · rename_i hnone
      rw [hget] at hnone
      cases hnone
    · rename_i other hother
      rw [hget] at hother
      cases hother
      rw [dif_neg hid, htail]
      rfl

end BlockProgram
