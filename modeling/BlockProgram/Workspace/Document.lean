import BlockProgram.Json.Basic
import BlockProgram.Json.Printer
import BlockProgram.Workspace.Basic

/-!
Saved workspaces. A document holds a forest of block nodes: a chain is a block with those after it,
and each input of a block holds a chain. `Document.ofJson?` reads the forest off a JSON value and
checks nothing but that there is a list of top-level nodes; a node that is no object has no type, no
fields and no inputs.

Fields hold text: strings, numbers and booleans as written, and for an object its `name`, or its `id`
when it has no `name`. A field of any other value is left out. An input holds its `block`, or its
`shadow` when it has no `block`.
-/

namespace BlockProgram

/-- What a node says about its own block. -/
structure NodeLabel where
  type? : Option String
  id? : Option String
  fields : List (String × String)
  deriving DecidableEq, Repr

mutual

/-- A block node. -/
inductive Node where
  | mk (label : NodeLabel) (inputs : Inputs)

/-- A node and the nodes after it. -/
inductive Chain where
  | last (node : Node)
  | link (node : Node) (rest : Chain)

/-- The filled inputs of a node, in the order of their names. -/
inductive Inputs where
  | nil
  | cons (name : String) (chain : Chain) (rest : Inputs)

end

/-- A chain on the canvas. -/
structure Entry where
  chain : Chain
  position : Position

/-- A saved workspace. -/
structure Document where
  entries : List Entry

/-! ### Labels -/

/-- The text of a field's value. -/
def fieldText? : Json → Option String
  | .string s => some s
  | .number n => some (Json.numberText n)
  | .bool b => some (if b then "true" else "false")
  | .object ms => ((ms.lookup "name").or (ms.lookup "id")).bind Json.string?
  | _ => none

/-- The fields of a node that have a text. -/
def fieldsOf (node : Json) : List (String × String) :=
  ((node.member? "fields").elim [] Json.members).filterMap fun entry =>
    (fieldText? entry.2).map fun text => (entry.1, text)

def NodeLabel.ofJson (node : Json) : NodeLabel where
  type? := (node.member? "type").bind Json.string?
  id? := (node.member? "id").bind Json.string?
  fields := fieldsOf node

/-- Where a node lies; a missing coordinate is zero. -/
def Position.ofJson (node : Json) : Position where
  x := ((node.member? "x").bind Json.double?).getD .zero
  y := ((node.member? "y").bind Json.double?).getD .zero

/-! ### Links -/

/-- The node after a node. -/
def nextNode? (node : Json) : Option Json :=
  (node.member? "next").bind (·.member? "block")

/-- The node in an input. -/
def inputNode? (input : Json) : Option Json :=
  (input.member? "block").or (input.member? "shadow")

/-- The members that describe the inputs of a node. -/
def inputMembers (node : Json) : List (String × Json) :=
  (node.member? "inputs").elim [] Json.members

theorem sizeOf_nextNode?_lt {node next : Json} (h : nextNode? node = some next) :
    sizeOf next < sizeOf node := by
  obtain ⟨link, hlink, hnext⟩ := Option.bind_eq_some_iff.1 h
  exact Nat.lt_trans (Json.sizeOf_member?_lt hnext) (Json.sizeOf_member?_lt hlink)

theorem sizeOf_inputNode?_lt {input node : Json} (h : inputNode? input = some node) :
    sizeOf node < sizeOf input := by
  rcases Option.or_eq_some_iff.1 h with h | ⟨-, h⟩ <;> exact Json.sizeOf_member?_lt h

theorem sizeOf_inputMembers_le (node : Json) : sizeOf (inputMembers node) ≤ sizeOf node := by
  unfold inputMembers
  cases h : node.member? "inputs" with
  | none => cases node <;> simp
  | some inputs =>
    exact Nat.le_of_lt (Nat.lt_of_le_of_lt (Json.sizeOf_members_le inputs) (Json.sizeOf_member?_lt h))

/-! ### The forest -/

mutual

/-- The chain that starts at a node. -/
def Chain.ofJson (node : Json) : Chain :=
  let first := Node.mk (.ofJson node) (Inputs.ofMembers (inputMembers node))
  match _h : nextNode? node with
  | none => .last first
  | some next => .link first (Chain.ofJson next)
termination_by 2 * sizeOf node + 1
decreasing_by
  · have := sizeOf_inputMembers_le node
    omega
  · have := sizeOf_nextNode?_lt _h
    omega

/-- The inputs that hold a node. -/
def Inputs.ofMembers : List (String × Json) → Inputs
  | [] => .nil
  | (name, input) :: rest =>
    match _h : inputNode? input with
    | none => Inputs.ofMembers rest
    | some node => .cons name (Chain.ofJson node) (Inputs.ofMembers rest)
termination_by members => 2 * sizeOf members
decreasing_by
  all_goals simp only [List.cons.sizeOf_spec, Prod.mk.sizeOf_spec]
  · omega
  · have := sizeOf_inputNode?_lt _h
    omega
  · omega

end

/-- The forest of a saved workspace. Without a member `blocks` it is empty; with one, `blocks.blocks`
must be an array. -/
def Document.ofJson? (value : Json) : Option Document :=
  match value.member? "blocks" with
  | none => some ⟨[]⟩
  | some blocks =>
    ((blocks.member? "blocks").bind Json.array?).map fun nodes =>
      ⟨nodes.map fun node => ⟨Chain.ofJson node, Position.ofJson node⟩⟩

end BlockProgram
