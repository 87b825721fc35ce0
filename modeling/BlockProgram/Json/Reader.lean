import BlockProgram.Json.Token

/-!
JSON text as a value. A second automaton runs over the tokens; it keeps the arrays and objects that
are still open on a stack, so values may nest to any depth. Of two members with one name the last
counts, and members come out in the order of their names.
-/

namespace BlockProgram
namespace Json

/-- An array or object that is still open: what it holds so far, the last one first. -/
inductive Open where
  | array (items : List Json)
  | object (members : List (String × Json)) (name : String)

/-- What may come next, under the stack of open arrays and objects. -/
inductive State where
  /-- A value, or the end of an array that was just opened. -/
  | value (stack : List Open) (fresh : Bool)
  /-- A member's name, or the end of an object that was just opened. -/
  | name (members : List (String × Json)) (stack : List Open) (fresh : Bool)
  /-- The colon after a member's name. -/
  | colon (members : List (String × Json)) (name : String) (stack : List Open)
  /-- A comma or the end of the array. -/
  | afterItem (items : List Json) (stack : List Open)
  /-- A comma or the end of the object. -/
  | afterMember (members : List (String × Json)) (stack : List Open)
  /-- Nothing more. -/
  | finished (value : Json)

namespace State

/-- The state after a whole value. -/
def complete (value : Json) : List Open → State
  | [] => finished value
  | .array items :: stack => afterItem (value :: items) stack
  | .object members key :: stack => afterMember ((key, value) :: members) stack

/-- The state after the end of an array. -/
def closeArray (items : List Json) (stack : List Open) : State :=
  complete (.array items.reverse) stack

/-- The state after the end of an object. -/
def closeObject (members : List (String × Json)) (stack : List Open) : State :=
  complete (.object (Table.ofList members.reverse)) stack

/-- One step of the automaton. -/
def step : State → Token → Option State
  | value stack _, .openArray => some (value (.array [] :: stack) true)
  | value stack _, .openObject => some (name [] stack true)
  | value stack _, .string s => some (complete (.string s) stack)
  | value stack _, .atom v => some (complete v stack)
  | value (.array items :: stack) true, .closeArray => some (closeArray items stack)
  | name members stack _, .string s => some (colon members s stack)
  | name members stack true, .closeObject => some (closeObject members stack)
  | colon members s stack, .colon => some (value (.object members s :: stack) false)
  | afterItem items stack, .comma => some (value (.array items :: stack) false)
  | afterItem items stack, .closeArray => some (closeArray items stack)
  | afterMember members stack, .comma => some (name members stack false)
  | afterMember members stack, .closeObject => some (closeObject members stack)
  | _, _ => none

end State

/-- The value that a list of tokens stands for. -/
def ofTokens? (tokens : List Token) : Option Json :=
  match tokens.foldlM State.step (.value [] false) with
  | some (.finished value) => some value
  | _ => none

/-- The value that a text stands for; `none` if it is not JSON. -/
def parse? (source : String) : Option Json :=
  (tokens? source.toList).bind ofTokens?

end Json
end BlockProgram
