import BlockProgram.Number.Binary64
import BlockProgram.Table

/-!
JSON values. An integer that fits 64 bits stays an integer; every other number is a double. The
members of an object are pairs in a given order: a value that was read has them in the order of their
names, one that is to be written may have them in any order.
-/

namespace BlockProgram

/-- A JSON number. -/
inductive JsonNumber where
  | integer (value : Int)
  | double (value : Binary64)
  deriving DecidableEq, Repr, Inhabited

/-- A JSON value. -/
inductive Json where
  | null
  | bool (value : Bool)
  | number (value : JsonNumber)
  | string (value : String)
  | array (items : List Json)
  | object (members : List (String × Json))
  deriving Repr, Inhabited

/-- The double nearest to a number. -/
def JsonNumber.toDouble : JsonNumber → Binary64
  | .integer n => .ofInt n
  | .double x => x

namespace Json

/-- The member of an object under a name; any other value has no members. -/
def member? (name : String) : Json → Option Json
  | object members => members.lookup name
  | _ => none

def string? : Json → Option String
  | string s => some s
  | _ => none

def array? : Json → Option (List Json)
  | array items => some items
  | _ => none

/-- The members of an object; any other value has none. -/
def members : Json → List (String × Json)
  | object ms => ms
  | _ => []

/-- The double nearest to a number value. -/
def double? : Json → Option Binary64
  | number n => some n.toDouble
  | _ => none

/-! ### Sorted members -/

mutual

/-- The value with the members of every object in the order of their names. -/
def sortMembers : Json → Json
  | array items => array (sortItems items)
  | object ms => object (Table.ofList (sortEntries ms))
  | value => value

def sortItems : List Json → List Json
  | [] => []
  | item :: rest => sortMembers item :: sortItems rest

def sortEntries : List (String × Json) → List (String × Json)
  | [] => []
  | (name, value) :: rest => (name, sortMembers value) :: sortEntries rest

end

/-! ### Size of members -/

theorem sizeOf_lookup_lt {name : String} {value : Json} :
    ∀ {ms : List (String × Json)}, ms.lookup name = some value → sizeOf value < sizeOf ms
  | [], h => by simp at h
  | (other, first) :: rest, h => by
    rw [List.lookup_cons] at h
    split at h
    · cases h
      simp only [List.cons.sizeOf_spec, Prod.mk.sizeOf_spec]
      omega
    · have := sizeOf_lookup_lt h
      simp only [List.cons.sizeOf_spec, Prod.mk.sizeOf_spec]
      omega

/-- A member is smaller than the object it belongs to. -/
theorem sizeOf_member?_lt {name : String} {object value : Json}
    (h : object.member? name = some value) : sizeOf value < sizeOf object := by
  cases object with
  | object ms =>
    have := sizeOf_lookup_lt (show ms.lookup name = some value from h)
    simp only [object.sizeOf_spec]
    omega
  | _ => simp [member?] at h

/-- The members of a value are together no larger than the value. -/
theorem sizeOf_members_le (value : Json) : sizeOf value.members ≤ sizeOf value := by
  cases value <;> simp [members]

end Json
end BlockProgram
