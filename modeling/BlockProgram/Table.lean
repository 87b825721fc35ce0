/-!
Finite tables from names to values, kept as pairs in increasing order of their names. Names are
ordered by code point, which is also the order of their UTF-8 bytes. Writing a name a second time
replaces its value, so the last write wins and each name stands once.
-/

namespace BlockProgram

/-- A table from names to values, its pairs in the order of the names. -/
abbrev Table (α : Type) := List (String × α)

namespace Table

variable {α : Type}

/-- The table with `value` under `name`. -/
def insert (name : String) (value : α) : Table α → Table α
  | [] => [(name, value)]
  | entry :: rest =>
    if name < entry.1 then (name, value) :: entry :: rest
    else if name = entry.1 then (name, value) :: rest
    else entry :: insert name value rest

/-- The value under a name. -/
def find? (name : String) (table : Table α) : Option α :=
  List.lookup name table

/-- The table that results from writing pairs one after the other. -/
def ofList (entries : List (String × α)) : Table α :=
  entries.foldl (fun table entry => insert entry.1 entry.2 table) []

end Table
end BlockProgram
