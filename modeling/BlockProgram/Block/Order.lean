/-!
How tightly an expression binds. A socket asks for an order; an expression that binds less tightly
than its socket asks is put into parentheses. An expression of the order asked for is not, on either
side of an operator.
-/

namespace BlockProgram

/-- The binding strength of an expression. A greater rank binds tighter. -/
structure Order where
  rank : Nat
  deriving DecidableEq, Repr

namespace Order

def atomic : Order := ⟨12⟩
def member : Order := ⟨12⟩
def functionCall : Order := ⟨12⟩
def logicalNot : Order := ⟨11⟩
def multiplication : Order := ⟨10⟩
def division : Order := ⟨10⟩
def addition : Order := ⟨9⟩
def subtraction : Order := ⟨9⟩
def relational : Order := ⟨8⟩
def equality : Order := ⟨7⟩
def logicalAnd : Order := ⟨6⟩
def logicalOr : Order := ⟨5⟩
def assignment : Order := ⟨3⟩
def comma : Order := ⟨1⟩

/-- What a socket asks for that takes every expression as it is. -/
def none : Order := ⟨0⟩

/-- Whether an expression of order `child` needs parentheses in a socket that asks for `requested`. -/
def needsParens (child requested : Order) : Bool :=
  child.rank < requested.rank

end Order
end BlockProgram
