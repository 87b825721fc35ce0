import BlockProgram.Proofs.Expression.Basic

/-!
Grouping to the left. Operators of equal rank that follow one another form a region: its operands and
operators, from left to right, without the tree they came from. `Expression.regroup` folds every region
to the left; the trees that it leaves as they are have no region on the right of an operator.
-/

namespace BlockProgram
namespace Expression

/-- Operands with operators between them: the first one, and each further one with its operator. -/
abbrev Region := Expression × List (Operator × Expression)

/-- The operands of a region put together from left to right. -/
def foldLeft (region : Region) : Expression :=
  region.2.foldl (fun left next => .binary next.1 left next.2) region.1

/-- A region of rank `own` as part of one of rank `rank`: a region of another rank is one operand. -/
def within (rank own : Nat) (region : Region) : Region :=
  if own = rank then region else (foldLeft region, [])

/-- The outermost region of a tree, the regions inside its operands folded. -/
def operands : Expression → Region
  | binary op left right =>
    let before := within op.rank left.rank left.operands
    let after := within op.rank right.rank right.operands
    (before.1, before.2 ++ (op, after.1) :: after.2)
  | not operand => (.not (foldLeft operand.operands), [])
  | property object name => (.property (foldLeft object.operands) name, [])
  | index object subscript =>
    (.index (foldLeft object.operands) (foldLeft subscript.operands), [])
  | e => (e, [])

/-- The tree with all its regions folded to the left. -/
def regroup (e : Expression) : Expression :=
  foldLeft e.operands

/-- No right operand has the rank of its operator. -/
def LeftGrouped : Expression → Prop
  | binary op left right => right.rank ≠ op.rank ∧ left.LeftGrouped ∧ right.LeftGrouped
  | not operand => operand.LeftGrouped
  | property object _ => object.LeftGrouped
  | index object subscript => object.LeftGrouped ∧ subscript.LeftGrouped
  | _ => True

/-! ### Regions -/

theorem foldLeft_concat (first : Expression) (rest : List (Operator × Expression)) (op : Operator)
    (e : Expression) : foldLeft (first, rest ++ [(op, e)]) = .binary op (foldLeft (first, rest)) e := by
  simp [foldLeft]

theorem foldLeft_within (rank own : Nat) (region : Region) :
    foldLeft (within rank own region) = foldLeft region := by
  unfold within
  split <;> rfl

/-- A region of operators of one rank whose operands have other ranks and are grouped to the left. -/
structure Flat (rank : Nat) (region : Region) : Prop where
  first : region.1.rank ≠ rank ∧ region.1.LeftGrouped
  rest : ∀ next ∈ region.2, next.1.rank = rank ∧ next.2.rank ≠ rank ∧ next.2.LeftGrouped

/-- Folding a flat region gives a tree that is grouped to the left. -/
theorem Flat.leftGrouped {rank : Nat} {region : Region} (h : Flat rank region) :
    (foldLeft region).LeftGrouped := by
  obtain ⟨first, rest⟩ := region
  induction rest using List.reverseRecOn with
  | nil => exact h.first.2
  | append_singleton rest next ih =>
    have hlast := h.rest next (by simp)
    rw [foldLeft_concat, LeftGrouped, hlast.1]
    exact ⟨hlast.2.1, ih ⟨h.first, fun other hother => h.rest other (by simp [hother])⟩, hlast.2.2⟩

/-- Folding a region with an operator gives a tree of the rank of its operators. -/
theorem Flat.rank_foldLeft {rank : Nat} {first : Expression} {rest : List (Operator × Expression)}
    (h : Flat rank (first, rest)) (hne : rest ≠ []) : (foldLeft (first, rest)).rank = rank := by
  obtain ⟨rest, next, rfl⟩ := (List.eq_nil_or_concat rest).resolve_left hne
  rw [List.concat_eq_append] at h ⊢
  rw [foldLeft_concat]
  exact (h.rest next (by simp)).1

/-- Two flat regions of one rank with an operator of that rank between them. -/
theorem Flat.join {op : Operator} {before after : Region} (hbefore : Flat op.rank before)
    (hafter : Flat op.rank after) :
    Flat op.rank (before.1, before.2 ++ (op, after.1) :: after.2) := by
  refine ⟨hbefore.first, ?_⟩
  intro next hnext
  rcases List.mem_append.1 hnext with hnext | hnext
  · exact hbefore.rest next hnext
  · rcases List.mem_cons.1 hnext with rfl | hnext
    · exact ⟨rfl, hafter.first⟩
    · exact hafter.rest next hnext

/-! ### Regrouped trees -/

/-- What regrouping gives: a tree grouped to the left, of the same rank, whose outermost region is flat
when it is a region of operators. -/
structure Regrouped (e : Expression) : Prop where
  leftGrouped : e.regroup.LeftGrouped
  rank_eq : e.regroup.rank = e.rank
  flat : ∀ op : Operator, e.rank = op.rank → Flat op.rank e.operands

theorem Regrouped.flat_within {e : Expression} (h : Regrouped e) (op : Operator) :
    Flat op.rank (within op.rank e.rank e.operands) := by
  unfold within
  split
  · rename_i hrank
    exact h.flat op hrank
  · rename_i hrank
    refine ⟨⟨?_, h.leftGrouped⟩, by simp⟩
    show e.regroup.rank ≠ op.rank
    rw [h.rank_eq]
    exact hrank

/-- No operator has a rank from that of `!` on. -/
theorem ne_rank_of_tight {rank : Nat} (h : Order.logicalNot.rank ≤ rank) (op : Operator) :
    rank ≠ op.rank := by
  have := op.rank_lt_not
  omega

theorem regrouped : ∀ e : Expression, Regrouped e
  | .number _ | .boolean _ | .string _ | .var _ =>
    ⟨trivial, rfl, fun op h =>
      absurd h (ne_rank_of_tight (show Order.logicalNot.rank ≤ Order.atomic.rank by decide) op)⟩
  | .not operand =>
    ⟨(regrouped operand).leftGrouped, rfl, fun op h => absurd h (ne_rank_of_tight (Nat.le_refl _) op)⟩
  | .property object _ =>
    ⟨(regrouped object).leftGrouped, rfl, fun op h =>
      absurd h (ne_rank_of_tight (show Order.logicalNot.rank ≤ Order.member.rank by decide) op)⟩
  | .index object subscript =>
    ⟨⟨(regrouped object).leftGrouped, (regrouped subscript).leftGrouped⟩, rfl, fun op h =>
      absurd h (ne_rank_of_tight (show Order.logicalNot.rank ≤ Order.member.rank by decide) op)⟩
  | .binary op left right => by
    have hflat : Flat op.rank (Expression.binary op left right).operands :=
      ((regrouped left).flat_within op).join ((regrouped right).flat_within op)
    refine ⟨hflat.leftGrouped, hflat.rank_foldLeft (by simp), ?_⟩
    intro other hother
    have hrank : op.rank = other.rank := hother
    rw [← hrank]
    exact hflat

/-- A tree that is grouped to the left is regrouped to itself. -/
theorem regroup_of_leftGrouped : ∀ {e : Expression}, e.LeftGrouped → e.regroup = e
  | .number _, _ | .boolean _, _ | .string _, _ | .var _, _ => rfl
  | .not operand, h => congrArg Expression.not (regroup_of_leftGrouped (e := operand) h)
  | .property object name, h =>
    congrArg (Expression.property · name) (regroup_of_leftGrouped (e := object) h)
  | .index _ _, ⟨hobject, hsubscript⟩ =>
    congrArg₂ Expression.index (regroup_of_leftGrouped hobject) (regroup_of_leftGrouped hsubscript)
  | .binary op left right, ⟨hrank, hleft, hright⟩ => by
    have hafter : within op.rank right.rank right.operands = (right, []) := by
      rw [within, if_neg hrank]
      exact congrArg (·, []) (regroup_of_leftGrouped hright)
    rw [regroup, operands, hafter, foldLeft_concat, foldLeft_within]
    exact congrArg (Expression.binary op · right) (regroup_of_leftGrouped hleft)

/-- Regrouping keeps exactly the trees that are grouped to the left. -/
theorem regroup_eq_self_iff (e : Expression) : e.regroup = e ↔ e.LeftGrouped := by
  constructor
  · intro h
    rw [← h]
    exact (regrouped e).leftGrouped
  · exact regroup_of_leftGrouped

end Expression
end BlockProgram
