import BlockProgram.Proofs.Expression.Rendering

/-!
Which grouping is lost. Operators of equal rank are written without parentheses between them, so trees that
differ in how such operators are grouped have one text:

        o₂                  o₁
       /  \                /  \
      o₁   c      ~       a   o₂         rank o₁ = rank o₂
     /  \                     /  \
    a    b                   b    c

Nothing else is lost. `Reassociates` is the least congruence with this step; two trees have the same text
exactly when it relates them (`text_eq_iff_reassociates`), and the text reads back as the one tree among those
related that is grouped to the left (`eq_regroup_iff`). A region of operators of one rank keeps its operators
and operands, in their order (`region_regroup`), so no operand comes under an operator of another rank.
-/

namespace BlockProgram
namespace Expression

/-! ### Regions as they stand -/

/-- A tree as part of a region of rank `rank`: its own region if it has that rank, else one operand. -/
def part (rank : Nat) (e : Expression) (region : Region) : Region :=
  if e.rank = rank then region else (e, [])

/-- The outermost region of a tree, its operands as they stand. -/
def region : Expression → Region
  | binary op left right =>
    let before := part op.rank left left.region
    let after := part op.rank right right.region
    (before.1, before.2 ++ (op, after.1) :: after.2)
  | e => (e, [])

/-- A function applied to the operands of a region. -/
def mapOperands (f : Expression → Expression) (region : Region) : Region :=
  (f region.1, region.2.map fun next => (next.1, f next.2))

theorem within_operands {e : Expression} (rank : Nat)
    (h : e.operands = mapOperands regroup e.region) :
    within rank e.rank e.operands = mapOperands regroup (part rank e e.region) := by
  unfold within part
  split
  · exact h
  · rfl

/-- Regrouping folds the regions of the operands and then the region itself. -/
theorem operands_eq : ∀ e : Expression, e.operands = mapOperands regroup e.region
  | .number _ | .boolean _ | .string _ | .var _ => rfl
  | .not _ | .property .. | .index .. => rfl
  | .binary op left right => by
    rw [operands, within_operands op.rank (operands_eq left), within_operands op.rank (operands_eq right)]
    simp [region, mapOperands]

theorem regroup_eq_foldLeft (e : Expression) : e.regroup = foldLeft (mapOperands regroup e.region) :=
  congrArg foldLeft e.operands_eq

/-- The outermost region of a tree folded from a flat region with an operator is that region. -/
theorem Flat.region_foldLeft {rank : Nat} {first : Expression} {rest : List (Operator × Expression)}
    (h : Flat rank (first, rest)) (hne : rest ≠ []) :
    (foldLeft (first, rest)).region = (first, rest) := by
  induction rest using List.reverseRecOn with
  | nil => exact absurd rfl hne
  | append_singleton rest next ih =>
    have hbefore : Flat rank (first, rest) :=
      ⟨h.first, fun other hother => h.rest other (List.mem_append_left _ hother)⟩
    obtain ⟨hop, hoperand, -⟩ := h.rest next (by simp)
    have hafter : part next.1.rank next.2 next.2.region = (next.2, []) := by
      rw [part, hop, if_neg hoperand]
    have hleft : part next.1.rank (foldLeft (first, rest)) (foldLeft (first, rest)).region =
        (first, rest) := by
      rw [part, hop]
      by_cases hnil : rest = []
      · subst hnil
        exact if_neg h.first.1
      · rw [if_pos (hbefore.rank_foldLeft hnil), ih hbefore hnil]
    rw [foldLeft_concat, region, hleft, hafter]

/-- The regrouped tree has the same outermost region, with its operands regrouped. -/
theorem region_regroup : ∀ e : Expression, e.regroup.region = mapOperands regroup e.region
  | .number _ | .boolean _ | .string _ | .var _ => rfl
  | .not _ | .property .. | .index .. => rfl
  | .binary op left right => by
    have hflat := (regrouped (.binary op left right)).flat op rfl
    rw [← operands_eq]
    exact hflat.region_foldLeft (by simp)

/-- Operators of one rank between operands of other ranks. -/
def Maximal (rank : Nat) (region : Region) : Prop :=
  region.1.rank ≠ rank ∧ ∀ next ∈ region.2, next.1.rank = rank ∧ next.2.rank ≠ rank

theorem Flat.maximal {rank : Nat} {region : Region} (h : Flat rank region) : Maximal rank region :=
  ⟨h.first.1, fun next hnext => ⟨(h.rest next hnext).1, (h.rest next hnext).2.1⟩⟩

theorem maximal_mapOperands_regroup {rank : Nat} {region : Region} :
    Maximal rank (mapOperands regroup region) ↔ Maximal rank region := by
  simp only [Maximal, mapOperands, List.forall_mem_map, (regrouped _).rank_eq]

/-- The outermost region of a tree of operators ends where operands of other ranks begin. -/
theorem maximal_region (op : Operator) (left right : Expression) :
    Maximal op.rank (binary op left right).region := by
  have hflat := (regrouped (.binary op left right)).flat op rfl
  rw [operands_eq] at hflat
  exact maximal_mapOperands_regroup.1 hflat.maximal

/-! ### Reassociation -/

/-- Two trees differ in how operators of equal rank are grouped, and in nothing else. -/
inductive Reassociates : Expression → Expression → Prop where
  | refl (e) : Reassociates e e
  | symm {e e'} (h : Reassociates e e') : Reassociates e' e
  | trans {e e' e''} (h : Reassociates e e') (h' : Reassociates e' e'') : Reassociates e e''
  | rotate {op op' : Operator} (hrank : op.rank = op'.rank) (a b c) :
    Reassociates (.binary op a (.binary op' b c)) (.binary op' (.binary op a b) c)
  | binary (op) {left left' right right'} (hleft : Reassociates left left')
    (hright : Reassociates right right') : Reassociates (.binary op left right) (.binary op left' right')
  | not {e e'} (h : Reassociates e e') : Reassociates (.not e) (.not e')
  | property {e e'} (h : Reassociates e e') (name) : Reassociates (.property e name) (.property e' name)
  | index {object object' subscript subscript'} (hobject : Reassociates object object')
    (hsubscript : Reassociates subscript subscript') :
    Reassociates (.index object subscript) (.index object' subscript')

/-- Two regions in a row, and the region that they are together. -/
theorem reassociates_join {op : Operator} (before after : Region)
    (hafter : ∀ next ∈ after.2, next.1.rank = op.rank) :
    Reassociates (.binary op (foldLeft before) (foldLeft after))
      (foldLeft (before.1, before.2 ++ (op, after.1) :: after.2)) := by
  obtain ⟨first, rest⟩ := after
  induction rest using List.reverseRecOn with
  | nil =>
    rw [foldLeft_concat]
    exact .refl _
  | append_singleton rest next ih =>
    have hrank : op.rank = next.1.rank := (hafter next (by simp)).symm
    have hbefore := ih fun other hother => hafter other (List.mem_append_left _ hother)
    have hjoined : before.2 ++ (op, first) :: (rest ++ [next]) =
        (before.2 ++ (op, first) :: rest) ++ [next] := by
      simp
    rw [hjoined, foldLeft_concat, foldLeft_concat]
    exact (Reassociates.rotate hrank _ _ _).trans (.binary next.1 hbefore (.refl _))

/-- A tree is regrouped by reassociation alone. -/
theorem reassociates_regroup : ∀ e : Expression, Reassociates e e.regroup
  | .number _ | .boolean _ | .string _ | .var _ => .refl _
  | .not operand => .not (reassociates_regroup operand)
  | .property object name => .property (reassociates_regroup object) name
  | .index object subscript => .index (reassociates_regroup object) (reassociates_regroup subscript)
  | .binary op left right => by
    have hoperands := (reassociates_regroup left).binary op (reassociates_regroup right)
    have hright : ∀ next ∈ (within op.rank right.rank right.operands).2, next.1.rank = op.rank :=
      fun next hnext => (((regrouped right).flat_within op).rest next hnext).1
    have hjoin := reassociates_join (within op.rank left.rank left.operands)
      (within op.rank right.rank right.operands) hright
    rw [foldLeft_within, foldLeft_within] at hjoin
    exact hoperands.trans hjoin

/-! ### Texts -/

theorem order_eq_of_rank_eq {op op' : Operator} (h : op.rank = op'.rank) : op.order = op'.order :=
  congrArg Order.mk h

theorem guarded_self (order : Order) (text : Text) : guarded order order text = text := by
  rw [guarded, Order.needsParens, decide_eq_false (Nat.lt_irrefl _), if_neg Bool.false_ne_true]

/-- Reassociation changes neither how tightly a tree binds nor its text. -/
theorem Reassociates.written {e e' : Expression} (h : Reassociates e e') :
    e.order = e'.order ∧ e.text = e'.text := by
  induction h with
  | refl => exact ⟨rfl, rfl⟩
  | symm _ ih => exact ⟨ih.1.symm, ih.2.symm⟩
  | trans _ _ ih ih' => exact ⟨ih.1.trans ih'.1, ih.2.trans ih'.2⟩
  | @rotate op op' hrank a b c =>
    have horder := order_eq_of_rank_eq hrank
    have hinner (left right : Expression) (op : Operator) :
        (Expression.binary op left right).order = op.order := rfl
    refine ⟨horder, ?_⟩
    -- neither the inner right operand nor the inner left one is put into parentheses
    simp only [text, hinner, horder, guarded_self, List.append_assoc]
  | binary op _ _ ih ih' => exact ⟨rfl, by rw [text, text, ih.1, ih.2, ih'.1, ih'.2]⟩
  | not _ ih => exact ⟨rfl, by rw [text, text, ih.2]⟩
  | property _ name ih => exact ⟨rfl, by rw [text, text, ih.1, ih.2]⟩
  | index _ _ ih ih' => exact ⟨rfl, by rw [text, text, ih.1, ih.2, ih'.2]⟩

/-- Two trees have one text exactly when they are regrouped to one tree. -/
theorem text_eq_iff_regroup_eq (e e' : Expression) : e.text = e'.text ↔ e.regroup = e'.regroup := by
  constructor
  · intro h
    have hread := e.read?_text
    rw [h, read?_text, Option.some_inj] at hread
    exact hread.symm
  · intro h
    rw [(reassociates_regroup e).written.2, h, ← (reassociates_regroup e').written.2]

/-- Two trees have one text exactly when they differ only in how operators of equal rank are grouped. -/
theorem text_eq_iff_reassociates (e e' : Expression) : e.text = e'.text ↔ Reassociates e e' := by
  constructor
  · intro h
    have hregroup := reassociates_regroup e
    rw [(text_eq_iff_regroup_eq e e').1 h] at hregroup
    exact hregroup.trans (reassociates_regroup e').symm
  · exact fun h => h.written.2

/-- Of the trees that a tree reassociates to, the regrouped one is the one that is grouped to the left. -/
theorem eq_regroup_iff (e tree : Expression) :
    tree = e.regroup ↔ tree.LeftGrouped ∧ Reassociates e tree := by
  constructor
  · rintro rfl
    exact ⟨(regrouped e).leftGrouped, reassociates_regroup e⟩
  · rintro ⟨hleft, h⟩
    -- what is grouped to the left is regrouped to itself
    rw [(text_eq_iff_regroup_eq e tree).1 h.written.2, regroup_of_leftGrouped hleft]

end Expression

/-! ### Rendered trees -/

namespace Setting

open Expression

variable {s : Setting}

/-- **Exactly which grouping is lost.** The text that a tree of blocks is rendered as reads back as the tree
with every region of operators folded to the left: a region keeps its operators and, themselves regrouped,
its operands, in their order, and none of these has the rank of the operators. That is the one tree, grouped
to the left, that differs from the given one only in how operators of equal rank are grouped. Trees in two
workspaces are rendered as the same text exactly when they are regrouped to the same tree. -/
theorem reads_back_regrouped {id : BlockId} {e : Expression} (h : s.workspace.Holds id e) (extent : Extent)
    {pass : Pass} (hfree : s.Free pass id) :
    ∃ text, s.renderBlock id extent pass = (.ok (.expression text e.order), pass) ∧
      read? text = some e.regroup ∧
      e.regroup = foldLeft (mapOperands regroup e.region) ∧
      e.regroup.region = mapOperands regroup e.region ∧
      (∀ op left right, e = .binary op left right →
        Maximal op.rank e.region ∧ Maximal op.rank e.regroup.region) ∧
      (∀ tree, tree = e.regroup ↔ tree.LeftGrouped ∧ Reassociates e tree) ∧
      ∀ (s' : Setting) (id' : BlockId) (e' : Expression) (extent' : Extent) (pass' : Pass),
        s'.workspace.Holds id' e' → s'.Free pass' id' →
        ∃ text', s'.renderBlock id' extent' pass' = (.ok (.expression text' e'.order), pass') ∧
          (text = text' ↔ e.regroup = e'.regroup) := by
  have hrender {s : Setting} {id : BlockId} {e : Expression} (h : s.workspace.Holds id e) (extent : Extent)
      {pass : Pass} (hfree : s.Free pass id) :
      s.renderBlock id extent pass = (.ok (.expression e.text e.order), pass) := by
    obtain ⟨hresult, hafter⟩ := (gives_text h s.enoughDepth extent pass hfree).unlimited
      (fun taken => s.settles_renderEnough taken id extent) rfl
    exact Prod.ext hresult hafter
  refine ⟨e.text, hrender h extent hfree, e.read?_text, e.regroup_eq_foldLeft, e.region_regroup, ?_,
    e.eq_regroup_iff, ?_⟩
  · rintro op left right rfl
    rw [region_regroup, maximal_mapOperands_regroup]
    exact ⟨maximal_region op left right, maximal_region op left right⟩
  · intro s' id' e' extent' pass' h' hfree'
    exact ⟨e'.text, hrender h' extent' hfree', e.text_eq_iff_regroup_eq e'⟩

/-- Two products of a variable and the differences of three numbers, which stand on the right of each other
in the one and on the left in the other. -/
def products : Workspace where
  blocks :=
    #[{ id := "b0", kind := .mathMultiply, inputs := [("A", ⟨1⟩), ("B", ⟨2⟩)] },
      { id := "b1", kind := .variableReference, fields := [("VAR_NAME", "n")] },
      { id := "b2", kind := .mathSubtract, inputs := [("A", ⟨3⟩), ("B", ⟨4⟩)] },
      { id := "b3", kind := .numberLiteral, fields := [("NUM", "4")] },
      { id := "b4", kind := .mathSubtract, inputs := [("A", ⟨5⟩), ("B", ⟨6⟩)] },
      { id := "b5", kind := .numberLiteral, fields := [("NUM", "5")] },
      { id := "b6", kind := .numberLiteral, fields := [("NUM", "6")] },
      { id := "b7", kind := .mathMultiply, inputs := [("A", ⟨1⟩), ("B", ⟨8⟩)] },
      { id := "b8", kind := .mathSubtract, inputs := [("A", ⟨9⟩), ("B", ⟨6⟩)] },
      { id := "b9", kind := .mathSubtract, inputs := [("A", ⟨3⟩), ("B", ⟨5⟩)] }]

/-- The product with the difference on the right. -/
def rightProduct : Expression :=
  .binary .multiply (.var ⟨['n'], by decide⟩)
    (.binary .subtract (.number ⟨['4'], by decide⟩)
      (.binary .subtract (.number ⟨['5'], by decide⟩) (.number ⟨['6'], by decide⟩)))

/-- The product with the difference on the left. -/
def leftProduct : Expression :=
  .binary .multiply (.var ⟨['n'], by decide⟩)
    (.binary .subtract
      (.binary .subtract (.number ⟨['4'], by decide⟩) (.number ⟨['5'], by decide⟩))
      (.number ⟨['6'], by decide⟩))

theorem products_hold_right : products.Holds ⟨0⟩ rightProduct :=
  .binary .multiply ⟨rfl, rfl, rfl⟩ rfl rfl (.var ⟨['n'], by decide⟩ ⟨rfl, rfl, rfl⟩ rfl)
    (.binary .subtract ⟨rfl, rfl, rfl⟩ rfl rfl (.number ⟨['4'], by decide⟩ ⟨rfl, rfl, rfl⟩ rfl)
      (.binary .subtract ⟨rfl, rfl, rfl⟩ rfl rfl (.number ⟨['5'], by decide⟩ ⟨rfl, rfl, rfl⟩ rfl)
        (.number ⟨['6'], by decide⟩ ⟨rfl, rfl, rfl⟩ rfl)))

theorem products_hold_left : products.Holds ⟨7⟩ leftProduct :=
  .binary .multiply ⟨rfl, rfl, rfl⟩ rfl rfl (.var ⟨['n'], by decide⟩ ⟨rfl, rfl, rfl⟩ rfl)
    (.binary .subtract ⟨rfl, rfl, rfl⟩ rfl rfl
      (.binary .subtract ⟨rfl, rfl, rfl⟩ rfl rfl (.number ⟨['4'], by decide⟩ ⟨rfl, rfl, rfl⟩ rfl)
        (.number ⟨['5'], by decide⟩ ⟨rfl, rfl, rfl⟩ rfl))
      (.number ⟨['6'], by decide⟩ ⟨rfl, rfl, rfl⟩ rfl))

theorem products_free (id : BlockId) : Free ⟨products, {}⟩ {} id := by
  intro marked hmarked
  cases hmarked

/-- Both products are rendered as one text, which reads back as the one with the difference on the left. -/
theorem products_read_back :
    products.Holds ⟨0⟩ rightProduct ∧ products.Holds ⟨7⟩ leftProduct ∧
      Free ⟨products, {}⟩ {} ⟨0⟩ ∧ Free ⟨products, {}⟩ {} ⟨7⟩ ∧
      ∃ text, renderBlock ⟨products, {}⟩ ⟨0⟩ .chain {} = (.ok (.expression text .multiplication), {}) ∧
        renderBlock ⟨products, {}⟩ ⟨7⟩ .alone {} = (.ok (.expression text .multiplication), {}) ∧
        read? text = some leftProduct := by
  obtain ⟨text, hrender, hread, -, -, -, -, hother⟩ :=
    reads_back_regrouped products_hold_right .chain (products_free ⟨0⟩)
  obtain ⟨text', hrender', hsame⟩ :=
    hother ⟨products, {}⟩ ⟨7⟩ leftProduct .alone {} products_hold_left (products_free ⟨7⟩)
  obtain rfl := hsame.2 (by decide)
  exact ⟨products_hold_right, products_hold_left, products_free ⟨0⟩, products_free ⟨7⟩, text, hrender,
    hrender', hread.trans (by decide)⟩

end Setting
end BlockProgram
