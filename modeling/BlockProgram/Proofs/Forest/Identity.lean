import BlockProgram.Proofs.Forest.Layout

/-!
The ids of a loaded workspace. A block has the id that its node gives, or else one that is made from its
number. The load checks the given ids against each other and the made ones cannot agree, but nothing
compares a given id with a made one: the ids are distinct unless some node gives just the id that is made
for another (`Clash`).
-/

namespace BlockProgram

/-- The ids of the blocks of nodes with the given labels, numbered from `n` on. -/
def idsFrom (n : Nat) : List NodeLabel → List String
  | [] => []
  | label :: rest => label.id?.getD ("b" ++ toString n) :: idsFrom (n + 1) rest

/-- A node gives the id that is made for the block of another, which gives none. -/
def Clash (labels : List NodeLabel) : Prop :=
  ∃ (i j : Nat) (label other : NodeLabel), labels[i]? = some label ∧ labels[j]? = some other ∧
    label.id? = some ("b" ++ toString j) ∧ other.id? = none

variable {labels : List NodeLabel} {n : Nat}

@[simp]
theorem length_idsFrom (n : Nat) (labels : List NodeLabel) :
    (idsFrom n labels).length = labels.length := by
  induction labels generalizing n with
  | nil => rfl
  | cons label rest ih => simp [idsFrom, ih]

theorem getElem?_idsFrom (n : Nat) (labels : List NodeLabel) (i : Nat) :
    (idsFrom n labels)[i]? = labels[i]?.map fun label => label.id?.getD ("b" ++ toString (n + i)) := by
  induction labels generalizing n i with
  | nil => simp [idsFrom]
  | cons label rest ih =>
    cases i with
    | zero => simp [idsFrom]
    | succ i => simp [idsFrom, ih, Nat.add_assoc, Nat.add_comm 1]

/-! ### Ids of laid out blocks -/

theorem map_id_zipIdx (n : Nat) (labels : List NodeLabel) :
    ((labels.zipIdx n).map fun numbered => (numbered.1.block numbered.2).id) = idsFrom n labels := by
  induction labels generalizing n with
  | nil => rfl
  | cons label rest ih =>
    rw [List.zipIdx_cons, List.map_cons, ih, idsFrom]
    rfl

/-- The ids of the blocks of a workspace. -/
def Workspace.blockIds (ws : Workspace) : List String :=
  ws.blocks.toList.map Block.id

theorem Workspace.blockIds_layOut (ws : Workspace) (entries : List Entry) :
    (ws.layOut entries).blockIds =
      ws.blockIds ++ idsFrom ws.size (entries.flatMap fun entry => entry.chain.labels) := by
  have hunlinked : Block.Unlinked Block.id := fun _ _ _ _ => rfl
  rw [blockIds, map_blocks_layOut hunlinked, map_id_zipIdx, blockIds]

/-! ### Distinct ids -/

theorem madeId_inj {i j : Nat} (h : "b" ++ toString i = "b" ++ toString j) : i = j := by
  rw [String.append_right_inj] at h
  exact Nat.repr_inj.1 h

/-- Two nodes do not give the same id. -/
theorem Acceptable.given_ne (h : Acceptable labels) {i j : Nat} (hij : i < j) {label other : NodeLabel}
    (hlabel : labels[i]? = some label) (hother : labels[j]? = some other) {given : String}
    (hgiven : label.id? = some given) : other.id? ≠ some given := by
  intro hgiven'
  obtain ⟨hi, rfl⟩ := List.getElem?_eq_some_iff.1 hlabel
  obtain ⟨hj, rfl⟩ := List.getElem?_eq_some_iff.1 hother
  have hapart := List.pairwise_iff_getElem.1 (List.pairwise_filterMap.1 h.nodup) i j hi hj hij
  exact hapart given hgiven given hgiven' rfl

/-- Ids are distinct if no given id is one that is made: two given ids differ, and two made ones do. -/
theorem Acceptable.nodup_idsFrom_iff (h : Acceptable labels) :
    (idsFrom 0 labels).Nodup ↔ ¬ Clash labels := by
  constructor
  · rintro hnodup ⟨i, j, label, other, hlabel, hother, hgiven, hnone⟩
    have hi : (idsFrom 0 labels)[i]? = some ("b" ++ toString j) := by
      rw [getElem?_idsFrom, hlabel, Option.map_some, hgiven, Option.getD_some]
    have hj : (idsFrom 0 labels)[j]? = some ("b" ++ toString j) := by
      rw [getElem?_idsFrom, hother, Option.map_some, hnone, Option.getD_none, Nat.zero_add]
    obtain ⟨hlt, -⟩ := List.getElem?_eq_some_iff.1 hi
    obtain rfl := (List.getElem?_inj hlt hnodup).1 (hi.trans hj.symm)
    cases hlabel.symm.trans hother
    rw [hgiven] at hnone
    cases hnone
  · intro hclash
    refine List.nodup_iff_getElem?_ne_getElem?.2 fun i j hij hj heq => ?_
    rw [getElem?_idsFrom, getElem?_idsFrom, Nat.zero_add, Nat.zero_add] at heq
    rw [length_idsFrom] at hj
    have hother : labels[j]? = some labels[j] := List.getElem?_eq_getElem hj
    have hlabel : labels[i]? = some labels[i] := List.getElem?_eq_getElem (hij.trans hj)
    generalize labels[j] = other at hother
    generalize labels[i] = label at hlabel
    rw [hlabel, hother, Option.map_some, Option.map_some, Option.some_inj] at heq
    cases hgiven : label.id? with
    | none =>
      rw [hgiven, Option.getD_none] at heq
      cases hgiven' : other.id? with
      | none =>
        rw [hgiven', Option.getD_none] at heq
        exact absurd (madeId_inj heq) hij.ne
      | some given =>
        rw [hgiven', Option.getD_some] at heq
        exact hclash ⟨j, i, other, label, hother, hlabel, by rw [hgiven', heq], hgiven⟩
    | some given =>
      rw [hgiven, Option.getD_some] at heq
      cases hgiven' : other.id? with
      | none =>
        rw [hgiven', Option.getD_none] at heq
        exact hclash ⟨i, j, label, other, hlabel, hother, by rw [hgiven, heq], hgiven'⟩
      | some given' =>
        rw [hgiven', Option.getD_some] at heq
        exact h.given_ne hij hlabel hother hgiven (by rw [hgiven', heq])

/-- **Ids.** A loaded block has the id that its node gives, or else the one made from its number, and the
ids are distinct as long as no node gives an id that is made for another. -/
theorem Workspace.ofJson_blockIds {value : Json} {ws : Workspace} (h : Workspace.ofJson value = .ok ws) :
    ∃ document, Document.ofJson? value = some document ∧ ws.blockIds = idsFrom 0 document.labels ∧
      (ws.blockIds.Nodup ↔ ¬ Clash document.labels) := by
  obtain ⟨document, hdocument, hws, haccept⟩ := Workspace.ofJson_layout h
  have hids : ws.blockIds = idsFrom 0 document.labels := by
    rw [hws, Document.layout, Workspace.blockIds_layOut]
    rfl
  refine ⟨document, hdocument, hids, ?_⟩
  rw [hids]
  exact haccept.nodup_idsFrom_iff

/-- Two blocks on a canvas; the first is given the id that is made for the second. -/
def takenIdDocument : Json :=
  .object [("blocks", .object [("blocks", .array [
    .object [("id", .string "b1"), ("type", .string "number_literal")],
    .object [("type", .string "number_literal")]])])]

/-- The workspace that they are loaded as. -/
def takenIdWorkspace : Workspace where
  blocks :=
    #[{ id := "b1", kind := .numberLiteral, position := some ⟨.zero, .zero⟩ },
      { id := "b1", kind := .numberLiteral, position := some ⟨.zero, .zero⟩ }]
  top := [⟨0⟩, ⟨1⟩]

theorem takenId_loaded : Workspace.ofJson takenIdDocument = .ok takenIdWorkspace := by
  cbv

theorem takenId_shared :
    Workspace.ofJson takenIdDocument = .ok takenIdWorkspace ∧ ¬ takenIdWorkspace.blockIds.Nodup ∧
      ∃ document, Document.ofJson? takenIdDocument = some document ∧
        takenIdWorkspace.blockIds = idsFrom 0 document.labels ∧
        (takenIdWorkspace.blockIds.Nodup ↔ ¬ Clash document.labels) :=
  ⟨takenId_loaded, by decide, Workspace.ofJson_blockIds takenId_loaded⟩

end BlockProgram
