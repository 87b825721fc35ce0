import BlockProgram.Json.Reader
import Mathlib

/-!
Values whose objects name each member once, in the order of the names. A table that is written in that
order is the list of what was written, so nothing is replaced and nothing moves. Every value that is read
from a text is of this form (`Json.ordered_of_parse?`): objects are closed as tables, and neither automaton
lets go of the order after that.
-/

namespace BlockProgram

/-! ### Tables written in order -/

namespace Table

variable {α β : Type} {name : String} {value : α} {table entries : List (String × α)}

/-- The names of a table increase, so each stands once. -/
def Increasing (entries : List (String × α)) : Prop :=
  (entries.map Prod.fst).Pairwise (· < ·)

instance (entries : List (String × α)) : Decidable (Increasing entries) :=
  inferInstanceAs (Decidable (List.Pairwise _ _))

theorem Increasing.nodup (h : Increasing entries) : (entries.map Prod.fst).Nodup :=
  h.imp fun hlt => hlt.ne

theorem insert_of_forall_lt (h : ∀ entry ∈ table, entry.1 < name) :
    insert name value table = table ++ [(name, value)] := by
  induction table with
  | nil => rfl
  | cons entry rest ih =>
    have hlt : entry.1 < name := h entry (List.mem_cons_self ..)
    rw [insert, if_neg hlt.not_gt, if_neg hlt.ne', ih fun other hother => h other (by simp [hother])]
    rfl

theorem foldl_insert_of_increasing (h : Increasing (table ++ entries)) :
    entries.foldl (fun table entry => insert entry.1 entry.2 table) table = table ++ entries := by
  induction entries generalizing table with
  | nil => simp
  | cons entry rest ih =>
    have hlt : ∀ other ∈ table, other.1 < entry.1 := by
      intro other hother
      rw [Increasing, List.map_append, List.pairwise_append] at h
      exact h.2.2 other.1 (List.mem_map_of_mem hother) entry.1 (by simp)
    rw [List.foldl_cons, insert_of_forall_lt hlt, ih (by simpa using h)]
    simp

/-- Pairs that are written in the order of their names make a table as they are. -/
theorem ofList_eq_self (h : Increasing entries) : ofList entries = entries :=
  foldl_insert_of_increasing h

theorem mem_insert {entry : String × α} (h : entry ∈ insert name value table) :
    entry = (name, value) ∨ entry ∈ table := by
  induction table with
  | nil => exact .inl (List.mem_singleton.1 h)
  | cons first rest ih =>
    rw [insert] at h
    split at h
    · exact List.mem_cons.1 h
    split at h
    · exact (List.mem_cons.1 h).imp_right (List.mem_cons_of_mem _)
    · rcases List.mem_cons.1 h with rfl | h
      · exact .inr (List.mem_cons_self ..)
      · exact (ih h).imp_right (List.mem_cons_of_mem _)

theorem increasing_cons {entry : String × α} :
    Increasing (entry :: entries) ↔ (∀ other ∈ entries, entry.1 < other.1) ∧ Increasing entries := by
  rw [Increasing, List.map_cons, List.pairwise_cons, List.forall_mem_map]
  rfl

theorem Increasing.insert (h : Increasing table) : Increasing (insert name value table) := by
  induction table with
  | nil => exact List.pairwise_singleton ..
  | cons first rest ih =>
    obtain ⟨hfirst, hrest⟩ := increasing_cons.1 h
    rw [Table.insert]
    split
    · rename_i hlt
      refine increasing_cons.2 ⟨fun other hother => ?_, h⟩
      rcases List.mem_cons.1 hother with rfl | hother
      · exact hlt
      · exact hlt.trans (hfirst other hother)
    split
    · rename_i heq
      exact increasing_cons.2 ⟨fun other hother => heq ▸ hfirst other hother, hrest⟩
    · rename_i hge hne
      refine increasing_cons.2 ⟨fun other hother => ?_, ih hrest⟩
      rcases mem_insert hother with rfl | hother
      · exact lt_of_le_of_ne (not_lt.1 hge) fun h => hne h.symm
      · exact hfirst other hother

/-- Whatever is written, the table has its names in order, and holds nothing else. -/
theorem ofList_induction {P : String × α → Prop} (h : ∀ entry ∈ entries, P entry) :
    Increasing (ofList entries) ∧ ∀ entry ∈ ofList entries, P entry := by
  refine List.foldlRecOn entries _ (motive := fun table => Increasing table ∧ ∀ entry ∈ table, P entry)
    ⟨.nil, fun entry hentry => by cases hentry⟩ fun table htable entry hentry => ⟨htable.1.insert, ?_⟩
  intro other hother
  rcases mem_insert hother with rfl | hother
  · exact h entry hentry
  · exact htable.2 other hother

/-- Looking up a name finds what stands under it. -/
theorem find?_eq_some_iff (h : (entries.map Prod.fst).Nodup) :
    find? name entries = some value ↔ (name, value) ∈ entries := by
  induction entries with
  | nil => simp [find?]
  | cons entry rest ih =>
    obtain ⟨other, found⟩ := entry
    rw [List.map_cons, List.nodup_cons] at h
    rw [find?, List.lookup_cons]
    by_cases heq : name = other
    · subst heq
      have habsent : (name, value) ∉ rest := fun hmem =>
        h.1 (List.mem_map.2 ⟨_, hmem, rfl⟩)
      simp [habsent, eq_comm]
    · rw [beq_false_of_ne heq]
      have hrest := ih h.2
      rw [find?] at hrest
      simp [hrest, heq]

theorem find?_cons (name : String) (entry : String × α) (table : Table α) :
    find? name (entry :: table) = if name = entry.1 then some entry.2 else find? name table := by
  rw [find?, List.lookup_cons]
  by_cases heq : name = entry.1
  · rw [if_pos heq, beq_iff_eq.2 heq]
  · rw [if_neg heq, beq_false_of_ne heq]
    rfl

/-- Writing a name changes what stands under it and nothing else. -/
theorem find?_insert (name other : String) (value : α) (table : Table α) :
    find? other (insert name value table) = if other = name then some value else find? other table := by
  induction table with
  | nil => rw [insert, find?_cons]
  | cons entry rest ih =>
    rw [insert]
    by_cases hlt : name < entry.1
    · rw [if_pos hlt, find?_cons]
    · rw [if_neg hlt]
      by_cases heq : name = entry.1
      · rw [if_pos heq, find?_cons, find?_cons, ← heq]
        split_ifs <;> rfl
      · rw [if_neg heq, find?_cons, find?_cons, ih]
        -- the two names differ, so at most one of them is looked for
        grind

/-- A name that is not in a table is written between two of its pairs. -/
theorem exists_insert_eq (value : α) (h : find? name table = none) :
    ∃ before after, table = before ++ after ∧ insert name value table = before ++ (name, value) :: after := by
  induction table with
  | nil => exact ⟨[], [], rfl, rfl⟩
  | cons entry rest ih =>
    rw [find?_cons] at h
    split at h
    · cases h
    · rename_i hne
      rw [insert, if_neg hne]
      split
      · exact ⟨[], entry :: rest, rfl, rfl⟩
      · obtain ⟨before, after, hrest, hinsert⟩ := ih h
        exact ⟨entry :: before, after, by rw [hrest]; rfl, by rw [hinsert]; rfl⟩

theorem find?_eq_none (h : name ∉ entries.map Prod.fst) : find? name entries = none := by
  rw [find?, List.lookup_eq_none_iff]
  intro entry hentry
  rw [bne_iff_ne]
  rintro rfl
  exact h (List.mem_map_of_mem hentry)

/-- Looking up a name among values that are rewritten or left out. -/
theorem find?_filterMap (f : α → Option β) (h : (entries.map Prod.fst).Nodup) :
    find? name (entries.filterMap fun entry => (f entry.2).map fun b => (entry.1, b)) =
      (find? name entries).bind f := by
  induction entries with
  | nil => rfl
  | cons entry rest ih =>
    obtain ⟨other, found⟩ := entry
    rw [List.map_cons, List.nodup_cons] at h
    have hrest := ih h.2
    rw [List.filterMap_cons]
    by_cases heq : name = other
    · subst heq
      rw [find?_eq_none h.1] at hrest
      cases hfound : f found with
      | none => simpa [find?, hfound] using hrest
      | some b => simp [find?, hfound]
    · cases hfound : f found with
      | none => simpa [find?, List.lookup_cons, beq_false_of_ne heq] using hrest
      | some b => simpa [find?, List.lookup_cons, beq_false_of_ne heq] using hrest

theorem find?_map (f : α → β) : find? name (entries.map fun entry => (entry.1, f entry.2)) =
    (find? name entries).map f := by
  induction entries with
  | nil => rfl
  | cons entry rest ih =>
    rw [List.map_cons, find?_cons, find?_cons, ih]
    split <;> rfl

/-- Rewriting the values of a list leaves no more names than there were, in the same order. -/
theorem names_filterMap_sublist (f : α → Option β) (entries : List (String × α)) :
    ((entries.filterMap fun entry => (f entry.2).map fun b => (entry.1, b)).map Prod.fst).Sublist
      (entries.map Prod.fst) := by
  induction entries with
  | nil => exact .slnil
  | cons entry rest ih =>
    rw [List.filterMap_cons]
    cases f entry.2 with
    | none => exact ih.cons entry.1
    | some b => exact ih.cons_cons entry.1

theorem find?_foldl_insert (h : (entries.map Prod.fst).Nodup) (table : Table α) :
    find? name (entries.foldl (fun table entry => insert entry.1 entry.2 table) table) =
      (find? name entries).or (find? name table) := by
  induction entries generalizing table with
  | nil => rfl
  | cons entry rest ih =>
    obtain ⟨habsent, hrest⟩ := List.nodup_cons.1 h
    rw [List.foldl_cons, ih hrest, find?_insert, find?_cons]
    split
    · rename_i heq
      rw [heq, find?_eq_none habsent]
      rfl
    · rfl

/-- Pairs with different names are found in the table of them as among themselves. -/
theorem find?_ofList (h : (entries.map Prod.fst).Nodup) :
    find? name (ofList entries) = find? name entries := by
  rw [ofList, find?_foldl_insert h, show find? name ([] : Table α) = none from rfl, Option.or_none]

end Table

namespace Json

/-! ### Sorted values -/

theorem sortItems_eq (items : List Json) : sortItems items = items.map sortMembers := by
  induction items with
  | nil => rfl
  | cons item rest ih => rw [sortItems, ih, List.map_cons]

theorem sortEntries_eq (entries : List (String × Json)) :
    sortEntries entries = entries.map fun entry => (entry.1, sortMembers entry.2) := by
  induction entries with
  | nil => rfl
  | cons entry rest ih => rw [sortEntries, ih, List.map_cons]

/-- Sorting an object keeps what stands under its names, as long as each of them stands once. -/
theorem member?_sortMembers {members : List (String × Json)} (h : (members.map Prod.fst).Nodup)
    (name : String) : (sortMembers (.object members)).member? name =
      (Table.find? name members).map sortMembers := by
  have hnames : ((sortEntries members).map Prod.fst).Nodup := by
    rw [sortEntries_eq, List.map_map]
    exact h
  rw [sortMembers, show member? name (.object (Table.ofList (sortEntries members))) =
    Table.find? name (Table.ofList (sortEntries members)) from rfl, Table.find?_ofList hnames,
    sortEntries_eq, Table.find?_map]

/-! ### Ordered values -/

/-- Every object in the value has its members in the order of their names, each name once. -/
inductive Ordered : Json → Prop where
  | null : Ordered .null
  | bool {value} : Ordered (.bool value)
  | number {value} : Ordered (.number value)
  | string {value} : Ordered (.string value)
  | array {items} (hitems : ∀ item ∈ items, Ordered item) : Ordered (.array items)
  | object {members} (hnames : Table.Increasing members)
    (hmembers : ∀ entry ∈ members, Ordered entry.2) : Ordered (.object members)

attribute [simp] Ordered.null Ordered.bool Ordered.number Ordered.string

variable {value found : Json} {name : String}

theorem Ordered.members (h : value.Ordered) :
    Table.Increasing value.members ∧ ∀ entry ∈ value.members, entry.2.Ordered := by
  cases h with
  | object hnames hmembers => exact ⟨hnames, hmembers⟩
  | _ => exact ⟨.nil, fun entry hentry => by cases hentry⟩

@[simp]
theorem ordered_object_iff {members : List (String × Json)} :
    (object members).Ordered ↔ Table.Increasing members ∧ ∀ entry ∈ members, entry.2.Ordered :=
  ⟨Ordered.members, fun h => .object h.1 h.2⟩

theorem lookup_members (value : Json) (name : String) :
    Table.find? name value.members = value.member? name := by
  cases value <;> rfl

theorem Ordered.member? (h : value.Ordered) (hfound : value.member? name = some found) :
    found.Ordered := by
  rw [← lookup_members, Table.find?_eq_some_iff h.members.1.nodup] at hfound
  exact h.members.2 _ hfound

theorem Ordered.array? (h : value.Ordered) {items : List Json} (hitems : value.array? = some items) :
    ∀ item ∈ items, item.Ordered := by
  cases h with
  | array h =>
    cases hitems
    exact h
  | _ => cases hitems

@[simp]
theorem ordered_array_iff {items : List Json} :
    (array items).Ordered ↔ ∀ item ∈ items, item.Ordered :=
  ⟨fun h => h.array? rfl, .array⟩

/-! ### Values that are read -/

/-- The object of a table of ordered values. -/
theorem Ordered.ofList {members : List (String × Json)} (h : ∀ entry ∈ members, entry.2.Ordered) :
    Ordered (.object (Table.ofList members)) :=
  have ⟨hnames, hmembers⟩ := Table.ofList_induction h
  .object hnames hmembers

/-- What every step of a partial fold keeps holds at its end, if it has one. -/
theorem foldlM_keeps {σ τ : Type} {step : σ → τ → Option σ} {P : σ → Prop} {items : List τ}
    {start ended : σ} (hstep : ∀ item ∈ items, ∀ s s', P s → step s item = some s' → P s')
    (hstart : P start) (h : items.foldlM step start = some ended) : P ended := by
  induction items generalizing start with
  | nil =>
    cases h
    exact hstart
  | cons item rest ih =>
    rw [List.foldlM_cons] at h
    obtain ⟨next, hnext, h⟩ := Option.bind_eq_some_iff.1 h
    exact ih (fun other hother => hstep other (List.mem_cons_of_mem _ hother))
      (hstep item (List.mem_cons_self ..) start next hstart hnext) h

theorem word?_ordered {word : Text} (h : word? word = some value) : value.Ordered := by
  rw [word?] at h
  split at h
  · cases h
    exact .bool
  split at h
  · cases h
    exact .bool
  split at h
  · cases h
    exact .null
  · obtain ⟨number, -, rfl⟩ := Option.map_eq_some_iff.1 h
    exact .number

/-- A token that stands for a whole value stands for an ordered one. -/
def Token.Ordered : Token → Prop
  | .atom value => value.Ordered
  | _ => True

namespace Lexer

variable {lexer lexer' : Lexer} {tokens : List Token} {c : Char}

theorem start_ordered (h : ∀ token ∈ tokens, token.Ordered) (hstart : start tokens c = some lexer) :
    ∀ token ∈ lexer.tokens, token.Ordered := by
  rw [start] at hstart
  split at hstart
  · cases hstart
    exact h
  split at hstart
  · cases hstart
    exact h
  split at hstart
  · cases hstart
    exact h
  · obtain ⟨token, htoken, rfl⟩ := Option.map_eq_some_iff.1 hstart
    refine List.forall_mem_cons.2 ⟨?_, h⟩
    rw [punctuation?.eq_def] at htoken
    split at htoken <;> cases htoken <;> trivial

/-- Only words become tokens that stand for a whole value. -/
theorem step_ordered (h : ∀ token ∈ lexer.tokens, token.Ordered) (hstep : lexer.step c = some lexer') :
    ∀ token ∈ lexer'.tokens, token.Ordered := by
  rw [step] at hstep
  split at hstep
  case h_1 => exact start_ordered h hstep
  case h_2 =>
    split at hstep
    · cases hstep
      exact h
    · obtain ⟨value, hvalue, hstep⟩ := Option.bind_eq_some_iff.1 hstep
      exact start_ordered (List.forall_mem_cons.2 ⟨show Token.Ordered (.atom value) from
        word?_ordered hvalue, h⟩) hstep
  case h_3 =>
    split at hstep
    · cases hstep
      exact List.forall_mem_cons.2 ⟨trivial, h⟩
    split at hstep
    · cases hstep
      exact h
    split at hstep
    · cases hstep
    · cases hstep
      exact h
  case h_4 =>
    split at hstep
    · cases hstep
      exact h
    · obtain ⟨e, -, rfl⟩ := Option.map_eq_some_iff.1 hstep
      exact h
  case h_5 =>
    obtain ⟨d, -, hstep⟩ := Option.bind_eq_some_iff.1 hstep
    dsimp only at hstep
    split at hstep
    · obtain ⟨mode, -, rfl⟩ := Option.map_eq_some_iff.1 hstep
      exact h
    · cases hstep
      exact h
  case h_6 =>
    repeat' split at hstep
    all_goals
      cases hstep
      try exact h

end Lexer

theorem tokens?_ordered {text : Text} {tokens : List Token} (h : tokens? text = some tokens) :
    ∀ token ∈ tokens, token.Ordered := by
  obtain ⟨lexer, hlexer, hfinish⟩ := Option.bind_eq_some_iff.1 h
  have hordered : ∀ token ∈ lexer.tokens, token.Ordered :=
    foldlM_keeps (P := fun lexer : Lexer => ∀ token ∈ lexer.tokens, token.Ordered)
      (fun c _ lexer lexer' h hstep => Lexer.step_ordered h hstep) (fun token h => by cases h) hlexer
  rw [Lexer.finish?] at hfinish
  split at hfinish
  · cases hfinish
    exact fun token htoken => hordered token (List.mem_reverse.1 htoken)
  · obtain ⟨value, hvalue, rfl⟩ := Option.map_eq_some_iff.1 hfinish
    intro token htoken
    rcases List.mem_cons.1 (List.mem_reverse.1 htoken) with rfl | htoken
    · exact word?_ordered hvalue
    · exact hordered token htoken
  · cases hfinish

/-- What an open array or object holds so far is ordered. -/
def Open.Ordered : Open → Prop
  | .array items => ∀ item ∈ items, item.Ordered
  | .object members _ => ∀ entry ∈ members, entry.2.Ordered

/-- All that has been read so far is ordered. -/
def State.Ordered : State → Prop
  | .value stack _ => ∀ opened ∈ stack, opened.Ordered
  | .name members stack _ => (∀ entry ∈ members, entry.2.Ordered) ∧ ∀ opened ∈ stack, opened.Ordered
  | .colon members _ stack => (∀ entry ∈ members, entry.2.Ordered) ∧ ∀ opened ∈ stack, opened.Ordered
  | .afterItem items stack => (∀ item ∈ items, item.Ordered) ∧ ∀ opened ∈ stack, opened.Ordered
  | .afterMember members stack =>
    (∀ entry ∈ members, entry.2.Ordered) ∧ ∀ opened ∈ stack, opened.Ordered
  | .finished value => value.Ordered

namespace State

variable {items : List Json} {members : List (String × Json)} {stack : List Open}

theorem complete_ordered (hvalue : value.Ordered) (hstack : ∀ opened ∈ stack, opened.Ordered) :
    (complete value stack).Ordered := by
  match stack with
  | [] => exact hvalue
  | .array items :: stack =>
    obtain ⟨hitems, hstack⟩ := List.forall_mem_cons.1 hstack
    exact ⟨List.forall_mem_cons.2 ⟨hvalue, hitems⟩, hstack⟩
  | .object members key :: stack =>
    obtain ⟨hmembers, hstack⟩ := List.forall_mem_cons.1 hstack
    exact ⟨List.forall_mem_cons.2 ⟨hvalue, hmembers⟩, hstack⟩

theorem closeArray_ordered (hitems : ∀ item ∈ items, item.Ordered)
    (hstack : ∀ opened ∈ stack, opened.Ordered) : (closeArray items stack).Ordered :=
  complete_ordered (.array fun item hitem => hitems item (List.mem_reverse.1 hitem)) hstack

theorem closeObject_ordered (hmembers : ∀ entry ∈ members, entry.2.Ordered)
    (hstack : ∀ opened ∈ stack, opened.Ordered) : (closeObject members stack).Ordered :=
  complete_ordered (.ofList fun entry hentry => hmembers entry (List.mem_reverse.1 hentry)) hstack

theorem step_ordered {state state' : State} {token : Token} (htoken : token.Ordered)
    (h : state.Ordered) (hstep : state.step token = some state') : state'.Ordered := by
  rw [step.eq_def] at hstep
  split at hstep <;> cases hstep
  · exact List.forall_mem_cons.2 ⟨fun item hitem => (List.not_mem_nil hitem).elim, h⟩
  · exact ⟨fun entry hentry => (List.not_mem_nil hentry).elim, h⟩
  · exact complete_ordered .string h
  · exact complete_ordered htoken h
  · obtain ⟨hitems, hstack⟩ := List.forall_mem_cons.1 h
    exact closeArray_ordered hitems hstack
  · exact h
  · exact closeObject_ordered h.1 h.2
  · exact List.forall_mem_cons.2 h
  · exact List.forall_mem_cons.2 h
  · exact closeArray_ordered h.1 h.2
  · exact h
  · exact closeObject_ordered h.1 h.2

end State

/-- Every value that is read from a text has its members in order, each name once. -/
theorem ordered_of_parse? {source : String} (h : parse? source = some value) : value.Ordered := by
  obtain ⟨tokens, htokens, hvalue⟩ := Option.bind_eq_some_iff.1 h
  have hordered := tokens?_ordered htokens
  rw [ofTokens?] at hvalue
  split at hvalue
  · rename_i hfold
    cases hvalue
    exact foldlM_keeps (P := State.Ordered)
      (fun token htoken state state' h hstep => State.step_ordered (hordered token htoken) h hstep)
      (fun opened h => by cases h) hfold
  · cases hvalue

end Json
end BlockProgram
