import BlockProgram.Proofs.Forest.Emission
import BlockProgram.Proofs.Forest.Program
import BlockProgram.Proofs.Json.Ordered

/-!
Renaming a variable of a program. The texts of the stacks on the canvas are those of one pattern, filled
with the name of the variable; so the name is written exactly once unless the block of the variable is
part of a block that comes after a call and holds no parameters.
-/

namespace BlockProgram

open Text Pattern

section

variable {ι : Type} {P : Char → Prop} {name : ι → Text} {ws : Workspace} {g : Generator} {v : BlockId}
  {edits : ι → Edit}

/-- A stack on the canvas. -/
theorem uniform_text (halphabet : Alphabet ws g v P) (hrenames : Renames ws v name edits)
    {first? : Option BlockId} {stack : Stack} (hat : stack.At ws first?) :
    Uniform (Writes P name (Tally.chain false (stack.tallies v)))
      fun i => (stack.edit (edits i)).text g Segment.spent := by
  have hfamily (i : ι) : (stack.edit (edits i)).segments g Segment.spent = stack.family g edits i := rfl
  simp only [Stack.text, hfamily]
  rcases (emits_stack halphabet hrenames hat).code with
    ⟨htallies, hnil⟩ | ⟨first, rest, kind, shape, hcons, -, hcode⟩
  · simp only [hnil, htallies]
    exact .ok (.const (by simp))
  · simp only [hcons]
    exact hcode.text

/-- All stacks on the canvas; those without text are the same under every name. -/
theorem uniform_texts (halphabet : Alphabet ws g v P) (hrenames : Renames ws v name edits)
    {tops : List BlockId} {forest : List Stack}
    (hat : List.Forall₂ (fun top (stack : Stack) => stack.At ws (some top)) tops forest) :
    Uniform (WritesAll P name (Stack.copies v forest))
      fun i => Stack.texts g Segment.spent (forest.map (Stack.edit (edits i))) := by
  induction hat with
  | nil => exact .ok .nil
  | @cons top stack tops forest hstack _ ih =>
    simp only [List.map_cons, Stack.texts, Stack.copies, List.sum_cons]
    refine (uniform_text halphabet hrenames hstack).bind ?_
    intro texts htexts
    refine ih.bind fun more hmore => .ok ?_
    obtain ⟨empty, hempty, hzero⟩ := htexts.isEmpty
    cases empty with
    | true =>
      rw [hzero rfl, Nat.zero_add]
      refine hmore.congr ?_
      intro i hi
      rw [hempty i hi, if_pos rfl]
    | false =>
      refine (WritesAll.cons htexts hmore).congr ?_
      intro i hi
      rw [hempty i hi, if_neg (by decide)]

/-- The program, unless a custom type has no text, which does not depend on the name either. -/
theorem uniform_programOf (halphabet : Alphabet ws g v P) (hrenames : Renames ws v name edits)
    {tops : List BlockId} {forest : List Stack}
    (hat : List.Forall₂ (fun top (stack : Stack) => stack.At ws (some top)) tops forest) :
    Uniform (Writes P name (Stack.copies v forest))
      fun i => ws.programOf g Segment.spent (forest.map (Stack.edit (edits i))) := by
  have hlines : TransparentJoin P fun texts => terminate (unlines texts) :=
    (transparent_unlines halphabet.marks).comp (transparent_terminate halphabet.marks)
  have hprogram : TransparentJoin P fun texts => tidy (terminate (unlines texts)) :=
    hlines.comp (transparent_tidy halphabet.marks)
  simp only [Workspace.programOf, Stack.program]
  cases ws.blocks.toList.findSome? g.missingLiteral? with
  | some type => exact .error _
  | none =>
    refine (uniform_texts halphabet hrenames hat).bind ?_
    intro texts htexts
    have hwrites := htexts.join hprogram
    exact .ok hwrites

end

/-! ### One variable -/

section

variable {ws : Workspace} {g : Generator} {v : BlockId} {block : Block} {name : String}

/-- The name as it is, or another. -/
def nameOf (name : String) : Option String → Text
  | none => name.toList
  | some other => other.toList

/-- Leaves the name of a variable as it is, or writes another. -/
def Edit.rename (v : BlockId) : Option String → Edit
  | none => .keep
  | some other => .write v "VAR_NAME" other

theorem renames_rename (hget : ws.get? v = some block) (hkind : block.kind = .variableReference)
    (hname : block.field? "VAR_NAME" = some name) : Renames ws v (nameOf name) (Edit.rename v) := by
  refine ⟨fun i id hid => ?_, fun other hother => ?_, fun i other hother => ?_⟩
  · cases i with
    | none => rfl
    | some other =>
      funext fields
      exact if_neg hid
  · rw [hget] at hother
    cases hother
    exact hkind
  · rw [hget] at hother
    cases hother
    cases i with
    | none => rw [nameOf, String.ofList_toList]; exact hname
    | some other =>
      rw [nameOf, String.ofList_toList, Edit.rename, Edit.write, if_pos rfl]
      exact (Table.find?_insert ..).trans (if_pos rfl)

/-- The program of an edited workspace is read off the edited stacks. -/
theorem Generator.generate_edit {forest : List Stack} (hforest : ws.Forest ws.topBlocks forest)
    (change : Edit) : g.generate (ws.edit change) =
      (ws.programOf g Segment.spent (forest.map (Stack.edit change))).map String.ofList := by
  have hedited := hforest.edit change
  rw [← Workspace.topBlocks_edit ws change] at hedited
  rw [generate, Setting.program_eq_spent hedited, Workspace.programOf, Workspace.missingLiteral_edit,
    Workspace.programOf]

/-- The program as a pattern for the name of a variable. -/
theorem exists_program_pattern {P : Char → Prop} (halphabet : Alphabet ws g v P)
    {forest : List Stack} (hforest : ws.Forest ws.topBlocks forest) {code : String}
    (hcode : g.generate ws = .ok code) (hget : ws.get? v = some block)
    (hkind : block.kind = .variableReference) (hname : block.field? "VAR_NAME" = some name)
    (hplain : IsPlain name.toList) :
    ∃ p, holes p = Stack.copies v forest ∧ Spells P p ∧ code.toList = fill name.toList p ∧
      ∀ other : String, IsPlain other.toList →
        g.generate (ws.setField v "VAR_NAME" other) = .ok (String.ofList (fill other.toList p)) := by
  have hkeep := Generator.generate_edit (g := g) hforest (Edit.rename v none)
  rw [Edit.rename, Workspace.edit_keep, hcode, ← Edit.rename.eq_1 v] at hkeep
  rcases uniform_programOf halphabet (renames_rename hget hkind hname) hforest.at_eq with
    ⟨e, hfails⟩ | ⟨texts, htexts, p, hholes, hp, hfill⟩
  · dsimp only at hfails
    rw [hfails none] at hkeep
    cases hkeep
  · dsimp only at htexts
    refine ⟨p, hholes, hp, ?_, fun other hother => ?_⟩
    · rw [htexts none, hfill none hplain] at hkeep
      cases hkeep
      rw [String.toList_ofList, nameOf]
    · have hwrite := Generator.generate_edit (g := g) hforest (Edit.rename v (some other))
      rw [htexts (some other), hfill (some other) hother, Edit.rename, Workspace.edit_write] at hwrite
      exact hwrite

/-- The whole program is written in characters. -/
theorem alphabet_univ (ws : Workspace) (g : Generator) (v : BlockId) : Alphabet ws g v fun _ => True :=
  ⟨fun _ _ => trivial, fun _ _ _ _ _ => trivial, fun _ _ => trivial, fun _ _ _ _ _ => trivial,
    fun _ _ _ _ _ _ _ _ _ => trivial⟩

theorem existsUnique_toList {code name : String} :
    (∃! before, ∃ after, code = before ++ name ++ after) ↔
      ∃! before, ∃ after, code.toList = before ++ name.toList ++ after := by
  constructor
  · rintro ⟨before, ⟨after, hcode⟩, hunique⟩
    refine ⟨before.toList, ⟨after.toList, by simp [hcode]⟩, ?_⟩
    rintro other ⟨more, hother⟩
    rw [← hunique (String.ofList other) ⟨String.ofList more, ?_⟩, String.toList_ofList]
    rw [← String.toList_inj, hother]
    simp
  · rintro ⟨before, ⟨after, hcode⟩, hunique⟩
    refine ⟨String.ofList before, ⟨String.ofList after, ?_⟩, fun other ⟨more, hother⟩ => ?_⟩
    · rw [← String.toList_inj, hcode]
      simp
    · rw [← hunique other.toList ⟨more.toList, by simp [hother]⟩, String.ofList_toList]

/-- One hole in the pattern of a program is one place for the name. -/
theorem holes_eq_one_iff_place {p : Pattern} {code : String} (hfill : code.toList = fill name.toList p)
    (hother : ∀ other : String, IsPlain other.toList →
      g.generate (ws.setField v "VAR_NAME" other) = .ok (String.ofList (fill other.toList p)))
    (hplain : IsPlain name.toList) :
    holes p = 1 ↔ ∃ before after, code = before ++ name ++ after ∧
      ∀ other : String, IsPlain other.toList →
        g.generate (ws.setField v "VAR_NAME" other) = .ok (before ++ other ++ after) := by
  rw [holes_eq_one_iff]
  constructor
  · rintro ⟨before, after, hwrites⟩
    refine ⟨String.ofList before, String.ofList after, ?_, ?_⟩
    · rw [← String.toList_inj, hfill, hwrites _ hplain]
      simp
    · intro other hplain
      rw [hother other hplain, hwrites _ hplain]
      simp [String.append_assoc]
  · rintro ⟨before, after, -, hcodes⟩
    refine ⟨before.toList, after.toList, ?_⟩
    intro other hplain
    have heq := hcodes (String.ofList other) (by rwa [String.toList_ofList])
    rw [hother _ (by rwa [String.toList_ofList]), String.toList_ofList] at heq
    have htext := congrArg String.toList (Except.ok.inj heq)
    simpa using htext

/-- The name of a variable that rendering comes to is written, and at one place only, whatever the name,
unless the variable is part of a block that comes after a call and holds no parameters. If it is, the name
occurs more than once; if not, it occurs exactly once as soon as it has a character that nothing else is
written with. -/
theorem Generator.generate_writes_once_iff {value : Json} {code : String}
    (hload : Workspace.ofJson value = .ok ws) (hcode : g.generate ws = .ok code)
    (hreached : ws.Reached v) (hget : ws.get? v = some block) (hkind : block.kind = .variableReference)
    (hname : block.field? "VAR_NAME" = some name) (hplain : IsPlain name.toList) :
    ((∃ before after, code = before ++ name ++ after ∧ ∀ other : String, IsPlain other.toList →
        g.generate (ws.setField v "VAR_NAME" other) = .ok (before ++ other ++ after)) ↔
      ¬ ws.Repeated v) ∧
    (ws.Repeated v → ¬ ∃! before, ∃ after, code = before ++ name ++ after) ∧
    ∀ c ∈ name.toList, Alphabet ws g v (· ≠ c) → ¬ ws.Repeated v →
      ∃! before, ∃ after, code = before ++ name ++ after := by
  obtain ⟨forest, hforest⟩ := Workspace.forest_of_ofJson hload (List.mergeSort_perm ws.top _)
  have htops (top : BlockId) : top ∈ ws.topBlocks ↔ top ∈ ws.top := List.mem_mergeSort
  have hcounts := hforest.counts_copies htops hreached
  have hone := hcounts.one_iff trivial
  obtain ⟨p, hholes, -, hfill, hother⟩ :=
    exists_program_pattern (alphabet_univ ws g v) hforest hcode hget hkind hname hplain
  refine ⟨?_, fun hrepeated => ?_, fun c hc halphabet hrepeated => ?_⟩
  · rw [← hone, ← hholes, holes_eq_one_iff_place hfill hother hplain]
  · have hpos := hcounts.pos trivial
    have hne : Stack.copies v forest ≠ 1 := fun h => hone.1 h hrepeated
    rw [existsUnique_toList, hfill]
    exact not_existsUnique_of_holes hplain.ne_nil (by omega)
  · obtain ⟨q, hholes, hq, hfill, -⟩ :=
      exists_program_pattern halphabet hforest hcode hget hkind hname hplain
    rw [existsUnique_toList, hfill]
    exact existsUnique_of_holes hc hq (hholes.trans (hone.2 hrepeated))

end

/-! ### A call before a statement -/

/-- A saved call with a statement after it. -/
def unpairedDocument : Json :=
  .object [("blocks", .object [("blocks", .array [.object [
    ("type", .string "function_call"),
    ("inputs", .object [("FUNCTION_NAME", .object [("block", .object [
      ("type", .string "variable_reference"),
      ("fields", .object [("VAR_NAME", .string "log")])])])]),
    ("next", .object [("block", .object [
      ("type", .string "return_statement"),
      ("inputs", .object [("VALUE", .object [("block", .object [
        ("type", .string "variable_reference"),
        ("fields", .object [("VAR_NAME", .string "zq")])])])])])])]])])]

/-- The workspace that it describes. -/
def unpairedWorkspace : Workspace where
  blocks :=
    #[{ id := "b0", kind := .functionCall, inputs := [("FUNCTION_NAME", ⟨1⟩)], next := some ⟨2⟩,
        position := some ⟨.zero, .zero⟩ },
      { id := "b1", kind := .variableReference, fields := [("VAR_NAME", "log")] },
      { id := "b2", kind := .returnStatement, inputs := [("VALUE", ⟨3⟩)] },
      { id := "b3", kind := .variableReference, fields := [("VAR_NAME", "zq")] }]
  top := [⟨0⟩]

theorem unpairedWorkspace_loaded : Workspace.ofJson unpairedDocument = .ok unpairedWorkspace := by
  cbv

theorem unpairedWorkspace_code :
    Generator.generate {} unpairedWorkspace = .ok "log(res zq;\n)res zq;\n" := by
  cbv

theorem unpairedWorkspace_reached (v : BlockId) (hv : v = ⟨1⟩ ∨ v = ⟨3⟩) :
    unpairedWorkspace.Reached v := by
  refine ⟨⟨0⟩, by decide, ?_⟩
  rcases hv with rfl | rfl
  · exact .single (.inl ⟨_, rfl, "FUNCTION_NAME", by decide, rfl⟩)
  · have hnext : unpairedWorkspace.Link ⟨0⟩ ⟨2⟩ := .inr ⟨_, rfl, rfl⟩
    exact (Relation.ReflTransGen.single hnext).tail (.inl ⟨_, rfl, "VALUE", by decide, rfl⟩)

theorem unpairedWorkspace_repeated : unpairedWorkspace.Repeated ⟨3⟩ :=
  ⟨⟨0⟩, ⟨2⟩, _, _, ⟨⟨0⟩, by decide, .refl⟩, rfl, rfl, rfl, rfl, by decide,
    .inr ⟨⟨3⟩, ⟨_, rfl, "VALUE", by decide, rfl⟩, .refl⟩⟩

/-- Nothing but its name is written with the last letter of the callee. -/
theorem unpairedWorkspace_alphabet : Alphabet unpairedWorkspace {} ⟨1⟩ (· ≠ 'g') := by
  refine ⟨?_, ?_, ?_, ?_, ?_⟩
  · rintro c hc rfl
    revert hc
    decide
  · intro kind piece hpiece c hc
    have hfixed : ∀ piece ∈ kind.template.pieces, 'g' ∉ piece.fixedText := by
      cases kind with
      | custom type => simp [BlockKind.template, Template.atomic, Piece.fixedText]
      | _ => decide
    exact ne_of_mem_of_not_mem hc (hfixed piece hpiece)
  · intro c hc
    exact ne_of_mem_of_not_mem hc (by decide)
  · intro type text htext
    cases htext
  · rintro ⟨index⟩ block hget hv field text htext
    rcases index with _ | _ | _ | _ | index
    · cases hget
      cases htext
    · exact absurd rfl hv
    · cases hget
      cases htext
    · cases hget
      change List.lookup field [("VAR_NAME", "zq")] = some text at htext
      obtain ⟨before, after, hentry, -⟩ := List.lookup_eq_some_iff.1 htext
      have hmem : (field, text) ∈ [("VAR_NAME", "zq")] := by simp [hentry]
      rw [List.mem_singleton] at hmem
      cases hmem
      intro c hc
      exact ne_of_mem_of_not_mem hc (by decide)
    · cases hget

theorem unpairedWorkspace_not_repeated : ¬ unpairedWorkspace.Repeated ⟨1⟩ := by
  rintro ⟨⟨call⟩, next, callBlock, nextBlock, -, hcall, hkind, hnext, -, -, hpart⟩
  have hnext : next = ⟨2⟩ := by
    rcases call with _ | _ | _ | _ | call
    · cases hcall
      cases hnext
      rfl
    · cases hcall
      cases hkind
    · cases hcall
      cases hkind
    · cases hcall
      cases hkind
    · cases hcall
  subst hnext
  rcases hpart with heq | ⟨child, ⟨block, hget, input, hinput, hchild⟩, hreach⟩
  · cases heq
  · cases hget
    change input ∈ ["VALUE"] at hinput
    rw [List.mem_singleton] at hinput
    subst hinput
    cases hchild
    -- nothing is linked to the variable that is returned
    rcases hreach.cases_head with
      heq | ⟨other, ⟨block, hget, input, hinput, -⟩ | ⟨block, hget, hother⟩, -⟩
    · cases heq
    · cases hget
      cases hinput
    · cases hget
      cases hother

/-- The variable that is returned is written within the call and again after it; the callee is written
once. -/
theorem unpairedWorkspace_program :
    Workspace.ofJson unpairedDocument = .ok unpairedWorkspace ∧
      Generator.generate {} unpairedWorkspace = .ok "log(res zq;\n)res zq;\n" ∧
      (¬ ∃! before, ∃ after, "log(res zq;\n)res zq;\n" = before ++ "zq" ++ after) ∧
      ∃! before, ∃ after, "log(res zq;\n)res zq;\n" = before ++ "log" ++ after :=
  ⟨unpairedWorkspace_loaded, unpairedWorkspace_code,
    (Generator.generate_writes_once_iff unpairedWorkspace_loaded unpairedWorkspace_code
      (unpairedWorkspace_reached ⟨3⟩ (.inr rfl)) rfl rfl rfl
      (isPlain_of_isAlphanum (by decide) (by decide))).2.1
      unpairedWorkspace_repeated,
    (Generator.generate_writes_once_iff unpairedWorkspace_loaded unpairedWorkspace_code
      (unpairedWorkspace_reached ⟨1⟩ (.inl rfl)) rfl rfl rfl
      (isPlain_of_isAlphanum (by decide) (by decide))).2.2
      'g' (by decide) unpairedWorkspace_alphabet unpairedWorkspace_not_repeated⟩

end BlockProgram
