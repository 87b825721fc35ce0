import BlockProgram.Proofs.Markup.ReadBack
import BlockProgram.Proofs.Schema.Registry
import BlockProgram.Toolbox

/-!
The default toolbox offers what is registered. Its element can be written and read back, whatever stands
in the names of the types, so the text of the toolbox offers the types that the element offers: those of
each category in the order of their registration, the categories in their fixed order. Since no type is
registered twice and every type has one category, each registered type is offered once.
-/

namespace BlockProgram

/-! ### Registries filled type by type -/

namespace Registry

/-- Types that are all registered stand behind those that were there, and names stay proper. -/
theorem of_registered {schemas : List BlockSchema} {r r' : Registry}
    (h : schemas.foldlM register r = .ok r') :
    r'.schemas = r.schemas ++ schemas ∧ (r.WellNamed → r'.WellNamed) := by
  induction schemas generalizing r with
  | nil =>
    obtain rfl := Except.ok.inj h
    exact ⟨(List.append_nil _).symm, id⟩
  | cons schema rest ih =>
    rw [List.foldlM_cons] at h
    cases hregister : r.register schema with
    | error e => rw [hregister] at h; cases h
    | ok next =>
      rw [hregister] at h
      obtain ⟨hschemas, hnamed⟩ := ih h
      refine ⟨?_, fun hfirst => hnamed (hfirst.register hregister)⟩
      obtain ⟨-, -, rfl⟩ := register_eq_ok_iff.1 hregister
      rw [hschemas, List.append_assoc, List.singleton_append]

end Registry

/-! ### Types grouped by category -/

/-- Grouping types by category only changes their order. -/
theorem Category.perm_grouped (schemas : List BlockSchema) :
    (all.flatMap fun category => schemas.filter fun schema => schema.category = category).Perm
      schemas := by
  rw [List.perm_iff_count]
  intro schema
  have hcount : all.map (List.count schema ∘ fun category =>
      schemas.filter fun schema => schema.category = category) =
        all.map fun category => if schema.category = category then schemas.count schema else 0 := by
    refine List.map_congr_left fun category _ => ?_
    rw [Function.comp_apply]
    split
    · next hcategory => exact List.count_filter (by simpa using hcategory)
    · next hcategory =>
      refine List.count_eq_zero.2 fun hmem => hcategory ?_
      exact of_decide_eq_true (List.mem_filter.1 hmem).2
  rw [List.count_flatMap, hcount]
  cases schema.category <;> simp [all]

namespace Toolbox

/-! ### The element of the default toolbox -/

open Markup

/-- The text of a number holds digits only. -/
theorem isAllowed_of_mem_repr {n : Nat} : ∀ c ∈ (toString n).toList, isAllowed .first c = true := by
  intro c hc
  have hdigit : c.isDigit = true := by
    rw [Nat.toString_eq_repr, Nat.toList_repr] at hc
    exact Nat.isDigit_of_mem_toDigits (by decide) (by decide) hc
  have hrange : 48 ≤ c.toNat ∧ c.toNat ≤ 57 := by
    simpa [Char.isDigit, UInt32.le_iff_toNat_le] using hdigit
  simp [isAllowed, inRanges]
  omega

/-- Attributes whose names are given: only what their values hold is open. -/
theorem writableAttributes_of_names {attributes : List (String × String)} (names : List String)
    (hnames : attributes.map Prod.fst = names)
    (hcheck : names.all (fun name => isSimpleName name && name ≠ "xmlns") = true)
    (hnodup : names.Nodup) (hfew : names.length ≤ 2)
    (hallowed : ∀ attr ∈ attributes, ∀ c ∈ attr.2.toList, isAllowed .first c = true) :
    WritableAttributes attributes := by
  subst hnames
  simp only [List.all_eq_true, Bool.and_eq_true, decide_eq_true_eq] at hcheck
  refine ⟨fun attr hattr => (hcheck _ (List.mem_map_of_mem hattr)).1,
    fun attr hattr => (hcheck _ (List.mem_map_of_mem hattr)).2, hallowed, hnodup, ?_⟩
  rw [List.length_map] at hfew
  exact Nat.le_trans hfew (Nat.le_add_left 2 65535)

/-- The element that offers a block type. -/
theorem writable_blockElement {schema : BlockSchema}
    (hallowed : ∀ c ∈ schema.typeName.toList, isAllowed .first c = true) :
    Writable (blockElement schema) := by
  refine .mk (by decide) (writableAttributes_of_names ["type"] rfl (by decide) (by decide)
    (by decide) ?_) (by simp)
  simpa only [List.forall_mem_singleton] using hallowed

theorem allowed_label (category : Category) : category.label.toList.all (isAllowed .first) = true := by
  cases category <;> decide

/-- The element of a category with types. -/
theorem writable_categoryElement {category : Category} {schemas : List BlockSchema} {element : Element}
    (hallowed : ∀ schema ∈ schemas, ∀ c ∈ schema.typeName.toList, isAllowed .first c = true)
    (helement : categoryElement? category schemas = some element) : Writable element := by
  obtain ⟨first, -, rfl⟩ := Option.map_eq_some_iff.1 helement
  refine .mk (by decide) (writableAttributes_of_names ["colour", "name"] rfl (by decide)
    (by decide) (by decide) ?_) ?_
  · rw [List.forall_mem_cons, List.forall_mem_singleton]
    exact ⟨isAllowed_of_mem_repr, List.all_eq_true.1 (allowed_label category)⟩
  · intro child hchild
    obtain ⟨schema, hschema, rfl⟩ := List.mem_map.1 hchild
    exact writable_blockElement (hallowed schema hschema)

theorem writable_element {r : Registry}
    (hallowed : ∀ schema ∈ r.schemas, ∀ c ∈ schema.typeName.toList, isAllowed .first c = true) :
    Writable (element r) := by
  have hvalues : ["toolbox", "display: none"].all (·.toList.all (isAllowed .first)) = true := by decide
  simp only [List.all_eq_true] at hvalues
  refine .mk (by decide) (writableAttributes_of_names ["id", "style"] rfl (by decide)
    (by decide) (by decide) ?_) ?_
  · rw [List.forall_mem_cons, List.forall_mem_singleton]
    exact ⟨hvalues "toolbox" (by simp), hvalues "display: none" (by simp)⟩
  · intro child hchild
    obtain ⟨category, -, helement⟩ := List.mem_filterMap.1 hchild
    exact writable_categoryElement
      (fun schema hschema => hallowed schema (List.mem_filter.1 hschema).1) helement

/-! ### What it offers -/

theorem offeredAll_eq_flatMap (elements : List Element) :
    offeredAll elements = elements.flatMap offered := by
  induction elements with
  | nil => rfl
  | cons element rest ih => rw [offeredAll, List.flatMap_cons, ih]

theorem offered_blockElement (schema : BlockSchema) :
    offered (blockElement schema) = [schema.typeName] := by
  rw [blockElement, offered, if_pos rfl, offeredAll]
  simp

/-- A category offers its types in their order, and none when there is no element for it. -/
theorem offered_categoryElement (category : Category) (schemas : List BlockSchema) :
    ((categoryElement? category schemas).elim [] offered) = schemas.map BlockSchema.typeName := by
  cases schemas with
  | nil => rfl
  | cons first rest =>
    have hblocks (schemas : List BlockSchema) :
        offeredAll (schemas.map blockElement) = schemas.map BlockSchema.typeName := by
      simp only [offeredAll_eq_flatMap, List.flatMap_map, offered_blockElement,
        ← List.map_eq_flatMap]
    rw [categoryElement?, List.head?_cons, Option.map_some, Option.elim_some, offered,
      if_neg (by decide), List.nil_append, hblocks]

theorem offered_element (r : Registry) :
    offered (element r) =
      Category.all.flatMap fun category => (schemasOf r category).map BlockSchema.typeName := by
  rw [element, offered, if_neg (by decide), List.nil_append, offeredAll_eq_flatMap]
  generalize Category.all = categories
  induction categories with
  | nil => rfl
  | cons category rest ih =>
    rw [List.flatMap_cons, ← offered_categoryElement category, ← ih, List.filterMap_cons]
    cases categoryElement? category (schemasOf r category) with
    | none => rfl
    | some element => rw [List.flatMap_cons]; rfl

/-! ### What its text offers -/

/-- The text of a registry's default toolbox can be read, and it offers the types of the registry. -/
theorem blockTypes_of_allowed {r : Registry}
    (hallowed : ∀ schema ∈ r.schemas, ∀ c ∈ schema.typeName.toList, isAllowed .first c = true) :
    blockTypes (text r) = .ok
      (Category.all.flatMap fun category => (schemasOf r category).map BlockSchema.typeName) := by
  rw [blockTypes, text, parse?_write (writable_element hallowed)]
  exact congrArg Except.ok (offered_element r)

/-- The default toolbox of types that were all registered, one after the other: it can be read, and it
offers the types category by category, in each in the order of their registration. These are the names
of all registered types, each once. -/
theorem blockTypes_text {schemas : List BlockSchema} {r : Registry}
    (hregistered : schemas.foldlM Registry.register {} = .ok r)
    (hallowed : ∀ schema ∈ schemas, ∀ c ∈ schema.typeName.toList, isAllowed .first c = true) :
    ∃ names, blockTypes (text r) = .ok names ∧
      names = (Category.all.flatMap fun category =>
        (schemas.filter fun schema => schema.category = category).map BlockSchema.typeName) ∧
      names.Perm r.typeNames ∧ names.Nodup := by
  obtain ⟨hbehind, hnamed⟩ := Registry.of_registered hregistered
  have hschemas : r.schemas = schemas := by
    rw [hbehind]
    rfl
  have hperm : (Category.all.flatMap fun category =>
      (schemas.filter fun schema => schema.category = category).map BlockSchema.typeName).Perm
        r.typeNames := by
    rw [← List.map_flatMap, Registry.typeNames, hschemas]
    exact (Category.perm_grouped schemas).map _
  refine ⟨_, blockTypes_of_allowed (hschemas ▸ hallowed), ?_, ?_, ?_⟩
  · simp only [schemasOf, hschemas]
  · simpa only [schemasOf, hschemas] using hperm
  · simpa only [schemasOf, hschemas] using hperm.nodup_iff.2 (hnamed Registry.wellNamed_empty).nodup

/-- Types whose names look like markup, not in the order of their categories. -/
def markupTypes : List BlockSchema :=
  [{ typeName := "a <b> &amp; c", message := "", colour := 20, category := .math },
    { typeName := "]]>/\"'", message := "", colour := 160, category := .values },
    { typeName := "<!-- -->", message := "", colour := 230, category := .math }]

theorem blockTypes_markupTypes :
    markupTypes.foldlM Registry.register {} = .ok ⟨markupTypes⟩ ∧
      (∀ schema ∈ markupTypes, ∀ c ∈ schema.typeName.toList, isAllowed .first c = true) ∧
      blockTypes (text ⟨markupTypes⟩) = .ok ["]]>/\"'", "a <b> &amp; c", "<!-- -->"] := by
  have hregistered : markupTypes.foldlM Registry.register {} = .ok ⟨markupTypes⟩ := by
    decide +kernel
  have hallowed : markupTypes.all (·.typeName.toList.all (isAllowed .first)) = true := by decide
  simp only [List.all_eq_true] at hallowed
  obtain ⟨names, hread, hnames, -⟩ := blockTypes_text hregistered hallowed
  refine ⟨hregistered, hallowed, ?_⟩
  rw [hread, hnames]
  rfl

end Toolbox
end BlockProgram
