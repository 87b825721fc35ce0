import BlockProgram.Schema.Registry
import Mathlib

/-!
What a registry comes to hold. A type is registered exactly if its name is neither blank nor taken, and
it is put behind the types that are there. So the names of a registry that was filled type by type are
never blank and never stand twice, and the builtin types, whose own names are of that form, can all be
registered as long as none of them is.
-/

namespace BlockProgram

/-! ### Builtin names -/

namespace BlockKind

/-- The type names of the builtin kinds, in the order in which they are registered. -/
def builtinNames : List String :=
  builtins.map typeName

theorem nodup_builtinNames : builtinNames.Nodup := by
  decide

theorem not_blank_of_builtin : ∀ kind ∈ builtins, isBlankName kind.typeName = false := by
  decide +kernel

theorem isBuiltin_of_mem : ∀ kind ∈ builtins, kind.isBuiltin = true := by
  decide

/-- The names of builtin kinds are those that do not make a custom literal. -/
theorem isBuiltin_ofTypeName_iff {name : String} :
    (ofTypeName name).isBuiltin = true ↔ name ∈ builtinNames := by
  rw [ofTypeName, builtinNames, List.mem_map]
  cases hfind : builtins.find? fun kind => kind.typeName = name with
  | none =>
    have hnone := List.find?_eq_none.1 hfind
    simp only [decide_eq_true_eq] at hnone
    refine ⟨fun h => (Bool.false_ne_true h).elim, ?_⟩
    rintro ⟨kind, hkind, hname⟩
    exact absurd hname (hnone kind hkind)
  | some kind =>
    have hkind := List.mem_of_find?_eq_some hfind
    refine ⟨fun _ => ⟨kind, hkind, by simpa using List.find?_some hfind⟩, fun _ => ?_⟩
    exact isBuiltin_of_mem kind hkind

end BlockKind

theorem BlockSchema.typeName_ofKind (kind : BlockKind) : (ofKind kind).typeName = kind.typeName := by
  cases kind <;> rfl

/-! ### Registered names -/

namespace Registry

variable {r r' : Registry} {schema : BlockSchema} {name : String}

theorem contains_iff : r.contains name = true ↔ name ∈ r.typeNames := by
  rw [contains, get?, List.find?_isSome, typeNames, List.mem_map]
  simp only [decide_eq_true_eq]

/-- A type is registered exactly if its name is neither blank nor taken. -/
theorem register_eq_ok_iff : r.register schema = .ok r' ↔
    isBlankName schema.typeName = false ∧ schema.typeName ∉ r.typeNames ∧
      r' = ⟨r.schemas ++ [schema]⟩ := by
  rw [register, ← contains_iff]
  cases hblank : isBlankName schema.typeName with
  | true => simp
  | false =>
    cases hcontains : r.contains schema.typeName with
    | true => simp
    | false => simp [eq_comm]

/-- No name is blank, and none stands twice. -/
structure WellNamed (r : Registry) : Prop where
  not_blank : ∀ name ∈ r.typeNames, isBlankName name = false
  nodup : r.typeNames.Nodup

theorem wellNamed_empty : ({} : Registry).WellNamed :=
  ⟨(fun _ h => by cases h), .nil⟩

/-- Types with new names that are not blank. -/
theorem WellNamed.append (h : r.WellNamed) {schemas : List BlockSchema}
    (hblank : ∀ schema ∈ schemas, isBlankName schema.typeName = false)
    (hnew : ∀ schema ∈ schemas, schema.typeName ∉ r.typeNames)
    (hnodup : (schemas.map BlockSchema.typeName).Nodup) :
    (⟨r.schemas ++ schemas⟩ : Registry).WellNamed := by
  refine ⟨fun name hname => ?_, ?_⟩
  · rw [typeNames, List.map_append, List.mem_append] at hname
    rcases hname with hname | hname
    · exact h.not_blank name hname
    · obtain ⟨schema, hschema, rfl⟩ := List.mem_map.1 hname
      exact hblank schema hschema
  · rw [typeNames, List.map_append, List.nodup_append]
    refine ⟨h.nodup, hnodup, ?_⟩
    rintro name hname _ hother rfl
    obtain ⟨schema, hschema, rfl⟩ := List.mem_map.1 hother
    exact hnew schema hschema hname

theorem WellNamed.register (h : r.WellNamed) (hregister : r.register schema = .ok r') :
    r'.WellNamed := by
  obtain ⟨hblank, hnew, rfl⟩ := register_eq_ok_iff.1 hregister
  exact h.append (by simpa using hblank) (by simpa using hnew) (List.nodup_singleton _)

/-! ### Registering the builtin types -/

/-- Kinds with new names that are not blank are all registered, in their order. -/
theorem registerKinds_of_new {kinds : List BlockKind}
    (hblank : ∀ kind ∈ kinds, isBlankName kind.typeName = false)
    (hnew : ∀ kind ∈ kinds, kind.typeName ∉ r.typeNames)
    (hnodup : (kinds.map BlockKind.typeName).Nodup) :
    r.registerKinds kinds = (⟨r.schemas ++ kinds.map BlockSchema.ofKind⟩, .ok ()) := by
  induction kinds generalizing r with
  | nil => rw [registerKinds, List.map_nil, List.append_nil]
  | cons kind rest ih =>
    rw [List.map_cons, List.nodup_cons] at hnodup
    have hfirst : r.register (.ofKind kind) = .ok ⟨r.schemas ++ [.ofKind kind]⟩ := by
      refine register_eq_ok_iff.2 ⟨?_, ?_, rfl⟩
      · rw [BlockSchema.typeName_ofKind]
        exact hblank kind (List.mem_cons_self ..)
      · rw [BlockSchema.typeName_ofKind]
        exact hnew kind (List.mem_cons_self ..)
    have hrest : ∀ other ∈ rest,
        other.typeName ∉ (⟨r.schemas ++ [.ofKind kind]⟩ : Registry).typeNames := by
      intro other hother hmem
      rw [typeNames, List.map_append, List.mem_append] at hmem
      rcases hmem with hmem | hmem
      · exact hnew other (List.mem_cons_of_mem _ hother) hmem
      · rw [List.map_singleton, List.mem_singleton, BlockSchema.typeName_ofKind] at hmem
        exact hnodup.1 (hmem ▸ List.mem_map_of_mem hother)
    rw [registerKinds, hfirst]
    dsimp only
    rw [ih (fun other hother => hblank other (List.mem_cons_of_mem _ hother)) hrest hnodup.2,
      List.map_cons, List.append_assoc, List.singleton_append]

/-- The registry with the builtin types behind its own. -/
def withBuiltins (r : Registry) : Registry :=
  ⟨r.schemas ++ BlockKind.builtins.map BlockSchema.ofKind⟩

theorem typeNames_withBuiltins (r : Registry) :
    r.withBuiltins.typeNames = r.typeNames ++ BlockKind.builtinNames := by
  rw [withBuiltins, typeNames, List.map_append, List.map_map, BlockKind.builtinNames]
  congr 1

/-- As long as none of the builtin types is registered, all of them can be. -/
theorem registerBuiltins_of_none (h : ∀ name ∈ r.typeNames, name ∉ BlockKind.builtinNames) :
    r.registerBuiltins = (r.withBuiltins, .ok ()) :=
  registerKinds_of_new BlockKind.not_blank_of_builtin
    (fun _ hkind hmem => h _ hmem (List.mem_map_of_mem hkind)) BlockKind.nodup_builtinNames

theorem WellNamed.withBuiltins (hnamed : r.WellNamed)
    (h : ∀ name ∈ r.typeNames, name ∉ BlockKind.builtinNames) : r.withBuiltins.WellNamed := by
  refine hnamed.append (fun schema hschema => ?_) (fun schema hschema hmem => ?_) ?_
  · obtain ⟨kind, hkind, rfl⟩ := List.mem_map.1 hschema
    rw [BlockSchema.typeName_ofKind]
    exact BlockKind.not_blank_of_builtin kind hkind
  · obtain ⟨kind, hkind, rfl⟩ := List.mem_map.1 hschema
    rw [BlockSchema.typeName_ofKind] at hmem
    exact h _ hmem (List.mem_map_of_mem hkind)
  · rw [List.map_map]
    exact BlockKind.nodup_builtinNames

end Registry
end BlockProgram
