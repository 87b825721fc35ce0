import BlockProgram.Proofs.Host.Consistent

/-!
Custom literals in two tables. A literal is added to a registry and to a generator one after the other; the
generator refuses whatever the registry would, so either both tables come to hold it or none of them changes
(`addCustomLiteral_all_or_nothing`).

The two check other tables for a name that is taken. As long as the names in the registry are the builtin ones
and those that the generator has a text for (`Paired`), a host and a bare generator refuse the same literals
with the same error, so given the same literals they have the same program for every text (`Host.codeWith_eq`).
-/

namespace BlockProgram

/-! ### All or nothing -/

section

variable {r : Registry} {g g' : Generator} {typeName name value : String}

/-- The name can be given to a new custom literal: it is neither blank nor builtin, and neither table has it. -/
structure Addable (r : Registry) (g : Generator) (name : String) : Prop where
  not_blank : isBlankName name = false
  not_builtin : name ∉ BlockKind.builtinNames
  unregistered : name ∉ r.typeNames
  unbound : g.literal? name = none

/-- The second generator has one literal more than the first one, and there is no other difference. -/
structure Generator.Gains (g g' : Generator) (name value : String) : Prop where
  indent : g'.indent = g.indent
  entries : ∃ before after, g.literals = before ++ after ∧ g'.literals = before ++ (name, value) :: after
  gained : g'.literal? name = some value
  others : ∀ other, other ≠ name → g'.literal? other = g.literal? other

/-- Why a name is refused that cannot be given to a new custom literal. -/
def Registry.refusal (r : Registry) (name : String) : RegistrationError :=
  if isBlankName name ∧ name ∉ r.typeNames then .emptyTypeName else .duplicateType name

theorem Generator.gains_of_registerLiteral (h : g.registerLiteral name value = .ok g') :
    g.Gains g' name value := by
  obtain ⟨-, -, hunbound, rfl⟩ := registerLiteral_eq_ok_iff.1 h
  refine ⟨rfl, Table.exists_insert_eq value hunbound, ?_, fun other hother => ?_⟩
  · rw [literal?_insert, if_pos rfl]
  · rw [literal?_insert, if_neg hother]

/-- A name that the generator takes is refused by the registry only if it has it. -/
theorem addCustomLiteral_of_addable (h : Addable r g typeName) (label value : String) :
    ∃ g', g.Gains g' typeName value ∧ addCustomLiteral r g typeName label value =
      (.ok typeName, ⟨r.schemas ++ [.customLiteral typeName label]⟩, g') := by
  have hliteral : g.registerLiteral typeName value =
      .ok { g with literals := Table.insert typeName value g.literals } :=
    Generator.registerLiteral_eq_ok_iff.2 ⟨h.not_blank, h.not_builtin, h.unbound, rfl⟩
  have hregister : r.register (.customLiteral typeName label) =
      .ok ⟨r.schemas ++ [.customLiteral typeName label]⟩ :=
    Registry.register_eq_ok_iff.2 ⟨h.not_blank, h.unregistered, rfl⟩
  refine ⟨_, Generator.gains_of_registerLiteral hliteral, ?_⟩
  rw [addCustomLiteral, if_neg fun hcontains => h.unregistered (Registry.contains_iff.1 hcontains), hliteral]
  dsimp only
  rw [hregister]

/-- Any other name is refused before a table is changed. -/
theorem addCustomLiteral_of_not_addable (h : ¬Addable r g typeName) (label value : String) :
    addCustomLiteral r g typeName label value = (.error (r.refusal typeName), r, g) := by
  rw [addCustomLiteral, Registry.refusal]
  by_cases hregistered : typeName ∈ r.typeNames
  · rw [if_pos (Registry.contains_iff.2 hregistered), if_neg fun hblank => hblank.2 hregistered]
  · rw [if_neg fun hcontains => hregistered (Registry.contains_iff.1 hcontains), Generator.registerLiteral]
    cases hblank : isBlankName typeName with
    | true => simp [hregistered]
    | false =>
      -- the generator has the name, or it is builtin
      have htaken : (BlockKind.ofTypeName typeName).isBuiltin || (g.literal? typeName).isSome := by
        by_contra hfree
        rw [Bool.or_eq_true, not_or, BlockKind.isBuiltin_ofTypeName_iff, Bool.not_eq_true,
          Option.isSome_eq_false_iff, Option.isNone_iff_eq_none] at hfree
        exact h ⟨hblank, hfree.1, hregistered, hfree.2⟩
      simp [htaken]

/-- **Adding a custom literal is all or nothing.** Whatever the two tables hold, either the name is new to both of
them and neither blank nor builtin, and then the registry comes to hold one more type, at its end, and the
generator one more literal; or the name is refused, and both tables are as they were. -/
theorem addCustomLiteral_all_or_nothing (r : Registry) (g : Generator) (typeName label value : String) :
    (Addable r g typeName ∧ ∃ g', g.Gains g' typeName value ∧ addCustomLiteral r g typeName label value =
      (.ok typeName, ⟨r.schemas ++ [.customLiteral typeName label]⟩, g')) ∨
    (¬Addable r g typeName ∧
      addCustomLiteral r g typeName label value = (.error (r.refusal typeName), r, g)) := by
  by_cases h : Addable r g typeName
  · exact .inl ⟨h, addCustomLiteral_of_addable h label value⟩
  · exact .inr ⟨h, addCustomLiteral_of_not_addable h label value⟩

end

/-- A name of blanks that are no ASCII characters is refused by the second step. -/
example : addCustomLiteral {} {} "\u2003\u3000" "space" "0" = (.error .emptyTypeName, {}, {}) := by
  cbv

/-! ### A host and a bare generator -/

/-- A custom literal: its type, what the editor shows, and its text. -/
structure Literal where
  typeName : String
  label : String
  value : String
  deriving DecidableEq, Repr

/-- The generator with one more literal. -/
def Generator.withLiteral (g : Generator) (literal : Literal) : Except RegistrationError Generator :=
  g.registerLiteral literal.typeName literal.value

namespace Host

/-- The host with one more literal. -/
def withLiteral (host : Host) (literal : Literal) : Except RegistrationError Host :=
  accepted (host.addLiteral literal.typeName literal.label literal.value)

/-- A new host with an indent on which the builtin types are defined. -/
def defined (indent : Text) : Except RegistrationError Host :=
  accepted (withIndent indent).defineBuiltins

/-- A new host with an indent, the builtin types and custom literals. -/
def equipped (indent : Text) (literals : List Literal) : Except RegistrationError Host := do
  literals.foldlM withLiteral (← defined indent)

/-- The program that such a host has for a saved workspace. -/
def codeWith (indent : Text) (literals : List Literal) (source : String) : Except HostError String := do
  let host ← (equipped indent literals).mapError .registration
  (host.generate source).2

end Host

/-- The program that a bare generator with an indent and custom literals has for a saved workspace. -/
def Generator.codeWith (indent : Text) (literals : List Literal) (source : String) :
    Except HostError String := do
  let g ← (literals.foldlM withLiteral { indent }).mapError HostError.registration
  let ws ← (Workspace.parse source).mapError HostError.load
  (g.generate ws).mapError HostError.generate

/-- The host has the generator, and its types are the builtin ones and those that the generator has a
text for. -/
structure Paired (host : Host) (g : Generator) : Prop where
  bound : host.generator = some g
  named : host.registry.WellNamed
  names : ∀ name, name ∈ host.registry.typeNames ↔
    name ∈ BlockKind.builtinNames ∨ (g.literal? name).isSome = true

/-- Both are refused for the same reason, or both succeed and the results are paired. -/
inductive PairedResult : Except RegistrationError Host → Except RegistrationError Generator → Prop
  | refused (e : RegistrationError) : PairedResult (.error e) (.error e)
  | added {host : Host} {g : Generator} (paired : Paired host g) : PairedResult (.ok host) (.ok g)

namespace Paired

variable {host : Host} {g : Generator}

theorem boundGenerator (h : Paired host g) : host.boundGenerator = g := by
  rw [Host.boundGenerator, h.bound, Option.getD_some]

/-- A name that is in the registry is refused by the generator. -/
theorem withLiteral_of_mem (h : Paired host g) {literal : Literal}
    (hmem : literal.typeName ∈ host.registry.typeNames) :
    g.withLiteral literal = .error (.duplicateType literal.typeName) := by
  rw [Generator.withLiteral, Generator.registerLiteral, if_neg (by simp [h.named.not_blank _ hmem]), if_pos]
  rw [Bool.or_eq_true, BlockKind.isBuiltin_ofTypeName_iff]
  exact (h.names _).1 hmem

/-- A literal with a new name comes into the registry and the generator. -/
theorem register (h : Paired host g) {literal : Literal} {g' : Generator} {r : Registry}
    (hg : g.withLiteral literal = .ok g')
    (hr : host.registry.register (.customLiteral literal.typeName literal.label) = .ok r) :
    Paired ⟨r, some g'⟩ g' := by
  refine ⟨rfl, h.named.register hr, fun name => ?_⟩
  obtain ⟨-, -, -, rfl⟩ := Generator.registerLiteral_eq_ok_iff.1 hg
  obtain ⟨-, -, rfl⟩ := Registry.register_eq_ok_iff.1 hr
  rw [Generator.literal?_insert, Registry.typeNames, List.map_append, List.mem_append, List.map_singleton,
    List.mem_singleton]
  change (name ∈ host.registry.typeNames ∨ name = literal.typeName) ↔ _
  rw [h.names]
  by_cases hname : name = literal.typeName
  · simp [hname]
  · simp [hname]

/-- A literal is refused by neither or by both. -/
theorem withLiteral (h : Paired host g) (literal : Literal) :
    PairedResult (host.withLiteral literal) (g.withLiteral literal) := by
  rw [Host.withLiteral, Host.addLiteral, addCustomLiteral, h.boundGenerator]
  cases hcontains : host.registry.contains literal.typeName with
  | true =>
    rw [h.withLiteral_of_mem (Registry.contains_iff.1 hcontains)]
    exact .refused _
  | false =>
    have hnew : literal.typeName ∉ host.registry.typeNames := by
      rw [← Registry.contains_iff, hcontains]
      exact Bool.false_ne_true
    cases hg : g.withLiteral literal with
    | error e =>
      rw [show g.registerLiteral literal.typeName literal.value = _ from hg]
      exact .refused e
    | ok g' =>
      obtain ⟨hblank, -⟩ := Generator.registerLiteral_eq_ok_iff.1 hg
      have hr : host.registry.register (.customLiteral literal.typeName literal.label) =
          .ok ⟨host.registry.schemas ++ [.customLiteral literal.typeName literal.label]⟩ :=
        Registry.register_eq_ok_iff.2 ⟨hblank, hnew, rfl⟩
      rw [show g.registerLiteral literal.typeName literal.value = _ from hg]
      dsimp only
      rw [hr]
      exact .added (h.register hg hr)

/-- Literals that are added one after the other are refused by neither or by both. -/
theorem withLiterals (h : Paired host g) (literals : List Literal) :
    PairedResult (literals.foldlM Host.withLiteral host) (literals.foldlM Generator.withLiteral g) := by
  induction literals generalizing host g with
  | nil => exact .added h
  | cons literal rest ih =>
    rw [List.foldlM_cons, List.foldlM_cons]
    have hfirst := h.withLiteral literal
    revert hfirst
    generalize host.withLiteral literal = host', g.withLiteral literal = g'
    intro hfirst
    cases hfirst with
    | refused e => exact .refused e
    | added paired => exact ih paired

end Paired

/-- A new host comes to hold the builtin types. -/
theorem Host.defined_eq (indent : Text) :
    defined indent = .ok ⟨({} : Registry).withBuiltins, some { indent }⟩ := by
  have hnone : ∀ name ∈ ({} : Registry).typeNames, name ∉ BlockKind.builtinNames :=
    fun name hname => by cases hname
  have hnew : ¬(withIndent indent).registry.contains marker.typeName = true := Bool.false_ne_true
  have hregister : (withIndent indent).registry.registerBuiltins = (({} : Registry).withBuiltins, .ok ()) :=
    Registry.registerBuiltins_of_none hnone
  rw [defined, defineBuiltins, if_neg hnew, hregister]
  rfl

theorem paired_builtins (indent : Text) :
    Paired ⟨({} : Registry).withBuiltins, some { indent }⟩ { indent } where
  bound := rfl
  named := Registry.wellNamed_empty.withBuiltins fun name hname => by cases hname
  names name := by
    rw [Registry.typeNames_withBuiltins]
    exact (or_iff_left_of_imp fun hliteral => by cases hliteral).symm

theorem Host.paired_equipped (indent : Text) (literals : List Literal) :
    PairedResult (equipped indent literals) (literals.foldlM Generator.withLiteral { indent }) := by
  rw [equipped, defined_eq]
  exact (paired_builtins indent).withLiterals literals

/-- A host and a bare generator with the same literals have the same program, and fail for the same
reason. -/
theorem Host.codeWith_eq (indent : Text) (literals : List Literal) (source : String) :
    codeWith indent literals source = Generator.codeWith indent literals source := by
  rw [codeWith, Generator.codeWith]
  have hequipped := paired_equipped indent literals
  revert hequipped
  generalize equipped indent literals = host, literals.foldlM Generator.withLiteral { indent } = g
  intro hequipped
  cases hequipped with
  | refused e => rfl
  | @added host g paired =>
    show (host.generate source).2 =
      ((Workspace.parse source).mapError HostError.load >>= fun ws => (g.generate ws).mapError .generate)
    rw [generate, paired.boundGenerator]
    cases Workspace.parse source <;> rfl

end BlockProgram
