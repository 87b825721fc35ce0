import BlockProgram.Host.Editor
import BlockProgram.Proofs.Json.Ordered
import BlockProgram.Proofs.Schema.Registry

/-!
What holds of a host however it is used. The two tables of a host have rules of their own: the registry
refuses names that are blank or taken, the generator also those of builtin types. Some operations change
one table, some both, and some stop half way, but none of them parts the builtin types from each other
or registers a custom type that the generator cannot render:

    registry     custom types, each with a literal    [ all builtin types ]    more custom types
    generator    the literals of these types, and of others

`Consistent` says so, each operation keeps it (`Consistent.perform`), and so does a run of any length. On
such a host the builtin types can always be defined, and whether an editor is mounted is for the page to
say: no error is left but its own (`Mounts`).
-/

namespace BlockProgram

/-! ### Operations -/

namespace Host

open EditorEnvironment

/-- An operation on a host. -/
inductive Operation where
  | define
  | bind
  /-- Gives a custom type its text in the bound generator alone. -/
  | registerLiteral (typeName value : String)
  | addLiteral (typeName label value : String)
  /-- Adds a literal to the bound generator and to another registry than the host's, as a copy of that
  registry is. -/
  | addLiteralAside (registry : Registry) (typeName label value : String)
  /-- Mounts an editor into a page of any kind. -/
  | mount {Env : Type} [EditorEnvironment Env] (env : Env) (container : Container (PageElement Env))
    (toolbox? : Option (EditorToolbox (PageElement Env)))
  | generate (source : String)
  | definitions
  /-- Goes on with a copy of the host. -/
  | copy

/-- The host after an operation, whether that succeeded or not. -/
def perform (host : Host) : Operation → Host
  | .define => host.defineBuiltins.1
  | .bind => host.bind
  | .registerLiteral typeName value => (host.registerLiteral typeName value).1
  | .addLiteral typeName label value => (host.addLiteral typeName label value).1
  | .addLiteralAside registry typeName label value =>
    { host with
      generator := some (addCustomLiteral registry host.boundGenerator typeName label value).2.2 }
  | @Operation.mount _ _ env container toolbox? => (host.mountIn env container toolbox?).1
  | .generate source => (host.generate source).1
  | .definitions => host.definitions.1
  | .copy => host

/-- Some operations, one after the other, make the second host of the first one. -/
inductive Reaches (host : Host) : Host → Prop where
  | refl : Reaches host host
  | perform {later} (h : Reaches host later) (operation : Operation) :
    Reaches host (later.perform operation)

/-- The hosts that there are at first: an empty one, and those that have a generator with an indent. -/
inductive IsNew : Host → Prop where
  | empty : IsNew {}
  | withIndent (indent : Text) : IsNew (.withIndent indent)

/-- A host that operations have made of a new one. -/
def Reachable (host : Host) : Prop :=
  ∃ first, IsNew first ∧ first.Reaches host

/-- What holds of every reachable host. -/
structure Consistent (host : Host) : Prop where
  /-- Registered names are not blank, and none stands twice. -/
  named : host.registry.WellNamed
  /-- Either no builtin type is registered, or all of them are, in a row and in their order. -/
  builtins : (∀ name ∈ host.registry.typeNames, name ∉ BlockKind.builtinNames) ∨
    ∃ before after, host.registry.typeNames = before ++ BlockKind.builtinNames ++ after
  /-- Every other registered type has a literal in the bound generator. -/
  bound : ∀ name ∈ host.registry.typeNames, name ∉ BlockKind.builtinNames →
    ∃ g, host.generator = some g ∧ (g.literal? name).isSome = true

/-! ### Pages -/

section

variable {Env : Type} [EditorEnvironment Env] (host : Host) (env : Env)
  (container : Container (PageElement Env)) (toolbox? : Option (EditorToolbox (PageElement Env)))

/-- What a page answers to the host, its builtin types defined, that is to mount an editor into an element. -/
def pageAnswer (element : PageElement Env) : Except (List String) (MountedEditor Env) :=
  (inject env element host.defineBuiltins.1.registry (toolbox env toolbox?).1 {}).2

/-- Mounting an editor leaves the second host of the first one, and gives the result, where the host itself
does all it has to: the page has the container or not, and mounts the editor or refuses it. -/
inductive Mounts : Host → Except HostError (Option (MountedEditor Env)) → Prop where
  | nowhere {notice : Notice} (missing : locate env container = .error notice) : Mounts host (.ok none)
  | mounted {element : PageElement Env} {editor : MountedEditor Env}
    (found : locate env container = .ok element)
    (accepted : host.pageAnswer env toolbox? element = .ok editor) :
    Mounts host.defineBuiltins.1.bind (.ok (some editor))
  | refused {element : PageElement Env} {texts : List String}
    (found : locate env container = .ok element)
    (denied : host.pageAnswer env toolbox? element = .error texts) :
    Mounts host.defineBuiltins.1.bind (.error (.environment texts))

end

end Host

/-! ### Literals of a generator -/

namespace Generator

variable {g g' : Generator} {name value : String}

/-- A literal is registered exactly if its name is neither blank nor builtin and has no text yet. -/
theorem registerLiteral_eq_ok_iff : g.registerLiteral name value = .ok g' ↔
    isBlankName name = false ∧ name ∉ BlockKind.builtinNames ∧ g.literal? name = none ∧
      g' = { g with literals := Table.insert name value g.literals } := by
  rw [registerLiteral, ← BlockKind.isBuiltin_ofTypeName_iff]
  cases isBlankName name with
  | true => simp
  | false =>
    cases (BlockKind.ofTypeName name).isBuiltin with
    | true => simp
    | false => cases g.literal? name <;> simp [eq_comm]

/-- Every type with a text in the first generator has one in the second. -/
def Extends (g g' : Generator) : Prop :=
  ∀ name, (g.literal? name).isSome = true → (g'.literal? name).isSome = true

theorem Extends.refl (g : Generator) : g.Extends g :=
  fun _ h => h

theorem literal?_insert (g : Generator) (name other value : String) :
    ({ g with literals := Table.insert name value g.literals } : Generator).literal? other =
      if other = name then some value else g.literal? other :=
  Table.find?_insert name other value g.literals

theorem extends_registerLiteral (h : g.registerLiteral name value = .ok g') :
    g.Extends g' ∧ (g'.literal? name).isSome = true := by
  obtain ⟨-, -, -, rfl⟩ := registerLiteral_eq_ok_iff.1 h
  refine ⟨fun other hother => ?_, ?_⟩
  · rw [literal?_insert]
    split
    · rfl
    · exact hother
  · rw [literal?_insert, if_pos rfl]
    rfl

end Generator

/-- What becomes of the tables when a custom literal is added: the generator keeps its literals, and the
registry stays as it is or comes to hold one more custom type, of which the generator has the text. -/
theorem addCustomLiteral_tables (r : Registry) (g : Generator) (typeName label value : String) :
    g.Extends (addCustomLiteral r g typeName label value).2.2 ∧
      ((addCustomLiteral r g typeName label value).2.1 = r ∨
        typeName ∉ BlockKind.builtinNames ∧
        ((addCustomLiteral r g typeName label value).2.2.literal? typeName).isSome = true ∧
        r.register (.customLiteral typeName label) =
          .ok (addCustomLiteral r g typeName label value).2.1) := by
  rw [addCustomLiteral]
  split
  · exact ⟨.refl g, .inl rfl⟩
  cases hliteral : g.registerLiteral typeName value with
  | error e => exact ⟨.refl g, .inl rfl⟩
  | ok g' =>
    obtain ⟨hextends, hsome⟩ := Generator.extends_registerLiteral hliteral
    cases hregister : r.register (.customLiteral typeName label) with
    | error e => exact ⟨hextends, .inl rfl⟩
    | ok r' =>
      exact ⟨hextends, .inr ⟨(Generator.registerLiteral_eq_ok_iff.1 hliteral).2.1, hsome, rfl⟩⟩

/-! ### One operation -/

namespace Host

open EditorEnvironment

variable {host later : Host} {g : Generator}

theorem IsNew.consistent (h : IsNew host) : host.Consistent := by
  have hregistry : host.registry = {} := by
    cases h <;> rfl
  have hnone : host.registry.typeNames = [] := by
    rw [hregistry]
    rfl
  refine ⟨hregistry ▸ Registry.wellNamed_empty, .inl ?_, ?_⟩
  · rw [hnone]
    exact fun name hname => by cases hname
  · rw [hnone]
    exact fun name hname => by cases hname

theorem isSome_boundGenerator {name : String}
    (h : ∃ g, host.generator = some g ∧ (g.literal? name).isSome = true) :
    (host.boundGenerator.literal? name).isSome = true := by
  obtain ⟨g, hg, hsome⟩ := h
  rw [boundGenerator, hg]
  exact hsome

/-- A generator is bound that has all literals of the one that was. -/
theorem Consistent.withGenerator (h : host.Consistent) (hg : host.boundGenerator.Extends g) :
    ({ host with generator := some g } : Host).Consistent :=
  ⟨h.named, h.builtins, fun name hname hcustom =>
    ⟨g, rfl, hg name (isSome_boundGenerator (h.bound name hname hcustom))⟩⟩

theorem Consistent.bind (h : host.Consistent) : host.bind.Consistent :=
  h.withGenerator (.refl _)

/-- A custom type is registered that has a literal. -/
theorem Consistent.register (h : host.Consistent) {schema : BlockSchema} {r : Registry}
    (hregister : host.registry.register schema = .ok r)
    (hcustom : schema.typeName ∉ BlockKind.builtinNames)
    (hsome : ∃ g, host.generator = some g ∧ (g.literal? schema.typeName).isSome = true) :
    ({ host with registry := r } : Host).Consistent := by
  have hnamed := h.named.register hregister
  obtain ⟨-, -, rfl⟩ := Registry.register_eq_ok_iff.1 hregister
  have hnames : (⟨host.registry.schemas ++ [schema]⟩ : Registry).typeNames =
      host.registry.typeNames ++ [schema.typeName] := List.map_append ..
  refine ⟨hnamed, ?_, ?_⟩
  · rw [hnames]
    rcases h.builtins with hnone | ⟨before, after, hall⟩
    · refine .inl fun name hname => ?_
      rcases List.mem_append.1 hname with hname | hname
      · exact hnone name hname
      · rw [List.mem_singleton.1 hname]
        exact hcustom
    · exact .inr ⟨before, after ++ [schema.typeName], by rw [hall, List.append_assoc]⟩
  · rw [hnames]
    intro name hname hother
    rcases List.mem_append.1 hname with hname | hname
    · exact h.bound name hname hother
    · rw [List.mem_singleton.1 hname]
      exact hsome

/-- The marker tells whether the builtin types are registered. -/
theorem Consistent.contains_marker_iff (h : host.Consistent) :
    host.registry.contains marker.typeName = true ↔
      ∃ before after, host.registry.typeNames = before ++ BlockKind.builtinNames ++ after := by
  have hmarker : marker.typeName ∈ BlockKind.builtinNames := by
    decide
  rw [Registry.contains_iff]
  constructor
  · intro hmem
    exact h.builtins.resolve_left fun hnone => hnone _ hmem hmarker
  · rintro ⟨before, after, hall⟩
    rw [hall, List.append_assoc]
    exact List.mem_append_right _ (List.mem_append_left _ hmarker)

/-- The builtin types can be defined: they are registered all at once, unless they were before. -/
theorem Consistent.defineBuiltins (h : host.Consistent) :
    host.defineBuiltins.2 = .ok () ∧ host.defineBuiltins.1.Consistent ∧
      host.defineBuiltins.1.registry.contains marker.typeName = true := by
  rw [Host.defineBuiltins]
  split
  · rename_i hcontains
    exact ⟨rfl, h, hcontains⟩
  · rename_i hcontains
    have hnone := h.builtins.resolve_right fun hall => hcontains (h.contains_marker_iff.2 hall)
    have hnames := Registry.typeNames_withBuiltins host.registry
    rw [Registry.registerBuiltins_of_none hnone]
    have hdefined : ({ host with registry := host.registry.withBuiltins } : Host).Consistent := by
      refine ⟨h.named.withBuiltins hnone, .inr ⟨host.registry.typeNames, [], ?_⟩, ?_⟩
      · rw [hnames, List.append_nil]
      · rw [hnames]
        intro name hname hcustom
        exact h.bound name ((List.mem_append.1 hname).resolve_right hcustom) hcustom
    refine ⟨rfl, hdefined, hdefined.contains_marker_iff.2 ⟨host.registry.typeNames, [], ?_⟩⟩
    rw [hnames, List.append_nil]

/-- Once a generator is bound, it covers every registered type. -/
theorem Consistent.checkCoverage (h : host.Consistent) (hbound : host.generator.isSome = true) :
    host.checkCoverage = .ok () := by
  obtain ⟨g, hg⟩ := Option.isSome_iff_exists.1 hbound
  have hcovered : (host.registry.typeNames.find? fun name => !covers g name) = none := by
    refine List.find?_eq_none.2 fun name hname => ?_
    rw [covers, Bool.not_eq_true, Bool.not_eq_false', Bool.or_eq_true,
      BlockKind.isBuiltin_ofTypeName_iff]
    by_cases hbuiltin : name ∈ BlockKind.builtinNames
    · exact .inl hbuiltin
    · obtain ⟨other, hother, hsome⟩ := h.bound name hname hbuiltin
      rw [hg] at hother
      cases hother
      exact .inr hsome
  rw [Host.checkCoverage, hg]
  dsimp only
  rw [hcovered]

/-- A host can be prepared for an editor. -/
theorem Consistent.prepare (h : host.Consistent) :
    host.prepare = (host.defineBuiltins.1.bind, .ok ()) := by
  obtain ⟨hresult, hdefined, -⟩ := h.defineBuiltins
  have hcoverage := hdefined.bind.checkCoverage rfl
  rw [Host.prepare]
  rcases hdefine : host.defineBuiltins with ⟨defined, result⟩
  rw [hdefine] at hresult hcoverage
  cases hresult
  dsimp only
  rw [hcoverage]

/-- The host does all it has to, and the page decides. -/
theorem Consistent.mountIn (h : host.Consistent) {Env : Type} [EditorEnvironment Env] (env : Env)
    (container : Container (PageElement Env)) (toolbox? : Option (EditorToolbox (PageElement Env))) :
    host.Mounts env container toolbox? (host.mountIn env container toolbox?).1
      (host.mountIn env container toolbox?).2.2.1 := by
  rw [Host.mountIn]
  cases hlocate : locate env container with
  | error notice => exact .nowhere hlocate
  | ok element =>
    dsimp only
    rw [h.prepare]
    show host.Mounts env container toolbox? host.defineBuiltins.1.bind
      (((host.pageAnswer env toolbox? element).map some).mapError .environment)
    cases hanswer : host.pageAnswer env toolbox? element with
    | error texts => exact .refused hlocate hanswer
    | ok editor => exact .mounted hlocate hanswer

namespace Mounts

variable {Env : Type} [EditorEnvironment Env] {env : Env} {container : Container (PageElement Env)}
  {toolbox? : Option (EditorToolbox (PageElement Env))} {after : Host}

/-- A page has no say in what becomes of the host, but for the container. -/
theorem host_eq {result : Except HostError (Option (MountedEditor Env))}
    (h : host.Mounts env container toolbox? after result) :
    after = host ∨ after = host.defineBuiltins.1.bind := by
  cases h with
  | nowhere => exact .inl rfl
  | mounted => exact .inr rfl
  | refused => exact .inr rfl

theorem host_eq_of_mounted {editor : MountedEditor Env}
    (h : host.Mounts env container toolbox? after (.ok (some editor))) :
    after = host.defineBuiltins.1.bind := by
  cases h
  rfl

/-- A page that refuses no editor leaves no error at all. -/
theorem exists_ok {result : Except HostError (Option (MountedEditor Env))}
    (h : host.Mounts env container toolbox? after result)
    (haccepts : ∀ element, ∃ editor, host.pageAnswer env toolbox? element = .ok editor) :
    ∃ editor?, result = .ok editor? := by
  cases h with
  | nowhere => exact ⟨none, rfl⟩
  | mounted => exact ⟨some _, rfl⟩
  | @refused element texts _ hdenied =>
    obtain ⟨editor, haccepted⟩ := haccepts element
    rw [haccepted] at hdenied
    cases hdenied

end Mounts

/-- Whatever is done, a consistent host stays consistent. -/
theorem Consistent.perform (h : host.Consistent) (operation : Operation) :
    (host.perform operation).Consistent := by
  cases operation with
  | define => exact h.defineBuiltins.2.1
  | bind => exact h.bind
  | registerLiteral typeName value =>
    show (host.registerLiteral typeName value).1.Consistent
    rw [Host.registerLiteral]
    cases hliteral : host.boundGenerator.registerLiteral typeName value with
    | error e => exact h.bind
    | ok g => exact h.withGenerator (Generator.extends_registerLiteral hliteral).1
  | addLiteral typeName label value =>
    obtain ⟨hextends, htables⟩ :=
      addCustomLiteral_tables host.registry host.boundGenerator typeName label value
    have hgrown := h.withGenerator hextends
    show (host.addLiteral typeName label value).1.Consistent
    rw [Host.addLiteral]
    rcases hadded : addCustomLiteral host.registry host.boundGenerator typeName label value with
      ⟨result, r, g⟩
    rw [hadded] at htables hgrown
    rcases htables with rfl | ⟨hcustom, hsome, hregister⟩
    · exact hgrown
    · exact hgrown.register hregister hcustom ⟨g, rfl, hsome⟩
  | addLiteralAside registry typeName label value =>
    exact h.withGenerator (addCustomLiteral_tables registry _ typeName label value).1
  | mount env container toolbox? =>
    show (host.mountIn env container toolbox?).1.Consistent
    rcases (h.mountIn env container toolbox?).host_eq with hhost | hhost
    · rw [hhost]
      exact h
    · rw [hhost]
      exact h.defineBuiltins.2.1.bind
  | generate source =>
    show (host.generate source).1.Consistent
    rw [Host.generate]
    split
    · exact h
    · exact h.bind
  | definitions => exact h.defineBuiltins.2.1
  | copy => exact h

/-! ### Runs -/

theorem Consistent.reaches (h : host.Consistent) (hreaches : host.Reaches later) :
    later.Consistent := by
  induction hreaches with
  | refl => exact h
  | perform _ operation ih => exact ih.perform operation

/-- The builtin types are registered and a generator is bound, as by mounting an editor. -/
structure Ready (host : Host) : Prop where
  defined : host.registry.contains marker.typeName = true
  bound : host.generator.isSome = true

namespace Ready

theorem defineBuiltins (h : host.Ready) : host.defineBuiltins = (host, .ok ()) := by
  rw [Host.defineBuiltins, if_pos h.defined]

theorem bind (h : host.Ready) : host.bind = host := by
  obtain ⟨g, hg⟩ := Option.isSome_iff_exists.1 h.bound
  rw [Host.bind, boundGenerator, hg, Option.getD_some, ← hg]

/-- Mounting an editor leaves the host as it is, whatever the page says. -/
theorem mountIn (h : host.Ready) (hconsistent : host.Consistent) {Env : Type} [EditorEnvironment Env]
    (env : Env) (container : Container (PageElement Env))
    (toolbox? : Option (EditorToolbox (PageElement Env))) :
    (host.mountIn env container toolbox?).1 = host := by
  rcases (hconsistent.mountIn env container toolbox?).host_eq with hhost | hhost
  · exact hhost
  · rw [hhost, h.defineBuiltins, h.bind]

/-- Nothing that was registered is lost, and no generator is taken away. -/
theorem perform (h : host.Ready) (hconsistent : host.Consistent) (operation : Operation) :
    (host.perform operation).Ready := by
  cases operation with
  | define =>
    show host.defineBuiltins.1.Ready
    rw [h.defineBuiltins]
    exact h
  | bind => exact ⟨h.defined, rfl⟩
  | registerLiteral typeName value =>
    show (host.registerLiteral typeName value).1.Ready
    rw [Host.registerLiteral]
    split
    · exact ⟨h.defined, rfl⟩
    · exact ⟨h.defined, rfl⟩
  | addLiteral typeName label value =>
    refine ⟨?_, rfl⟩
    have htables :=
      (addCustomLiteral_tables host.registry host.boundGenerator typeName label value).2
    show (addCustomLiteral host.registry host.boundGenerator typeName label value).2.1.contains _ = true
    rcases htables with hsame | ⟨-, -, hregister⟩
    · rw [hsame]
      exact h.defined
    · obtain ⟨-, -, hregistry⟩ := Registry.register_eq_ok_iff.1 hregister
      rw [hregistry, Registry.contains_iff, Registry.typeNames, List.map_append]
      exact List.mem_append_left _ (Registry.contains_iff.1 h.defined)
  | addLiteralAside registry typeName label value => exact ⟨h.defined, rfl⟩
  | mount env container toolbox? =>
    show (host.mountIn env container toolbox?).1.Ready
    rw [h.mountIn hconsistent]
    exact h
  | generate source =>
    show (host.generate source).1.Ready
    rw [Host.generate]
    split
    · exact h
    · exact ⟨h.defined, rfl⟩
  | definitions =>
    show host.defineBuiltins.1.Ready
    rw [h.defineBuiltins]
    exact h
  | copy => exact h

theorem reaches (h : host.Ready) (hconsistent : host.Consistent) (hreaches : host.Reaches later) :
    later.Ready := by
  induction hreaches with
  | refl => exact h
  | perform hreaches operation ih => exact ih.perform (hconsistent.reaches hreaches) operation

end Ready

/-- A host that has mounted an editor is ready. -/
theorem Consistent.ready_of_mounted (h : host.Consistent) {Env : Type} [EditorEnvironment Env] {env : Env}
    {container : Container (PageElement Env)} {toolbox? : Option (EditorToolbox (PageElement Env))}
    {editor : MountedEditor Env}
    (hmounted : (host.mountIn env container toolbox?).2.2.1 = .ok (some editor)) :
    (host.mountIn env container toolbox?).1.Ready := by
  have hmounts := h.mountIn env container toolbox?
  rw [hmounted] at hmounts
  rw [hmounts.host_eq_of_mounted]
  exact ⟨h.defineBuiltins.2.2, rfl⟩

/-- **Reachable hosts.** Whatever was done with a host, its names are proper, its builtin types stand
together and its other types have literals. So the builtin types can be defined, the host can be prepared
for an editor on any page, and then the page decides: a mount ends in an error only if the page has the container
and refuses the editor, with the texts of the page, and on a page in memory it never does. A bound generator
covers all types. Once an editor has been mounted, no later definition, binding or mount changes the host,
whatever the pages say. -/
theorem consistent_of_reachable (h : host.Reachable) :
    host.Consistent ∧ host.defineBuiltins.2 = .ok () ∧ host.prepare.2 = .ok () ∧
      (∀ (Env : Type) [EditorEnvironment Env] (env : Env) container toolbox?,
        host.Mounts env container toolbox? (host.mountIn env container toolbox?).1
          (host.mountIn env container toolbox?).2.2.1) ∧
      (∀ page container toolbox?,
        ∃ editor?, (host.mount page container toolbox?).2.1 = .ok editor?) ∧
      (host.generator.isSome = true → host.checkCoverage = .ok ()) ∧
      ∀ (Env : Type) [EditorEnvironment Env] (env : Env) container toolbox? editor,
        (host.mountIn env container toolbox?).2.2.1 = .ok (some editor) →
        ∀ later, (host.mountIn env container toolbox?).1.Reaches later →
          later.defineBuiltins.1 = later ∧ later.bind = later ∧
            ∀ (Env : Type) [EditorEnvironment Env] (env : Env) container toolbox?,
              (later.mountIn env container toolbox?).1 = later := by
  obtain ⟨first, hfirst, hreaches⟩ := h
  have hconsistent : host.Consistent := hfirst.consistent.reaches hreaches
  refine ⟨hconsistent, hconsistent.defineBuiltins.1, ?_, ?_, ?_, hconsistent.checkCoverage, ?_⟩
  · rw [hconsistent.prepare]
  · intro Env _ env container toolbox?
    exact hconsistent.mountIn env container toolbox?
  · intro page container toolbox?
    exact (hconsistent.mountIn page container toolbox?).exists_ok fun _ => ⟨_, rfl⟩
  · intro Env _ env container toolbox? editor hmounted later hlater
    have hready := hconsistent.ready_of_mounted hmounted
    have hprepared : (host.mountIn env container toolbox?).1.Consistent :=
      hconsistent.perform (.mount env container toolbox?)
    have hlast := hready.reaches hprepared hlater
    refine ⟨?_, hlast.bind, fun Env _ env container toolbox? => ?_⟩
    · rw [hlast.defineBuiltins]
    · exact hlast.mountIn (hprepared.reaches hlater) env container toolbox?

/-- A page that has every element and refuses every editor. -/
structure SealedPage where

instance : EditorEnvironment SealedPage where
  PageElement := String
  MountedEditor := Empty
  elementById _ id := some id
  inject page _ _ _ _ := (page, .error ["The page is sealed."])

/-- A host with a literal that is in its generator alone, one that is in both tables, and behind it the builtin
types, which are there since an editor was refused. -/
def literalsHost : Host :=
  ((({} : Host).perform (.registerLiteral "pi" "3.14")).perform
    (.addLiteral "e" "Euler" "2.71")).perform (.mount SealedPage.mk (.byId "editor") none)

theorem literalsHost_reachable : literalsHost.Reachable :=
  ⟨{}, .empty, .perform (.perform (.perform .refl _) _) _⟩

theorem literalsHost_consistent :
    literalsHost.Reachable ∧ literalsHost.registry.typeNames = "e" :: BlockKind.builtinNames ∧
      (literalsHost.addLiteral "pi" "Pi" "3").2 = .error (.duplicateType "pi") ∧
      literalsHost.Consistent ∧ literalsHost.checkCoverage = .ok () ∧
      literalsHost.defineBuiltins.2 = .ok () ∧
      (literalsHost.mountIn SealedPage.mk (.byId "editor") none).2.2.1 =
        .error (.environment ["The page is sealed."]) ∧
      (literalsHost.mount ⟨["editor"]⟩ (.byId "editor") none).2.1 =
        .ok (some ⟨"editor", .markup Toolbox.emptyText, "e" :: BlockKind.builtinNames, {}⟩) ∧
      ∀ later, (literalsHost.mount ⟨["editor"]⟩ (.byId "editor") none).1.Reaches later →
        later.defineBuiltins.1 = later := by
  obtain ⟨hconsistent, hdefine, -, -, -, hcoverage, hlast⟩ := consistent_of_reachable literalsHost_reachable
  have hmounted : (literalsHost.mount ⟨["editor"]⟩ (.byId "editor") none).2.1 =
      .ok (some ⟨"editor", .markup Toolbox.emptyText, "e" :: BlockKind.builtinNames, {}⟩) := rfl
  refine ⟨literalsHost_reachable, by decide +kernel, by decide +kernel, hconsistent,
    hcoverage (by decide +kernel), hdefine, rfl, hmounted, fun later hlater => ?_⟩
  exact (hlast Page ⟨["editor"]⟩ (.byId "editor") none _ hmounted later hlater).1

end Host
end BlockProgram
