import BlockProgram.Proofs.Json.Compact
import BlockProgram.Proofs.Json.Ordered
import BlockProgram.Schema.Registry

/-!
Block definitions lose nothing but the category. What stands under each name of a definition tells one part
of the block type, also where nothing stands:

    absent connection     no member
    any                   null
    typed                 its tag

so a definition can be read back (`BlockSchema.ofJson?_toJson`), and from the text of a registry the shape
of each of its types (`Registry.compact_toJson_injective`).
-/

namespace BlockProgram

/-! ### Reading parts -/

/-- The text under a name. -/
def Json.text? (value : Json) (name : String) : Option String :=
  (value.member? name).bind Json.string?

/-- A text, or none from `null`. -/
def Json.option? : Json → Option (Option String)
  | .null => some none
  | .string s => some (some s)
  | _ => none

/-- Two texts. -/
def Json.pair? : Json → Option (String × String)
  | .array [.string first, .string second] => some (first, second)
  | _ => none

/-- A number that is written as an integer. -/
def Json.wholeNumber? : Json → Option Int
  | .number (.integer n) => some n
  | _ => none

/-- The items of an array, each of them read. -/
def Json.items? {α : Type} (read : Json → Option α) (value : Json) : Option (List α) :=
  value.array?.bind fun items => items.mapM read

/-- The connection that a member, or the lack of one, stands for. -/
def Check.ofMember? : Option Json → Option Check
  | none => some .absent
  | some .null => some .any
  | some (.string tag) => some (.typed tag)
  | _ => none

/-- An argument as it is read from its definition. -/
def Arg.ofJson? (value : Json) : Option Arg := do
  let tag ← value.text? "type"
  if tag = "field_label" then return .fieldLabel (← value.text? "text")
  let name ← value.text? "name"
  if tag = "field_input" then return .fieldInput name (← value.text? "text")
  else if tag = "field_number" then
    return .fieldNumber name (← (value.member? "value").bind Json.double?)
  else if tag = "field_dropdown" then
    return .fieldDropdown name (← (value.member? "options").bind (Json.items? Json.pair?))
  else
    let check ← (value.member? "check").bind Json.option?
    if tag = "input_value" then return .inputValue name check
    else return .inputStatement name check

/-- A block type as it is read from its definition; the category is not part of that. -/
def BlockSchema.ofJson? (category : Category) (value : Json) : Option BlockSchema := do
  let typeName ← value.text? "type"
  let message ← value.text? "message0"
  let args ← (value.member? "args0").bind (Json.items? Arg.ofJson?)
  let bodyArgs ← (value.member? "args1").elim (some []) (Json.items? Arg.ofJson?)
  let output ← Check.ofMember? (value.member? "output")
  let previous ← Check.ofMember? (value.member? "previousStatement")
  let next ← Check.ofMember? (value.member? "nextStatement")
  let colour ← (value.member? "colour").bind Json.wholeNumber?
  let tooltip ← value.text? "tooltip"
  let helpUrl ← value.text? "helpUrl"
  return {
    typeName, message, args, bodyMessage := value.text? "message1", bodyArgs, output, previous, next
    inline := (value.member? "inputsInline").isSome
    colour := .ofNat colour.toNat, tooltip, helpUrl, category }

/-! ### Arguments -/

open Json

theorem Json.items?_sortMembers {α : Type} {write : α → Json} {read : Json → Option α} {items : List α}
    (h : ∀ item ∈ items, read (sortMembers (write item)) = some item) :
    items? read (sortMembers (.array (items.map write))) = some items := by
  rw [sortMembers, sortItems_eq, items?, array?, Option.bind_some]
  induction items with
  | nil => rfl
  | cons item rest ih =>
    rw [List.map_cons, List.map_cons, List.mapM_cons, h item (List.mem_cons_self ..),
      ih fun other hother => h other (List.mem_cons_of_mem _ hother)]
    rfl

namespace Arg

/-- The number of a numeric field, if it is one, is finite. -/
def IsFinite : Arg → Prop
  | fieldNumber _ value => value.isFinite = true
  | _ => True

theorem member?_toJson (arg : Arg) (name : String) : (sortMembers arg.toJson).member? name =
    (Table.find? name (("type", .string arg.toMembers.1) :: arg.toMembers.2)).map sortMembers := by
  refine member?_sortMembers ?_ name
  cases arg <;> simp [toMembers]

/-- An argument can be read off its definition. -/
theorem ofJson?_toJson {arg : Arg} (h : arg.IsFinite) : ofJson? (sortMembers arg.toJson) = some arg := by
  have htext (text : String) : string? (sortMembers (.string text)) = some text := rfl
  have hpairs (options : List (String × String)) : items? pair? (sortMembers (.array
      (options.map fun option => .array [.string option.1, .string option.2]))) = some options :=
    items?_sortMembers fun _ _ => rfl
  have hcheck (check : Option String) : option? (sortMembers (.ofOption check)) = some check := by
    cases check <;> rfl
  cases arg with
  | fieldNumber name value =>
    have hvalue : double? (sortMembers (.number (.double value))) = some value := rfl
    have hfinite : value.isFinite = true := h
    simp [ofJson?, text?, member?_toJson, toMembers, Table.find?_cons, htext, hfinite, hvalue]
  | _ => simp [ofJson?, text?, member?_toJson, toMembers, Table.find?_cons, htext, hpairs, hcheck]

end Arg

/-! ### Block types -/

/-- What stands under the name of a connection. -/
def Check.value? : Check → Option Json
  | absent => none
  | any => some .null
  | typed tag => some (.string tag)

theorem Check.member_eq (name : String) (check : Check) :
    check.member name = (check.value?.map fun value => (name, value)).toList := by
  cases check <;> rfl

theorem Check.ofMember?_value? (check : Check) :
    ofMember? (check.value?.map sortMembers) = some check := by
  cases check <;> rfl

namespace BlockSchema

/-- What stands under each name of a definition, or that nothing does. -/
def parts (schema : BlockSchema) : List (String × Option Json) :=
  [("type", some (.string schema.typeName)), ("message0", some (.string schema.message)),
   ("args0", some (.array (schema.args.map Arg.toJson))),
   ("message1", schema.bodyMessage.map .string),
   ("args1", if schema.bodyArgs.isEmpty then none else some (.array (schema.bodyArgs.map Arg.toJson))),
   ("output", schema.output.value?), ("previousStatement", schema.previous.value?),
   ("nextStatement", schema.next.value?),
   ("inputsInline", if schema.inline then some (.bool true) else none),
   ("colour", some (.number (.integer schema.colour.toNat))),
   ("tooltip", some (.string schema.tooltip)), ("helpUrl", some (.string schema.helpUrl))]

/-- The members of a definition are the parts that stand there. -/
theorem toJson_eq (schema : BlockSchema) : schema.toJson =
    .object (schema.parts.filterMap fun part => part.2.map fun value => (part.1, value)) := by
  have hcons (name : String) (value? : Option Json) (rest : List (String × Option Json)) :
      ((name, value?) :: rest).filterMap (fun part => part.2.map fun value => (part.1, value)) =
        (value?.map fun value => (name, value)).toList ++
          rest.filterMap fun part => part.2.map fun value => (part.1, value) := by
    cases value? <;> rfl
  have hmessage : (schema.bodyMessage.elim [] fun message => [("message1", Json.string message)]) =
      ((schema.bodyMessage.map Json.string).map fun value => ("message1", value)).toList := by
    cases schema.bodyMessage <;> rfl
  have hargs (items : List Json) (absent : Bool) :
      (if absent then [] else [("args1", Json.array items)]) =
        ((if absent then none else some (Json.array items)).map fun value => ("args1", value)).toList := by
    cases absent <;> rfl
  have hinline (inline : Bool) : (if inline then [("inputsInline", Json.bool true)] else []) =
      ((if inline then some (Json.bool true) else none).map fun value =>
        ("inputsInline", value)).toList := by
    cases inline <;> rfl
  simp only [toJson, parts, hcons, Check.member_eq, hmessage, hargs, hinline, List.filterMap_nil,
    Option.map_some, Option.toList_some, List.append_assoc, List.cons_append, List.nil_append]

theorem nodup_parts (schema : BlockSchema) : (schema.parts.map Prod.fst).Nodup := by
  have hnames : schema.parts.map Prod.fst = ["type", "message0", "args0", "message1", "args1", "output",
    "previousStatement", "nextStatement", "inputsInline", "colour", "tooltip", "helpUrl"] := rfl
  rw [hnames]
  decide

/-- Under a name of a definition stands its part. -/
theorem member?_toJson (schema : BlockSchema) (name : String) :
    (sortMembers schema.toJson).member? name =
      ((Table.find? name schema.parts).bind id).map sortMembers := by
  rw [toJson_eq, member?_sortMembers, ← Table.find?_filterMap id schema.nodup_parts]
  · rfl
  · exact schema.nodup_parts.sublist (Table.names_filterMap_sublist id schema.parts)

/-- The numbers of all fields are finite. -/
def FiniteNumbers (schema : BlockSchema) : Prop :=
  ∀ arg ∈ schema.args ++ schema.bodyArgs, arg.IsFinite

/-- A block type can be read off its definition. -/
theorem ofJson?_toJson {schema : BlockSchema} (h : schema.FiniteNumbers) (category : Category) :
    ofJson? category (sortMembers schema.toJson) = some { schema with category } := by
  obtain ⟨hargs, hbodyArgs⟩ := List.forall_mem_append.1 h
  have htext (text : String) : string? (sortMembers (.string text)) = some text := rfl
  have hnumber (n : Int) : wholeNumber? (sortMembers (.number (.integer n))) = some n := rfl
  have hread (args : List Arg) (hargs : ∀ arg ∈ args, arg.IsFinite) :
      items? Arg.ofJson? (sortMembers (.array (args.map Arg.toJson))) = some args :=
    items?_sortMembers fun arg harg => Arg.ofJson?_toJson (hargs arg harg)
  have hbody : (if schema.bodyArgs = [] then none else
      some (Json.array (schema.bodyArgs.map Arg.toJson))).elim (some [])
        (items? Arg.ofJson? ∘ sortMembers) = some schema.bodyArgs := by
    split
    · rename_i hnone
      rw [hnone]
      rfl
    · exact hread schema.bodyArgs hbodyArgs
  have hmessage (message : Option String) :
      (message.map (sortMembers ∘ Json.string)).bind string? = message := by
    cases message <;> rfl
  have hinline (inline : Bool) : (if inline then some (sortMembers (.bool true)) else none).isSome = inline := by
    cases inline <;> rfl
  simp [ofJson?, text?, member?_toJson, parts, Table.find?_cons, htext, hnumber, hread schema.args hargs,
    hbody, hmessage, hinline, Check.ofMember?_value?]

end BlockSchema

/-! ### Written definitions -/

theorem Json.Written.sortMembers {value : Json} (h : Written value) : Written (sortMembers value) := by
  induction h with
  | null => exact .null
  | bool => exact .bool
  | number hnumber => exact .number hnumber
  | string => exact .string
  | array _ ih =>
    rw [Json.sortMembers, sortItems_eq]
    exact .array (List.forall_mem_map.2 ih)
  | object _ ih =>
    rw [Json.sortMembers, sortEntries_eq]
    exact .object (Table.ofList_induction (List.forall_mem_map.2 ih)).2

theorem Json.written_ofOption (text? : Option String) : Written (ofOption text?) := by
  cases text? with
  | none => exact .null
  | some text => exact .string

/-- All numbers in a definition have a text: one that is not finite is not written as a number. -/
theorem Arg.written_toJson (arg : Arg) : Written arg.toJson := by
  refine .object (List.forall_mem_cons.2 ⟨.string, ?_⟩)
  cases arg with
  | fieldNumber name value =>
    have hvalue : Written (if value.isFinite then .number (.double value) else .null) := by
      split
      · rename_i hfinite
        exact .number hfinite
      · exact .null
    simp [toMembers, Written.string, hvalue]
  | fieldDropdown name options =>
    have hoption (option : String × String) : Written (.array [.string option.1, .string option.2]) :=
      .array (by simp [Written.string])
    have hoptions : Written (.array (options.map fun option =>
        .array [.string option.1, .string option.2])) :=
      .array (List.forall_mem_map.2 fun option _ => hoption option)
    simp [toMembers, Written.string, hoptions]
  | _ => simp [toMembers, Written.string, written_ofOption]

theorem Check.written_value? (check : Check) : ∀ value ∈ check.value?, Written value := by
  intro value hvalue
  cases check with
  | absent => cases hvalue
  | any =>
    cases hvalue
    exact .null
  | typed tag =>
    cases hvalue
    exact .string

theorem BlockSchema.written_toJson (schema : BlockSchema) : Written schema.toJson := by
  have hargs (args : List Arg) : Written (.array (args.map Arg.toJson)) :=
    .array (List.forall_mem_map.2 fun arg _ => arg.written_toJson)
  have hparts : ∀ part ∈ schema.parts, ∀ value ∈ part.2, Written value := by
    have hcolour : Written (.number (.integer schema.colour.toNat)) := .number trivial
    have hchecks := And.intro schema.output.written_value?
      (And.intro schema.previous.written_value? schema.next.written_value?)
    simpa [parts, Written.string, Written.bool, hargs, hcolour] using hchecks
  rw [toJson_eq]
  refine .object fun entry hentry => ?_
  obtain ⟨part, hpart, hsome⟩ := List.mem_filterMap.1 hentry
  obtain ⟨value, hvalue, rfl⟩ := Option.map_eq_some_iff.1 hsome
  exact hparts part hpart value hvalue

/-! ### Registries -/

/-- Two block types differ in their category at most. -/
def BlockSchema.SameShape (schema other : BlockSchema) : Prop :=
  other = { schema with category := other.category }

theorem BlockSchema.sameShape_of_toJson_eq {schema other : BlockSchema} (h : schema.FiniteNumbers)
    (h' : other.FiniteNumbers) (heq : sortMembers schema.toJson = sortMembers other.toJson) :
    schema.SameShape other := by
  have hread := ofJson?_toJson h other.category
  rw [heq, ofJson?_toJson h', Option.some_inj] at hread
  exact hread

namespace Registry

theorem written_toJson (r : Registry) : Written r.toJson :=
  (Written.array (List.forall_mem_map.2 fun schema _ => schema.written_toJson)).sortMembers

theorem forall₂_sameShape {schemas others : List BlockSchema}
    (h : ∀ schema ∈ schemas, schema.FiniteNumbers) (h' : ∀ schema ∈ others, schema.FiniteNumbers)
    (heq : (schemas.map fun schema => sortMembers schema.toJson) =
      others.map fun schema => sortMembers schema.toJson) :
    List.Forall₂ BlockSchema.SameShape schemas others := by
  induction schemas generalizing others with
  | nil =>
    cases others with
    | nil => exact .nil
    | cons => cases heq
  | cons schema rest ih =>
    cases others with
    | nil => cases heq
    | cons other rest' =>
      obtain ⟨hfirst, hrest⟩ := List.cons.inj heq
      obtain ⟨hschema, hschemas⟩ := List.forall_mem_cons.1 h
      obtain ⟨hother, hothers⟩ := List.forall_mem_cons.1 h'
      exact .cons (BlockSchema.sameShape_of_toJson_eq hschema hother hfirst) (ih hschemas hothers hrest)

/-- **Definitions.** From the text of the definitions of all types, the numbers in them finite, each type can
be told but for its category. -/
theorem compact_toJson_injective {r r' : Registry} (hr : ∀ schema ∈ r.schemas, schema.FiniteNumbers)
    (hr' : ∀ schema ∈ r'.schemas, schema.FiniteNumbers) (h : compact r.toJson = compact r'.toJson) :
    List.Forall₂ BlockSchema.SameShape r.schemas r'.schemas := by
  have hjson := compact_injective r.written_toJson r'.written_toJson h
  rw [toJson, toJson, sortMembers, sortMembers, sortItems_eq, sortItems_eq, List.map_map,
    List.map_map] at hjson
  exact forall₂_sameShape hr hr' (Json.array.inj hjson)

end Registry

/-- A value with a number and a choice in its message, whose output fits everywhere. -/
def dialSchema (category : Category) : BlockSchema where
  typeName := "dial"
  message := "%1 %2"
  args := [.fieldNumber "TURNS" (.ofInt 2), .fieldDropdown "SIDE" [("left", "L"), ("right", "R")]]
  output := .any
  colour := 160
  category := category

/-- A statement with a body, which follows the statements of one tag; what follows it is left open. -/
def stepSchema (next : Check) (category : Category) : BlockSchema where
  typeName := "step"
  message := "step %1"
  args := [.inputValue "TIMES" (some "Number")]
  bodyMessage := some "do %1"
  bodyArgs := [.inputStatement "DO" none]
  previous := .typed "Step"
  next := next
  inline := true
  colour := 120
  tooltip := "Takes \"steps\"."
  category := category

/-- A registry of three types, one of them a value that fits in few places. -/
def panel (next : Check) (category : Category) : Registry where
  schemas :=
    [dialSchema category, stepSchema next category,
     { typeName := "lamp", message := "%1 %2", args := [.fieldLabel "lamp", .fieldInput "NAME" ""]
       output := .typed "Lamp", colour := 60, category }]

/-- Other categories do not show in the text of the panel, but what follows a step does. -/
theorem panel_told_apart :
    (∀ next category, ∀ schema ∈ (panel next category).schemas, schema.FiniteNumbers) ∧
      compact (panel .any .values).toJson = compact (panel .any .custom).toJson ∧
      List.Forall₂ BlockSchema.SameShape (panel .any .values).schemas (panel .any .custom).schemas ∧
      [Check.absent, .any, .typed "Step"].Pairwise fun next next' =>
        compact (panel next .values).toJson ≠ compact (panel next' .values).toJson := by
  have hfinite (next : Check) (category : Category) :
      ∀ schema ∈ (panel next category).schemas, schema.FiniteNumbers := by
    have hturns : Binary64.isFinite (.ofInt 2) = true := by
      decide +kernel
    simp [panel, dialSchema, stepSchema, BlockSchema.FiniteNumbers, Arg.IsFinite, hturns]
  have htext : compact (panel .any .values).toJson = compact (panel .any .custom).toJson := rfl
  have hnext {next next' : Check} (hne : next ≠ next') :
      compact (panel next .values).toJson ≠ compact (panel next' .values).toJson := by
    intro heq
    have hshapes := Registry.compact_toJson_injective (hfinite next .values) (hfinite next' .values) heq
    obtain ⟨-, hsteps⟩ := List.forall₂_cons.1 hshapes
    have hstep : (stepSchema next .values).SameShape (stepSchema next' .values) :=
      (List.forall₂_cons.1 hsteps).1
    exact hne (congrArg BlockSchema.next hstep).symm
  refine ⟨hfinite, htext, Registry.compact_toJson_injective (hfinite _ _) (hfinite _ _) htext, ?_⟩
  simp [hnext]

end BlockProgram
