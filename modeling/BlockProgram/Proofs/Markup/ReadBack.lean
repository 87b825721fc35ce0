import BlockProgram.Proofs.Markup.Reading

/-!
Written elements are read back. `Element.Writable` says of which elements: their names and those of
their attributes are simple, no attribute stands twice or binds a prefix, and the values hold characters
that documents may hold. The reader follows the printer element by element:

```text
content ──<name──▶ opening tag ── attributes ──▶ content ── children ──</name>──▶ content
                                      └── /> ────────────────────────────────────────▲
```

and each element is added to those around it as it was. Line breaks and indentation lie between tags,
where they mean nothing.
-/

namespace BlockProgram
namespace Markup

open Reader (Reads)

/-! ### Attributes -/

/-- Attributes that can be written and read back. -/
structure WritableAttributes (attributes : List (String × String)) : Prop where
  simple : ∀ attr ∈ attributes, isSimpleName attr.1 = true
  not_binding : ∀ attr ∈ attributes, attr.1 ≠ "xmlns"
  allowed : ∀ attr ∈ attributes, ∀ c ∈ attr.2.toList, isAllowed .first c = true
  nodup : (attributes.map Prod.fst).Nodup
  few : attributes.length ≤ maxAttributes + 1

namespace Tag

/-- The tag of an element with attributes that have no prefixes. -/
def simple (name : String) (attributes : List (String × String)) : Tag where
  name := ⟨"", name⟩
  attributes := (attributes.map fun attr => (⟨"", attr.1⟩, attr.2)).reverse

variable {name : String} {attributes : List (String × String)} {attr : String × String}

theorem attributes_simple_concat :
    simple name (attributes ++ [attr]) =
      { simple name attributes with
        attributes := (⟨"", attr.1⟩, attr.2) :: (simple name attributes).attributes } := by
  simp only [simple, List.map_append, List.map_cons, List.map_nil, List.reverse_append,
    List.reverse_cons, List.reverse_nil, List.nil_append, List.singleton_append]

/-- Attributes with different names are all kept, in their order. -/
theorem localAttributes_simple (hnodup : (attributes.map Prod.fst).Nodup) :
    (simple name attributes).localAttributes = attributes := by
  have hkept (kept rest : List (String × String)) (h : ((kept ++ rest).map Prod.fst).Nodup) :
      (rest.map fun attr => ((⟨"", attr.1⟩ : QName), attr.2)).foldl
        (fun kept attr => kept.filter (fun other => other.1 ≠ attr.1.name) ++ [(attr.1.name, attr.2)])
          kept = kept ++ rest := by
    induction rest generalizing kept with
    | nil => rw [List.map_nil, List.foldl_nil, List.append_nil]
    | cons attr rest ih =>
      have hnew : ∀ other ∈ kept, decide (other.1 ≠ attr.1) = true := by
        intro other hother
        rw [List.map_append, List.nodup_append] at h
        exact decide_eq_true (h.2.2 _ (List.mem_map_of_mem hother) _
          (List.mem_map_of_mem (List.mem_cons_self ..)))
      rw [List.map_cons, List.foldl_cons, List.filter_eq_self.2 hnew, ih, List.append_assoc]
      · rfl
      · rwa [List.append_assoc]
  rw [localAttributes, simple, List.reverse_reverse]
  exact hkept [] attributes hnodup

end Tag

namespace Document

/-- In a mode in which a tag is complete, but another attribute may follow after a space. -/
structure InTag (mode : Mode) (tag : Tag) : Prop where
  space : ∀ nesting, (body mode nesting).step (.char ' ') = some (body (.tag tag) nesting, [])
  tagEnd : ∀ nesting, (body mode nesting).step .tagEnd =
    (nesting.open? tag false).map fun nesting => (body .content nesting, [])

theorem inTag_afterValue (tag : Tag) : InTag (.afterValue tag) tag := by
  refine ⟨fun _ => rfl, fun nesting => ?_⟩
  show ((nesting.open? tag false).map _).map _ = _
  rw [Option.map_map]
  rfl

theorem inTag_openName {name : String} (h : isSimpleName name = true) :
    InTag (.openName name.toList.reverse) (.simple name []) := by
  have htag : Tag.ofName? name.toList.reverse = some (.simple name []) := by
    rw [Tag.ofName?, Tag.name?_simple h]
    rfl
  constructor
  · intro nesting
    show ((Tag.ofName? name.toList.reverse).map _).map _ = _
    rw [htag]
    rfl
  · intro nesting
    show ((Tag.ofName? name.toList.reverse).bind _).map _ = _
    rw [htag, Option.bind_some]
    exact (inTag_afterValue (.simple name [])).tagEnd nesting

end Document

open Document (body InTag)

section Transitions

variable {nesting : Nesting} {tag : Tag} {name : Text} {c : Char}

theorem step_openName (hspace : isSpace c = false) :
    (body (.openName name) nesting).step (.char c) =
      (extendQName? name c).map fun name => (body (.openName name) nesting, []) := by
  show (Document.stepOpenName _ name (.char c)).map _ = _
  rw [Document.stepOpenName.eq_def]
  simp only [hspace, Bool.false_eq_true, if_false, Option.map_map]
  rfl

theorem step_closeName (hspace : isSpace c = false) :
    (body (.closeName name) nesting).step (.char c) =
      (extendQName? name c).map fun name => (body (.closeName name) nesting, []) := by
  show (Document.stepCloseName _ name (.char c)).map _ = _
  rw [Document.stepCloseName.eq_def]
  simp only [hspace, Bool.false_eq_true, if_false, Option.map_map]
  rfl

theorem step_attributeName (hspace : isSpace c = false) :
    (body (.attributeName tag name) nesting).step (.char c) =
      (extendQName? name c).map fun name => (body (.attributeName tag name) nesting, []) := by
  show (Document.stepAttributeName _ tag name (.char c)).map _ = _
  rw [Document.stepAttributeName.eq_def]
  simp only [hspace, Bool.false_eq_true, if_false, Option.map_map]
  rfl

/-- The first character of the name of an attribute. -/
theorem step_tag (hspace : isSpace c = false) (hfew : tag.attributes.length ≤ maxAttributes) :
    (body (.tag tag) nesting).step (.char c) =
      (extendQName? [] c).map fun name => (body (.attributeName tag name) nesting, []) := by
  show (Document.stepTag _ tag (.char c)).map _ = _
  rw [Document.stepTag.eq_def]
  simp only [hspace, Bool.false_eq_true, if_false, hfew, if_true, Option.map_map]
  rfl

end Transitions

section Attributes

variable {name : String} {attributes done rest : List (String × String)} {attr : String × String}
  {mode : Document.Mode} {tag : Tag} {nesting : Nesting}

/-- A simple name as the name of an attribute. -/
theorem reads_attributeName (hname : isSimpleName name = true)
    (hfew : tag.attributes.length ≤ maxAttributes) :
    Reads ⟨{}, body (.tag tag) nesting⟩ name.toList
      ⟨{}, body (.attributeName tag name.toList.reverse) nesting⟩ := by
  refine reads_simpleName hname (fun c hc hextend => ?_) fun _ _ => step_attributeName
  refine .char rfl (Scanner.step_of_not_sign (Scanner.not_sign_of_isNameChar hc)) (.single ?_)
  rw [step_tag (isSpace_of_isNameChar hc) hfew, hextend, Option.map_some]

/-- An attribute with a new name, with the space before it. -/
theorem reads_attributeText (hmode : InTag mode tag) (hname : isSimpleName attr.1 = true)
    (hbinding : attr.1 ≠ "xmlns") (hallowed : ∀ c ∈ attr.2.toList, isAllowed .first c = true)
    (hnew : ∀ other ∈ tag.attributes, other.1 ≠ ⟨"", attr.1⟩)
    (hfew : tag.attributes.length ≤ maxAttributes) :
    Reads ⟨{}, body mode nesting⟩ (attributeText attr) ⟨{}, body (.afterValue
      { tag with attributes := (⟨"", attr.1⟩, attr.2) :: tag.attributes }) nesting⟩ := by
  have hspace : Reads ⟨{}, body mode nesting⟩ [' '] ⟨{}, body (.tag tag) nesting⟩ :=
    .char rfl rfl (.single (hmode.space nesting))
  have hequals : Reads ⟨{}, body (.attributeName tag attr.1.toList.reverse) nesting⟩ ['=']
      ⟨{}, body (.beforeValue (.attr tag ⟨"", attr.1⟩)) nesting⟩ := by
    have hattribute : tag.attributeName? attr.1.toList.reverse = some ⟨"", attr.1⟩ := by
      rw [Tag.attributeName?, qname?_simple hname, Option.bind_some, if_neg]
      rw [List.any_eq_true]
      rintro ⟨other, hother, hequal⟩
      exact hnew other hother (of_decide_eq_true hequal)
    refine .char rfl rfl (.single ?_)
    show ((tag.attributeName? attr.1.toList.reverse).map _).map _ = _
    rw [hattribute]
    rfl
  have hquote : Reads ⟨{}, body (.beforeValue (.attr tag ⟨"", attr.1⟩)) nesting⟩ ['"']
      ⟨{}, body (.value (.attr tag ⟨"", attr.1⟩) '"' []) nesting⟩ :=
    .char rfl rfl (.single rfl)
  have hvalue : InValue (.attr tag ⟨"", attr.1⟩) nesting []
      ⟨{}, body (.value (.attr tag ⟨"", attr.1⟩) '"' []) nesting⟩ :=
    .mk .text rfl
  obtain ⟨after, hescaped, hafter⟩ := hvalue.reads_escaped hallowed
  rw [List.nil_append] at hafter
  have hadd : tag.add? ⟨"", attr.1⟩ (String.ofList attr.2.toList) =
      some { tag with attributes := (⟨"", attr.1⟩, attr.2) :: tag.attributes } := by
    rw [Tag.add?, String.ofList_toList, if_neg (by simpa [isBinding] using hbinding)]
  have hend := hafter.reads_quote hadd
  have htext : attributeText attr =
      ' ' :: (attr.1.toList ++ '=' :: '"' :: (attr.2.toList.flatMap escapeChar ++ ['"'])) := by
    simp only [attributeText, List.cons_append, List.append_assoc, List.nil_append]
  rw [htext]
  exact hspace.cons ((reads_attributeName hname hfew).append
    (hequals.cons (hquote.cons (hescaped.append hend))))

/-- Attributes one after the other, behind those that were read before. -/
theorem reads_attributes (hwritable : WritableAttributes (done ++ rest))
    (hmode : InTag mode (.simple name done)) :
    ∃ mode', InTag mode' (.simple name (done ++ rest)) ∧
      Reads ⟨{}, body mode nesting⟩ (rest.flatMap attributeText) ⟨{}, body mode' nesting⟩ := by
  induction rest generalizing done mode with
  | nil => exact ⟨mode, by rwa [List.append_nil], .nil⟩
  | cons attr rest ih =>
    have hmem : attr ∈ done ++ attr :: rest := List.mem_append_right _ (List.mem_cons_self ..)
    have hnew : ∀ other ∈ (Tag.simple name done).attributes, other.1 ≠ ⟨"", attr.1⟩ := by
      intro other hother hequal
      obtain ⟨earlier, hearlier, rfl⟩ := List.mem_map.1 (List.mem_reverse.1 hother)
      have hnodup := hwritable.nodup
      rw [List.map_append, List.nodup_append] at hnodup
      exact hnodup.2.2 _ (List.mem_map_of_mem hearlier) _
        (List.mem_map_of_mem (List.mem_cons_self ..)) (congrArg QName.name hequal)
    have hfew : (Tag.simple name done).attributes.length ≤ maxAttributes := by
      have hlength := hwritable.few
      rw [List.length_append, List.length_cons] at hlength
      rw [Tag.simple, List.length_reverse, List.length_map]
      omega
    have hfirst : Reads ⟨{}, body mode nesting⟩ (attributeText attr) _ :=
      reads_attributeText hmode (hwritable.simple attr hmem) (hwritable.not_binding attr hmem)
        (hwritable.allowed attr hmem) hnew hfew
    rw [← Tag.attributes_simple_concat] at hfirst
    have happend : done ++ attr :: rest = done ++ [attr] ++ rest := by
      rw [List.append_assoc, List.singleton_append]
    rw [happend] at hwritable ⊢
    obtain ⟨mode', hmode', hrest⟩ := ih hwritable (Document.inTag_afterValue _)
    exact ⟨mode', hmode', by rw [List.flatMap_cons]; exact hfirst.append hrest⟩

end Attributes

/-! ### Nesting -/

namespace Nesting

variable {nesting : Nesting} {name : String} {attributes : List (String × String)}

/-- The prefixes that are bound where the next element begins. -/
def bound (nesting : Nesting) : List String :=
  (nesting.stack.head?.map OpenElement.bound).getD alwaysBound

/-- The nesting inside an element without a prefix that begins here. -/
def enter (nesting : Nesting) (name : String) (attributes : List (String × String)) : Nesting :=
  let element := { name := ⟨"", name⟩, attributes, bound := nesting.bound }
  { nesting with stack := element :: nesting.stack }

theorem bound_add (element : Element) : (nesting.add element).bound = nesting.bound := by
  rw [add]
  split
  · rfl
  · next parent rest hstack => rw [bound, bound, hstack]; rfl

/-- An element in the place that no prefix names can always begin. -/
theorem open?_simple (hbound : "" ∈ nesting.bound) (hnodup : (attributes.map Prod.fst).Nodup)
    (empty : Bool) : nesting.open? (.simple name attributes) empty =
      some (if empty then nesting.add (.mk name attributes []) else nesting.enter name attributes) := by
  have hspaces : ((⟨"", name⟩ : QName) :: (Tag.simple name attributes).attributes.map Prod.fst).any
      (fun name => !nesting.bound.contains name.space) = false := by
    rw [List.any_eq_false]
    intro qname hmem
    have hspace : qname.space = "" := by
      rcases List.mem_cons.1 hmem with rfl | hmem
      · rfl
      · obtain ⟨_, hattr, rfl⟩ := List.mem_map.1 hmem
        obtain ⟨_, -, rfl⟩ := List.mem_map.1 (List.mem_reverse.1 hattr)
        rfl
    simpa [hspace] using hbound
  rw [open?]
  simp only [Tag.localAttributes_simple hnodup]
  rw [if_neg]
  · cases empty <;> rfl
  · exact fun h => Bool.false_ne_true (hspaces ▸ h)

/-- Elements that are added inside an element become its children. -/
theorem foldl_add_enter (children : List Element) :
    children.foldl add (nesting.enter name attributes) =
      { nesting with stack := ⟨⟨"", name⟩, attributes, children.reverse, nesting.bound⟩ ::
          nesting.stack } := by
  have hadd (done : List Element) : children.foldl add
      { nesting with stack := ⟨⟨"", name⟩, attributes, done, nesting.bound⟩ :: nesting.stack } =
        { nesting with stack := ⟨⟨"", name⟩, attributes, children.reverse ++ done, nesting.bound⟩ ::
            nesting.stack } := by
    induction children generalizing done with
    | nil => rfl
    | cons child rest ih =>
      rw [List.foldl_cons, List.reverse_cons, List.append_assoc]
      exact ih (child :: done)
  have hall := hadd []
  rw [List.append_nil] at hall
  exact hall

end Nesting

/-! ### Tags -/

section Tags

variable {name : String} {d : Document} {nesting : Nesting}

/-- Where an element may begin. -/
structure Opens (d : Document) (nesting : Nesting) : Prop where
  encoding : d.encoding = .utf8
  tagStart : d.step .tagStart = some (body (.openName []) nesting, [])

theorem opens_start : Opens {} {} :=
  ⟨rfl, rfl⟩

theorem opens_content : Opens (body .content nesting) nesting :=
  ⟨rfl, rfl⟩

theorem Scanner.step_opened_name {c : Char} (hc : isNameChar c = true) :
    step ⟨.opened, false⟩ c = some (⟨.text, false⟩, [.tagStart, .char c]) := by
  have hmarks : ['?', '/', '!'].all (fun mark => !isNameChar mark) = true := by decide
  have hne : c ∉ ['?', '/', '!'] := by
    intro hmem
    have hnot := List.all_eq_true.1 hmarks c hmem
    rw [hc] at hnot
    cases hnot
  simp only [List.mem_cons, List.not_mem_nil, or_false, not_or] at hne
  simp only [step, stepOpened, hne, hc, Bool.or_true, if_false, if_true]
  rfl

/-- The start of an opening tag. -/
theorem reads_openName (hopens : Opens d nesting) (hname : isSimpleName name = true) :
    Reads ⟨{}, d⟩ ('<' :: name.toList) ⟨{}, body (.openName name.toList.reverse) nesting⟩ := by
  have hbracket : Reads ⟨{}, d⟩ ['<'] ⟨⟨.opened, false⟩, d⟩ := .char hopens.encoding rfl .nil
  refine hbracket.cons (reads_simpleName hname (fun c hc hextend => ?_) fun _ _ => step_openName)
  refine .char hopens.encoding (Scanner.step_opened_name hc) (.cons hopens.tagStart (.single ?_))
  rw [step_openName (isSpace_of_isNameChar hc), hextend, Option.map_some]

/-- A closing tag, which adds its element to those around it. -/
theorem reads_closingTag {element : OpenElement} {rest : List OpenElement}
    (hstack : nesting.stack = element :: rest) (helement : element.name = ⟨"", name⟩)
    (hname : isSimpleName name = true) :
    Reads ⟨{}, body .content nesting⟩ ('<' :: '/' :: (name.toList ++ ['>']))
      ⟨{}, body .content ({ nesting with stack := rest }.add
        (.mk name element.attributes element.children.reverse))⟩ := by
  have hbracket : Reads ⟨{}, body .content nesting⟩ ['<'] ⟨⟨.opened, false⟩, body .content nesting⟩ :=
    .char rfl rfl .nil
  have hslash : Reads ⟨⟨.opened, false⟩, body .content nesting⟩ ['/']
      ⟨{}, body (.closeName []) nesting⟩ := by
    refine .char rfl rfl (.single ?_)
    show (if nesting.stack.isEmpty then none else some _).map _ = _
    rw [hstack]
    rfl
  have hfull : Reads ⟨{}, body (.closeName []) nesting⟩ name.toList
      ⟨{}, body (.closeName name.toList.reverse) nesting⟩ := by
    refine reads_simpleName hname (fun c hc hextend => ?_) fun _ _ => step_closeName
    refine .char rfl (Scanner.step_of_not_sign (Scanner.not_sign_of_isNameChar hc)) (.single ?_)
    rw [step_closeName (isSpace_of_isNameChar hc), hextend, Option.map_some]
  have hend : Reads ⟨{}, body (.closeName name.toList.reverse) nesting⟩ ['>']
      ⟨{}, body .content ({ nesting with stack := rest }.add
        (.mk name element.attributes element.children.reverse))⟩ := by
    have hclose : nesting.close? ⟨"", name⟩ = some ({ nesting with stack := rest }.add
        (.mk name element.attributes element.children.reverse)) := by
      rw [Nesting.close?, hstack]
      exact if_pos helement
    refine .char rfl rfl (.single ?_)
    show ((Tag.name? name.toList.reverse).bind (body _ nesting).close?).map _ = _
    rw [Tag.name?_simple hname, Option.bind_some, Document.close?]
    show ((nesting.close? ⟨"", name⟩).map _).map _ = _
    rw [hclose]
    rfl
  exact hbracket.cons (hslash.cons (hfull.append hend))

/-- The start of a line between tags. -/
theorem reads_newLine (depth : Nat) :
    Reads ⟨{}, body .content nesting⟩ (newLine depth) ⟨{}, body .content nesting⟩ := by
  have hspace {c : Char} (hc : isSpace c = true) (hplain : isPlain .first c = true) :
      (body .content nesting).step (.char c) = some (body .content nesting, []) := by
    show (if nesting.isOutside then if isSpace c then some _ else none
      else if isPlain .first c then some _ else none).map _ = _
    rw [hc, hplain]
    cases nesting.isOutside <;> rfl
  refine .cons (.char rfl rfl (.single (hspace rfl rfl))) ?_
  induction 2 * depth with
  | zero => exact .nil
  | succ n ih => exact .cons (.char rfl rfl (.single (hspace rfl rfl))) ih

end Tags

/-! ### Elements -/

/-- The elements that can be written and read back. -/
inductive Writable : Element → Prop
  | mk {name : String} {attributes : List (String × String)} {children : List Element}
    (hname : isSimpleName name = true) (hattributes : WritableAttributes attributes)
    (hchildren : ∀ child ∈ children, Writable child) : Writable (.mk name attributes children)

/-- Elements in a row, each after a line break. -/
theorem reads_childrenText {children : List Element} {depth : Nat} {nesting : Nesting}
    (hbound : "" ∈ nesting.bound)
    (hread : ∀ child ∈ children, ∀ nesting : Nesting, "" ∈ nesting.bound →
      Reads ⟨{}, body .content nesting⟩ (elementText depth child)
        ⟨{}, body .content (nesting.add child)⟩) :
    Reads ⟨{}, body .content nesting⟩ (childrenText depth children)
      ⟨{}, body .content (children.foldl Nesting.add nesting)⟩ := by
  induction children generalizing nesting with
  | nil => exact .nil
  | cons child rest ih =>
    rw [List.forall_mem_cons] at hread
    rw [childrenText, List.foldl_cons]
    refine ((reads_newLine depth).append (hread.1 nesting hbound)).append (ih ?_ hread.2)
    rwa [Nesting.bound_add]

/-- An element is added to those around it. -/
theorem reads_elementText {element : Element} (h : Writable element) (depth : Nat)
    {d : Document} {nesting : Nesting} (hopens : Opens d nesting) (hbound : "" ∈ nesting.bound) :
    Reads ⟨{}, d⟩ (elementText depth element) ⟨{}, body .content (nesting.add element)⟩ := by
  induction h generalizing depth d nesting with
  | @mk name attributes children hname hattributes hchildren ih =>
    obtain ⟨mode, hmode, hread⟩ : ∃ mode, InTag mode (.simple name ([] ++ attributes)) ∧
        Reads ⟨{}, body (.openName name.toList.reverse) nesting⟩ (attributes.flatMap attributeText)
          ⟨{}, body mode nesting⟩ :=
      reads_attributes hattributes (Document.inTag_openName hname)
    have htag := (reads_openName hopens hname).append hread
    rw [List.nil_append] at hmode
    rw [elementText]
    split
    · next hempty =>
      obtain rfl := List.isEmpty_iff.1 hempty
      have hspace : Reads ⟨{}, body mode nesting⟩ [' '] ⟨{}, body (.tag (.simple name attributes)) nesting⟩ :=
        .char rfl rfl (.single (hmode.space nesting))
      have hslash : Reads ⟨{}, body (.tag (.simple name attributes)) nesting⟩ ['/']
          ⟨⟨.slash, false⟩, body (.tag (.simple name attributes)) nesting⟩ := .char rfl rfl .nil
      have hend : Reads ⟨⟨.slash, false⟩, body (.tag (.simple name attributes)) nesting⟩ ['>']
          ⟨{}, body .content (nesting.add (.mk name attributes []))⟩ := by
        refine .char rfl rfl (.single ?_)
        show ((nesting.open? (.simple name attributes) true).map _).map _ = _
        rw [Nesting.open?_simple hbound hattributes.nodup]
        rfl
      exact htag.append (hspace.cons (hslash.cons hend))
    · have hinside : "" ∈ (nesting.enter name attributes).bound := hbound
      have hopen : Reads ⟨{}, body mode nesting⟩ ['>']
          ⟨{}, body .content (nesting.enter name attributes)⟩ := by
        refine .char rfl rfl (.single ?_)
        show (body mode nesting).step .tagEnd = _
        rw [hmode.tagEnd nesting, Nesting.open?_simple hbound hattributes.nodup]
        rfl
      have hbetween := reads_childrenText hinside fun child hmem nesting hbound =>
        ih child hmem (depth + 1) opens_content hbound
      rw [Nesting.foldl_add_enter] at hbetween
      have hclose := @reads_closingTag name { nesting with
        stack := ⟨⟨"", name⟩, attributes, children.reverse, nesting.bound⟩ :: nesting.stack }
        _ _ rfl rfl hname
      rw [List.reverse_reverse] at hclose
      have hall := htag.append (hopen.append (hbetween.append ((reads_newLine depth).append hclose)))
      simpa only [List.append_assoc, List.cons_append, List.nil_append] using hall

/-- A written element is read back as it was. -/
theorem parse?_write {element : Element} (h : Writable element) :
    parse? (write element) = some element := by
  have hread := (reads_elementText h 0 opens_start (by decide)).run_eq
  have hstart : ∃ rest, elementText 0 element = '<' :: rest := by
    obtain ⟨name, attributes, children⟩ := element
    rw [elementText]
    split <;> exact ⟨_, rfl⟩
  obtain ⟨rest, hrest⟩ := hstart
  rw [hrest] at hread
  rw [parse?, write, String.toList_ofList, hrest]
  show (Reader.run {} ('<' :: rest) [] 0).bind Reader.root? = some element
  rw [hread]
  rfl

end Markup
end BlockProgram
