import BlockProgram.Host.Basic
import BlockProgram.Toolbox

/-!
Mounting an editor into a page. What a page is, the host does not know: it looks up elements of the page
by their ids and asks it to mount the editor, which the page may refuse. Without a toolbox the page's element
`toolbox` is used, and without that the empty toolbox; a toolbox that offers types which are not registered is
handed on all the same, with a warning for each.

    container found? ── no ──→ no editor, the host as it was
          │ yes
    builtin types, a generator, every type covered ── no ──→ an error of the host
          │ yes
    the page mounts the editor ── no ──→ an error of the page
          │ yes
       an editor
-/

namespace BlockProgram

/-- Where an editor is mounted. -/
inductive Container (Element : Type) where
  | byId (id : String)
  | element (element : Element)
  deriving DecidableEq, Repr

/-- What an editor offers its user. -/
inductive EditorToolbox (Element : Type) where
  | definition (value : Json)
  | markup (text : String)
  | element (element : Element)
  deriving Repr

/-- How an editor is set up. -/
structure EditorOptions where
  trashcan : Bool := true
  scrollbars : Bool := true
  deriving DecidableEq, Repr

def EditorOptions.toJson (options : EditorOptions) : Json :=
  .object [("trashcan", .bool options.trashcan), ("scrollbars", .bool options.scrollbars)]

/-- What a host asks of the page that an editor is mounted into. -/
class EditorEnvironment (Env : Type) where
  /-- An element of the page. -/
  PageElement : Type
  /-- A mounted editor. -/
  MountedEditor : Type
  /-- The element with an id, if there is one. -/
  elementById : Env → String → Option PageElement
  /-- Mounts an editor into an element, by which the page changes. It may refuse that; the texts are those of
  its error, the outermost first. -/
  inject : Env → PageElement → Registry → EditorToolbox PageElement → EditorOptions →
    Env × Except (List String) MountedEditor

/-! ### A page in memory -/

/-- A page of which nothing is known but the ids of its elements. -/
structure Page where
  elements : List String

/-- What an editor on such a page offers. -/
abbrev ToolboxSource :=
  EditorToolbox String

/-- An editor on such a page. -/
structure Editor where
  container : String
  toolbox : ToolboxSource
  blockTypes : List String
  options : EditorOptions

def Page.contains (page : Page) (id : String) : Bool :=
  page.elements.contains id

/-- The elements are their ids, and no editor is refused. -/
instance : EditorEnvironment Page where
  PageElement := String
  MountedEditor := Editor
  elementById page id := if page.contains id then some id else none
  inject page container registry toolbox options :=
    (page, .ok ⟨container, toolbox, registry.typeNames, options⟩)

/-! ### What a host asks and tells -/

/-- What is worth telling while an editor is mounted. -/
inductive Notice where
  | noContainer (id : String)
  | noToolbox
  | unregistered (typeName : String)
  | invalidToolbox
  deriving DecidableEq, Repr

namespace Notice

/-- Whether a notice is an error rather than a warning. -/
def isError : Notice → Bool
  | noContainer _ => true
  | _ => false

def message : Notice → String
  | noContainer id => "Container element with ID '" ++ id ++ "' not found."
  | noToolbox => "No toolbox element found with ID 'toolbox'. Using empty toolbox."
  | unregistered typeName => "Toolbox references unregistered block type '" ++ typeName ++ "'."
  | invalidToolbox => ({} : InvalidToolbox).message

end Notice

namespace EditorEnvironment

variable {Env : Type} [EditorEnvironment Env]

/-- The element to mount an editor into, or the notice that it is missing. -/
def locate (env : Env) : Container (PageElement Env) → Except Notice (PageElement Env)
  | .byId id =>
    match elementById env id with
    | some element => .ok element
    | none => .error (.noContainer id)
  | .element element => .ok element

/-- The toolbox to use, and a notice if it is the empty one for want of another. -/
def toolbox (env : Env) :
    Option (EditorToolbox (PageElement Env)) → EditorToolbox (PageElement Env) × List Notice
  | some toolbox => (toolbox, [])
  | none =>
    match elementById env "toolbox" with
    | some element => (.element element, [])
    | none => (.markup Toolbox.emptyText, [.noToolbox])

end EditorEnvironment

/-- The notices about a toolbox: one for each offered type that is not registered. -/
def toolboxNotices {Element : Type} (registry : Registry) : EditorToolbox Element → List Notice
  | .markup text =>
    match Toolbox.blockTypes text with
    | .error _ => [.invalidToolbox]
    | .ok types => (types.filter fun typeName => !registry.contains typeName).map .unregistered
  | _ => []

namespace Host

open EditorEnvironment

/-- The host as an editor needs it: builtin types defined, a generator bound, every type covered. -/
def prepare (host : Host) : Host × Except HostError Unit :=
  let (host, result) := host.defineBuiltins
  match result with
  | .error e => (host, .error (.registration e))
  | .ok () => (host.bind, host.bind.checkCoverage)

/-- Mounts an editor into a page; there is none when its container is not found. -/
def mountIn {Env : Type} [EditorEnvironment Env] (host : Host) (env : Env)
    (container : Container (PageElement Env)) (toolbox? : Option (EditorToolbox (PageElement Env))) :
    Host × Env × Except HostError (Option (MountedEditor Env)) × List Notice :=
  match locate env container with
  | .error notice => (host, env, .ok none, [notice])
  | .ok element =>
    let (toolbox, notices) := toolbox env toolbox?
    match host.prepare with
    | (host, .error e) => (host, env, .error e, notices)
    | (host, .ok ()) =>
      let (env, answer) := inject env element host.registry toolbox {}
      (host, env, (answer.map some).mapError .environment, notices ++ toolboxNotices host.registry toolbox)

/-- Mounts an editor into a page in memory, which stays as it is. -/
def mount (host : Host) (page : Page) (container : Container String) (toolbox? : Option ToolboxSource) :
    Host × Except HostError (Option Editor) × List Notice :=
  let (host, _, answer) := host.mountIn page container toolbox?
  (host, answer)

end Host
end BlockProgram
