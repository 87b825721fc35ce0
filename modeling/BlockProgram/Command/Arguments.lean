/-!
The arguments of the command: `INPUT [OUTPUT]`, and among them in any place `--literal TYPE:LABEL:VALUE`
any number of times and `--indent N`, `--emit-blocks PATH` and `--emit-toolbox PATH` once each. An
option's value may be the next argument, if that does not look like an option, or follow an equals
sign. After `--` every argument is a path. Paths are not empty.
-/

namespace BlockProgram

/-- What the command is asked to do. -/
structure Arguments where
  input : String
  output? : Option String := none
  literals : List String := []
  indent : Nat := 2
  blocks? : Option String := none
  toolbox? : Option String := none
  deriving DecidableEq, Repr

namespace Arguments

/-- The options of the command. -/
inductive Flag where
  | literal
  | indent
  | emitBlocks
  | emitToolbox
  deriving DecidableEq, Repr

/-- The option of a name. -/
def flag? : String → Option Flag
  | "literal" => some .literal
  | "indent" => some .indent
  | "emit-blocks" => some .emitBlocks
  | "emit-toolbox" => some .emitToolbox
  | _ => none

/-- Arguments under collection: paths and the values of options, in the order given. -/
structure Collected where
  paths : List String := []
  values : List (Flag × String) := []

/-- Whether an argument is an option rather than a path or a value. A single dash is none. -/
def looksLikeOption (argument : String) : Bool :=
  argument.startsWith "-" && argument ≠ "-"

/-- Splits an option into its name and the value after its equals sign, if it has one. -/
def splitOption (argument : String) : String × Option String :=
  let text := argument.toList.drop 2
  let name := String.ofList (text.takeWhile (· ≠ '='))
  match text.dropWhile (· ≠ '=') with
  | [] => (name, none)
  | _ :: value => (name, some (String.ofList value))

/-- Sorts arguments into paths and options. -/
def collect? (collected : Collected) : List String → Option Collected
  | [] => some collected
  | argument :: rest =>
    if argument = "--" then some { collected with paths := collected.paths ++ rest }
    else if !looksLikeOption argument then
      collect? { collected with paths := collected.paths ++ [argument] } rest
    else if !argument.startsWith "--" then none
    else
      match flag? (splitOption argument).1, (splitOption argument).2, rest with
      | none, _, _ => none
      | some flag, some value, rest =>
        collect? { collected with values := collected.values ++ [(flag, value)] } rest
      | some _, none, [] => none
      | some flag, none, value :: rest =>
        if looksLikeOption value then none
        else collect? { collected with values := collected.values ++ [(flag, value)] } rest

/-- The number that a text of digits stands for, with a plus sign before it or not, if it fits 64
bits. -/
def number? (text : String) : Option Nat :=
  let digits := match text.toList with
    | '+' :: rest => rest
    | rest => rest
  if digits.isEmpty || !digits.all Char.isDigit then none
  else
    let n := digits.foldl (fun n d => 10 * n + (d.toNat - '0'.toNat)) 0
    if n < Nat.pow 2 64 then some n else none

/-- The values of an option. -/
def Collected.valuesOf (collected : Collected) (flag : Flag) : List String :=
  (collected.values.filter fun entry => entry.1 = flag).map Prod.snd

/-- The value of an option that may be given once: `none` if it is given more often. -/
def Collected.single? (collected : Collected) (flag : Flag) : Option (Option String) :=
  match collected.valuesOf flag with
  | [] => some none
  | [value] => some (some value)
  | _ => none

/-- The path of an option that may be given once; it may not be empty. -/
def Collected.path? (collected : Collected) (flag : Flag) : Option (Option String) :=
  match collected.single? flag with
  | some (some "") => none
  | other => other

/-- What a list of arguments asks for; `none` if they are not as they must be. -/
def parse? (arguments : List String) : Option Arguments := do
  let collected ← collect? {} arguments
  let blocks? ← collected.path? .emitBlocks
  let toolbox? ← collected.path? .emitToolbox
  let indent ← match ← collected.single? .indent with
    | none => some 2
    | some text => number? text
  let literals := collected.valuesOf .literal
  if collected.paths.contains "" then none
  else
    match collected.paths with
    | [input] => some { input, literals, indent, blocks?, toolbox? }
    | [input, output] => some { input, output? := some output, literals, indent, blocks?, toolbox? }
    | _ => none

end Arguments
end BlockProgram
