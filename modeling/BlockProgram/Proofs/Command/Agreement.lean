import BlockProgram.Proofs.Command.Writing
import BlockProgram.Proofs.Host.Literals

/-!
The command, a host and a bare generator agree. A literal that is spelled out is read back by the command
(`literalParts?_spelled`), so the host of the command is the one to which the same literals are added
(`Arguments.host_eq`), and its program is the one that this host and a bare generator have for the text
of the input.
-/

namespace BlockProgram

namespace Literal

/-- A literal as an argument of the command. -/
def spelled (literal : Literal) : String :=
  literal.typeName ++ ":" ++ literal.label ++ ":" ++ literal.value

/-- The colons of a literal that is spelled out tell its parts apart. -/
structure WellSpelled (literal : Literal) : Prop where
  typeName_ne : literal.typeName ≠ ""
  typeName : ':' ∉ literal.typeName.toList
  label : ':' ∉ literal.label.toList

end Literal

section

variable {part : List Char} (h : ':' ∉ part) (rest : List Char)

include h

theorem takeWhile_append_colon : (part ++ ':' :: rest).takeWhile (· ≠ ':') = part := by
  have hpart : ∀ c ∈ part, decide (c ≠ ':') = true := fun c hc => decide_eq_true fun heq => h (heq ▸ hc)
  rw [List.takeWhile_append_of_pos hpart, List.takeWhile_cons_of_neg (by simp), List.append_nil]

theorem dropWhile_append_colon : (part ++ ':' :: rest).dropWhile (· ≠ ':') = ':' :: rest := by
  have hpart : ∀ c ∈ part, decide (c ≠ ':') = true := fun c hc => decide_eq_true fun heq => h (heq ▸ hc)
  rw [List.dropWhile_append_of_pos hpart, List.dropWhile_cons_of_neg (by simp)]

end

/-- A literal that is spelled out is taken apart again. -/
theorem literalParts?_spelled {literal : Literal} (h : literal.WellSpelled) :
    literalParts? literal.spelled = some (literal.typeName, literal.label, literal.value) := by
  have hchars : literal.spelled.toList =
      literal.typeName.toList ++ ':' :: (literal.label.toList ++ ':' :: literal.value.toList) := by
    simp [Literal.spelled]
  have hempty : literal.typeName.toList.isEmpty = false := by
    simpa using h.typeName_ne
  rw [literalParts?, hchars, dropWhile_append_colon h.typeName]
  dsimp only
  rw [dropWhile_append_colon h.label, takeWhile_append_colon h.typeName, takeWhile_append_colon h.label]
  dsimp only
  rw [hempty, if_neg Bool.false_ne_true, String.ofList_toList, String.ofList_toList, String.ofList_toList]

/-- A host to which spelled literals are added. -/
theorem Host.addLiterals_spelled {literals : List Literal} (h : ∀ literal ∈ literals, literal.WellSpelled)
    (host : Host) : host.addLiterals (literals.map Literal.spelled) =
      (literals.foldlM withLiteral host).mapError .registration := by
  induction literals generalizing host with
  | nil => rfl
  | cons literal rest ih =>
    rw [List.map_cons, addLiterals, literalParts?_spelled (h literal (List.mem_cons_self ..)),
      List.foldlM_cons, withLiteral]
    dsimp only
    cases accepted (host.addLiteral literal.typeName literal.label literal.value) with
    | error e => rfl
    | ok next => exact ih (fun other hother => h other (List.mem_cons_of_mem _ hother)) next

/-- The indent that arguments ask for. -/
def Arguments.indentText (args : Arguments) : Text :=
  List.replicate args.indent ' '

/-- The host of the command is a new one with the literals of its arguments. -/
theorem Arguments.host_eq {args : Arguments} {literals : List Literal}
    (hspelled : ∀ literal ∈ literals, literal.WellSpelled)
    (hliterals : args.literals = literals.map Literal.spelled) :
    args.host = (Host.equipped args.indentText literals).mapError .registration := by
  rw [host, Host.equipped, Host.defined, hliterals, indentText]
  cases Host.accepted (Host.withIndent (List.replicate args.indent ' ')).defineBuiltins with
  | error e => rfl
  | ok host => exact Host.addLiterals_spelled hspelled host

namespace Command

open MachineView

variable {σ Place : Type} [Machine (StateM σ)] {view : MachineView σ Place} {s : σ}

variable (view) in
/-- The machine refused to write one of the outputs, after it had written those before. -/
def Interrupted (args : Arguments) (code : String) (s : σ) (e : CommandError) : Prop :=
  ∃ host written next later mid, args.outputs host code = written.map Prod.fst ++ next :: later ∧
    view.Writes s written mid ∧ view.Refused mid next e

variable (view) in
/-- The program is where the arguments ask for it: printed, or in the file under the path of the output. -/
def Delivers (args : Arguments) (code : String) (s after : σ) : Prop :=
  match args.output? with
  | none => view.printed after = view.printed s ++ code
  | some target => view.printed after = view.printed s ∧
      ∃ place, view.place? after (.parse target) = some place ∧
        view.get? after place = some (.file code.toUTF8)

/-- For an input that is found and is text, the program that is prepared is the one of a bare generator. -/
theorem codeWith_of_prepared {args : Arguments} {literals : List Literal}
    (hspelled : ∀ literal ∈ literals, literal.WellSpelled)
    (hliterals : args.literals = literals.map Literal.spelled) (canonical source : String) :
    match prepared args (some canonical) (some source) with
    | .ok (_, code) => Generator.codeWith args.indentText literals source = .ok code
    | .error _ => ∃ e, Generator.codeWith args.indentText literals source = .error e := by
  have hprepared : prepared args (some canonical) (some source) =
      ((Workspace.parse source).mapError (.load canonical) >>= fun ws => args.host >>= fun host =>
        (host.boundGenerator.generate ws).mapError .generate >>= fun code => .ok (host, code)) := rfl
  have hequipped := Host.paired_equipped args.indentText literals
  rw [Generator.codeWith, hprepared, args.host_eq hspelled hliterals]
  revert hequipped
  generalize Host.equipped args.indentText literals = host,
    literals.foldlM Generator.withLiteral { indent := args.indentText } = g
  intro hequipped
  cases hequipped with
  | refused e => cases Workspace.parse source <;> exact ⟨_, rfl⟩
  | @added host g paired =>
    cases Workspace.parse source with
    | error e => exact ⟨_, rfl⟩
    | ok ws =>
      -- both generate with one generator from one workspace
      change match (host.boundGenerator.generate ws).mapError CommandError.generate >>= fun code =>
          Except.ok (host, code) with
        | .ok (_, code) => (g.generate ws).mapError HostError.generate = .ok code
        | .error _ => ∃ e, (g.generate ws).mapError HostError.generate = .error e
      rw [paired.boundGenerator]
      cases g.generate ws with
      | error e => exact ⟨_, rfl⟩
      | ok code => rfl

/-- If all outputs are written, the program is where the arguments ask for it. -/
theorem delivers_of_writes (lawful : view.Lawful) {args : Arguments} {host : Host} {code : String}
    {written : List (Output × Place)} {mid : σ}
    (horder : args.outputs host code = written.map Prod.fst) (hwrites : view.Writes s written mid) :
    Delivers view args code s (afterPrint args code mid) := by
  have hprinted := printed_afterPrint lawful args code mid
  rw [hwrites.printed] at hprinted
  rw [Delivers]
  cases houtput : args.output? with
  | none =>
    rw [houtput] at hprinted
    exact hprinted
  | some target =>
    rw [houtput, if_neg (by simp), String.append_empty] at hprinted
    have hstays : afterPrint args code mid = mid := by
      rw [afterPrint, houtput, if_neg (by simp)]
    rw [Arguments.outputs, houtput, eq_comm, List.map_eq_append_iff] at horder
    obtain ⟨before, last, rfl, -, hlast⟩ := horder
    obtain ⟨⟨output, place⟩, rfl, houtput⟩ := List.map_eq_singleton_iff.1 hlast
    obtain rfl : output = ⟨.writingOutput, target, code⟩ := houtput
    refine ⟨hprinted, place, ?_⟩
    rw [hstays]
    exact hwrites.last

/-- The command, a host and a bare generator agree. The host and the generator have the same program for
the text of the input, or fail for the same reason. If there is a program, the command delivers it unless
it cannot write one of its outputs, and otherwise it fails before it writes. -/
theorem run_agrees (lawful : view.Lawful) {args : Arguments} {literals : List Literal}
    (hspelled : ∀ literal ∈ literals, literal.WellSpelled)
    (hliterals : args.literals = literals.map Literal.spelled) {canonical source : String}
    (hfound : Machine.located (.parse args.input) s = some canonical)
    (hsource : Machine.content (.parse args.input) s = some source) :
    Host.codeWith args.indentText literals source = Generator.codeWith args.indentText literals source ∧
      Ends (run args) s fun result after =>
        match Generator.codeWith args.indentText literals source with
        | .ok code => result = .ok () ∧ Delivers view args code s after ∨
            ∃ e, result = .error e ∧ Interrupted view args code s e
        | .error _ => ∃ e, result = .error e ∧ e.isWriting = false := by
  refine ⟨Host.codeWith_eq .., (ends_run lawful args s).mono fun result after hend => ?_⟩
  have hprepared : preparedOn args s = prepared args (some canonical) (some source) := by
    rw [preparedOn, hfound, hsource]
  have hcode := codeWith_of_prepared hspelled hliterals canonical source
  rw [← hprepared] at hcode
  cases hend with
  | @unprepared e _ prepared same =>
    rw [prepared] at hcode
    obtain ⟨e', hcode⟩ := hcode
    rw [hcode]
    exact ⟨e, rfl, beforeWriting_prepared _ _ _ _ prepared⟩
  | @interrupted host code e written next later mid _ prepared order writes refused grows =>
    rw [prepared] at hcode
    rw [show Generator.codeWith args.indentText literals source = .ok code from hcode]
    exact .inr ⟨e, rfl, host, written, next, later, mid, order, writes, refused⟩
  | @complete host code written mid prepared order writes =>
    rw [prepared] at hcode
    rw [show Generator.codeWith args.indentText literals source = .ok code from hcode]
    exact .inl ⟨rfl, delivers_of_writes lawful order writes⟩

/-- A saved workspace with one block, of a custom type. -/
def piSource : String :=
  "\x7b\"blocks\": \x7b\"blocks\": [\x7b\"type\": \"pi\"\x7d]\x7d\x7d"

def piDisk : Disk :=
  .ofEntries "/work" [("canvas.json", .file piSource.toUTF8)]

/-- A literal with a colon in its text. -/
def piLiteral : Literal :=
  ⟨"pi", "Pi", "3:14"⟩

def piArguments : Arguments :=
  { input := "canvas.json", output? := some "out/pi.hxp", literals := ["pi:Pi:3:14"] }

theorem piDisk_agrees : Disk.view.Lawful ∧
    (∀ literal ∈ [piLiteral], literal.WellSpelled) ∧
    piArguments.literals = [piLiteral].map Literal.spelled ∧
    Machine.located (.parse "canvas.json") piDisk = some "/work/canvas.json" ∧
    Machine.content (.parse "canvas.json") piDisk = some piSource ∧
    Generator.codeWith piArguments.indentText [piLiteral] piSource = .ok "3:14;" ∧
    Host.codeWith piArguments.indentText [piLiteral] piSource =
      Generator.codeWith piArguments.indentText [piLiteral] piSource ∧
    Ends (run piArguments) piDisk fun result after =>
      match Generator.codeWith piArguments.indentText [piLiteral] piSource with
      | .ok code => result = .ok () ∧ Delivers Disk.view piArguments code piDisk after ∨
          ∃ e, result = .error e ∧ Interrupted Disk.view piArguments code piDisk e
      | .error _ => ∃ e, result = .error e ∧ e.isWriting = false := by
  have hspelled : ∀ literal ∈ [piLiteral], literal.WellSpelled := by
    intro literal hliteral
    rw [List.mem_singleton.1 hliteral]
    exact ⟨by decide, by decide, by decide⟩
  have hliterals : piArguments.literals = [piLiteral].map Literal.spelled := by decide
  have hfound : Machine.located (.parse "canvas.json") piDisk = some "/work/canvas.json" := by decide +kernel
  have hsource : Machine.content (.parse "canvas.json") piDisk = some piSource := by decide +kernel
  exact ⟨Disk.lawful, hspelled, hliterals, hfound, hsource, by decide +kernel,
    run_agrees Disk.lawful hspelled hliterals hfound hsource⟩

end Command
end BlockProgram
