import BlockProgram.Proofs.Command.Disk
import BlockProgram.Proofs.Command.Preparation

/-!
What the command writes. A file is either put in its place complete or nothing but directories came
(`ends_write`); a list of files is written up to the first that fails (`ends_writeAll`). So after a run
every place is as it was, or a new directory, or holds the complete text of an output that was aimed
there (`Accounted`).
-/

namespace BlockProgram

variable {σ Place : Type} [Machine (StateM σ)] {view : MachineView σ Place}

namespace MachineView

variable {s s' s'' : σ} {place : Place}

variable (view) in
/-- Outputs are put into places one after the other, each with the directories around it. -/
inductive Writes : σ → List (Output × Place) → σ → Prop
  | nil {s s' : σ} (same : view.Same s s') : Writes s [] s'
  | cons {s room next after : σ} {output : Output} {place : Place} {rest : List (Output × Place)}
      (grows : view.Grows s room) (puts : view.Puts (.parse output.target) place output.text room next)
      (others : Writes next rest after) : Writes s ((output, place) :: rest) after

variable (view) in
/-- Writing an output from a state on ended with an error, because the machine refused an operation. -/
inductive Refused (s : σ) (output : Output) : CommandError → Prop
  | makeDirectory {directory : PathName} (path : (PathName.parse output.target).directory? = some directory)
      (refused : (Machine.makeDirectory (m := StateM σ) directory s).1 = false) :
      Refused s output (.noDirectory output.target)
  | createDraft {room : σ} (grows : view.Grows s room)
      (refused : (Machine.createDraft (m := StateM σ) (PathName.parse output.target).directory room).1 = none) :
      Refused s output (.noDraft (PathName.parse output.target).directory.text)
  | fillDraft {room created : σ} {draft : Machine.Draft (StateM σ)} (grows : view.Grows s room)
      (drafted : view.Drafted draft ByteArray.empty room created)
      (refused : (Machine.fillDraft (m := StateM σ) draft output.text created).1 = false) :
      Refused s output (.notFilled output.target)
  | moveDraft {room filled : σ} {draft : Machine.Draft (StateM σ)} (grows : view.Grows s room)
      (drafted : view.Drafted draft output.text.toUTF8 room filled)
      (refused : (Machine.moveDraft (m := StateM σ) draft (.parse output.target) filled).1 = false) :
      Refused s output (.notWritten output.target)

theorem Refused.isWriting {output : Output} {e : CommandError} (h : view.Refused s output e) :
    e.isWriting = true := by
  cases h <;> rfl

variable (view) in
/-- What is in a place is what was there, or a directory where nothing was, or the complete text of an
output that was put there. -/
def Accounted (written : List (Output × Place)) (s s' : σ) (place : Place) : Prop :=
  view.get? s' place = view.get? s place ∨
    view.get? s place = none ∧ view.get? s' place = some .directory ∨
    view.get? s place ≠ some .directory ∧
      ∃ output, (output, place) ∈ written ∧ view.get? s' place = some (.file output.text.toUTF8)

theorem Accounted.trans {written written' : List (Output × Place)}
    (h : view.Accounted written s s' place) (h' : view.Accounted written' s' s'' place) :
    view.Accounted (written ++ written') s s'' place := by
  rcases h' with heq' | ⟨hnone', hdirectory'⟩ | ⟨hnot', output, houtput, hentry'⟩
  · rcases h with heq | ⟨hnone, hdirectory⟩ | ⟨hnot, output, houtput, hentry⟩
    · exact .inl (heq'.trans heq)
    · exact .inr (.inl ⟨hnone, heq'.trans hdirectory⟩)
    · exact .inr (.inr ⟨hnot, output, List.mem_append_left _ houtput, heq'.trans hentry⟩)
  · rcases h with heq | ⟨-, hdirectory⟩ | ⟨-, output, -, hentry⟩
    · exact .inr (.inl ⟨heq.symm.trans hnone', hdirectory'⟩)
    · rw [hdirectory] at hnone'
      cases hnone'
    · rw [hentry] at hnone'
      cases hnone'
  · have hmem : (output, place) ∈ written ++ written' := List.mem_append_right _ houtput
    rcases h with heq | ⟨-, hdirectory⟩ | ⟨hnot, -⟩
    · exact .inr (.inr ⟨heq ▸ hnot', output, hmem, hentry'⟩)
    · exact absurd hdirectory hnot'
    · exact .inr (.inr ⟨hnot, output, hmem, hentry'⟩)

theorem Writes.printed {written : List (Output × Place)} (h : view.Writes s written s') :
    view.printed s' = view.printed s := by
  induction h with
  | nil same => exact same.printed
  | cons grows puts _ ih => exact ih.trans (puts.printed.trans grows.printed)

/-- The last output is complete under its path. -/
theorem Writes.last {output : Output} : ∀ {written : List (Output × Place)} {s : σ},
    view.Writes s (written ++ [(output, place)]) s' →
      view.place? s' (.parse output.target) = some place ∧
        view.get? s' place = some (.file output.text.toUTF8)
  | [], _, h => by
    cases h with
    | cons grows puts others =>
      cases others with
      | nil same => exact ⟨(same.leads _).trans puts.leads_after, (same.entry _).trans puts.entry⟩
  | _ :: _, _, h => by
    cases h with
    | cons grows puts others => exact others.last

theorem Writes.of_same {written : List (Output × Place)} (h : view.Writes s' written s'')
    (hsame : view.Same s s') : view.Writes s written s'' := by
  cases h with
  | nil same => exact .nil (hsame.trans same)
  | cons grows puts others => exact .cons (hsame.grows.trans grows) puts others

end MachineView

namespace Command

open MachineView

variable {s room : σ} {draft : Machine.Draft (StateM σ)}

/-! ### One file -/

theorem ends_makeRoom (lawful : view.Lawful) (output : Output) (s : σ) :
    Ends (makeRoom output.target (.parse output.target)) s fun result after =>
      view.Grows s after ∧ ∀ e, result = .error e → view.Refused s output e := by
  rw [makeRoom]
  cases hpath : (PathName.parse output.target).directory? with
  | none => exact ⟨.refl s, fun _ h => by cases h⟩
  | some directory =>
    refine Ends.lift_bind ?_
    have hgrows := lawful.makeDirectory directory s
    cases hmade : (Machine.makeDirectory (m := StateM σ) directory s).1 with
    | true => exact ⟨hgrows, fun _ h => by cases h⟩
    | false =>
      refine ⟨hgrows, fun e h => ?_⟩
      cases h
      exact .makeDirectory hpath hmade

theorem ends_createDraft (lawful : view.Lawful) (output : Output) (hroom : view.Grows s room) :
    Ends (createDraft (.parse output.target)) room fun result after =>
      match result with
      | .ok draft => view.Drafted draft ByteArray.empty room after
      | .error e => view.Refused s output e ∧ view.Grows s after := by
  refine Ends.lift_bind ?_
  rcases hcreate : Machine.createDraft (m := StateM σ) (PathName.parse output.target).directory room with
    ⟨draft?, after⟩
  cases draft? with
  | none =>
    have hsame := lawful.createDraft_none _ room after hcreate
    exact ⟨.createDraft hroom (congrArg Prod.fst hcreate), hroom.trans hsame.grows⟩
  | some draft => exact lawful.createDraft_some _ draft room after hcreate

/-- A draft with which a step fails is gone afterwards. -/
theorem ends_attempt (lawful : view.Lawful) {step : StateM σ Bool} {Q : σ → Prop}
    {E : CommandError → Prop} {error : CommandError} (hdone : ∀ after, step s = (true, after) → Q after)
    (hfailed : ∀ after, step s = (false, after) →
      E error ∧ ∃ content, view.Drafted draft content room after) :
    Ends (attempt draft step error) s fun result after =>
      match result with
      | .ok () => Q after
      | .error e => E e ∧ view.Grows room after := by
  refine Ends.lift_bind ?_
  rcases hstep : step s with ⟨done, after⟩
  cases done with
  | true => exact hdone after hstep
  | false =>
    obtain ⟨herror, content, hdrafted⟩ := hfailed after hstep
    obtain ⟨hbut, hgone⟩ := lawful.removeDraft draft content after _ hdrafted.entry rfl
    exact ⟨herror, hdrafted.removed hbut hgone⟩

theorem ends_fill (lawful : view.Lawful) (output : Output) {created : σ} (hroom : view.Grows s room)
    (h : view.Drafted draft ByteArray.empty room created) :
    Ends (attempt draft (Machine.fillDraft draft output.text) (.notFilled output.target)) created
      fun result after =>
        match result with
        | .ok () => view.Drafted draft output.text.toUTF8 room after
        | .error e => view.Refused s output e ∧ view.Grows room after := by
  have hstep (done : Bool) (after : σ)
      (hfill : Machine.fillDraft (m := StateM σ) draft output.text created = (done, after)) :
      ∃ content, view.Drafted draft content room after ∧ (done = true → content = output.text.toUTF8) := by
    obtain ⟨hbut, content, hentry, hcontent⟩ := lawful.fillDraft draft _ _ created after done h.entry hfill
    exact ⟨content, ⟨h.free, hentry, h.others.trans hbut⟩, hcontent⟩
  refine ends_attempt lawful (fun after hfill => ?_) fun after hfill => ?_
  · obtain ⟨content, hdrafted, hcontent⟩ := hstep true after hfill
    rwa [hcontent rfl] at hdrafted
  · obtain ⟨content, hdrafted, -⟩ := hstep false after hfill
    exact ⟨.fillDraft hroom h (congrArg Prod.fst hfill), content, hdrafted⟩

theorem ends_move (lawful : view.Lawful) {output : Output} {filled : σ} (hroom : view.Grows s room)
    (h : view.Drafted draft output.text.toUTF8 room filled) :
    Ends (attempt draft (Machine.moveDraft draft (.parse output.target)) (.notWritten output.target)) filled
      fun result after =>
        match result with
        | .ok () => ∃ place, view.Puts (.parse output.target) place output.text room after
        | .error e => view.Refused s output e ∧ view.Grows room after := by
  refine ends_attempt lawful (fun after hmove => h.moved lawful hmove) fun after hmove => ?_
  have hsame := lawful.moveDraft_false draft (.parse output.target) filled after hmove
  exact ⟨.moveDraft hroom h (congrArg Prod.fst hmove), output.text.toUTF8, h.stays hsame⟩

/-- A file is put in its place complete, or nothing came but directories. -/
theorem ends_write (lawful : view.Lawful) (output : Output) (s : σ) :
    Ends (write output.target output.text) s fun result after =>
      match result with
      | .ok () => ∃ room place, view.Grows s room ∧
          view.Puts (.parse output.target) place output.text room after
      | .error e => view.Refused s output e ∧ view.Grows s after := by
  refine (ends_makeRoom lawful output s).bind ?_ ?_
  case refine_2 => exact fun e room ⟨hroom, herror⟩ => ⟨herror e rfl, hroom⟩
  rintro ⟨⟩ room ⟨hroom, -⟩
  refine (ends_createDraft lawful output hroom).bind ?_ ?_
  case refine_2 => exact fun e after herror => herror
  intro draft created hcreated
  refine (ends_fill lawful output hroom hcreated).bind ?_ ?_
  case refine_2 => exact fun e after ⟨herror, hback⟩ => ⟨herror, hroom.trans hback⟩
  rintro ⟨⟩ filled hfilled
  refine (ends_move lawful hroom hfilled).mono fun result after hend => ?_
  cases result with
  | ok =>
    obtain ⟨place, hputs⟩ := hend
    exact ⟨room, place, hroom, hputs⟩
  | error e => exact ⟨hend.1, hroom.trans hend.2⟩

/-! ### All files -/

/-- Files are written up to the first that fails, and the error is about that one. -/
theorem ends_writeAll (lawful : view.Lawful) (args : Arguments) (outputs : List Output) :
    ∀ s, Ends (writeAll args outputs) s fun result after =>
      ∃ written missed mid, outputs = written.map Prod.fst ++ missed ∧ view.Writes s written mid ∧
        match missed with
        | [] => result = .ok () ∧ after = mid
        | next :: _ => (∃ e, result = .error e ∧ view.Refused mid next e) ∧ view.Grows mid after := by
  induction outputs with
  | nil => exact fun s => ⟨[], [], s, rfl, .nil (.refl s), rfl, rfl⟩
  | cons output rest ih =>
    intro s
    refine Ends.bind (yields_announce lawful args output.stage s) ?_ ?_
    case refine_2 =>
      rintro e mid ⟨heq, -⟩
      cases heq
    rintro ⟨⟩ start ⟨-, hstart⟩
    refine (ends_write lawful output start).bind ?_ ?_
    case refine_2 =>
      exact fun e after ⟨he, hgrows⟩ =>
        ⟨[], output :: rest, start, rfl, .nil hstart, ⟨e, rfl, he⟩, hgrows⟩
    rintro ⟨⟩ next ⟨room, place, hgrows, hputs⟩
    refine (ih next).mono ?_
    rintro result after ⟨written, missed, mid, hrest, hwrites, hend⟩
    exact ⟨(output, place) :: written, missed, mid, by rw [hrest]; rfl,
      .cons (hstart.grows.trans hgrows) hputs hwrites, hend⟩

/-! ### Runs -/

/-- The state once the program is printed, if it is to be printed. -/
def afterPrint (args : Arguments) (code : String) (s : σ) : σ :=
  if args.output?.isNone then (Machine.print (m := StateM σ) code s).2 else s

theorem printed_afterPrint (lawful : view.Lawful) (args : Arguments) (code : String) (s : σ) :
    view.printed (afterPrint args code s) =
      view.printed s ++ (if args.output?.isNone then code else "") := by
  rw [afterPrint]
  split
  · exact lawful.print_printed code s
  · rw [String.append_empty]

variable (view) in
/-- How a run of the command ends. -/
inductive Outcome (args : Arguments) (s : σ) : Except CommandError Unit → σ → Prop
  /-- There is no program. -/
  | unprepared {e : CommandError} {after : σ} (prepared : preparedOn args s = .error e)
      (same : view.Same s after) : Outcome args s (.error e) after
  /-- An output could not be written. -/
  | interrupted {host : Host} {code : String} {e : CommandError} {written : List (Output × Place)}
      {next : Output} {later : List Output} {mid after : σ} (prepared : preparedOn args s = .ok (host, code))
      (order : args.outputs host code = written.map Prod.fst ++ next :: later)
      (writes : view.Writes s written mid) (refused : view.Refused mid next e)
      (grows : view.Grows mid after) : Outcome args s (.error e) after
  /-- All outputs are written. -/
  | complete {host : Host} {code : String} {written : List (Output × Place)} {mid : σ}
      (prepared : preparedOn args s = .ok (host, code))
      (order : args.outputs host code = written.map Prod.fst) (writes : view.Writes s written mid) :
      Outcome args s (.ok ()) (afterPrint args code mid)

theorem ends_run (lawful : view.Lawful) (args : Arguments) (s : σ) :
    Ends (run args) s (Outcome view args s) := by
  refine Ends.bind (yields_prepare lawful args s) ?_ ?_
  case refine_2 => exact fun e after ⟨heq, hsame⟩ => .unprepared heq.symm hsame
  rintro ⟨host, code⟩ start ⟨hprepared, hstart⟩
  refine (ends_writeAll lawful args (args.outputs host code) start).bind ?_ ?_
  case refine_2 =>
    rintro e after ⟨written, missed, mid, horder, hwrites, hend⟩
    cases missed with
    | nil => cases hend.1
    | cons next later =>
      obtain ⟨⟨e', heq, hwrite⟩, hgrows⟩ := hend
      cases heq
      exact .interrupted hprepared.symm horder (hwrites.of_same hstart) hwrite hgrows
  rintro ⟨⟩ after ⟨written, missed, mid, horder, hwrites, hend⟩
  cases missed with
  | cons next later =>
    obtain ⟨⟨e, heq, -⟩, -⟩ := hend
    cases heq
  | nil =>
    obtain ⟨-, rfl⟩ := hend
    rw [List.append_nil] at horder
    have hcomplete := Outcome.complete hprepared.symm horder (hwrites.of_same hstart)
    rw [afterPrint] at hcomplete
    split
    · rename_i hprint
      rwa [if_pos hprint] at hcomplete
    · rename_i hquiet
      rwa [if_neg hquiet] at hcomplete

end Command
end BlockProgram
