import BlockProgram.Command.Disk
import BlockProgram.Command.Run
import Mathlib

/-!
What the command may rely on. A `MachineView` says what is seen of the states of a machine, and `Lawful`
what each operation changes of that:

    createDraft         fillDraft             moveDraft
    nothing ──→ an empty file ──→ a file with the text ──→ the same file in its place
                     │                    │
                     └────────────────────┴── removeDraft ──→ nothing

A draft is created or it is not, and takes its place or stays as it is. Filling it may end in the
middle. How the places of files are named, what else the states hold and when an operation fails is left
open, so what is shown of the command holds wherever it fails.
-/

namespace BlockProgram

/-- What is seen of the states of a machine. -/
structure MachineView (σ Place : Type) [Machine (StateM σ)] where
  /-- What is in a place. -/
  get? : σ → Place → Option DiskEntry
  /-- The place that a file gets when it is put under a path. -/
  place? : σ → PathName → Option Place
  /-- The place of a draft. -/
  draftPlace : Machine.Draft (StateM σ) → Place
  /-- The standard output. -/
  printed : σ → String

section

variable {σ Place : Type} [Machine (StateM σ)]

/-- The canonical path of the file under a path. -/
def Machine.located (path : PathName) (s : σ) : Option String :=
  (Machine.locate (m := StateM σ) path s).1

/-- The text of the file under a path. -/
def Machine.content (path : PathName) (s : σ) : Option String :=
  (Machine.read (m := StateM σ) path s).1

end

namespace MachineView

variable {σ Place : Type} [Machine (StateM σ)] (view : MachineView σ Place) {s s' s'' room : σ}

/-! ### Changes -/

/-- The states look the same. -/
structure Same (s s' : σ) : Prop where
  entry : ∀ place, view.get? s' place = view.get? s place
  leads : ∀ path, view.place? s' path = view.place? s path
  located : ∀ path, Machine.located path s' = Machine.located path s
  content : ∀ path, Machine.content path s' = Machine.content path s
  printed : view.printed s' = view.printed s

/-- Where something differs, a directory came where nothing was. -/
structure Grows (s s' : σ) : Prop where
  entry : ∀ place, view.get? s' place = view.get? s place ∨
    view.get? s place = none ∧ view.get? s' place = some .directory
  printed : view.printed s' = view.printed s

/-- The states differ at most in what is in one place, and no path leads elsewhere. -/
structure SameBut (place : Place) (s s' : σ) : Prop where
  entry : ∀ other, other ≠ place → view.get? s' other = view.get? s other
  leads : ∀ path, view.place? s' path = view.place? s path
  printed : view.printed s' = view.printed s

/-- A file with a text came under a path, in a place that is no directory. Nothing else differs. -/
structure Puts (path : PathName) (place : Place) (text : String) (s s' : σ) : Prop where
  leads : view.place? s path = some place
  leads_after : view.place? s' path = some place
  not_directory : view.get? s place ≠ some .directory
  entry : view.get? s' place = some (.file text.toUTF8)
  others : ∀ other, other ≠ place → view.get? s' other = view.get? s other
  printed : view.printed s' = view.printed s

/-- The second state is the first one with a draft in it, under a name that was free. -/
structure Drafted (draft : Machine.Draft (StateM σ)) (content : ByteArray) (s s' : σ) : Prop where
  free : view.get? s (view.draftPlace draft) = none
  entry : view.get? s' (view.draftPlace draft) = some (.file content)
  others : view.SameBut (view.draftPlace draft) s s'

/-! ### Laws -/

/-- What the operations of a machine change. -/
structure Lawful : Prop where
  locate (path : PathName) (s : σ) : view.Same s (Machine.locate (m := StateM σ) path s).2
  read (path : PathName) (s : σ) : view.Same s (Machine.read (m := StateM σ) path s).2
  report (line : String) (s : σ) : view.Same s (Machine.report (m := StateM σ) line s).2
  makeDirectory (path : PathName) (s : σ) :
    view.Grows s (Machine.makeDirectory (m := StateM σ) path s).2
  createDraft_none (directory : PathName) (s s' : σ) :
    Machine.createDraft (m := StateM σ) directory s = (none, s') → view.Same s s'
  createDraft_some (directory : PathName) (draft : Machine.Draft (StateM σ)) (s s' : σ) :
    Machine.createDraft (m := StateM σ) directory s = (some draft, s') →
      view.Drafted draft ByteArray.empty s s'
  fillDraft (draft : Machine.Draft (StateM σ)) (text : String) (old : ByteArray) (s s' : σ)
    (done : Bool) : view.get? s (view.draftPlace draft) = some (.file old) →
      Machine.fillDraft (m := StateM σ) draft text s = (done, s') →
        view.SameBut (view.draftPlace draft) s s' ∧ ∃ content,
          view.get? s' (view.draftPlace draft) = some (.file content) ∧
            (done = true → content = text.toUTF8)
  moveDraft_false (draft : Machine.Draft (StateM σ)) (path : PathName) (s s' : σ) :
    Machine.moveDraft (m := StateM σ) draft path s = (false, s') → view.Same s s'
  moveDraft_true (draft : Machine.Draft (StateM σ)) (path : PathName) (content : ByteArray) (s s' : σ) :
    view.get? s (view.draftPlace draft) = some (.file content) →
      Machine.moveDraft (m := StateM σ) draft path s = (true, s') →
        ∃ place, view.place? s path = some place ∧ view.place? s' path = some place ∧
          view.get? s place ≠ some .directory ∧ view.get? s' place = some (.file content) ∧
          (view.draftPlace draft ≠ place → view.get? s' (view.draftPlace draft) = none) ∧
          (∀ other, other ≠ place → other ≠ view.draftPlace draft →
            view.get? s' other = view.get? s other) ∧
          view.printed s' = view.printed s
  removeDraft (draft : Machine.Draft (StateM σ)) (content : ByteArray) (s s' : σ) :
    view.get? s (view.draftPlace draft) = some (.file content) →
      Machine.removeDraft (m := StateM σ) draft s = ((), s') →
        view.SameBut (view.draftPlace draft) s s' ∧ view.get? s' (view.draftPlace draft) = none
  print_entry (text : String) (s : σ) (place : Place) :
    view.get? (Machine.print (m := StateM σ) text s).2 place = view.get? s place
  print_printed (text : String) (s : σ) :
    view.printed (Machine.print (m := StateM σ) text s).2 = view.printed s ++ text

variable {view}

theorem Same.refl (s : σ) : view.Same s s :=
  ⟨fun _ => rfl, fun _ => rfl, fun _ => rfl, fun _ => rfl, rfl⟩

theorem Same.trans (h : view.Same s s') (h' : view.Same s' s'') : view.Same s s'' where
  entry place := (h'.entry place).trans (h.entry place)
  leads path := (h'.leads path).trans (h.leads path)
  located path := (h'.located path).trans (h.located path)
  content path := (h'.content path).trans (h.content path)
  printed := h'.printed.trans h.printed

theorem Same.grows (h : view.Same s s') : view.Grows s s' :=
  ⟨fun place => .inl (h.entry place), h.printed⟩

theorem Grows.refl (s : σ) : view.Grows s s :=
  (Same.refl s).grows

theorem Grows.trans (h : view.Grows s s') (h' : view.Grows s' s'') : view.Grows s s'' where
  entry place := by
    rcases h.entry place with heq | ⟨hnone, hdirectory⟩
    · rw [← heq]
      exact h'.entry place
    · right
      rcases h'.entry place with heq | ⟨hgone, -⟩
      · exact ⟨hnone, heq.trans hdirectory⟩
      · exact absurd (hgone.symm.trans hdirectory) (by simp)
  printed := h'.printed.trans h.printed

theorem SameBut.trans {place : Place} (h : view.SameBut place s s') (h' : view.SameBut place s' s'') :
    view.SameBut place s s'' where
  entry other hother := (h'.entry other hother).trans (h.entry other hother)
  leads path := (h'.leads path).trans (h.leads path)
  printed := h'.printed.trans h.printed

/-! ### Drafts -/

variable {draft : Machine.Draft (StateM σ)} {content : ByteArray}

theorem Drafted.stays (h : view.Drafted draft content s s') (hsame : view.Same s' s'') :
    view.Drafted draft content s s'' where
  free := h.free
  entry := (hsame.entry _).trans h.entry
  others := h.others.trans ⟨fun other _ => hsame.entry other, hsame.leads, hsame.printed⟩

/-- Once the draft is gone, all is as it was before the draft was there. -/
theorem Drafted.removed (h : view.Drafted draft content s s')
    (hbut : view.SameBut (view.draftPlace draft) s' s'')
    (hgone : view.get? s'' (view.draftPlace draft) = none) : view.Grows s s'' where
  entry place := by
    left
    by_cases hplace : place = view.draftPlace draft
    · rw [hplace, hgone, h.free]
    · exact (h.others.trans hbut).entry place hplace
  printed := (h.others.trans hbut).printed

/-- Once the draft has moved, its content is in the place of what the path named, and all else is as it
was before the draft was there. -/
theorem Drafted.moved {text : String} {path : PathName} (lawful : view.Lawful)
    (h : view.Drafted draft text.toUTF8 s s')
    (hmove : Machine.moveDraft (m := StateM σ) draft path s' = (true, s'')) :
    ∃ place, view.Puts path place text s s'' := by
  obtain ⟨place, hleads, hafter, hnot, hentry, hgone, hothers, hprinted⟩ :=
    lawful.moveDraft_true draft path _ s' s'' h.entry hmove
  refine ⟨place, (h.others.leads path).symm.trans hleads, hafter, fun hdirectory => ?_, hentry,
    fun other hother => ?_, hprinted.trans h.others.printed⟩
  · by_cases hplace : place = view.draftPlace draft
    · rw [hplace, h.free] at hdirectory
      cases hdirectory
    · exact hnot ((h.others.entry place hplace).trans hdirectory)
  · by_cases hdraft : other = view.draftPlace draft
    · subst hdraft
      rw [hgone hother, h.free]
    · exact (hothers other hother hdraft).trans (h.others.entry other hdraft)

end MachineView
end BlockProgram
