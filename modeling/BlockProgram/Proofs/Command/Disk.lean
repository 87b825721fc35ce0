import BlockProgram.Proofs.Command.View

/-!
A disk is a lawful machine. Only a directory can be gone through, so where a path leads depends on
nothing but the directories (`target?_eq`), and files may come and go without changing it.
-/

namespace BlockProgram
namespace Disk

variable {disk disk' : Disk} {place other : List String}

/-! ### Entries -/

theorem lookup_filter_self (entries : List (List String × DiskEntry)) (place : List String) :
    (entries.filter fun entry => entry.1 ≠ place).lookup place = none := by
  refine List.lookup_eq_none_iff.2 fun entry hentry => ?_
  have hne : entry.1 ≠ place := by simpa using (List.mem_filter.1 hentry).2
  simpa using hne.symm

theorem lookup_filter_of_ne (entries : List (List String × DiskEntry)) (hother : other ≠ place) :
    (entries.filter fun entry => entry.1 ≠ place).lookup other = entries.lookup other := by
  induction entries with
  | nil => rfl
  | cons entry rest ih =>
    obtain ⟨key, value⟩ := entry
    by_cases hkey : key = place
    · have hskip : (other == key) = false := beq_false_of_ne (hkey ▸ hother)
      rw [List.filter_cons_of_neg (by simpa using hkey), ih, List.lookup_cons, hskip]
    · rw [List.filter_cons_of_pos (by simpa using hkey), List.lookup_cons, List.lookup_cons, ih]

theorem get?_of_ne_nil (disk : Disk) (hplace : place ≠ []) :
    disk.get? place = disk.entries.lookup place := by
  rw [get?, if_neg (by simpa using hplace)]

theorem get?_nil (disk : Disk) : disk.get? [] = some .directory :=
  rfl

/-- Only the directory itself is reached by no parts at all. -/
theorem ne_nil_of_get? {entry : Option DiskEntry} (h : disk.get? place = entry)
    (hentry : entry ≠ some .directory) : place ≠ [] := by
  rintro rfl
  exact hentry (h.symm.trans disk.get?_nil)

theorem get?_put_self (disk : Disk) (hplace : place ≠ []) (entry : DiskEntry) :
    (disk.put place entry).get? place = some entry := by
  rw [get?_of_ne_nil _ hplace, put, List.lookup_append, lookup_filter_self, Option.none_or,
    List.lookup_cons_self]

theorem get?_put_of_ne (disk : Disk) (entry : DiskEntry) (hother : other ≠ place) :
    (disk.put place entry).get? other = disk.get? other := by
  by_cases hnil : other = []
  · rw [hnil, get?_nil, get?_nil]
  · have hlast : List.lookup other [(place, entry)] = none := by
      simpa [List.lookup_eq_none_iff] using hother
    rw [get?_of_ne_nil _ hnil, get?_of_ne_nil _ hnil, put, List.lookup_append,
      lookup_filter_of_ne _ hother, hlast, Option.or_none]

theorem get?_remove_self (disk : Disk) (hplace : place ≠ []) : (disk.remove place).get? place = none := by
  rw [get?_of_ne_nil _ hplace]
  exact lookup_filter_self disk.entries place

theorem get?_remove_of_ne (disk : Disk) (hother : other ≠ place) :
    (disk.remove place).get? other = disk.get? other := by
  by_cases hnil : other = []
  · rw [hnil, get?_nil, get?_nil]
  · rw [get?_of_ne_nil _ hnil, get?_of_ne_nil _ hnil]
    exact lookup_filter_of_ne _ hother

theorem isDirectory_iff : disk.isDirectory place = true ↔ disk.get? place = some .directory := by
  rw [isDirectory]
  split <;> simp_all

/-! ### Paths -/

/-- A path leads to the same place on two disks with the same directories. -/
theorem target?_eq (h : ∀ place, disk'.get? place = some .directory ↔ disk.get? place = some .directory)
    (path : PathName) : disk'.target? path = disk.target? path := by
  have hdirectory (place : List String) : disk'.isDirectory place = disk.isDirectory place :=
    Bool.eq_iff_iff.2 (by rw [isDirectory_iff, isDirectory_iff, h])
  have hfollow : disk'.follow = disk.follow := by
    funext place part
    rw [follow, follow, hdirectory]
  rw [target?, target?, hfollow]

/-- What a disk shows. -/
def view : MachineView Disk (List String) where
  get? := get?
  place? := target?
  draftPlace draft := draft
  printed := printed

/-- Disks that differ in one place, which is a directory on neither. -/
theorem sameBut (hplace : disk.get? place ≠ some .directory)
    (hplace' : disk'.get? place ≠ some .directory)
    (hothers : ∀ other, other ≠ place → disk'.get? other = disk.get? other)
    (hprinted : disk'.printed = disk.printed) : view.SameBut place disk disk' where
  entry := hothers
  leads := target?_eq fun other => by
    by_cases hother : other = place
    · rw [hother]
      exact iff_of_false hplace' hplace
    · rw [hothers other hother]
  printed := hprinted

theorem sameBut_put (hplace : disk.get? place ≠ some .directory) (content : ByteArray) :
    view.SameBut place disk (disk.put place (.file content)) := by
  refine sameBut hplace ?_ (fun other hother => disk.get?_put_of_ne _ hother) rfl
  rw [disk.get?_put_self (ne_nil_of_get? rfl hplace)]
  simp

theorem sameBut_remove (hplace : disk.get? place ≠ some .directory) :
    view.SameBut place disk (disk.remove place) := by
  refine sameBut hplace ?_ (fun other hother => disk.get?_remove_of_ne hother) rfl
  rw [disk.get?_remove_self (ne_nil_of_get? rfl hplace)]
  simp

/-! ### Operations -/

/-- Directories are created where nothing is. -/
theorem grows_makeDirectories (parts : List String) :
    ∀ (disk : Disk) (place : List String), view.Grows disk (disk.makeDirectories place parts).1 := by
  induction parts with
  | nil => exact fun disk _ => .refl disk
  | cons part rest ih =>
    intro disk place
    rw [makeDirectories]
    cases disk.follow place part with
    | none => exact .refl disk
    | some next =>
      dsimp only
      cases hnext : disk.get? next with
      | none =>
        have hput : view.Grows disk (disk.put next .directory) := by
          refine ⟨fun other => ?_, rfl⟩
          by_cases hother : other = next
          · subst hother
            exact .inr ⟨hnext, disk.get?_put_self (ne_nil_of_get? hnext (by simp)) _⟩
          · exact .inl (disk.get?_put_of_ne _ hother)
        exact hput.trans (ih (disk.put next .directory) next)
      | some entry =>
        cases entry with
        | file content => exact .refl disk
        | directory => exact ih disk next

/-- A draft is an empty file in a place where nothing is. -/
theorem createDraft?_eq_some {directory : PathName} {draft : List String}
    (h : disk.createDraft? directory = some (draft, disk')) :
    disk.get? draft = none ∧ disk' = disk.put draft (.file ByteArray.empty) := by
  rw [createDraft?] at h
  split at h
  · cases h
  obtain ⟨around, -, h⟩ := Option.bind_eq_some_iff.1 h
  split at h
  · cases h
  obtain ⟨free, hfree, h⟩ := Option.bind_eq_some_iff.1 h
  cases h
  exact ⟨by simpa using List.find?_some hfree, rfl⟩

/-- The content of a draft that is moved comes into a place that is no directory. -/
theorem moveDraft?_eq_some {draft : List String} {path : PathName} {content : ByteArray}
    (hdraft : disk.get? draft = some (.file content)) (h : disk.moveDraft? draft path = some disk') :
    ∃ place, disk.target? path = some place ∧ disk.get? place ≠ some .directory ∧
      disk' = (disk.remove draft).put place (.file content) := by
  obtain ⟨place, hplace, h⟩ := Option.bind_eq_some_iff.1 h
  split at h
  · cases h
  · rename_i hdirectory
    rw [hdraft] at h
    cases h
    exact ⟨place, hplace, fun hentry => hdirectory (isDirectory_iff.2 hentry), rfl⟩

theorem become_eq {next : Option Disk} {done : Bool} (h : disk.become next = (done, disk')) :
    done = false ∧ disk' = disk ∨ done = true ∧ next = some disk' := by
  cases next <;> cases h
  · exact .inl ⟨rfl, rfl⟩
  · exact .inr ⟨rfl, rfl⟩

theorem becomeWith_eq {next : Option (List String × Disk)} {draft? : Option (List String)}
    (h : disk.becomeWith next = (draft?, disk')) :
    draft? = none ∧ disk' = disk ∨ ∃ draft, draft? = some draft ∧ next = some (draft, disk') := by
  cases next <;> cases h
  · exact .inl ⟨rfl, rfl⟩
  · exact .inr ⟨_, rfl, rfl⟩

theorem get?_file_ne_directory {content : ByteArray} (h : disk.get? place = some (.file content)) :
    disk.get? place ≠ some .directory := by
  rw [h]
  simp

/-- All operations of a disk keep the laws. -/
theorem lawful : view.Lawful where
  locate _ disk := .refl disk
  read _ disk := .refl disk
  report _ _ := ⟨fun _ => rfl, fun _ => rfl, fun _ => rfl, fun _ => rfl, rfl⟩
  makeDirectory path disk := by
    show view.Grows disk (if path.isAbsolute || !isPath path then (false, disk)
      else (disk.makeDirectories [] path.parts).swap).2
    split
    · exact .refl disk
    · exact grows_makeDirectories path.parts disk []
  createDraft_none directory disk disk' h := by
    rcases becomeWith_eq h with ⟨-, rfl⟩ | ⟨draft, hdraft, -⟩
    · exact .refl _
    · cases hdraft
  createDraft_some directory draft disk disk' h := by
    rcases becomeWith_eq h with ⟨hnone, -⟩ | ⟨_, hdraft, hcreate⟩
    · cases hnone
    cases hdraft
    obtain ⟨hfree, rfl⟩ := createDraft?_eq_some hcreate
    have hplace : disk.get? draft ≠ some .directory := by
      rw [hfree]
      simp
    exact ⟨hfree, disk.get?_put_self (ne_nil_of_get? rfl hplace) _, sameBut_put hplace _⟩
  fillDraft draft text old disk disk' done hdraft h := by
    have hplace := get?_file_ne_directory hdraft
    have hfill : disk.fillDraft? draft text = some (disk.put draft (.file text.toUTF8)) := by
      rw [fillDraft?, show disk.get? draft = _ from hdraft]
    rcases become_eq h with ⟨rfl, rfl⟩ | ⟨rfl, hdisk⟩
    · exact ⟨⟨fun _ _ => rfl, fun _ => rfl, rfl⟩, old, hdraft, fun hdone => by cases hdone⟩
    · cases hfill.symm.trans hdisk
      exact ⟨sameBut_put hplace _, _, disk.get?_put_self (ne_nil_of_get? rfl hplace) _, fun _ => rfl⟩
  moveDraft_false draft path disk disk' h := by
    rcases become_eq h with ⟨-, rfl⟩ | ⟨hdone, -⟩
    · exact .refl _
    · cases hdone
  moveDraft_true draft path content disk disk' hdraft h := by
    rcases become_eq h with ⟨hdone, -⟩ | ⟨-, hmove⟩
    · cases hdone
    obtain ⟨place, hleads, hplace, rfl⟩ := moveDraft?_eq_some hdraft hmove
    have hgone : (disk.remove draft).get? draft = none :=
      disk.get?_remove_self (ne_nil_of_get? hdraft (by simp))
    have hremove := sameBut_remove (get?_file_ne_directory hdraft)
    have hfree : (disk.remove draft).get? place ≠ some .directory := by
      by_cases hsame : place = draft
      · exact fun hentry => absurd (hgone.symm.trans (hsame ▸ hentry)) (by simp)
      · rwa [disk.get?_remove_of_ne hsame]
    have hput := sameBut_put hfree content
    refine ⟨place, hleads, ?_, hplace, ?_, fun hne => ?_, fun other hother hne => ?_, rfl⟩
    · exact ((hput.leads path).trans (hremove.leads path)).trans hleads
    · exact (disk.remove draft).get?_put_self (ne_nil_of_get? rfl hplace) _
    · exact (hput.entry draft hne).trans hgone
    · exact (hput.entry other hother).trans (hremove.entry other hne)
  removeDraft draft content disk disk' hdraft h := by
    cases h
    exact ⟨sameBut_remove (get?_file_ne_directory hdraft),
      disk.get?_remove_self (ne_nil_of_get? hdraft (by simp))⟩
  print_entry _ _ _ := rfl
  print_printed _ _ := rfl

end Disk
end BlockProgram
