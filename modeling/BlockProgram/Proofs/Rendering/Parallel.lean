import BlockProgram.Generator.Routine
import BlockProgram.Proofs.Rendering.Triple

/-!
Two runs side by side. Two steps are parallel if from any one pass both end alike: both would nest too deep,
or both fail with the same error, or both give results, which are related; and they leave the same pass.
-/

namespace BlockProgram
namespace Rendering

variable {α β α' β' : Type} {R : α → α' → Prop} {S : β → β' → Prop} {step : Rendering α}
  {step' : Rendering α'}

/-- Steps that have a result end alike: with the same error or with related values, and in one pass. -/
inductive EndAlike (R : α → α' → Prop) :
    Except GenerateError α × Pass → Except GenerateError α' × Pass → Prop where
  | failed (e : GenerateError) (pass : Pass) : EndAlike R (.error e, pass) (.error e, pass)
  | done {a : α} {a' : α'} (h : R a a') (pass : Pass) : EndAlike R (.ok a, pass) (.ok a', pass)

/-- From any pass, the steps end alike or would both nest too deep. -/
def Parallel (R : α → α' → Prop) (step : Rendering α) (step' : Rendering α') : Prop :=
  ∀ pass, Option.Rel (EndAlike R) (step pass) (step' pass)

theorem Parallel.pure {a : α} {a' : α'} (h : R a a') :
    Parallel R (Pure.pure a : Rendering α) (Pure.pure a' : Rendering α') :=
  fun pass => .some (.done h pass)

theorem Parallel.throw (e : GenerateError) :
    Parallel R (MonadExcept.throw e : Rendering α) (MonadExcept.throw e : Rendering α') :=
  fun pass => .some (.failed e pass)

theorem Parallel.tooDeep : Parallel R (Rendering.tooDeep : Rendering α) (Rendering.tooDeep : Rendering α') :=
  fun _ => .none

theorem Parallel.refl (step : Rendering α) : Parallel Eq step step := by
  intro pass
  rcases step pass with _ | ⟨_ | a, after⟩
  · exact .none
  · exact .some (.failed ..)
  · exact .some (.done rfl _)

/-- How two parallel steps end. -/
theorem Parallel.ends (h : Parallel R step step') (pass : Pass) :
    (step pass = none ∧ step' pass = none) ∨
    (∃ e after, step pass = some (.error e, after) ∧ step' pass = some (.error e, after)) ∨
    ∃ a a' after, R a a' ∧ step pass = some (.ok a, after) ∧ step' pass = some (.ok a', after) := by
  have hpass := h pass
  revert hpass
  generalize step pass = ended, step' pass = ended'
  rintro ((⟨e, after⟩ | ⟨hrel, after⟩) | _)
  · exact .inr (.inl ⟨e, after, rfl, rfl⟩)
  · exact .inr (.inr ⟨_, _, after, hrel, rfl, rfl⟩)
  · exact .inl ⟨rfl, rfl⟩

theorem Parallel.mono {weaker : α → α' → Prop} (h : Parallel R step step')
    (hweaker : ∀ a a', R a a' → weaker a a') : Parallel weaker step step' := by
  intro pass
  rcases h.ends pass with ⟨hstep, hstep'⟩ | ⟨e, after, hstep, hstep'⟩ | ⟨a, a', after, hrel, hstep, hstep'⟩
  · rw [hstep, hstep']
    exact .none
  · rw [hstep, hstep']
    exact .some (.failed e after)
  · rw [hstep, hstep']
    exact .some (.done (hweaker a a' hrel) after)

/-- Steps go on from related results. -/
theorem Parallel.bind {next : α → Rendering β} {next' : α' → Rendering β'} (h : Parallel R step step')
    (hnext : ∀ a a', R a a' → Parallel S (next a) (next' a')) :
    Parallel S (step >>= next) (step' >>= next') := by
  intro pass
  rw [bind_apply, bind_apply]
  rcases h.ends pass with ⟨hstep, hstep'⟩ | ⟨e, after, hstep, hstep'⟩ | ⟨a, a', after, hrel, hstep, hstep'⟩
  · rw [hstep, hstep']
    exact .none
  · rw [hstep, hstep']
    exact .some (.failed e after)
  · rw [hstep, hstep']
    exact hnext a a' hrel after

/-- Steps that begin with one and the same step go on from one and the same result. -/
theorem Parallel.bind_same {next : α → Rendering β} {next' : α → Rendering β'} (step : Rendering α)
    (hnext : ∀ a, Parallel S (next a) (next' a)) : Parallel S (step >>= next) (step >>= next') := by
  refine (Parallel.refl step).bind ?_
  rintro a _ rfl
  exact hnext a

/-- A block is marked in both runs. -/
theorem Parallel.during (id : BlockId) (block : Block) (h : Parallel R step step') :
    Parallel R (during id block step) (during id block step') := by
  intro pass
  unfold Rendering.during
  split
  · exact .some (.failed ..)
  · rcases h.ends (pass.enter id) with
      ⟨hstep, hstep'⟩ | ⟨e, after, hstep, hstep'⟩ | ⟨a, a', after, hrel, hstep, hstep'⟩
    · rw [hstep, hstep']
      exact .none
    · rw [hstep, hstep']
      exact .some (.failed e _)
    · rw [hstep, hstep']
      exact .some (.done hrel _)

/-- Parallel steps that settle have results, which are alike. -/
theorem Parallel.unlimited (h : Parallel R step step') (settles : ∀ taken, Settles taken step)
    (settles' : ∀ taken, Settles taken step') (pass : Pass) :
    EndAlike R (Setting.unlimited step settles pass) (Setting.unlimited step' settles' pass) := by
  have hrun := h pass
  rw [step_unlimited step settles, step_unlimited step' settles'] at hrun
  cases hrun with
  | some h => exact h

/-! ### Runs -/

theorem EndAlike.bind {run : Run α} {run' : Run α'} {next : α → Run β} {next' : α' → Run β'} {pass : Pass}
    (h : EndAlike R (run pass) (run' pass))
    (hnext : ∀ a a' mid, R a a' → EndAlike S (next a mid) (next' a' mid)) :
    EndAlike S ((run >>= next) pass) ((run' >>= next') pass) := by
  rw [Run.bind_apply, Run.bind_apply]
  revert h
  generalize run pass = ended, run' pass = ended'
  rintro (⟨e, mid⟩ | ⟨hrel, mid⟩)
  · exact .failed e mid
  · exact hnext _ _ mid hrel

/-- What related values have in common, runs that end alike have in common. -/
theorem EndAlike.map_eq {γ : Type} {ended : Except GenerateError α × Pass}
    {ended' : Except GenerateError α' × Pass} {f : α → γ} {f' : α' → γ} (h : EndAlike R ended ended')
    (hf : ∀ a a', R a a' → f a = f' a') : ended.1.map f = ended'.1.map f' := by
  cases h with
  | failed e => rfl
  | done hrel => exact congrArg Except.ok (hf _ _ hrel)

end Rendering
end BlockProgram
