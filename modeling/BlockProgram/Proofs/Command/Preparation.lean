import BlockProgram.Proofs.Command.View

/-!
What the command does before it writes. Up to the finished program it only looks at its machine, so its
result is a function of what it finds there (`prepared`) and the machine looks the same afterwards
(`yields_prepare`). `Ends` says what becomes of a state in an action, and `Yields` is the case in which
nothing does.
-/

namespace BlockProgram
namespace Command

variable {σ Place α β : Type}

/-! ### Actions -/

/-- The result of an action and the state after it satisfy `Q`. -/
def Ends (action : Action (StateM σ) α) (s : σ) (Q : Except CommandError α → σ → Prop) : Prop :=
  Q (action s).1 (action s).2

theorem Ends.mono {action : Action (StateM σ) α} {s : σ} {Q Q' : Except CommandError α → σ → Prop}
    (h : Ends action s Q) (hpost : ∀ result after, Q result after → Q' result after) :
    Ends action s Q' :=
  hpost _ _ h

/-- What follows an action starts from what the action leaves; its error is kept. -/
theorem Ends.bind {action : Action (StateM σ) α} {next : α → Action (StateM σ) β} {s : σ}
    {Q : Except CommandError α → σ → Prop} {R : Except CommandError β → σ → Prop}
    (h : Ends action s Q) (hok : ∀ a mid, Q (.ok a) mid → Ends (next a) mid R)
    (herror : ∀ e mid, Q (.error e) mid → R (.error e) mid) : Ends (action >>= next) s R := by
  show R ((ExceptT.bindCont next (action s).1) (action s).2).1
    ((ExceptT.bindCont next (action s).1) (action s).2).2
  rw [Ends] at h
  cases hresult : (action s).1 with
  | ok a =>
    rw [hresult] at h
    exact hok a _ h
  | error e =>
    rw [hresult] at h
    exact herror e _ h

/-- An operation of the machine has no error. -/
theorem Ends.lift_bind {step : StateM σ α} {next : α → Action (StateM σ) β} {s : σ}
    {R : Except CommandError β → σ → Prop} (h : Ends (next (step s).1) (step s).2 R) :
    Ends (ExceptT.lift step >>= next) s R :=
  h

/-! ### Looking -/

variable [Machine (StateM σ)] {view : MachineView σ Place} {s : σ}

variable (view) in
/-- The action has a result and changes nothing. -/
def Yields (s : σ) (action : Action (StateM σ) α) (result : Except CommandError α) : Prop :=
  Ends action s fun other after => other = result ∧ view.Same s after

theorem yields_pure (a : α) : Yields view s (pure a) (.ok a) :=
  ⟨rfl, .refl s⟩

theorem yields_throw (e : CommandError) : Yields view s (throw e : Action (StateM σ) α) (.error e) :=
  ⟨rfl, .refl s⟩

theorem yields_liftExcept (result : Except CommandError α) :
    Yields view s (load.liftExcept result) result := by
  cases result with
  | ok a => exact yields_pure a
  | error e => exact yields_throw e

theorem Yields.bind {action : Action (StateM σ) α} {next : α → Action (StateM σ) β}
    {result : Except CommandError α} {f : α → Except CommandError β} (h : Yields view s action result)
    (hnext : ∀ a mid, view.Same s mid → Yields view mid (next a) (f a)) :
    Yields view s (action >>= next) (result >>= f) := by
  refine Ends.bind h ?_ ?_
  · rintro a mid ⟨rfl, hsame⟩
    exact (hnext a mid hsame).mono fun _ _ hafter => ⟨hafter.1, hsame.trans hafter.2⟩
  · rintro e mid ⟨rfl, hsame⟩
    exact ⟨rfl, hsame⟩

/-- What follows an action that has a value is all that counts. -/
theorem Yields.next {action : Action (StateM σ) α} {next : α → Action (StateM σ) β} {a : α}
    {result : Except CommandError β} (h : Yields view s action (.ok a))
    (hnext : ∀ mid, view.Same s mid → Yields view mid (next a) result) :
    Yields view s (action >>= next) result := by
  refine Ends.bind h ?_ ?_
  · rintro _ mid ⟨heq, hsame⟩
    cases heq
    exact (hnext mid hsame).mono fun _ _ hafter => ⟨hafter.1, hsame.trans hafter.2⟩
  · rintro e mid ⟨heq, -⟩
    cases heq

/-- An operation that changes nothing. -/
theorem yields_lift {step : StateM σ α} (h : view.Same s (step s).2) :
    Yields view s (ExceptT.lift step) (.ok (step s).1) :=
  ⟨rfl, h⟩

theorem yields_announce (lawful : view.Lawful) (args : Arguments) (stage : Stage) (s : σ) :
    Yields view s (announce args stage) (.ok ()) :=
  yields_lift (lawful.report _ s)

/-! ### Preparation -/

/-- The canonical path of the input, if it is found. -/
def found (args : Arguments) : Option String → Except CommandError String
  | none => .error (.inputNotFound args.input)
  | some canonical => .ok canonical

/-- The workspace in the text of the input, if it is text. -/
def loaded (canonical : String) : Option String → Except CommandError Workspace
  | none => .error (.unreadable canonical)
  | some source => (Workspace.parse source).mapError (.load canonical)

/-- The host and the program for an input that was found under a canonical path and has a text. -/
def prepared (args : Arguments) (canonical? content? : Option String) :
    Except CommandError (Host × String) := do
  let canonical ← found args canonical?
  let ws ← loaded canonical content?
  let host ← args.host
  let code ← (host.boundGenerator.generate ws).mapError .generate
  return (host, code)

/-- What the command is to write on a machine in some state. -/
def preparedOn (args : Arguments) (s : σ) : Except CommandError (Host × String) :=
  prepared args (Machine.located (.parse args.input) s) (Machine.content (.parse args.input) s)

theorem yields_locate (lawful : view.Lawful) (args : Arguments) (s : σ) :
    Yields view s (locate args) (found args (Machine.located (.parse args.input) s)) := by
  refine (yields_lift (lawful.locate (.parse args.input) s)).next fun mid _ => ?_
  show Yields view mid _ (found args (Machine.locate (m := StateM σ) (.parse args.input) s).1)
  cases (Machine.locate (m := StateM σ) (.parse args.input) s).1 with
  | none => exact yields_throw _
  | some canonical => exact yields_pure _

theorem yields_load (lawful : view.Lawful) (path : PathName) (canonical : String) (s : σ) :
    Yields view s (load path canonical) (loaded canonical (Machine.content path s)) := by
  refine (yields_lift (lawful.read path s)).next fun mid _ => ?_
  show Yields view mid _ (loaded canonical (Machine.read (m := StateM σ) path s).1)
  cases (Machine.read (m := StateM σ) path s).1 with
  | none => exact yields_throw _
  | some source => exact yields_liftExcept _

/-- Up to the finished program the command changes nothing, and what it prepares depends on its
arguments and its input alone. -/
theorem yields_prepare (lawful : view.Lawful) (args : Arguments) (s : σ) :
    Yields view s (prepare args) (preparedOn args s) := by
  rw [preparedOn]
  refine (yields_announce lawful args .resolving s).next fun s₁ h₁ => ?_
  -- what is found of the input does not depend on what was reported before
  rw [← h₁.located, ← h₁.content]
  refine (yields_locate lawful args s₁).bind fun canonical s₂ h₂ => ?_
  rw [← h₂.content]
  refine (yields_announce lawful args .reading s₂).next fun s₃ h₃ => ?_
  rw [← h₃.content]
  refine (yields_load lawful (.parse args.input) canonical s₃).bind fun ws s₄ _ => ?_
  refine (yields_announce lawful args .registering s₄).next fun s₅ _ => ?_
  refine (yields_liftExcept args.host).bind fun host s₆ _ => ?_
  refine (yields_announce lawful args .generating s₆).next fun s₇ _ => ?_
  exact (yields_liftExcept _).bind fun code s₈ _ => yields_pure _

end Command

/-! ### Errors -/

/-- Whether an error is one of writing a file. -/
def CommandError.isWriting : CommandError → Bool
  | noDirectory _ | noDraft _ | notFilled _ | notWritten _ => true
  | inputNotFound _ | unreadable _ | load _ _ | badLiteral _ | registration _ | generate _ => false

/-- If there is an error, it is none of writing. -/
def BeforeWriting {α : Type} (result : Except CommandError α) : Prop :=
  ∀ e, result = .error e → e.isWriting = false

section

variable {α β ε : Type}

theorem beforeWriting_ok (a : α) : BeforeWriting (.ok a) :=
  fun _ h => by cases h

theorem beforeWriting_error {e : CommandError} (h : e.isWriting = false) :
    BeforeWriting (.error e : Except CommandError α) :=
  fun _ heq => by
    cases heq
    exact h

theorem BeforeWriting.bind {result : Except CommandError α} {next : α → Except CommandError β}
    (h : BeforeWriting result) (hnext : ∀ a, BeforeWriting (next a)) : BeforeWriting (result >>= next) := by
  cases result with
  | ok a => exact hnext a
  | error e => exact beforeWriting_error (h e rfl)

theorem beforeWriting_mapError (result : Except ε α) {wrap : ε → CommandError}
    (h : ∀ e, (wrap e).isWriting = false) : BeforeWriting (result.mapError wrap) := by
  cases result with
  | ok a => exact beforeWriting_ok a
  | error e => exact beforeWriting_error (h e)

end

theorem Host.beforeWriting_addLiterals :
    ∀ (texts : List String) (host : Host), BeforeWriting (host.addLiterals texts)
  | [], host => beforeWriting_ok host
  | text :: rest, host => by
    rw [addLiterals]
    cases literalParts? text with
    | none => exact beforeWriting_error rfl
    | some parts =>
      exact (beforeWriting_mapError _ fun _ => rfl).bind fun next => beforeWriting_addLiterals rest next

theorem Arguments.beforeWriting_host (args : Arguments) : BeforeWriting args.host :=
  (beforeWriting_mapError _ fun _ => rfl).bind fun host => Host.beforeWriting_addLiterals args.literals host

namespace Command

theorem beforeWriting_found (args : Arguments) : ∀ canonical?, BeforeWriting (found args canonical?)
  | none => beforeWriting_error rfl
  | some canonical => beforeWriting_ok canonical

theorem beforeWriting_loaded (canonical : String) : ∀ content?, BeforeWriting (loaded canonical content?)
  | none => beforeWriting_error rfl
  | some source => beforeWriting_mapError (Workspace.parse source) fun _ => rfl

/-- A command that has no program has an error that is none of writing. -/
theorem beforeWriting_prepared (args : Arguments) (canonical? content? : Option String) :
    BeforeWriting (prepared args canonical? content?) :=
  (beforeWriting_found args canonical?).bind fun canonical =>
    (beforeWriting_loaded canonical content?).bind fun ws => args.beforeWriting_host.bind fun host =>
      (beforeWriting_mapError (host.boundGenerator.generate ws) fun _ => rfl).bind fun code =>
        beforeWriting_ok (host, code)

end Command
end BlockProgram
