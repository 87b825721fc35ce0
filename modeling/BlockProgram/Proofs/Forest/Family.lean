import BlockProgram.Generator.Basic
import BlockProgram.Proofs.Text.Transparent

/-!
Families of texts. A family is indexed by the names that a block may have. Its members fail all alike, or
they are the text of one pattern, each filled with its own name.
-/

namespace BlockProgram

open Text Pattern

section

variable {ι α β : Type}

/-- All members of a family fail with the same error, or all succeed with values related by `R`. -/
def Uniform (R : (ι → α) → Prop) (F : ι → Except GenerateError α) : Prop :=
  (∃ e, ∀ i, F i = .error e) ∨ ∃ values, (∀ i, F i = .ok (values i)) ∧ R values

theorem Uniform.ok {R : (ι → α) → Prop} {values : ι → α} (h : R values) :
    Uniform R fun i => .ok (values i) :=
  .inr ⟨values, fun _ => rfl, h⟩

theorem Uniform.error {R : (ι → α) → Prop} (e : GenerateError) :
    Uniform R fun _ : ι => .error e :=
  .inl ⟨e, fun _ => rfl⟩

theorem Uniform.bind {R : (ι → α) → Prop} {R' : (ι → β) → Prop} {F : ι → Except GenerateError α}
    {next : ι → α → Except GenerateError β} (h : Uniform R F)
    (hnext : ∀ values, R values → Uniform R' fun i => next i (values i)) :
    Uniform R' fun i => F i >>= next i := by
  rcases h with ⟨e, hF⟩ | ⟨values, hF, hR⟩
  · refine .inl ⟨e, ?_⟩
    intro i
    dsimp only
    rw [hF i]
    rfl
  · have hsame : (fun i => F i >>= next i) = fun i => next i (values i) := by
      funext i
      rw [hF i]
      rfl
    rw [hsame]
    exact hnext values hR

end

/-! ### Texts of one pattern -/

section

variable {ι : Type} (P : Char → Prop) (name : ι → Text)

/-- The texts are those of one pattern with `n` holes, for every member whose name is plain. -/
def Writes (n : Nat) (texts : ι → Text) : Prop :=
  ∃ p : Pattern, holes p = n ∧ Spells P p ∧ ∀ i, IsPlain (name i) → texts i = fill (name i) p

/-- The same for several texts, with `n` holes among them. -/
def WritesAll (n : Nat) (texts : ι → List Text) : Prop :=
  ∃ ps : List Pattern, allHoles ps = n ∧ (∀ p ∈ ps, Spells P p) ∧
    ∀ i, IsPlain (name i) → texts i = ps.map (fill (name i))

/-- The same for code of a given shape. -/
def WritesCode (n : Nat) (shape : CodeShape) (codes : ι → Code) : Prop :=
  ∃ texts, (∀ i, codes i = .ofShape (texts i) shape) ∧ Writes P name n texts

variable {P name} {n m : Nat} {texts texts' : ι → Text}

theorem Writes.const {text : Text} (h : ∀ c ∈ text, P c) : Writes P name 0 fun _ => text :=
  ⟨ofText text, by simp, by simpa using h, fun _ _ => by simp⟩

theorem Writes.append (h : Writes P name n texts) (h' : Writes P name m texts') :
    Writes P name (n + m) fun i => texts i ++ texts' i := by
  rcases h with ⟨p, hn, hp, hfill⟩
  rcases h' with ⟨q, hm, hq, hfill'⟩
  refine ⟨p ++ q, by simp [hn, hm], by simpa using ⟨hp, hq⟩, ?_⟩
  intro i hi
  dsimp only
  rw [hfill i hi, hfill' i hi, fill_append]

theorem Writes.transparent {op : Text → Text} (h : Writes P name n texts) (hop : Transparent P op) :
    Writes P name n fun i => op (texts i) := by
  rcases h with ⟨p, hn, hp, hfill⟩
  obtain ⟨q, hholes, hq, hfill'⟩ := hop p hp
  refine ⟨q, hholes.trans hn, hq, ?_⟩
  intro i hi
  dsimp only
  rw [hfill i hi, hfill' _ hi]

theorem WritesAll.join {op : List Text → Text} {texts : ι → List Text} (h : WritesAll P name n texts)
    (hop : TransparentJoin P op) : Writes P name n fun i => op (texts i) := by
  rcases h with ⟨ps, hn, hps, hfill⟩
  obtain ⟨q, hholes, hq, hfill'⟩ := hop ps hps
  refine ⟨q, hholes.trans hn, hq, ?_⟩
  intro i hi
  dsimp only
  rw [hfill i hi, hfill' _ hi]

theorem WritesAll.nil : WritesAll P name 0 fun _ => [] :=
  ⟨[], rfl, by simp, fun _ _ => rfl⟩

theorem WritesAll.cons {more : ι → List Text} (h : Writes P name n texts)
    (h' : WritesAll P name m more) :
    WritesAll P name (n + m) fun i => texts i :: more i := by
  rcases h with ⟨p, hn, hp, hfill⟩
  rcases h' with ⟨ps, hm, hps, hfill'⟩
  refine ⟨p :: ps, by simp [hn, hm], ?_, fun i hi => ?_⟩
  · rintro q (_ | ⟨_, hq⟩)
    · exact hp
    · exact hps q hq
  · dsimp only
    rw [hfill i hi, hfill' i hi, List.map_cons]

/-- Whether a text is empty does not depend on the name. -/
theorem Writes.isEmpty (h : Writes P name n texts) :
    ∃ empty, (∀ i, IsPlain (name i) → (texts i).isEmpty = empty) ∧ (empty = true → n = 0) := by
  rcases h with ⟨p, hn, -, hfill⟩
  refine ⟨p.isEmpty, fun i hi => ?_, fun hempty => ?_⟩
  · rw [hfill i hi, Bool.eq_iff_iff]
    simp [fill_eq_nil_iff hi]
  · rw [List.isEmpty_iff] at hempty
    rw [← hn, hempty, holes_nil]

theorem Uniform.text {n : Nat} {shape : CodeShape} {codes : ι → Except GenerateError Code}
    (h : Uniform (WritesCode P name n shape) codes) :
    Uniform (Writes P name n) fun i => (codes i).map Code.text := by
  rcases h with ⟨e, he⟩ | ⟨values, hvalues, texts, htexts, hwrites⟩
  · refine .inl ⟨e, ?_⟩
    intro i
    dsimp only
    rw [he i]
    rfl
  · refine .inr ⟨texts, fun i => ?_, hwrites⟩
    dsimp only
    rw [hvalues i, htexts i]
    cases shape <;> rfl

/-- Only the members with plain names count. -/
theorem Writes.congr (h : Writes P name n texts) (hsame : ∀ i, IsPlain (name i) → texts' i = texts i) :
    Writes P name n texts' := by
  rcases h with ⟨p, hn, hp, hfill⟩
  exact ⟨p, hn, hp, fun i hi => (hsame i hi).trans (hfill i hi)⟩

theorem WritesAll.congr {texts texts' : ι → List Text} (h : WritesAll P name n texts)
    (hsame : ∀ i, IsPlain (name i) → texts' i = texts i) : WritesAll P name n texts' := by
  rcases h with ⟨ps, hn, hps, hfill⟩
  exact ⟨ps, hn, hps, fun i hi => (hsame i hi).trans (hfill i hi)⟩

end

end BlockProgram
