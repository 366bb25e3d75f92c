import Haklang.Proofs.Action.Respects
import Haklang.Proofs.Value.Shallow

/-!
# Actions that fail

What is known of an action when it fails, apart from the machine that it leaves behind: with which
diagnostic it does (`Action.FailsWith`), that it never does (`Action.Succeeds`), and that it does so
within a relation between machines (`Action.Aborts`). The last says nothing of runs that succeed, so
unlike `Action.Respects` it passes through a sequence in two ways only: what comes first respects
the relation, or what comes later cannot fail.

Most faults are found by an action itself and do not have a line yet, nor are they about a limit
that has been reached. An action all of whose faults are such is *plain* (`Action.Plain`). Where
trees report, and where calls and iterations are counted, failures are more than that.
-/

namespace Haklang

/-- A diagnostic that has no line yet and does not say that a limit has been reached. -/
structure Diagnostic.Plain (d : Diagnostic) : Prop where
  /-- There is no line. -/
  line : d.line? = none
  /-- It is not about a limit. -/
  category : d.fault.category.isLimit = false

/-- So a category that is about a limit is never that of a plain diagnostic. -/
theorem Diagnostic.Plain.category_ne {d : Diagnostic} (hd : d.Plain) {c : Fault.Category}
    (hc : c.isLimit = true) : d.fault.category ≠ c := by
  rintro rfl
  exact absurd (hc.symm.trans hd.category) (by decide)

namespace Action

variable {α β : Type} {x : Action α} {f : α → Action β} {m m' : Machine} {d : Diagnostic}

/-- A sequence fails in its first part, or in what follows a success of it. -/
theorem bind_eq_error_iff :
    (x >>= f) m = .error d m' ↔
      x m = .error d m' ∨ ∃ a m₁, x m = .ok a m₁ ∧ f a m₁ = .error d m' := by
  cases h : x m with
  | ok a m₁ =>
    rw [bind_of_ok h]
    refine ⟨fun hf ↦ .inr ⟨a, m₁, rfl, hf⟩, ?_⟩
    rintro (hx | ⟨_, _, hx, hf⟩)
    · cases hx
    · cases hx
      exact hf
  | error d₁ m₁ => simp [bind_of_error h]

/-- Dropping the answer keeps failures as they are. -/
theorem discard_eq_error_iff : Functor.discard x m = .error d m' ↔ x m = .error d m' := by
  show EStateM.map _ x m = _ ↔ _
  cases h : x m <;> simp [EStateM.map, h]

/-- Dropping the answer keeps successes, whatever their answers were. -/
theorem discard_eq_ok_iff : Functor.discard x m = .ok () m' ↔ ∃ a, x m = .ok a m' := by
  show EStateM.map _ x m = _ ↔ _
  cases h : x m <;> simp [EStateM.map, h]

/-- Reading from the store succeeds with what is read there and changes nothing. -/
theorem read_eq_ok_iff {f : Store → Except Fault α} {a : α} :
    read f m = .ok a m' ↔ f m.store = .ok a ∧ m = m' := by
  show ofExcept (f m.store) m = .ok a m' ↔ _
  cases h : f m.store with
  | ok b => simp [ofExcept, pure, EStateM.pure]
  | error e => exact ⟨nofun, nofun⟩

/-! ### Diagnostics -/

/-- The action fails on that machine, with that diagnostic. -/
def FailsWith (x : Action α) (m : Machine) (d : Diagnostic) : Prop := ∃ m', x m = .error d m'

theorem failsWith_of_outcome (h : x.outcome m = (.error d, m')) : x.FailsWith m d :=
  ⟨m', outcome_eq_error_iff.1 h⟩

/-- An action that fails on a machine does so with one diagnostic. -/
theorem FailsWith.unique {d' : Diagnostic} (h : x.FailsWith m d) (h' : x.FailsWith m d') :
    d = d' := by
  obtain ⟨m₁, h⟩ := h
  obtain ⟨m₂, h'⟩ := h'
  cases h.symm.trans h'
  rfl

/-- With which diagnostics a sequence fails, wherever that leaves the machine. -/
theorem failsWith_bind_iff :
    (x >>= f).FailsWith m d ↔
      x.FailsWith m d ∨ ∃ a m₁, x m = .ok a m₁ ∧ (f a).FailsWith m₁ d := by
  constructor
  · rintro ⟨m', h⟩
    obtain h | ⟨a, m₁, hok, h⟩ := bind_eq_error_iff.1 h
    · exact .inl ⟨m', h⟩
    · exact .inr ⟨a, m₁, hok, m', h⟩
  · rintro (⟨m', h⟩ | ⟨a, m₁, hok, m', h⟩)
    · exact ⟨m', bind_eq_error_iff.2 (.inl h)⟩
    · exact ⟨m', bind_eq_error_iff.2 (.inr ⟨a, m₁, hok, h⟩)⟩

/-- What comes first fails. -/
theorem FailsWith.bind (h : x.FailsWith m d) (f : α → Action β) : (x >>= f).FailsWith m d :=
  failsWith_bind_iff.2 (.inl h)

/-- What comes first does not fail. -/
theorem failsWith_bind_iff_of_ok {a : α} {m₁ : Machine} (hok : x m = .ok a m₁) :
    (x >>= f).FailsWith m d ↔ (f a).FailsWith m₁ d := by
  rw [FailsWith, bind_of_ok hok, FailsWith]

theorem failsWith_bind_of_ok {a : α} {m₁ : Machine} (hok : x m = .ok a m₁)
    (h : (f a).FailsWith m₁ d) : (x >>= f).FailsWith m d :=
  (failsWith_bind_iff_of_ok hok).2 h

theorem failsWith_discard_iff : (Functor.discard x).FailsWith m d ↔ x.FailsWith m d :=
  exists_congr fun _ ↦ discard_eq_error_iff

/-- Within a line an action fails as it does without one, but for the line of the diagnostic. -/
theorem failsWith_within_iff {line : SourceLine} :
    (within line x).FailsWith m d ↔ ∃ d', x.FailsWith m d' ∧ d = d'.locate line := by
  unfold FailsWith within
  cases h : x m with
  | ok a m₁ => simp
  | error d₁ m₁ => simp [eq_comm]

/-- Where the answer does not matter, within a line the line is added to the diagnostic. -/
theorem FailsWith.discard_within (h : x.FailsWith m d) (line : SourceLine) :
    (Functor.discard (within line x)).FailsWith m (d.locate line) :=
  failsWith_discard_iff.2 (failsWith_within_iff.2 ⟨d, h, rfl⟩)

/-- With a chain of its own an action fails as it does when nothing has been chosen yet. -/
theorem failsWith_withOwnChain_iff :
    (withOwnChain x).FailsWith m d ↔ x.FailsWith { m with chosen := false } d := by
  unfold FailsWith withOwnChain
  cases h : x { m with chosen := false } <;> simp

/-- In a call an action fails as it does in a new frame. -/
theorem failsWith_inCall_iff :
    (inCall x).FailsWith m d ↔ x.FailsWith { m with store := m.store.enter } d := by
  unfold FailsWith inCall
  cases h : x { m with store := m.store.enter } <;> simp

theorem failsWith_ofExcept_iff {r : Except Fault α} :
    (ofExcept r).FailsWith m d ↔ ∃ e, r = .error e ∧ d = { fault := e } := by
  cases r with
  | ok a =>
    refine ⟨fun ⟨_, h⟩ ↦ ?_, fun ⟨_, h, _⟩ ↦ ?_⟩
    · cases h
    · cases h
  | error e =>
    refine ⟨fun ⟨_, h⟩ ↦ ?_, ?_⟩
    · cases h
      exact ⟨e, rfl, rfl⟩
    · rintro ⟨_, h, rfl⟩
      cases h
      exact ⟨m, rfl⟩

/-! ### Actions that never fail -/

/-- No run of the action fails. -/
def Succeeds (x : Action α) : Prop := ∀ m d m', x m ≠ .error d m'

namespace Succeeds

/-- An action that never fails has no diagnostic. -/
theorem not_failsWith (hx : Succeeds x) : ¬ x.FailsWith m d := fun ⟨m', h⟩ ↦ hx m d m' h

theorem pure (a : α) : Succeeds (Pure.pure a : Action α) := fun _ _ _ ↦ nofun

theorem modify (f : Machine → Machine) : Succeeds (modify f : Action Unit) := fun _ _ _ ↦ nofun

theorem note (e : Console.Event) : Succeeds (Action.note e) := fun _ _ _ ↦ nofun

theorem readLine : Succeeds Action.readLine := fun _ _ _ ↦ nofun

theorem random (f : Generator → α × Generator) : Succeeds (Action.random f) := fun _ _ _ ↦ nofun

theorem get : Succeeds (MonadState.get : Action Machine) := fun _ _ _ ↦ nofun

/-- If nothing that follows can fail, the failures of a sequence are those of its first part. -/
theorem failsWith_bind_iff (hf : ∀ a, Succeeds (f a)) :
    (x >>= f).FailsWith m d ↔ x.FailsWith m d := by
  refine Action.failsWith_bind_iff.trans (or_iff_left ?_)
  rintro ⟨a, m₁, -, h⟩
  exact (hf a).not_failsWith h

/-- A sequence never fails if neither of its parts does. -/
theorem bind (hx : Succeeds x) (hf : ∀ a, Succeeds (f a)) : Succeeds (x >>= f) := by
  intro m d m' h
  obtain h | ⟨a, m₁, -, h⟩ := bind_eq_error_iff.1 h
  · exact hx m d m' h
  · exact hf a m₁ d m' h

theorem discard (hx : Succeeds x) : Succeeds (Functor.discard x) :=
  fun m d m' h ↦ hx m d m' (discard_eq_error_iff.1 h)

end Succeeds

/-! ### Failing within a relation -/

section Aborts

variable {R : Machine → Machine → Prop}

/-- Every run of the action that fails leads from a machine to a related one. -/
def Aborts (R : Machine → Machine → Prop) (x : Action α) : Prop :=
  ∀ m d m', x m = .error d m' → R m m'

/-- Of an action that never fails any relation is true where it fails. -/
theorem Succeeds.aborts (hx : Succeeds x) : Aborts R x := fun m d m' h ↦ absurd h (hx m d m')

/-- What holds across every run holds across those that fail. -/
theorem Respects.aborts (hx : Respects R x) : Aborts R x := fun _ _ _ h ↦ hx.of_error h

/-- What comes first respects the relation. -/
theorem Respects.bind_aborts [IsTrans Machine R] (hx : Respects R x) (hf : ∀ a, Aborts R (f a)) :
    Aborts R (x >>= f) := by
  intro m d m' h
  obtain h | ⟨a, m₁, hok, h⟩ := bind_eq_error_iff.1 h
  · exact hx.of_error h
  · exact trans_of R (hx.of_ok hok) (hf a m₁ d m' h)

/-- What comes later cannot fail. -/
theorem Aborts.bind (hx : Aborts R x) (hf : ∀ a, Succeeds (f a)) : Aborts R (x >>= f) := by
  intro m d m' h
  obtain h | ⟨a, m₁, -, h⟩ := bind_eq_error_iff.1 h
  · exact hx m d m' h
  · exact absurd h (hf a m₁ d m')

end Aborts

/-! ### Plain failures -/

/-- The action fails at most with plain diagnostics. -/
def Plain (x : Action α) : Prop := ∀ m d, x.FailsWith m d → d.Plain

end Action

namespace Action.Plain

variable {α β : Type} {x : Action α} {f : α → Action β}

/-- An action that never fails has plain failures only. -/
theorem of_succeeds (hx : Succeeds x) : Plain x := fun m d ⟨m', h⟩ ↦ absurd h (hx m d m')

/-- A fault that comes from values, with no limit in it, is plain: it has no line yet. -/
theorem ofExcept {r : Except Fault α} (hr : Shallow r) : Plain (Action.ofExcept r) := by
  intro m d h
  obtain ⟨e, he, rfl⟩ := failsWith_ofExcept_iff.1 h
  exact ⟨rfl, hr e he⟩

/-- To fail on purpose, with a fault that is about no limit, is plain. -/
theorem fail {e : Fault} (h : e.category.isLimit = false) : Plain (Action.fail e : Action α) :=
  ofExcept (r := .error e) (shallow_error h)

/-- A sequence of actions that fail plainly fails plainly. -/
theorem bind (hx : Plain x) (hf : ∀ a, Plain (f a)) : Plain (x >>= f) := by
  intro m d h
  obtain h | ⟨a, m₁, -, h⟩ := failsWith_bind_iff.1 h
  · exact hx m d h
  · exact hf a m₁ d h

theorem bind_succeeds (hx : Plain x) (hf : ∀ a, Succeeds (f a)) : Plain (x >>= f) :=
  hx.bind fun a ↦ of_succeeds (hf a)

/-- Reading fails as plainly as what is looked up does. -/
theorem read {f : Store → Except Fault α} (hf : ∀ s, Shallow (f s)) : Plain (Action.read f) :=
  (of_succeeds .get).bind fun m ↦ ofExcept (hf m.store)

/-- A change fails as plainly as what is computed for it does. -/
theorem change {f : Store → Except Fault α × Store} (hf : ∀ s, Shallow (f s).1) :
    Plain (Action.change f) :=
  (of_succeeds .get).bind fun m ↦ (of_succeeds (.modify _)).bind fun _ ↦ ofExcept (hf m.store)

end Action.Plain

end Haklang
