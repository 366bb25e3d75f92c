import Haklang.Execution
import Haklang.Proofs.Store.WellTyped
import Mathlib.Order.Defs.Unbundled

/-!
# What every run of an action does to the machine

An action fails in the state that it was reached in, so what it leaves behind is a machine in
either case (`Action.after`). An action *respects* a relation between machines if every run of it,
failing or not, leads from a machine to a related one.

For a preorder this passes through the combinators, one lemma each, and so from the leaves of a
program to the whole. `Writes` collects what the leaves of statements ask of a relation, one field
for each single thing that a statement can do: a variable is written in the innermost frame, a value
is pushed, a line is read and so on. Each field says as much as is known where it is asked for, so
that a relation may be as fine as that. `Revises` is the part of it that no statement has to be
looked at for: it leaves out what declares a variable anew and what puts off a call. `Runs` adds
what trees ask for. Calls are the one place where nothing can be said in general, so they stay a
hypothesis: a frame is opened there and closed again.
-/

namespace Haklang

namespace Action

variable {α β : Type}

/-- The answer of an action and the machine that it leaves behind. -/
def outcome (x : Action α) (m : Machine) : Except Diagnostic α × Machine :=
  match x m with
  | .ok a m => (.ok a, m)
  | .error d m => (.error d, m)

/-- The machine after an action, whether the action fails or not. -/
def after (x : Action α) (m : Machine) : Machine :=
  match x m with
  | .ok _ m' => m'
  | .error _ m' => m'

/-- Every run of the action leads from a machine to a related one. -/
def Respects (R : Machine → Machine → Prop) (x : Action α) : Prop := ∀ m, R m (x.after m)

/-- What an action that succeeds leaves behind. -/
theorem after_of_ok {x : Action α} {m m' : Machine} {a : α} (h : x m = .ok a m') :
    x.after m = m' := by
  simp [after, h]

/-- What an action that fails leaves behind, which is the state it failed in. -/
theorem after_of_error {x : Action α} {m m' : Machine} {d : Diagnostic} (h : x m = .error d m') :
    x.after m = m' := by
  simp [after, h]

/-- After a success the rest of the sequence runs from where the first action ended. -/
theorem bind_of_ok {x : Action α} {m m' : Machine} {a : α} (h : x m = .ok a m')
    (f : α → Action β) : (x >>= f) m = f a m' := by
  show EStateM.bind x f m = f a m'
  rw [EStateM.bind, h]

/-- A failure ends the sequence, and the state is kept as it was there. -/
theorem bind_of_error {x : Action α} {m m' : Machine} {d : Diagnostic} (h : x m = .error d m')
    (f : α → Action β) : (x >>= f) m = .error d m' := by
  show EStateM.bind x f m = .error d m'
  rw [EStateM.bind, h]

/-- A sequence succeeds exactly if both of its parts do, one after the other. -/
theorem bind_eq_ok_iff {x : Action α} {f : α → Action β} {m m' : Machine} {b : β} :
    (x >>= f) m = .ok b m' ↔ ∃ a m₁, x m = .ok a m₁ ∧ f a m₁ = .ok b m' := by
  cases h : x m with
  | ok a m₁ =>
    rw [bind_of_ok h]
    refine ⟨fun hf ↦ ⟨a, m₁, rfl, hf⟩, ?_⟩
    rintro ⟨_, _, hx, hf⟩
    cases hx
    exact hf
  | error d m₁ => simp [bind_of_error h]

/-- Dropping the answer changes neither the success nor the machine. -/
theorem discard_of_ok {x : Action α} {m m' : Machine} {a : α} (h : x m = .ok a m') :
    Functor.discard x m = .ok () m' := by
  show EStateM.map _ x m = _
  rw [EStateM.map, h]

/-- Naming the line of a failure does not touch the machine. -/
@[simp] theorem after_within (line : SourceLine) (x : Action α) (m : Machine) :
    (within line x).after m = x.after m := by
  cases h : x m <;> simp [after, within, h]

/-- A chain of its own starts unchosen, and the flag of the chain around it comes back afterwards.
-/
theorem after_withOwnChain (x : Action α) (m : Machine) :
    (withOwnChain x).after m =
      { x.after { m with chosen := false } with chosen := m.chosen } := by
  cases h : x { m with chosen := false } <;> simp [after, withOwnChain, h]

/-- A call leaves the innermost frame that it opened, whether or not it failed. -/
theorem after_inCall (x : Action α) (m : Machine) :
    (inCall x).after m =
      { x.after { m with store := m.store.enter } with
        store := (x.after { m with store := m.store.enter }).store.exit } := by
  cases h : x { m with store := m.store.enter } <;> simp [after, inCall, h]

@[simp] theorem after_ofExcept (r : Except Fault α) (m : Machine) : (ofExcept r).after m = m := by
  cases r <;> rfl

/-- Reading from the store succeeds in the state that it was asked in. -/
theorem read_of_ok {f : Store → Except Fault α} {m : Machine} {a : α} (h : f m.store = .ok a) :
    read f m = .ok a m := by
  show ofExcept (f m.store) m = _
  rw [h]
  rfl

/-- A visible variable is read as it is. -/
theorem read_get_of_some {name : String} {m : Machine} {v : Variable}
    (hv : m.store.lookup? name = some v) : read (·.get name) m = .ok v m :=
  read_of_ok (f := (·.get name)) (by rw [Store.get, hv])

/-- Without a visible variable there is nothing to read, and the failure says which name it was. -/
theorem read_get_of_none {name : String} {m : Machine} (hv : m.store.lookup? name = none) :
    read (·.get name) m = .error { fault := .undefinedVariable name } m := by
  show ofExcept (m.store.get name) m = _
  rw [Store.get, hv]
  rfl

/-- A change of the store is made in any case; only the answer depends on whether it failed. -/
theorem change_apply (f : Store → Except Fault α × Store) (m : Machine) :
    change f m = ofExcept (f m.store).1 { m with store := (f m.store).2 } := rfl

theorem change_of_ok {f : Store → Except Fault α × Store} {m : Machine} {a : α} {store : Store}
    (h : f m.store = (.ok a, store)) : change f m = .ok a { m with store } := by
  rw [change_apply, h]
  rfl

/-- A success is not touched by the line around it. -/
theorem within_of_ok {x : Action α} {m m' : Machine} {a : α} (h : x m = .ok a m')
    (line : SourceLine) : within line x m = .ok a m' := by
  rw [within, h]

/-- The store after a change is the new one, even if the change failed. -/
theorem after_change (f : Store → Except Fault α × Store) (m : Machine) :
    (change f).after m = { m with store := (f m.store).2 } := by
  rw [after, change_apply]
  exact after_ofExcept _ _

/-- The outcome of a sequence, with the machine passed on in both cases. -/
theorem outcome_bind (x : Action α) (f : α → Action β) (m : Machine) :
    (x >>= f).outcome m =
      match x.outcome m with
      | (.ok a, m) => (f a).outcome m
      | (.error d, m) => (.error d, m) := by
  cases h : x m with
  | ok a m' => simp only [outcome, bind_of_ok h, h]
  | error d m' => simp only [outcome, bind_of_error h, h]

/-- The second part of the outcome is the machine left behind. -/
theorem snd_outcome (x : Action α) (m : Machine) : (x.outcome m).2 = x.after m := by
  rw [outcome, after]
  cases x m <;> rfl

/-- Within a line only the failure changes: it gets the line unless it has one. -/
theorem outcome_within (line : SourceLine) (x : Action α) (m : Machine) :
    (within line x).outcome m = ((x.outcome m).1.mapError (·.locate line), (x.outcome m).2) := by
  unfold outcome within
  cases x m <;> rfl

theorem outcome_withOwnChain (x : Action α) (m : Machine) :
    (withOwnChain x).outcome m = ((x.outcome { m with chosen := false }).1,
      { (x.outcome { m with chosen := false }).2 with chosen := m.chosen }) := by
  unfold outcome withOwnChain
  cases x { m with chosen := false } <;> rfl

theorem outcome_eq_ok_iff {x : Action α} {m m' : Machine} {a : α} :
    x.outcome m = (.ok a, m') ↔ x m = .ok a m' := by
  unfold outcome
  cases x m <;> simp

theorem outcome_eq_error_iff {x : Action α} {m m' : Machine} {d : Diagnostic} :
    x.outcome m = (.error d, m') ↔ x m = .error d m' := by
  unfold outcome
  cases x m <;> simp

/-- Actions are told apart by their outcomes. -/
theorem ext_outcome {x y : Action α} (h : ∀ m, x.outcome m = y.outcome m) : x = y := by
  funext m
  cases hy : y m with
  | ok a m' => exact outcome_eq_ok_iff.1 ((h m).trans (outcome_eq_ok_iff.2 hy))
  | error d m' => exact outcome_eq_error_iff.1 ((h m).trans (outcome_eq_error_iff.2 hy))

theorem outcome_discard (x : Action α) (m : Machine) :
    (discard x).outcome m = ((x.outcome m).1.map fun _ ↦ (), (x.outcome m).2) := by
  have hmap : discard x m = EStateM.map (fun _ ↦ ()) x m := rfl
  unfold outcome
  rw [hmap, EStateM.map]
  cases x m <;> rfl

/-- The line may be put around each part of a sequence instead of around the whole. -/
theorem within_bind (line : SourceLine) (x : Action α) (f : α → Action β) :
    within line (x >>= f) = within line x >>= fun a ↦ within line (f a) := by
  refine ext_outcome fun m ↦ ?_
  rw [outcome_within, outcome_bind, outcome_bind, outcome_within]
  rcases x.outcome m with ⟨d | a, m'⟩
  · rfl
  · exact (outcome_within line (f a) m').symm

theorem within_discard (line : SourceLine) (x : Action α) :
    within line (discard x) = discard (within line x) := by
  refine ext_outcome fun m ↦ ?_
  rw [outcome_within, outcome_discard, outcome_discard, outcome_within]
  rcases x.outcome m with ⟨_ | _, _⟩ <;> rfl

namespace Respects

variable {R : Machine → Machine → Prop}

/-- What a run that succeeds does, if every run respects the relation. -/
theorem of_ok {x : Action α} (hx : Respects R x) {m m' : Machine} {a : α} (h : x m = .ok a m') :
    R m m' := by
  have hm := hx m
  rwa [after_of_ok h] at hm

/-- What a run that fails does, if every run respects the relation. -/
theorem of_error {x : Action α} (hx : Respects R x) {m m' : Machine} {d : Diagnostic}
    (h : x m = .error d m') : R m m' := by
  have hm := hx m
  rwa [after_of_error h] at hm

/-! ### Combinators -/

section Reflexive

variable [Std.Refl R]

theorem pure (a : α) : Respects R (Pure.pure a : Action α) := fun m ↦ refl_of R m

theorem fail (f : Fault) : Respects R (Action.fail f : Action α) := fun m ↦ refl_of R m

theorem ofExcept (r : Except Fault α) : Respects R (Action.ofExcept r) := fun m ↦ by
  rw [after_ofExcept]
  exact refl_of R m

theorem get : Respects R (MonadState.get : Action Machine) := fun m ↦ refl_of R m

end Reflexive

/-- Modifying the machine respects what the modification does. -/
theorem modify {f : Machine → Machine} (h : ∀ m, R m (f m)) :
    Respects R (modify f : Action Unit) := h

/-- The line of a failure does not matter for a relation between machines. -/
theorem within {x : Action α} (line : SourceLine) (hx : Respects R x) :
    Respects R (Action.within line x) := fun m ↦ by
  rw [after_within]
  exact hx m

/-- Relations pass through sequences, if they are transitive: a failure in the first part is one
step, anything else two. -/
theorem bind [IsTrans Machine R] {x : Action α} {f : α → Action β} (hx : Respects R x)
    (hf : ∀ a, Respects R (f a)) : Respects R (x >>= f) := fun m ↦ by
  have hm := hx m
  cases h : x m with
  | ok a m' =>
    rw [after_of_ok h] at hm
    have : (x >>= f).after m = (f a).after m' := by rw [after, bind_of_ok h, after]
    rw [this]
    exact trans_of R hm (hf a m')
  | error d m' =>
    rw [after_of_error h] at hm
    rwa [after_of_error (bind_of_error h f)]

theorem discard {x : Action α} (hx : Respects R x) : Respects R (Functor.discard x) := fun m ↦ by
  have hm := hx m
  cases h : x m with
  | ok a m' =>
    rw [after_of_ok h] at hm
    rwa [after_of_ok (discard_of_ok h)]
  | error d m' =>
    have hd : Functor.discard x m = .error d m' := by
      show EStateM.map _ x m = _
      rw [EStateM.map, h]
    rw [after_of_error h] at hm
    rwa [after_of_error hd]

end Respects

end Action

/-! ### What statements do -/

/-- Popping removes the top of the stack, if there is one, and nothing else, even when it fails. -/
theorem Store.snd_pop (s : Store) : s.pop.2 = { s with stack := s.stack.tail } := by
  unfold pop
  split
  case h_1 h => rw [h, List.tail_nil, ← h]
  case h_2 h => rw [h, List.tail_cons]

namespace Machine

/-- What the leaves of statements ask of a relation: that it holds across each single thing that a
statement can do to a machine. -/
structure Writes (R : Machine → Machine → Prop) : Prop where
  /-- A variable is written in the innermost frame. -/
  put : ∀ m name v, m.store.Admits name v → R m { m with store := m.store.put name v }
  /-- The value of a variable is pushed. -/
  push : ∀ m name v, m.store.lookup? name = some v → R m { m with store := m.store.push v.value }
  /-- The top of the stack is taken. -/
  pop : ∀ m, R m { m with store.stack := m.store.stack.tail }
  /-- Something is done at the console that is no message. -/
  note : ∀ m e, e.message? = none → R m { m with console := m.console.note e }
  /-- A line is read from the console. -/
  readLine : ∀ m, R m { m with console := m.console.readLine.2 }
  /-- The generator changes. -/
  generator : ∀ m generator, R m { m with generator }
  /-- A call is put off. -/
  defer : ∀ m call, R m { m with deferred := m.deferred ++ [call] }

/-- What the leaves of statements ask of a relation as long as they leave variables declared as they
were and put off no call. -/
structure Revises (R : Machine → Machine → Prop) : Prop where
  /-- A variable is written in the innermost frame, declared as it was before. -/
  put : ∀ m name v, m.store.Admits name v → m.store.Retains name v →
    R m { m with store := m.store.put name v }
  /-- The value of a variable is pushed. -/
  push : ∀ m name v, m.store.lookup? name = some v → R m { m with store := m.store.push v.value }
  /-- The top of the stack is taken. -/
  pop : ∀ m, R m { m with store.stack := m.store.stack.tail }
  /-- Something is done at the console that is no message. -/
  note : ∀ m e, e.message? = none → R m { m with console := m.console.note e }
  /-- A line is read from the console. -/
  readLine : ∀ m, R m { m with console := m.console.readLine.2 }
  /-- The generator changes. -/
  generator : ∀ m generator, R m { m with generator }

/-- A relation that admits everything that statements do admits what keeps declarations. -/
theorem Writes.revises {R : Machine → Machine → Prop} (hR : Writes R) : Revises R where
  put m name v hv _ := hR.put m name v hv
  push := hR.push
  pop := hR.pop
  note := hR.note
  readLine := hR.readLine
  generator := hR.generator

/-- What trees ask of a relation: what statements do, and that it holds across the definition of a
function and every change of the chain of conditions. -/
structure Runs (R : Machine → Machine → Prop) : Prop extends Writes R where
  /-- A function is defined. -/
  function : ∀ m name f, R m { m with store := m.store.defineFunction name f }
  /-- The chain of conditions changes. -/
  chosen : ∀ m chosen, R m { m with chosen }

end Machine

namespace Action.Respects

variable {R : Machine → Machine → Prop} {α : Type}

/-- A change respects what holds of the store that it leaves behind. -/
theorem change {f : Store → Except Fault α × Store}
    (h : ∀ m : Machine, R m { m with store := (f m.store).2 }) : Respects R (Action.change f) :=
  fun m ↦ by
    rw [after_change]
    exact h m

theorem note (hR : Machine.Revises R) {e : Console.Event} (he : e.message? = none) :
    Respects R (Action.note e) := fun m ↦ hR.note m e he

theorem readLine (hR : Machine.Revises R) : Respects R Action.readLine := fun m ↦ hR.readLine m

theorem pop (hR : Machine.Revises R) : Respects R (Action.change Store.pop) := change fun m ↦ by
  rw [Store.snd_pop]
  exact hR.pop m

variable [IsPreorder Machine R]

theorem read (f : Store → Except Fault α) : Respects R (Action.read f) :=
  get.bind fun m ↦ ofExcept (f m.store)

/-- What follows when something has been read may be told from where it was read. -/
theorem readBind {β : Type} {f : Store → Except Fault α} {g : α → Action β}
    (hg : ∀ m a, f m.store = .ok a → R m ((g a).after m)) :
    Respects R (Action.read f >>= g) := by
  intro m
  rcases ha : f m.store with e | a
  · have hread : Action.read f m = .error { fault := e } m := by
      show Action.ofExcept (f m.store) m = _
      rw [ha]
      rfl
    rw [after_of_error (bind_of_error hread g)]
    exact refl_of R m
  · rw [after, bind_of_ok (read_of_ok ha) g]
    exact hg m a ha

/-- What follows when a variable has been read may be told from the variable. -/
theorem getBind {β : Type} {name : String} {f : Variable → Action β}
    (hf : ∀ m v, m.store.lookup? name = some v → R m ((f v).after m)) :
    Respects R (Action.read (·.get name) >>= f) :=
  readBind fun m v hv ↦ hf m v (by
    unfold Store.get at hv
    split at hv
    · cases hv
      assumption
    · cases hv)

/-- What writes at most one variable, one that the store admits, and leaves it declared as it
was. -/
theorem changeOne (hR : Machine.Revises R) {f : Store → Except Fault α × Store}
    (hf : ∀ s, (f s).2 = s ∨
      ∃ name v, s.Admits name v ∧ s.Retains name v ∧ (f s).2 = s.put name v) :
    Respects R (Action.change f) := change fun m ↦ by
  rcases hf m.store with h | ⟨name, v, hv, hretains, h⟩
  · rw [h]
    exact refl_of R m
  · rw [h]
    exact hR.put m name v hv hretains

/-- An update respects what writing a value of the same type does, since it writes nothing else. -/
theorem update (hR : Machine.Revises R) (name : String) {f : Variable → Except Fault Value}
    (hf : Store.KeepsType f) : Respects R (Action.change (·.update name f)) :=
  changeOne hR fun s ↦ (s.snd_update name hf).imp_right fun ⟨v, h⟩ ↦ ⟨name, v, h⟩

/-- Setting a variable keeps its type, so it is an update. -/
theorem set (hR : Machine.Revises R) (name : String) (value : Value) :
    Respects R (Action.change (·.set name value)) :=
  changeOne hR fun s ↦ (s.snd_set name value).imp_right fun ⟨v, h⟩ ↦ ⟨name, v, h⟩

/-- Assigning writes a variable with the value that it is given, whether or not there was one. -/
theorem assign (hR : Machine.Revises R) (name : String) (value : Value) :
    Respects R (Action.change (·.assign name value)) :=
  changeOne hR fun s ↦ (s.snd_assign name value).imp_right fun ⟨v, h⟩ ↦ ⟨name, v, h⟩

end Action.Respects

end Haklang
