import Haklang.Proofs.Action.Respects

/-!
# Actions that tell what they come across

What comes of an action does not say what happened on the way. A traced action gives, besides its
answer and the machine that it leaves behind, a list of events in order, also when it fails. It is a
copy of an action if it does the same apart from the events (`Traced.Copies`). An evaluator that
tells events is built like the plain one, and is a copy of it by one lemma for each combinator.

What can be said of the events often depends on how the action ends, so a traced action is described
by a predicate on both (`Traced.Tells`). In a sequence the events of the second action follow those
of the first, unless the first fails (`Traced.Tells.bind`).
-/

namespace Haklang

/-- An action that tells events of type `ε`. -/
def Traced (ε α : Type) : Type := Machine → List ε × Except Diagnostic α × Machine

namespace Traced

variable {ε α β : Type}

instance : Monad (Traced ε) where
  pure a := fun m ↦ ([], .ok a, m)
  bind x f := fun m ↦
    match x m with
    | (es, .ok a, m) => (es ++ (f a m).1, (f a m).2)
    | (es, .error d, m) => (es, .error d, m)

/-- An action that tells nothing. -/
def quiet (x : Action α) : Traced ε α := fun m ↦ ([], x.outcome m)

/-- An action that tells its answer. -/
def telling (e : Except Diagnostic α → ε) (x : Action α) : Traced ε α := fun m ↦
  ([e (x.outcome m).1], x.outcome m)

/-- An action that tells something before it, and its answer behind it. -/
def between (first : ε) (last : Except Diagnostic α → ε) (x : Traced ε α) : Traced ε α := fun m ↦
  (first :: ((x m).1 ++ [last (x m).2.1]), (x m).2)

/-- An action whose events are told in another form. -/
def mapEvents {δ : Type} (f : ε → δ) (x : Traced ε α) : Traced δ α := fun m ↦
  ((x m).1.map f, (x m).2)

/-- `Action.within` for traced actions. -/
def within (line : SourceLine) (x : Traced ε α) : Traced ε α := fun m ↦
  ((x m).1, (x m).2.1.mapError (·.locate line), (x m).2.2)

/-- `Action.withOwnChain` for traced actions. -/
def withOwnChain (x : Traced ε α) : Traced ε α := fun m ↦
  let (es, answer, m') := x { m with chosen := false }
  (es, answer, { m' with chosen := m.chosen })

/-- `Action.inCall` for traced actions. -/
def inCall (x : Traced ε α) : Traced ε α := fun m ↦
  let (es, answer, m') := x { m with store := m.store.enter }
  (es, answer, { m' with store := m'.store.exit })

/-- After a success the events of what follows come behind those of the first action. -/
theorem bind_of_ok {x : Traced ε α} {m m' : Machine} {es : List ε} {a : α}
    (h : x m = (es, .ok a, m')) (f : α → Traced ε β) :
    (x >>= f) m = (es ++ (f a m').1, (f a m').2) := by
  show (match x m with
    | (es, .ok a, m) => (es ++ (f a m).1, (f a m).2)
    | (es, .error d, m) => (es, .error d, m)) = _
  rw [h]

/-- After a failure there are no more events. -/
theorem bind_of_error {x : Traced ε α} {m m' : Machine} {es : List ε} {d : Diagnostic}
    (h : x m = (es, .error d, m')) (f : α → Traced ε β) :
    (x >>= f) m = (es, .error d, m') := by
  show (match x m with
    | (es, .ok a, m) => (es ++ (f a m).1, (f a m).2)
    | (es, .error d, m) => (es, .error d, m)) = _
  rw [h]

/-- What an action tells that tells its answer is read off its outcome. -/
theorem telling_of_outcome {x : Action α} {m : Machine} {r : Except Diagnostic α × Machine}
    (h : x.outcome m = r) (e : Except Diagnostic α → ε) : telling e x m = ([e r.1], r) := by
  rw [telling, h]

/-- Changing the failure of an answer keeps successes. -/
theorem mapError_eq_ok_iff {r : Except Diagnostic α} {f : Diagnostic → Diagnostic} {a : α} :
    r.mapError f = .ok a ↔ r = .ok a := by
  rcases r with d | b
  · exact ⟨nofun, nofun⟩
  · exact Iff.rfl

/-! ### Copies -/

/-- The traced action does what the action does. -/
def Copies (x : Traced ε α) (y : Action α) : Prop := ∀ m, (x m).2 = y.outcome m

namespace Copies

variable {x : Traced ε α} {y : Action α}

theorem pure (a : α) : Copies (Pure.pure a : Traced ε α) (Pure.pure a) := fun _ ↦ rfl

theorem quiet (y : Action α) : Copies (Traced.quiet y : Traced ε α) y := fun _ ↦ rfl

theorem telling (e : Except Diagnostic α → ε) (y : Action α) : Copies (Traced.telling e y) y :=
  fun _ ↦ rfl

/-- A sequence is copied part by part. -/
theorem bind (hx : Copies x y) {f : α → Traced ε β} {g : α → Action β}
    (hf : ∀ a, Copies (f a) (g a)) : Copies (x >>= f) (y >>= g) := by
  intro m
  have hm := hx m
  rw [Action.outcome_bind]
  rcases h : x m with ⟨es, d | a, m'⟩
  · rw [h] at hm
    rw [bind_of_error h, ← hm]
  · rw [h] at hm
    rw [bind_of_ok h, ← hm]
    exact hf a m'

/-- The answer of a copy may be dropped. -/
theorem discard (hx : Copies x y) : Copies (Functor.discard x) (Functor.discard y) :=
  hx.bind fun _ ↦ .pure _

/-- Events at both ends do not change what is done. -/
theorem between (hx : Copies x y) (first : ε) (last : Except Diagnostic α → ε) :
    Copies (Traced.between first last x) y := hx

/-- Neither does another form of the events. -/
theorem mapEvents (hx : Copies x y) {δ : Type} (f : ε → δ) : Copies (Traced.mapEvents f x) y := hx

/-- The line of a failure is named in the copy, too. -/
theorem within (hx : Copies x y) (line : SourceLine) :
    Copies (Traced.within line x) (Action.within line y) := by
  intro m
  rw [Action.outcome_within, ← hx m]
  rfl

/-- The chain around is put back in the copy, too. -/
theorem withOwnChain (hx : Copies x y) :
    Copies (Traced.withOwnChain x) (Action.withOwnChain y) := by
  intro m
  rw [Action.outcome_withOwnChain, ← hx { m with chosen := false }]
  rfl

/-- The frame of a call is opened and closed in the copy, too. -/
theorem inCall (hx : Copies x y) : Copies (Traced.inCall x) (Action.inCall y) := by
  intro m
  have houtcome : (Action.inCall y).outcome m =
      ((y.outcome { m with store := m.store.enter }).1,
        { (y.outcome { m with store := m.store.enter }).2 with
          store := (y.outcome { m with store := m.store.enter }).2.store.exit }) := by
    rw [Action.outcome, Action.outcome, Action.inCall]
    rcases y { m with store := m.store.enter } with _ | _ <;> rfl
  rw [houtcome, ← hx { m with store := m.store.enter }]
  rfl

/-- A choice is copied if both of its branches are. -/
theorem ite (p : Prop) [Decidable p] {x' : Traced ε α} {y' : Action α} (hx : Copies x y)
    (hx' : Copies x' y') : Copies (if p then x else x') (if p then y else y') := by
  split
  · exact hx
  · exact hx'

end Copies

/-! ### What is told -/

/-- The events and the answer are as the predicate says, in every state. -/
def Tells (P : List ε → Except Diagnostic α → Prop) (x : Traced ε α) : Prop :=
  ∀ m, P (x m).1 (x m).2.1

namespace Tells

variable {P : List ε → Except Diagnostic α → Prop} {x : Traced ε α}

/-- What a sequence tells: the events of both parts, or those of the first up to its failure. -/
theorem bind {Q : α → List ε → Except Diagnostic β → Prop} {f : α → Traced ε β}
    {R : List ε → Except Diagnostic β → Prop} (hx : Tells P x) (hf : ∀ a, Tells (Q a) (f a))
    (hok : ∀ es a es' answer, P es (.ok a) → Q a es' answer → R (es ++ es') answer)
    (herror : ∀ es d, P es (.error d) → R es (.error d)) : Tells R (x >>= f) := by
  intro m
  have hm := hx m
  rcases h : x m with ⟨es, d | a, m'⟩
  · rw [h] at hm
    rw [bind_of_error h]
    exact herror es d hm
  · rw [h] at hm
    rw [bind_of_ok h]
    exact hok es a _ _ hm (hf a m')

/-- Naming the line of a failure tells nothing new, if the predicate does not look at failures. -/
theorem within (hx : Tells P x) (hP : ∀ es d d', P es (.error d) → P es (.error d'))
    (line : SourceLine) : Tells P (Traced.within line x) := by
  intro m
  have hm := hx m
  rcases h : x m with ⟨es, d | a, m'⟩ <;> rw [h] at hm
  · rw [Traced.within, h]
    exact hP es d _ hm
  · rw [Traced.within, h]
    exact hm

/-- A chain of its own tells what is told inside it. -/
theorem withOwnChain (hx : Tells P x) : Tells P (Traced.withOwnChain x) :=
  fun m ↦ hx { m with chosen := false }

/-- A call tells what is told inside it. -/
theorem inCall (hx : Tells P x) : Tells P (Traced.inCall x) :=
  fun m ↦ hx { m with store := m.store.enter }

/-- What is told may be described more loosely. -/
theorem mono {Q : List ε → Except Diagnostic α → Prop} (hx : Tells P x)
    (h : ∀ es answer, P es answer → Q es answer) : Tells Q x :=
  fun m ↦ h _ _ (hx m)

end Tells

end Traced

end Haklang
