import Haklang.Proofs.Execution.Traced

/-!
# Signals are not lost

A statement that returns ends the call that it runs in, and one that leaves ends the innermost loop,
or the call outside of loops. What passes their signals on are bodies, blocks, loops and trees that
run twice, each at its own place. So this is a statement about what happens in the frame of a call
behind such a statement, and not only about what the call gives.

`Tree.trace` runs a tree and tells what happens in its frame: statements, conditions, and where
loops begin and end. What happens in a call inside belongs to another frame and is not told. `Heeds`
says that no signal is lost in a part of a frame; it is a statement on the events of the part and on
how it ends, and it goes from the parts to the whole, with one lemma for each way in which parts are
put together. The induction over trees then has one short case for each constructor.

There is one exception. The statements in the header of a loop are run for what they do, and their
signals are dropped: the loop goes on with its condition. `traceCall_signals` says both.
-/

namespace Haklang

open Haklang.Action

/-! ### What happens in a frame -/

/-- Something that happens in the frame of a call, by itself and not in a call inside. -/
inductive FrameEvent where
  /-- A statement of a body has run. -/
  | statement (s : Statement) (answer : Except Diagnostic Signal)
  /-- A statement in the header of a loop has run. -/
  | header (s : Statement) (answer : Except Diagnostic Signal)
  /-- A condition has been evaluated. -/
  | condition (answer : Except Diagnostic Bool)
  /-- A function has been defined. -/
  | definition (name : String)
  /-- A loop begins. -/
  | loopBegins
  /-- A loop has ended. -/
  | loopEnds (answer : Except Diagnostic Signal)

/-- `Action.loop` for traced actions. -/
def Traced.loop {ε : Type} (limit : Nat) (cond : Traced ε Bool) (body : Traced ε Signal)
    (step : Traced ε Unit) : Nat → Traced ε Signal
  | 0 => do
    if ← cond then Traced.quiet (fail (.runawayLoop limit)) else pure .next
  | left + 1 => do
    if ← cond then
      match ← body with
      | .next =>
        step
        loop limit cond body step left
      | .left => pure .next
      | .returned v? => pure (.returned v?)
    else pure .next

namespace Tree

mutual

/-- Runs a tree, and tells what happens in the frame. -/
def trace (call : Callee) : Tree → Traced FrameEvent Signal
  | .statement _ line s => Traced.within line (Traced.telling (.statement s) (s.run call line))
  | .block _ line head body => Traced.within line <|
    match head with
    | .function name params => do
      Traced.telling (fun _ ↦ .definition name)
        (modifyStore (·.defineFunction name { params, body }))
      pure .next
    | .ifBlock cond => do
      Traced.quiet (modify fun m ↦ { m with chosen := false })
      if ← Traced.telling .condition (cond.eval call) then
        Traced.quiet (modify fun m ↦ { m with chosen := true })
        Traced.withOwnChain (traceAll call body)
      else pure .next
    | .elseIf cond => do
      if (← Traced.quiet get).chosen then pure .next
      else if ← Traced.telling .condition (cond.eval call) then
        Traced.quiet (modify fun m ↦ { m with chosen := true })
        Traced.withOwnChain (traceAll call body)
      else pure .next
    | .elseBlock => do
      let chosen := (← Traced.quiet get).chosen
      Traced.quiet (modify fun m ↦ { m with chosen := false })
      if chosen then pure .next else Traced.withOwnChain (traceAll call body)
    | .whileLoop cond => Traced.between .loopBegins .loopEnds do
      let limit := (← Traced.quiet get).limits.iterations
      Traced.loop limit (Traced.telling .condition (cond.eval call))
        (Traced.withOwnChain (traceAll call body)) (pure ()) limit
    | .forLoop init cond step => Traced.between .loopBegins .loopEnds do
      discard (Traced.telling (.header init) (init.run call line))
      let limit := (← Traced.quiet get).limits.iterations
      Traced.loop limit (Traced.telling .condition (cond.eval call))
        (Traced.withOwnChain (traceAll call body))
        (discard (Traced.telling (.header step) (step.run call line))) limit
  | .twice _ line inner => Traced.within line do
    match ← inner.trace call with
    | .next => inner.trace call
    | signal => pure signal

/-- Runs trees in order, up to the first that ends with a signal, and tells what happens in the
frame. -/
def traceAll (call : Callee) : List Tree → Traced FrameEvent Signal
  | [] => pure .next
  | t :: rest => do
    match ← t.trace call with
    | .next => traceAll call rest
    | signal => pure signal

end

end Tree

/-- Calls a function, and tells what happens in its frame. -/
def traceCall : Nat → String → List Value → Traced FrameEvent (Option Value)
  | depth, name, args => do
    let f ← Traced.quiet (read (·.function name))
    if f.params.length ≠ args.length then
      Traced.quiet (fail (.argumentCount name f.params.length args.length))
    else
      match depth with
      | 0 => Traced.quiet do fail (.callDepth name (← get).limits.callDepth)
      | depth + 1 =>
        let signal ← Traced.inCall do
          Traced.quiet (modifyStore (·.defineAll (f.params.zip args)))
          Traced.withOwnChain (Tree.traceAll (callFunction depth) f.body)
        pure signal.value?

/-! ### Copies -/

/-- A loop is copied if its condition, its body and its step are. -/
theorem Traced.Copies.loop {ε : Type} {cond : Traced ε Bool} {cond' : Action Bool}
    {body : Traced ε Signal} {body' : Action Signal} {step : Traced ε Unit} {step' : Action Unit}
    (limit : Nat) (hcond : Copies cond cond') (hbody : Copies body body')
    (hstep : Copies step step') (left : Nat) :
    Copies (Traced.loop limit cond body step left) (Action.loop limit cond' body' step' left) := by
  induction left with
  | zero => exact hcond.bind fun _ ↦ .ite _ (.quiet _) (.pure _)
  | succ left ih =>
    refine hcond.bind fun _ ↦ .ite _ (hbody.bind fun signal ↦ ?_) (.pure _)
    rcases signal with _ | _ | v?
    · exact hstep.bind fun _ ↦ ih
    · exact .pure _
    · exact .pure _

namespace Tree

mutual

/-- Tracing a tree makes no difference, by induction on the tree. -/
theorem copies_trace (call : Callee) : ∀ t : Tree, Traced.Copies (t.trace call) (t.run call)
  | .statement _ line s => (Traced.Copies.telling _ _).within line
  | .block _ line head body => by
    have hbody := (copies_traceAll call body).withOwnChain
    refine Traced.Copies.within ?_ line
    cases head with
    | function name params => exact .bind (.telling _ _) fun _ ↦ .pure _
    | ifBlock cond =>
      refine .bind (.quiet _) fun _ ↦ .bind (.telling _ _) fun _ ↦ ?_
      exact .ite _ (.bind (.quiet _) fun _ ↦ hbody) (.pure _)
    | elseIf cond =>
      refine .bind (.quiet _) fun _ ↦ .ite _ (.pure _) (.bind (.telling _ _) fun _ ↦ ?_)
      exact .ite _ (.bind (.quiet _) fun _ ↦ hbody) (.pure _)
    | elseBlock => exact .bind (.quiet _) fun _ ↦ .bind (.quiet _) fun _ ↦ .ite _ (.pure _) hbody
    | whileLoop cond =>
      refine .between (.bind (.quiet _) fun _ ↦ ?_) _ _
      exact .loop _ (.telling _ _) hbody (.pure _) _
    | forLoop init cond step =>
      refine .between (.bind (.discard (.telling _ _)) fun _ ↦ .bind (.quiet _) fun _ ↦ ?_) _ _
      exact .loop _ (.telling _ _) hbody (.discard (.telling _ _)) _
  | .twice _ line inner => by
    rw [trace, run]
    refine .within (.bind (copies_trace call inner) fun signal ↦ ?_) line
    rcases signal with _ | _ | _
    · exact copies_trace call inner
    · exact .pure _
    · exact .pure _

/-- Tracing trees in a row makes no difference. -/
theorem copies_traceAll (call : Callee) :
    ∀ ts : List Tree, Traced.Copies (traceAll call ts) (runAll call ts)
  | [] => .pure _
  | t :: rest => by
    rw [traceAll, runAll]
    refine .bind (copies_trace call t) fun signal ↦ ?_
    rcases signal with _ | _ | _
    · exact copies_traceAll call rest
    · exact .pure _
    · exact .pure _

end

end Tree

/-- A call that is traced is the call. -/
theorem copies_traceCall (depth : Nat) (name : String) (args : List Value) :
    Traced.Copies (traceCall depth name args) (callFunction depth name args) := by
  rw [traceCall, callFunction]
  refine .bind (.quiet _) fun f ↦ .ite _ (.quiet _) ?_
  rcases depth with - | depth
  · exact .quiet _
  · refine .bind (.inCall (.bind (.quiet _) fun _ ↦ .withOwnChain ?_)) fun _ ↦ .pure _
    exact Tree.copies_traceAll _ f.body

/-! ### Signals -/

namespace FrameEvent

/-- How many more loops are open behind an event than before it. -/
def opens : FrameEvent → Int
  | loopBegins => 1
  | loopEnds _ => -1
  | _ => 0

end FrameEvent

/-- How many loops have begun and not ended. -/
def openLoops : List FrameEvent → Int
  | [] => 0
  | e :: es => e.opens + openLoops es

/-- Loops that are open are counted along the events. -/
theorem openLoops_append (es es' : List FrameEvent) :
    openLoops (es ++ es') = openLoops es + openLoops es' := by
  induction es with
  | nil => exact (Int.zero_add _).symm
  | cons e es ih => rw [List.cons_append, openLoops, ih, openLoops, Int.add_assoc]

/-- How a loop ends behind a body that ends with a signal. -/
def Signal.caught : Signal → Signal
  | left => next
  | signal => signal

/-- A statement that returns ends with a return, if it does not fail. -/
theorem Statement.exists_eq_returned {call : Callee} {line : SourceLine} {e? : Option Expr}
    {m : Machine} {signal : Signal}
    (h : (((Statement.result e?).run call line).outcome m).1 = .ok signal) :
    ∃ v?, signal = .returned v? := by
  rcases e? with - | e
  · exact ⟨none, (Except.ok.inj h).symm⟩
  · have hrun : (Statement.result (some e)).run call line =
        e.eval call >>= fun v ↦ pure (.returned (some v)) := rfl
    rw [hrun, outcome_bind] at h
    rcases heval : (e.eval call).outcome m with ⟨d | v, m'⟩ <;> rw [heval] at h
    · cases h
    · exact ⟨some v, (Except.ok.inj h).symm⟩

/-- No signal is lost in a part of a frame. Behind a statement that returns nothing happens but that
the loops around it end, and the part ends with the value returned. Behind one that leaves, the
innermost loop of the part ends; if it stands in no loop of the part, nothing more happens in the
part, and `onLeave` is how the part ends. The signals of statements in headers make no difference:
the condition of the loop is evaluated next. -/
structure Heeds (onLeave : Signal) (es : List FrameEvent) (answer : Except Diagnostic Signal) :
    Prop where
  /-- Statements that return. -/
  returned {before e? signal after}
    (h : es = before ++ .statement (.result e?) (.ok signal) :: after) :
    ∃ v?, signal = .returned v? ∧ answer = .ok (.returned v?) ∧
      ∀ e ∈ after, e = .loopEnds (.ok (.returned v?))
  /-- Statements that leave. -/
  left {before signal after} (h : es = before ++ .statement .leave (.ok signal) :: after) :
    openLoops before = 0 ∧ after = [] ∧ answer = .ok onLeave ∨
      0 < openLoops before ∧ ∃ rest, after = .loopEnds (.ok .next) :: rest
  /-- Statements in headers. -/
  header {before s signal after} (h : es = before ++ .header s (.ok signal) :: after) :
    ∃ holds rest, after = .condition holds :: rest
  /-- All loops end. -/
  openLoops_eq : openLoops es = 0

section Places

variable {α : Type} {es es' before after : List α} {a e : α}

/-- A place in two parts is in the first of them or in the second. -/
theorem eq_append_of_append_eq (h : es ++ es' = before ++ e :: after) :
    (∃ rest, es = before ++ e :: rest ∧ after = rest ++ es') ∨
      ∃ front, before = es ++ front ∧ es' = front ++ e :: after := by
  rcases List.append_eq_append_iff.1 h with ⟨front, rfl, htail⟩ | ⟨_ | ⟨c, rest⟩, rfl, htail⟩
  · exact .inr ⟨front, rfl, htail⟩
  · exact .inr ⟨[], by simp, htail.symm⟩
  · obtain ⟨rfl, rfl⟩ := List.cons.inj htail
    exact .inl ⟨rest, rfl, rfl⟩

/-- A single event has nothing before and nothing behind it. -/
theorem eq_of_singleton_eq (h : [a] = before ++ e :: after) : before = [] ∧ a = e ∧ after = [] := by
  rcases before with - | ⟨b, before⟩
  · obtain ⟨rfl, rfl⟩ := List.cons.inj h
    exact ⟨rfl, rfl, rfl⟩
  · exact absurd (List.cons.inj h).2 (by simp)

/-- An event that is not the last one is among those before the last. -/
theorem eq_append_of_concat_eq (h : es ++ [a] = before ++ e :: after) (hne : a ≠ e) :
    ∃ rest, es = before ++ e :: rest ∧ after = rest ++ [a] := by
  refine (eq_append_of_append_eq h).resolve_right ?_
  rintro ⟨front, -, hlast⟩
  exact hne (eq_of_singleton_eq hlast).2.1

end Places

namespace Heeds

variable {onLeave onLeave' : Signal} {es es' : List FrameEvent} {s : Signal}
  {answer : Except Diagnostic Signal}

/-- Where nothing happens, no signal is lost. -/
theorem nil (answer : Except Diagnostic Signal) : Heeds onLeave [] answer where
  returned h := by simp at h
  left h := by simp at h
  header h := by simp at h
  openLoops_eq := rfl

/-- A part that ends normally may be followed by another. -/
theorem append (h : Heeds onLeave es (.ok .next)) (hleave : onLeave ≠ .next)
    (h' : Heeds onLeave' es' answer) : Heeds onLeave' (es ++ es') answer where
  returned heq := by
    rcases eq_append_of_append_eq heq with ⟨rest, rfl, -⟩ | ⟨front, -, rfl⟩
    · obtain ⟨v?, -, hanswer, -⟩ := h.returned rfl
      cases hanswer
    · exact h'.returned rfl
  left heq := by
    rcases eq_append_of_append_eq heq with ⟨rest, rfl, rfl⟩ | ⟨front, rfl, rfl⟩
    · rcases h.left rfl with ⟨-, -, hanswer⟩ | ⟨hopen, rest', rfl⟩
      · exact absurd (Except.ok.inj hanswer).symm hleave
      · exact .inr ⟨hopen, rest' ++ es', rfl⟩
    · rw [openLoops_append, h.openLoops_eq, Int.zero_add]
      exact h'.left rfl
  header heq := by
    rcases eq_append_of_append_eq heq with ⟨rest, rfl, rfl⟩ | ⟨front, rfl, rfl⟩
    · obtain ⟨holds, rest', rfl⟩ := h.header rfl
      exact ⟨holds, rest' ++ es', rfl⟩
    · exact h'.header rfl
  openLoops_eq := by rw [openLoops_append, h.openLoops_eq, h'.openLoops_eq]; rfl

/-- An event that is no statement of a body may come before a part, a statement in a header only
before a condition. -/
theorem cons (h : Heeds onLeave es answer) {e : FrameEvent} (hopens : e.opens = 0)
    (hstatement : ∀ s signal, e ≠ .statement s (.ok signal))
    (hheader : ∀ s signal, e = .header s (.ok signal) →
      ∃ holds rest, es = .condition holds :: rest) : Heeds onLeave (e :: es) answer where
  returned {before _ _ _} heq := by
    rcases before with - | ⟨e', before⟩
    · exact absurd (List.cons.inj heq).1 (hstatement _ _)
    · exact h.returned (List.cons.inj heq).2
  left {before _ _} heq := by
    rcases before with - | ⟨e', before⟩
    · exact absurd (List.cons.inj heq).1 (hstatement _ _)
    · obtain ⟨rfl, htail⟩ := List.cons.inj heq
      rw [openLoops, hopens, Int.zero_add]
      exact h.left htail
  header {before _ _ _} heq := by
    rcases before with - | ⟨e', before⟩
    · obtain ⟨hhead, rfl⟩ := List.cons.inj heq
      exact hheader _ _ hhead
    · exact h.header (List.cons.inj heq).2
  openLoops_eq := by rw [openLoops, hopens, h.openLoops_eq]; rfl

/-- A condition in front loses no signal. -/
theorem condition (h : Heeds onLeave es answer) (holds : Except Diagnostic Bool) :
    Heeds onLeave (.condition holds :: es) answer :=
  h.cons rfl (fun _ _ ↦ FrameEvent.noConfusion) fun _ _ ↦ FrameEvent.noConfusion

/-- What has failed is not left, and does not return. -/
theorem of_error {d : Diagnostic} (h : Heeds onLeave es (.error d)) (d' : Diagnostic) :
    Heeds onLeave' es (.error d') where
  returned heq := by
    obtain ⟨v?, -, hanswer, -⟩ := h.returned heq
    cases hanswer
  left heq := by
    rcases h.left heq with ⟨-, -, hanswer⟩ | hinner
    · cases hanswer
    · exact .inr hinner
  header := h.header
  openLoops_eq := h.openLoops_eq

/-- What is not left may stand in a loop or not. -/
theorem of_ne (h : Heeds onLeave es answer) (hanswer : answer ≠ .ok onLeave) :
    Heeds onLeave' es answer where
  returned := h.returned
  left heq := .inr ((h.left heq).resolve_left fun hleft ↦ hanswer hleft.2.2)
  header := h.header
  openLoops_eq := h.openLoops_eq

/-- A loop goes no further behind a body that is left. -/
theorem caught (h : Heeds .left es (.ok .left)) : Heeds .next es (.ok .next) where
  returned heq := by
    obtain ⟨v?, -, hanswer, -⟩ := h.returned heq
    cases hanswer
  left heq := by
    rcases h.left heq with ⟨hopen, hafter, -⟩ | hinner
    · exact .inl ⟨hopen, hafter, rfl⟩
    · exact .inr hinner
  header := h.header
  openLoops_eq := h.openLoops_eq

/-- A loop ends as what happens in it does. -/
theorem between (h : Heeds .next es answer) :
    Heeds onLeave (.loopBegins :: (es ++ [.loopEnds answer])) answer where
  returned {before _ _ _} heq := by
    rcases before with - | ⟨e, before⟩
    · cases heq
    obtain ⟨rest, rfl, rfl⟩ := eq_append_of_concat_eq (List.cons.inj heq).2 nofun
    obtain ⟨v?, rfl, rfl, hrest⟩ := h.returned rfl
    refine ⟨v?, rfl, rfl, fun e he ↦ ?_⟩
    rcases List.mem_append.1 he with he | he
    · exact hrest e he
    · exact List.mem_singleton.1 he
  left {before _ _} heq := by
    rcases before with - | ⟨e, before⟩
    · cases heq
    obtain ⟨rfl, htail⟩ := List.cons.inj heq
    obtain ⟨rest, rfl, rfl⟩ := eq_append_of_concat_eq htail nofun
    refine .inr ?_
    rw [openLoops]
    rcases h.left rfl with ⟨hopen, rfl, rfl⟩ | ⟨hopen, rest, rfl⟩
    · exact ⟨by rw [hopen]; decide, [], rfl⟩
    · exact ⟨Int.add_pos Int.one_pos hopen, rest ++ [.loopEnds answer], rfl⟩
  header {before _ _ _} heq := by
    rcases before with - | ⟨e, before⟩
    · cases heq
    obtain ⟨rest, rfl, rfl⟩ := eq_append_of_concat_eq (List.cons.inj heq).2 nofun
    obtain ⟨holds, rest, rfl⟩ := h.header rfl
    exact ⟨holds, rest ++ [.loopEnds answer], rfl⟩
  openLoops_eq := by
    rw [openLoops, openLoops_append, h.openLoops_eq]
    rfl

/-- A statement. -/
theorem statement (call : Callee) (line : SourceLine) (s : Statement) (m : Machine) :
    Heeds .left [.statement s ((s.run call line).outcome m).1] ((s.run call line).outcome m).1 where
  returned {_ e? signal _} heq := by
    obtain ⟨-, hhead, rfl⟩ := eq_of_singleton_eq heq
    obtain ⟨rfl, hanswer⟩ := FrameEvent.statement.inj hhead
    obtain ⟨v?, rfl⟩ := Statement.exists_eq_returned hanswer
    exact ⟨v?, rfl, hanswer, fun e he ↦ absurd he List.not_mem_nil⟩
  left heq := by
    obtain ⟨rfl, hhead, rfl⟩ := eq_of_singleton_eq heq
    obtain ⟨rfl, -⟩ := FrameEvent.statement.inj hhead
    exact .inl ⟨rfl, rfl, rfl⟩
  header heq := absurd (eq_of_singleton_eq heq).2.1 nofun
  openLoops_eq := rfl

end Heeds

/-- What is told in a loop begins with its condition. -/
structure HeedsLoop (es : List FrameEvent) (answer : Except Diagnostic Signal) : Prop extends
    Heeds .next es answer where
  /-- The condition. -/
  exists_condition : ∃ holds rest, es = .condition holds :: rest

/-- What is told of a statement in a header, or where there is none. -/
inductive HeaderTells : List FrameEvent → Except Diagnostic Unit → Prop where
  /-- There is no statement. -/
  | none : HeaderTells [] (.ok ())
  /-- The statement has run, and its signal is gone. -/
  | ok {s signal} : HeaderTells [.header s (.ok signal)] (.ok ())
  /-- The statement fails. -/
  | error {s d} : HeaderTells [.header s (.error d)] (.error d)

/-- What the header of a loop signals may be lost, as the condition follows. -/
theorem HeedsLoop.of_header {es es' : List FrameEvent} {answer : Except Diagnostic Signal}
    (h : HeaderTells es (.ok ())) (h' : HeedsLoop es' answer) : Heeds .next (es ++ es') answer := by
  rcases h with - | -
  · exact h'.toHeeds
  · exact h'.toHeeds.cons rfl (fun _ _ ↦ FrameEvent.noConfusion) fun _ _ _ ↦ h'.exists_condition

/-- A header that fails loses no signal. -/
theorem HeaderTells.heeds {es : List FrameEvent} {d : Diagnostic} (h : HeaderTells es (.error d))
    {onLeave : Signal} : Heeds onLeave es (.error d) := by
  rcases h with - | -
  exact (Heeds.nil _).cons rfl (fun _ _ ↦ FrameEvent.noConfusion) fun _ _ h ↦ by cases h

/-! ### Trees -/

namespace Traced

/-- What tells its answer tells nothing else. -/
theorem tells_telling {ε α : Type} (e : Except Diagnostic α → ε) (x : Action α) :
    Tells (fun es answer ↦ es = [e answer]) (telling e x) := fun _ ↦ rfl

/-- An action that tells nothing comes before what it leads to. -/
theorem Tells.quiet_bind {α : Type} {x : Action α} {f : α → Traced FrameEvent Signal}
    {onLeave : Signal} (hf : ∀ a, Tells (Heeds onLeave) (f a)) :
    Tells (Heeds onLeave) (quiet x >>= f) :=
  Tells.bind (P := fun es _ ↦ es = []) (fun _ ↦ rfl) hf
    (fun _ _ _ _ hes h ↦ by rw [hes]; exact h) fun _ _ hes ↦ by rw [hes]; exact .nil _

/-- Where nothing runs, nothing is lost. -/
theorem tells_next (onLeave : Signal) :
    Tells (Heeds onLeave) (pure .next : Traced FrameEvent Signal) := fun _ ↦ .nil _

/-- Looking at the machine tells nothing. -/
theorem Tells.get_bind {P : List FrameEvent → Except Diagnostic Signal → Prop}
    {f : Machine → Traced FrameEvent Signal} (hf : ∀ m, Tells P (f m)) :
    Tells P (quiet get >>= f) := fun m ↦ hf m m

/-- A condition comes before what goes by it. -/
theorem Tells.condition_bind {x : Action Bool} {f : Bool → Traced FrameEvent Signal}
    {onLeave : Signal} (hf : ∀ b, Tells (Heeds onLeave) (f b)) :
    Tells (fun es answer ↦ Heeds onLeave es answer ∧ ∃ holds rest, es = .condition holds :: rest)
      (telling .condition x >>= f) := by
  refine (tells_telling .condition x).bind hf (fun es b es' answer hes h ↦ ?_) fun es d hes ↦ ?_
  · rw [hes]
    exact ⟨h.condition _, _, _, rfl⟩
  · rw [hes]
    exact ⟨(Heeds.nil _).condition _, _, _, rfl⟩

/-- What ends normally is followed by something else, and what does not ends all. -/
theorem Tells.next_bind {x y : Traced FrameEvent Signal} (hx : Tells (Heeds .left) x)
    (hy : Tells (Heeds .left) y) :
    Tells (Heeds .left) (do
      match ← x with
      | .next => y
      | signal => pure signal) := by
  refine Tells.bind (Q := fun signal es answer ↦
    if signal = .next then Heeds .left es answer else es = [] ∧ answer = .ok signal) hx ?_ ?_
    fun es d h ↦ h.of_error d
  · rintro (_ | _ | v?) m
    · exact hy m
    · exact ⟨rfl, rfl⟩
    · exact ⟨rfl, rfl⟩
  · rintro es signal es' answer h h'
    split at h'
    case isTrue hsignal =>
      subst hsignal
      exact h.append nofun h'
    case isFalse hsignal =>
      obtain ⟨rfl, rfl⟩ := h'
      rw [List.append_nil]
      exact h

/-- A statement in a header tells itself, and its signal is dropped. -/
theorem tells_header (s : Statement) (x : Action Signal) :
    Tells HeaderTells (discard (telling (.header s) x)) := by
  refine Tells.bind (Q := fun _ es answer ↦ es = [] ∧ answer = .ok ()) (tells_telling _ x)
    (fun _ _ ↦ ⟨rfl, rfl⟩) ?_ ?_
  · rintro es signal es' answer rfl ⟨rfl, rfl⟩
    exact .ok
  · rintro es d rfl
    exact .error

/-- What a statement in a header signals is gone when the loop goes on. -/
theorem Tells.header_bind {x : Traced FrameEvent Unit} {f : Unit → Traced FrameEvent Signal}
    (hx : Tells HeaderTells x) (hf : ∀ u, Tells HeedsLoop (f u)) :
    Tells (Heeds .next) (x >>= f) :=
  hx.bind hf (fun _ _ _ _ h h' ↦ h'.of_header h) fun _ _ h ↦ h.heeds

/-- A loop goes on behind a body that ends normally, and with nothing else. The induction is on the
iterations that are left. -/
theorem tells_loop (limit : Nat) (cond : Action Bool) {body : Traced FrameEvent Signal}
    {step : Traced FrameEvent Unit} (hbody : Tells (Heeds .left) body)
    (hstep : Tells HeaderTells step) (left : Nat) :
    Tells HeedsLoop (Traced.loop limit (telling .condition cond) body step left) := by
  induction left with
  | zero =>
    refine (Tells.condition_bind fun b ↦ ?_).mono fun _ _ h ↦ ⟨h.1, h.2⟩
    rcases b with - | -
    · exact tells_next _
    · exact fun _ ↦ .nil _
  | succ left ih =>
    refine (Tells.condition_bind fun b ↦ ?_).mono fun _ _ h ↦ ⟨h.1, h.2⟩
    rcases b with - | -
    · exact tells_next _
    refine Tells.bind (Q := fun signal es answer ↦ if signal = .next then Heeds .next es answer
      else es = [] ∧ answer = .ok signal.caught) hbody ?_ ?_ fun es d h ↦ h.of_error d
    · rintro (_ | _ | v?)
      · exact Tells.header_bind hstep fun _ ↦ ih
      · exact fun _ ↦ ⟨rfl, rfl⟩
      · exact fun _ ↦ ⟨rfl, rfl⟩
    · rintro es (_ | _ | v?) es' answer h h'
      · exact h.append nofun h'
      · obtain ⟨rfl, rfl⟩ := h'
        rw [List.append_nil]
        exact h.caught
      · obtain ⟨rfl, rfl⟩ := h'
        rw [List.append_nil]
        exact h.of_ne nofun

/-- A loop that begins and ends loses no signal, if its rounds lose none. -/
theorem Tells.between_loop {x : Traced FrameEvent Signal} (hx : Tells (Heeds .next) x)
    (onLeave : Signal) : Tells (Heeds onLeave) (between .loopBegins .loopEnds x) :=
  fun m ↦ (hx m).between

end Traced

namespace Tree

mutual

/-- No signal is lost in a tree. -/
theorem heeds_trace (call : Callee) : ∀ t : Tree, (t.trace call).Tells (Heeds .left)
  | .statement _ line s =>
    Traced.Tells.within (fun m ↦ .statement call line s m) (fun _ _ _ h ↦ h.of_error _) line
  | .block _ line head body => by
    have hbody := (heeds_traceAll call body).withOwnChain
    refine Traced.Tells.within ?_ (fun _ _ _ h ↦ h.of_error _) line
    cases head with
    | function name params =>
      exact fun m ↦ (Heeds.nil (.ok .next)).cons (e := .definition name) rfl
        (fun _ _ ↦ FrameEvent.noConfusion) fun _ _ ↦ FrameEvent.noConfusion
    | ifBlock cond =>
      refine .quiet_bind fun _ ↦ (Traced.Tells.condition_bind fun b ↦ ?_).mono fun _ _ h ↦ h.1
      rcases b with - | -
      · exact Traced.tells_next _
      · exact .quiet_bind fun _ ↦ hbody
    | elseIf cond =>
      refine .get_bind fun m ↦ ?_
      rcases m.chosen with - | -
      · refine (Traced.Tells.condition_bind fun b ↦ ?_).mono fun _ _ h ↦ h.1
        rcases b with - | -
        · exact Traced.tells_next _
        · exact .quiet_bind fun _ ↦ hbody
      · exact Traced.tells_next _
    | elseBlock =>
      -- the body runs if nothing has been chosen before
      refine .get_bind fun m ↦ .quiet_bind fun _ ↦ ?_
      rcases m.chosen with - | -
      · exact hbody
      · exact Traced.tells_next _
    | whileLoop cond =>
      refine .between_loop (.get_bind fun m ↦ ?_) .left
      exact (Traced.tells_loop _ _ hbody (fun _ ↦ .none) _).mono fun _ _ h ↦ h.toHeeds
    | forLoop init cond step =>
      have hinit := Traced.tells_header init (init.run call line)
      have hstep := Traced.tells_header step (step.run call line)
      refine .between_loop (hinit.header_bind fun _ ↦ .get_bind fun m ↦ ?_) .left
      exact Traced.tells_loop _ _ hbody hstep _
  | .twice _ line inner =>
    .within (.next_bind (heeds_trace call inner) (heeds_trace call inner))
      (fun _ _ _ h ↦ h.of_error _) line

/-- Trees in a row lose no signal, whatever the calls in them do. -/
theorem heeds_traceAll (call : Callee) : ∀ ts : List Tree, (traceAll call ts).Tells (Heeds .left)
  | [] => Traced.tells_next _
  | t :: rest => .next_bind (heeds_trace call t) (heeds_traceAll call rest)

end

end Tree

/-! ### Calls -/

/-- No signal is lost in the frame of a call, and the call gives what its body returns, or nothing
if the body is left. -/
def HeedsCall (es : List FrameEvent) (answer : Except Diagnostic (Option Value)) : Prop :=
  ∃ answer', Heeds .left es answer' ∧ ∀ signal, answer' = .ok signal → answer = .ok signal.value?

/-- A call that fails before its body tells nothing. -/
theorem HeedsCall.nil (d : Diagnostic) : HeedsCall [] (.error d) :=
  ⟨.error d, .nil _, fun _ h ↦ by cases h⟩

/-- A call loses no signal of its body, at any depth. -/
theorem heeds_traceCall (depth : Nat) (name : String) (args : List Value) :
    (traceCall depth name args).Tells HeedsCall := by
  rw [traceCall]
  refine Traced.Tells.bind (P := fun es _ ↦ es = []) (Q := fun _ ↦ HeedsCall) (fun _ ↦ rfl)
    (fun f ↦ ?_) ?_ ?_
  · split
    · exact fun _ ↦ .nil _
    rcases depth with - | depth
    · exact fun _ ↦ .nil _
    have hbody : (Traced.inCall do
        Traced.quiet (modifyStore (·.defineAll (f.params.zip args)))
        Traced.withOwnChain (Tree.traceAll (callFunction depth) f.body)).Tells (Heeds .left) :=
      (Traced.Tells.quiet_bind fun _ ↦ (Tree.heeds_traceAll _ f.body).withOwnChain).inCall
    refine hbody.bind (Q := fun signal es answer ↦ es = [] ∧ answer = .ok signal.value?)
      (fun signal _ ↦ ⟨rfl, rfl⟩) ?_ ?_
    · rintro es signal es' answer h ⟨rfl, rfl⟩
      rw [List.append_nil]
      exact ⟨.ok signal, h, fun signal' heq ↦ by rw [Except.ok.inj heq]⟩
    · exact fun es d h ↦ ⟨.error d, h, fun _ heq ↦ by cases heq⟩
  · rintro es f es' answer rfl h
    exact h
  · rintro es d rfl
    exact .nil d

/-- In every call and every state, no signal of a statement in a body is lost. Behind a statement
that returns, nothing happens in the frame of the call but that the loops around the statement end,
and the call gives the value returned. Behind one that leaves, the innermost loop ends; if it stands
in no loop, nothing more happens in the frame, and the call gives nothing. A statement in the header
of a loop, whatever its signal, is followed by the condition of the loop. -/
theorem traceCall_signals (depth : Nat) (name : String) (args : List Value) (m : Machine) :
    let es := (traceCall depth name args m).1
    let answer := (traceCall depth name args m).2.1
    (traceCall depth name args m).2 = (callFunction depth name args).outcome m ∧
    (∀ before e? signal after, es = before ++ .statement (.result e?) (.ok signal) :: after →
      ∃ v?, signal = .returned v? ∧ answer = .ok v? ∧
        ∀ e ∈ after, e = .loopEnds (.ok (.returned v?))) ∧
    (∀ before signal after, es = before ++ .statement .leave (.ok signal) :: after →
      openLoops before = 0 ∧ after = [] ∧ answer = .ok none ∨
        0 < openLoops before ∧ ∃ rest, after = .loopEnds (.ok .next) :: rest) ∧
    ∀ before s signal after, es = before ++ .header s (.ok signal) :: after →
      ∃ holds rest, after = .condition holds :: rest := by
  intro es answer
  obtain ⟨answer', h, hanswer⟩ := heeds_traceCall depth name args m
  refine ⟨copies_traceCall depth name args m, fun _ _ _ _ heq ↦ ?_, fun _ _ _ heq ↦ ?_,
    fun _ _ _ _ ↦ h.header⟩
  · obtain ⟨v?, rfl, rfl, hafter⟩ := h.returned heq
    exact ⟨v?, rfl, hanswer _ rfl, hafter⟩
  · rcases h.left heq with ⟨hopen, hafter, rfl⟩ | hinner
    · exact .inl ⟨hopen, hafter, hanswer _ rfl⟩
    · exact .inr hinner

/-- A return in the header of a loop does not end the call. -/
theorem traceCall_header :
    let f : Function := { params := [], body :=
      [.block 0 ⟨1, ""⟩ (.forLoop (.result (some (.text "a"))) (.literal false) .marker) [],
        .statement 1 ⟨2, ""⟩ (.result (some (.text "b")))] }
    let m : Machine := { generator := .ofSeed 0, store := ({} : Store).defineFunction "f" f }
    (traceCall 1 "f" [] m).1 =
      [.loopBegins, .header (.result (some (.text "a"))) (.ok (.returned (some (.text "a")))),
        .condition (.ok false), .loopEnds (.ok .next),
        .statement (.result (some (.text "b"))) (.ok (.returned (some (.text "b"))))] ∧
    (traceCall 1 "f" [] m).2.1 = .ok (some (.text "b")) := ⟨rfl, rfl⟩

end Haklang
