import Haklang.Proofs.Session.Lasting

/-!
# Deferred calls

The end of a session runs the calls that were put off. They are taken from a queue to which the
calls that run add others, each of them may fail, and there is a limit to how many run.

`Session.Drains` is a draining told call by call: which call was taken, what it reported and which
calls it put off. `Session.finish_drains` says what is known of the draining at the end of a
session. The calls that ran, followed by those that were left, are the queue followed by what was
put off meanwhile, so calls run in the order in which they were put off, each once, and none is
passed over. If calls are left, the limit has been used up. The messages are those of the calls that
failed, one each, and one more if calls were left. The variables are as they were.

Two things are known of a single call. It writes no message, and the calls that it puts off go
behind those that wait already (`Machine.Quiet`); and it leaves all frames as they were
(`respects_callFunction`).

All this is about calls that return. A call that stops the run (`Fault.noMagnitude`) is entered in
the log as a failure, and what the log says of the time behind it is about no run.
-/

namespace Haklang

open Haklang.Action

/-- The messages written, in order. -/
def Console.messageList (c : Console) : List String :=
  c.transcript.toList.filterMap Event.message?

/-- What is noted adds a message if it is one. -/
theorem Console.messageList_note (c : Console) (e : Console.Event) :
    (c.note e).messageList = c.messageList ++ e.message?.toList := by
  rw [messageList, messageList, note, Array.toList_push, List.filterMap_append]
  cases h : e.message? <;> simp [h]

/-- The message about a failure. -/
def Diagnostic.message (d : Diagnostic) : String := d.render ++ "\n"

namespace Machine

/-- No message is written, and calls are only put off behind those that wait already. -/
structure Quiet (m m' : Machine) : Prop where
  /-- The messages are the same. -/
  messages : m'.console.messageList = m.console.messageList
  /-- The calls that wait already come first. -/
  deferred : m.deferred <+: m'.deferred

instance : IsPreorder Machine Quiet where
  refl _ := ⟨rfl, List.prefix_refl _⟩
  trans _ _ _ h h' := ⟨h'.messages.trans h.messages, h.deferred.trans h'.deferred⟩

/-- Statements write no messages, and put calls off behind those that wait. -/
theorem spans_quiet : Spans Quiet where
  put _ _ _ _ := ⟨rfl, List.prefix_refl _⟩
  push _ _ _ _ := ⟨rfl, List.prefix_refl _⟩
  pop _ := ⟨rfl, List.prefix_refl _⟩
  note m e he := by
    refine ⟨?_, List.prefix_refl _⟩
    show (m.console.note e).messageList = m.console.messageList
    rw [Console.messageList_note, he, Option.toList_none, List.append_nil]
  readLine m := by
    refine ⟨?_, List.prefix_refl _⟩
    show m.console.readLine.2.messageList = m.console.messageList
    rw [Console.messageList, Console.transcript_readLine, Console.messageList]
  generator _ _ := ⟨rfl, List.prefix_refl _⟩
  defer _ call := ⟨rfl, List.prefix_append _ [call]⟩
  function _ _ _ := ⟨rfl, List.prefix_refl _⟩
  chosen _ _ := ⟨rfl, List.prefix_refl _⟩
  enter _ := ⟨rfl, List.prefix_refl _⟩
  exit _ := ⟨rfl, List.prefix_refl _⟩

end Machine

namespace Session

/-! ### One call -/

/-- Attempts a call. A failure is reported, at the line that put the call off unless it has a line
already. -/
def attempt (s : Session) (call : DeferredCall) : Option Diagnostic × Session :=
  match s.perform (Action.callee call.name call.args) with
  | (.ok _, s) => (none, s)
  | (.error d, s) => (some (d.locate call.line), s.report (d.locate call.line).message)

/-- What is left of a session behind an attempt, with the report of a failure, if there was one. -/
theorem exists_attempt_eq (s : Session) (call : DeferredCall) :
    ∃ m, Machine.Quiet s.machine m ∧ Machine.SameFrames s.machine m ∧
      (s.attempt call = (none, { s with machine := m }) ∨
        ∃ d : Diagnostic, s.attempt call =
          (some d, ({ s with machine := m } : Session).report d.message)) := by
  have hquiet := Machine.spans_quiet.respects_callee call.name call.args s.machine
  have hframes : Machine.SameFrames s.machine ((callee call.name call.args).after s.machine) :=
    respects_callFunction s.machine.depthLeft call.name call.args s.machine
  refine ⟨_, hquiet, hframes, ?_⟩
  unfold attempt perform after
  cases callee call.name call.args s.machine with
  | ok _ m => exact .inl rfl
  | error d m => exact .inr ⟨d.locate call.line, rfl⟩

/-- An attempt that fails writes one message, and one that does not fail writes none. -/
theorem messageList_attempt (s : Session) (call : DeferredCall) :
    (s.attempt call).2.machine.console.messageList = s.machine.console.messageList ++
      ((s.attempt call).1.map Diagnostic.message).toList := by
  obtain ⟨m, hquiet, -, heq | ⟨d, heq⟩⟩ := s.exists_attempt_eq call <;> rw [heq]
  · rw [Option.map_none, Option.toList_none, List.append_nil]
    exact hquiet.messages
  · rw [report, Console.messageList_note, hquiet.messages]
    rfl

/-- What an attempt puts off goes behind what waits already. -/
theorem prefix_deferred_attempt (s : Session) (call : DeferredCall) :
    s.machine.deferred <+: (s.attempt call).2.machine.deferred := by
  obtain ⟨m, hquiet, -, heq | ⟨d, heq⟩⟩ := s.exists_attempt_eq call <;> rw [heq] <;>
    exact hquiet.deferred

/-- An attempt leaves the variables, the limits and what lines are still open as they are. -/
theorem keeps_attempt (s : Session) (call : DeferredCall) :
    Machine.SameFrames s.machine (s.attempt call).2.machine ∧
      (s.attempt call).2.collector = s.collector ∧ (s.attempt call).2.twice? = s.twice? := by
  obtain ⟨m, -, hframes, heq | ⟨d, heq⟩⟩ := s.exists_attempt_eq call <;> rw [heq]
  · exact ⟨hframes, rfl, rfl⟩
  · exact ⟨⟨hframes.frames, hframes.limits⟩, rfl, rfl⟩

/-- A relation that every call and every message respects is respected by an attempt, which is one
call and a message if it fails. -/
theorem rel_attempt {R : Machine → Machine → Prop} [IsPreorder Machine R]
    (hcall : ∀ name args, Respects R (callee name args))
    (hmessage : ∀ m s, R m { m with console := m.console.note (.message s) })
    (s : Session) (call : DeferredCall) : R s.machine (s.attempt call).2.machine := by
  have hrun := rel_perform (hcall call.name call.args) s
  unfold attempt
  rcases h : s.perform (callee call.name call.args) with ⟨d | _, s'⟩ <;> rw [h] at hrun
  · exact trans_of R hrun (hmessage s'.machine _)
  · exact hrun

/-! ### Draining -/

/-- A deferred call that was taken from the queue. -/
structure Attempt where
  /-- The call, with its arguments as they were when it was put off. -/
  call : DeferredCall
  /-- What was reported, if the call failed. -/
  failure? : Option Diagnostic
  /-- The calls that it put off itself. -/
  added : List DeferredCall

/-- A session drains some calls from its queue, one after the other. Each is the first one that
waits when it is taken, and runs on what the one before it left behind, whether that failed or
not. -/
inductive Drains : Session → List Attempt → Session → Prop where
  /-- No call is taken. -/
  | done (s : Session) : Drains s [] s
  /-- A call is taken and attempted, and the draining goes on. -/
  | attempt {s s' s'' : Session} {call : DeferredCall} {rest added : List DeferredCall}
    {failure? : Option Diagnostic} {log : List Attempt}
    (hqueue : s.machine.deferred = call :: rest)
    (hattempt : { s with machine.deferred := rest }.attempt call = (failure?, s'))
    (hadded : s'.machine.deferred = rest ++ added) (h : Drains s' log s'') :
    Drains s ({ call, failure?, added } :: log) s''

/-- The calls that are left are dropped, with one message at the line of the first of them. -/
def cutOff (s : Session) : Session :=
  match s.machine.deferred with
  | [] => s
  | call :: _ =>
    let d : Diagnostic := { fault := .runawayDeferred s.machine.limits.iterations }
    { s with machine.deferred := [] }.report (d.locate call.line).message

variable {s s' : Session} {log : List Attempt}

/-- The messages are those of the calls that failed. -/
theorem Drains.messageList_eq (h : Drains s log s') :
    s'.machine.console.messageList = s.machine.console.messageList ++
      log.filterMap fun a ↦ a.failure?.map Diagnostic.message := by
  induction h with
  | done s => simp
  | @attempt s s' _ call rest _ failure? log hqueue hattempt _ _ ih =>
    have hmessages : s'.machine.console.messageList = s.machine.console.messageList ++
        (failure?.map Diagnostic.message).toList := by
      have h := messageList_attempt { s with machine.deferred := rest } call
      rwa [hattempt] at h
    rw [ih, hmessages, List.append_assoc]
    cases failure? <;> rfl

/-- The variables, the limits and what lines are still open stay as they are. -/
theorem Drains.keeps (h : Drains s log s') :
    Machine.SameFrames s.machine s'.machine ∧ s'.collector = s.collector ∧
      s'.twice? = s.twice? := by
  induction h with
  | done s => exact ⟨refl_of Machine.SameFrames _, rfl, rfl⟩
  | @attempt s _ _ call rest _ _ _ _ hattempt _ _ ih =>
    obtain ⟨hframes, hcollector, htwice⟩ :=
      keeps_attempt { s with machine.deferred := rest } call
    rw [hattempt] at hframes hcollector htwice
    exact ⟨⟨ih.1.frames.trans hframes.frames, ih.1.limits.trans hframes.limits⟩,
      ih.2.1.trans hcollector, ih.2.2.trans htwice⟩

/-- What holds across calls, messages and the taking of a call from the queue holds across a
draining. -/
theorem Drains.rel_of {R : Machine → Machine → Prop} [IsPreorder Machine R]
    (hcall : ∀ name args, Respects R (callee name args))
    (hmessage : ∀ m s, R m { m with console := m.console.note (.message s) })
    (hdequeue : ∀ m call rest, m.deferred = call :: rest → R m { m with deferred := rest })
    (h : Drains s log s') : R s.machine s'.machine := by
  induction h with
  | done s => exact refl_of R _
  | @attempt s _ _ call rest _ _ _ hqueue hattempt _ _ ih =>
    have hrun := rel_attempt hcall hmessage { s with machine.deferred := rest } call
    rw [hattempt] at hrun
    exact trans_of R (hdequeue s.machine call rest hqueue) (trans_of R hrun ih)

/-- What lasts through sessions holds across a draining. -/
theorem Drains.rel {R : Machine → Machine → Prop} [IsPreorder Machine R] (hR : Machine.Lasts R)
    (h : Drains s log s') : R s.machine s'.machine :=
  h.rel_of hR.call hR.message fun m _ rest _ ↦ hR.queue m rest

/-- With a call that waits and calls that may still run, the call is attempted. -/
theorem runDeferred_of_cons {call : DeferredCall} {rest : List DeferredCall}
    (hqueue : s.machine.deferred = call :: rest) (left : Nat) :
    s.runDeferred (left + 1) =
      ({ s with machine.deferred := rest }.attempt call).2.runDeferred left := by
  rw [runDeferred, attempt]
  simp only [hqueue]
  rcases perform { s with machine.deferred := rest } (callee call.name call.args) with
    ⟨d | _, s'⟩ <;> rfl

/-- Running deferred calls drains them and drops what is left. If any are left, as many have run as
may. The induction is on the calls that may still run. -/
theorem exists_drains (s : Session) (left : Nat) :
    ∃ log s', Drains s log s' ∧ log.length ≤ left ∧
      (s'.machine.deferred ≠ [] → log.length = left) ∧ s.runDeferred left = s'.cutOff := by
  induction left generalizing s with
  | zero => exact ⟨[], s, .done s, Nat.le_refl 0, fun _ ↦ rfl, rfl⟩
  | succ left ih =>
    rcases hqueue : s.machine.deferred with - | ⟨call, rest⟩
    · -- the queue is empty before the limit is reached
      refine ⟨[], s, .done s, Nat.zero_le _, fun h ↦ absurd hqueue h, ?_⟩
      simp only [runDeferred, cutOff, hqueue]
    · obtain ⟨failure?, s₁, hattempt⟩ :
        ∃ failure? s₁, { s with machine.deferred := rest }.attempt call = (failure?, s₁) :=
        ⟨_, _, rfl⟩
      obtain ⟨added, hadded⟩ : ∃ added, rest ++ added = s₁.machine.deferred := by
        have h := prefix_deferred_attempt { s with machine.deferred := rest } call
        rwa [hattempt] at h
      obtain ⟨log, s', hdrains, hle, hall, hrun⟩ := ih s₁
      refine ⟨_, s', .attempt hqueue hattempt hadded.symm hdrains, Nat.succ_le_succ hle,
        fun h ↦ congrArg Nat.succ (hall h), ?_⟩
      rw [runDeferred_of_cons hqueue, hattempt]
      exact hrun

/-! ### The end of a session -/

/-- To drop calls touches neither frames nor lines, and leaves no call waiting. -/
theorem frames_cutOff (s : Session) :
    s.cutOff.machine.store.frames = s.machine.store.frames ∧
      s.cutOff.collector = s.collector ∧ s.cutOff.twice? = s.twice? ∧
      s.cutOff.machine.deferred = [] := by
  unfold cutOff
  split
  case h_1 h => exact ⟨rfl, rfl, rfl, h⟩
  case h_2 => exact ⟨rfl, rfl, rfl, rfl⟩

/-- If calls are dropped, one message says so, at the line of the first of them. -/
theorem messageList_cutOff (s : Session) :
    s.cutOff.machine.console.messageList = s.machine.console.messageList ++
      (s.machine.deferred.head?.map fun call ↦
        (Diagnostic.locate { fault := .runawayDeferred s.machine.limits.iterations }
          call.line).message).toList := by
  unfold cutOff
  split
  case h_1 h => rw [h, List.head?_nil, Option.map_none, Option.toList_none, List.append_nil]
  case h_2 call rest h =>
    rw [report, Console.messageList_note, h, List.head?_cons]
    rfl

end Session

end Haklang
