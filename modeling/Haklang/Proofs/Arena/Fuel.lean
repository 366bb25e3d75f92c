import Haklang.Proofs.Arena.Run
import Haklang.Proofs.Execution.Frames

/-!
# Enough fuel

A run from an arena settles: with enough fuel it has an answer, and with less it has the same one or
none (`Settles`). The answer is that of the evaluators that recur on trees, so what is shown here is
an equality of two definitions and not only that one of them ends.

An attempt computes an action (`Arena.Computes`) if it settles on the answer of the action wherever
two things hold of the machine (`Arena.Ready`): the depth left to calls is the given one, and the
body of every function is stored in the arena. Both have to hold again afterwards, since a program
defines functions while it runs; so they are part of what is computed, and pass through the
combinators together with the answer.

No single number goes down on the way. The inductions are nested: on the depth left to calls, on the
tree, and inside a loop on the iterations left. None of them is on fuel, which only has to be one
more than what the parts need (`Computes.succ`).
-/

namespace Haklang

/-! ### Settling -/

/-- With enough fuel the answer is the given one, and with less it is the same or there is none. -/
structure Settles {β : Type} (f : Nat → Option β) (b : β) : Prop where
  /-- There is no other answer. -/
  eq_of_some : ∀ {n c}, f n = some c → c = b
  /-- There is an answer from some amount on. -/
  eventually : ∃ N, ∀ n, N ≤ n → f n = some b

namespace Settles

variable {β γ : Type} {f : Nat → Option β} {b : β}

/-- What needs no fuel settles at once. -/
theorem of_eq (h : ∀ n, f n = some b) : Settles f b where
  eq_of_some hc := Option.some.inj (hc.symm.trans (h _))
  eventually := ⟨0, fun n _ ↦ h n⟩

theorem const (b : β) : Settles (fun _ ↦ some b) b := .of_eq fun _ ↦ rfl

/-- An attempt that goes on with the answer of another settles if the other does and if it does so
itself from that answer on: the larger one of both amounts is enough. -/
theorem bind {k : Nat → β → Option γ} {c : γ} (hf : Settles f b)
    (hk : Settles (fun n ↦ k n b) c) : Settles (fun n ↦ (f n).bind (k n)) c where
  eq_of_some {n c'} h := by
    obtain ⟨b', hb', hc'⟩ := Option.bind_eq_some_iff.mp h
    rw [hf.eq_of_some hb'] at hc'
    exact hk.eq_of_some hc'
  eventually := by
    obtain ⟨N, hN⟩ := hf.eventually
    obtain ⟨M, hM⟩ := hk.eventually
    refine ⟨max N M, fun n hn ↦ ?_⟩
    rw [hN n (by omega), Option.bind_some]
    exact hM n (by omega)

/-- The answer may be mapped. -/
theorem map (hf : Settles f b) (g : β → γ) : Settles (fun n ↦ (f n).map g) (g b) where
  eq_of_some {n c} h := by
    obtain ⟨b', hb', rfl⟩ := Option.map_eq_some_iff.mp h
    rw [hf.eq_of_some hb']
  eventually := by
    obtain ⟨N, hN⟩ := hf.eventually
    exact ⟨N, fun n hn ↦ by rw [hN n hn, Option.map_some]⟩

/-- What takes one unit of fuel before it settles. -/
theorem succ (h0 : f 0 = none) (hf : Settles (fun n ↦ f (n + 1)) b) : Settles f b where
  eq_of_some {n c} h := by
    cases n with
    | zero => exact nomatch h0.symm.trans h
    | succ n => exact hf.eq_of_some h
  eventually := by
    obtain ⟨N, hN⟩ := hf.eventually
    refine ⟨N + 1, fun n hn ↦ ?_⟩
    obtain ⟨n, rfl⟩ : ∃ k, n = k + 1 := ⟨n - 1, by omega⟩
    exact hN n (by omega)

end Settles

/-! ### Functions by number -/

namespace Table

variable {α β : Type}

/-- The table with everything that names stand for mapped. -/
def map (f : α → β) (t : Table α) : Table β := ⟨t.entries.map fun e ↦ (e.1, f e.2)⟩

/-- A name stands for the mapped thing. -/
theorem find?_map (f : α → β) (t : Table α) (name : String) :
    (t.map f).find? name = (t.find? name).map f := by
  obtain ⟨entries⟩ := t
  show (entries.map fun e ↦ (e.1, f e.2)).lookup name = (entries.lookup name).map f
  induction entries with
  | nil => rfl
  | cons e rest ih =>
    obtain ⟨key, a⟩ := e
    rw [List.map_cons, List.lookup_cons, List.lookup_cons]
    cases name == key
    · exact ih
    · rfl

/-- Mapping a table goes through insertion. -/
theorem map_insert (f : α → β) (t : Table α) (name : String) (a : α) :
    (t.insert name a).map f = (t.map f).insert name (f a) := by
  simp only [insert, map, List.map_cons, List.filter_map]
  rfl

end Table

namespace Arena

open Haklang.Action Attempt

/-- A function, its body known by number. -/
def Routine.ofFunction (f : Function) : Routine :=
  { params := f.params, body := f.body.map Tree.id }

/-- A machine, its functions known by number. -/
def Runner.ofMachine (m : Machine) : Runner :=
  { machine := m.withFunctions {}, routines := m.store.functions.map .ofFunction }

/-- The body of every function is stored in the arena. -/
def Holds (arena : Arena) (fs : Table Function) : Prop :=
  ∀ name f, fs.find? name = some f → Tree.StoredAll arena f.body

/-- The machine stands where calls may still be nested to the given depth, and the bodies of its
functions are stored. -/
structure Ready (arena : Arena) (depth : Nat) (m : Machine) : Prop where
  /-- The depth left to calls. -/
  depthLeft : m.depthLeft = depth
  /-- The bodies are stored. -/
  holds : arena.Holds m.store.functions

/-- Wherever the machine is ready, the attempt settles on the answer of the action, and the machine
is ready again. -/
def Computes {α : Type} (arena : Arena) (depth : Nat) (f : Nat → Attempt α) (x : Action α) : Prop :=
  ∀ m, Ready arena depth m →
    Settles (fun n ↦ f n (.ofMachine m)) (mapState Runner.ofMachine (x m)) ∧
      Ready arena depth (x.after m)

variable {arena : Arena} {depth : Nat}

/-- A function may be defined whose body is stored. -/
theorem Holds.insert {fs : Table Function} (h : arena.Holds fs) {f : Function}
    (hf : Tree.StoredAll arena f.body) (name : String) : arena.Holds (fs.insert name f) := by
  intro other g hg
  rw [Table.find?_insert] at hg
  split at hg
  · cases hg
    exact hf
  · exact h other g hg

/-- The bodies of functions are still stored when the arena has grown. -/
theorem Holds.append {fs : Table Function} (h : arena.Holds fs) (more : Arena) :
    (arena ++ more).Holds fs :=
  fun name f hf ↦ (h name f hf).append more

/-- Functions and frames are all that readiness is about. -/
theorem Ready.of_sameOuter {m m' : Machine} (hm : Ready arena depth m)
    (h : Machine.SameOuter m m') (hfunctions : m'.store.functions = m.store.functions) :
    Ready arena depth m' where
  depthLeft := h.depthLeft_eq.trans hm.depthLeft
  holds := by
    rw [hfunctions]
    exact hm.holds

/-! ### Combinators -/

namespace Computes

variable {α β : Type}

/-- An attempt that is stuck without fuel computes an action if it does with one unit more. -/
theorem succ {f : Nat → Attempt α} {x : Action α} (h0 : f 0 = stuck)
    (h : Computes arena depth (fun n ↦ f (n + 1)) x) : Computes arena depth f x :=
  fun m hm ↦ ⟨.succ (congrFun h0 _) (h m hm).1, (h m hm).2⟩

/-- A value is computed with no fuel at all. -/
theorem pure (a : α) : Computes arena depth (fun _ ↦ Pure.pure a) (Pure.pure a) :=
  fun _ hm ↦ ⟨.const _, hm⟩

/-- A sequence is computed by what computes its parts: the machine is ready again in between. -/
theorem bind {f : Nat → Attempt α} {x : Action α} {g : Nat → α → Attempt β} {k : α → Action β}
    (hx : Computes arena depth f x) (hk : ∀ a, Computes arena depth (fun n ↦ g n a) (k a)) :
    Computes arena depth (fun n ↦ f n >>= g n) (x >>= k) := by
  intro m hm
  obtain ⟨hsettles, hready⟩ := hx m hm
  cases h : x m with
  | ok a m' =>
    rw [after_of_ok h] at hready
    rw [h] at hsettles
    rw [after, bind_of_ok h]
    obtain ⟨hsettles', hready'⟩ := hk a m' hready
    exact ⟨hsettles.bind hsettles', hready'⟩
  | error d m' =>
    rw [after_of_error h] at hready
    rw [h] at hsettles
    rw [after, bind_of_error h]
    exact ⟨hsettles.bind (.const _), hready⟩

/-- The answer of what is computed may be dropped. -/
theorem discard {f : Nat → Attempt α} {x : Action α} (hx : Computes arena depth f x) :
    Computes arena depth (fun n ↦ Functor.discard (f n)) (Functor.discard x) :=
  hx.bind fun _ ↦ .pure _

/-- An action that has nothing to do with functions and frames. -/
theorem lift {x : Action α} (hblind : Blind x) (hx : Respects Machine.SameOuter x) :
    Computes arena depth (fun _ ↦ lift x) x := by
  intro m hm
  have hfunctions := hblind.functions_after m
  refine ⟨?_, hm.of_sameOuter (hx m) hfunctions⟩
  -- without functions the action does the same, and the functions that it leaves are those before
  have hanswer : Attempt.lift x (.ofMachine m) = some (mapState Runner.ofMachine (x m)) := by
    rw [Attempt.lift]
    show some (mapState _ (x (m.withFunctions {}))) = _
    rw [hblind m {}]
    cases h : x m with
    | ok a m' =>
      rw [after_of_ok h] at hfunctions
      simp [mapState, Runner.ofMachine, hfunctions]
    | error d m' =>
      rw [after_of_error h] at hfunctions
      simp [mapState, Runner.ofMachine, hfunctions]
  exact .of_eq fun _ ↦ hanswer

/-- A failure on purpose is computed with no fuel at all. -/
theorem fail (d : Fault) :
    Computes arena depth (fun _ ↦ Attempt.lift (Action.fail d : Action α)) (Action.fail d) :=
  lift (.fail d) (.fail d)

theorem ofExcept (r : Except Fault α) :
    Computes arena depth (fun _ ↦ Attempt.lift (Action.ofExcept r)) (Action.ofExcept r) :=
  lift (.ofExcept r) (.ofExcept r)

/-- What reads the machine and goes on with it may rely on its being ready. -/
theorem getBind {g : Nat → Machine → Attempt α} {k : Machine → Action α}
    (hk : ∀ m, Ready arena depth m →
      Computes arena depth (fun n ↦ g n (m.withFunctions {})) (k m)) :
    Computes arena depth (fun n ↦ Attempt.lift get >>= g n) (get >>= k) :=
  fun m hm ↦ hk m hm m hm

/-- Reading the machine by itself changes nothing. -/
theorem peek {g : Nat → Machine → Attempt α} {x : Action α}
    (hx : ∀ m, Ready arena depth m →
      Computes arena depth (fun n ↦ g n (m.withFunctions {})) x) :
    Computes arena depth (fun n ↦ Attempt.lift get >>= g n) x :=
  fun m hm ↦ hx m hm m hm

/-- The flag of a chain has nothing to do with readiness. -/
theorem chosen (b : Bool) :
    Computes arena depth (fun _ ↦ Attempt.lift (modify fun m ↦ { m with chosen := b }))
      (modify fun m ↦ { m with chosen := b }) :=
  lift (.modify fun _ _ ↦ rfl) (Respects.modify fun m ↦ Machine.runs_sameOuter.chosen m b)

/-- The line of a failure is named when the attempt has an answer. -/
theorem within {f : Nat → Attempt α} {x : Action α} (line : SourceLine)
    (hx : Computes arena depth f x) :
    Computes arena depth (fun n ↦ Attempt.within line (f n)) (Action.within line x) := by
  intro m hm
  obtain ⟨hsettles, hready⟩ := hx m hm
  rw [after_within]
  refine ⟨?_, hready⟩
  rw [Action.within]
  cases h : x m <;> rw [h] at hsettles <;> exact hsettles.map _

/-- The flag of the chain around is put back when the attempt has an answer. -/
theorem withOwnChain {f : Nat → Attempt α} {x : Action α} (hx : Computes arena depth f x) :
    Computes arena depth (fun n ↦ Attempt.withOwnChain (f n)) (Action.withOwnChain x) := by
  intro m hm
  obtain ⟨hsettles, hready⟩ := hx { m with chosen := false } ⟨hm.depthLeft, hm.holds⟩
  rw [after_withOwnChain]
  refine ⟨?_, ⟨hready.depthLeft, hready.holds⟩⟩
  rw [Action.withOwnChain]
  cases h : x { m with chosen := false } <;> rw [h] at hsettles <;> exact hsettles.map _

/-- Inside a call there is one level less. -/
theorem inCall {f : Nat → Attempt α} {x : Action α} (hx : Computes arena depth f x)
    (houter : Respects Machine.SameOuter x) :
    Computes arena (depth + 1) (fun n ↦ Attempt.inCall (f n)) (Action.inCall x) := by
  intro m hm
  have henter : ({ m with store := m.store.enter } : Machine).depthLeft = depth := by
    have hdepth : m.limits.callDepth - m.store.depth = depth + 1 := hm.depthLeft
    show m.limits.callDepth - (m.store.depth + 1) = depth
    omega
  obtain ⟨hsettles, hready⟩ := hx { m with store := m.store.enter } ⟨henter, hm.holds⟩
  refine ⟨?_, ⟨?_, ?_⟩⟩
  · rw [Action.inCall]
    cases h : x { m with store := m.store.enter } <;> rw [h] at hsettles <;> exact hsettles.map _
  · exact (houter.inCall m).sameOuter.depthLeft_eq.trans hm.depthLeft
  · rw [after_inCall]
    exact hready.holds

/-- A definition keeps to the arena if the body of the function is stored there. -/
theorem define {body : List Tree} (hbody : Tree.StoredAll arena body) (name : String)
    (params : List String) :
    Computes arena depth (fun _ ↦ Attempt.define name { params, body := body.map Tree.id })
      (modifyStore (·.defineFunction name { params, body })) := by
  intro m hm
  refine ⟨?_, ⟨hm.depthLeft, hm.holds.insert hbody name⟩⟩
  have hanswer : Attempt.define name { params, body := body.map Tree.id } (.ofMachine m) =
      some (.ok ()
        (.ofMachine { m with store := m.store.defineFunction name { params, body } })) := by
    rw [Attempt.define, Runner.ofMachine, Runner.ofMachine, Store.defineFunction, Table.map_insert]
    rfl
  exact .of_eq fun _ ↦ hanswer

/-- A function that is looked up has a body that is stored. -/
theorem routine {g : Nat → Routine → Attempt α} {k : Function → Action α} {name : String}
    (hk : ∀ f : Function, Tree.StoredAll arena f.body →
      Computes arena depth (fun n ↦ g n (.ofFunction f)) (k f)) :
    Computes arena depth (fun n ↦ Attempt.routine name >>= g n)
      (Action.read (·.function name) >>= k) := by
  intro m hm
  have hfind : (Runner.ofMachine m).routines.find? name =
      (m.store.functions.find? name).map .ofFunction := Table.find?_map _ _ _
  rcases h : m.store.functions.find? name with - | f
  · rw [h] at hfind
    have hread : Action.read (·.function name) m =
        .error { fault := .undefinedFunction name } m := by
      show Action.ofExcept (m.store.function name) m = _
      rw [Store.function, h]
      rfl
    have hsettles : Settles (fun _ ↦ Attempt.routine name (.ofMachine m))
        (.error { fault := .undefinedFunction name } (.ofMachine m)) := .of_eq fun _ ↦ by
      rw [Attempt.routine, hfind]
      rfl
    rw [after, bind_of_error hread]
    exact ⟨hsettles.bind (.const _), hm⟩
  · rw [h] at hfind
    have hread : Action.read (·.function name) m = .ok f m := by
      show Action.ofExcept (m.store.function name) m = _
      rw [Store.function, h]
      rfl
    have hsettles : Settles (fun _ ↦ Attempt.routine name (.ofMachine m))
        (.ok (.ofFunction f) (.ofMachine m)) := .of_eq fun _ ↦ by
      rw [Attempt.routine, hfind]
      rfl
    obtain ⟨hsettles', hready⟩ := hk f (hm.holds name f h) m hm
    rw [after, bind_of_ok hread]
    exact ⟨hsettles.bind hsettles', hready⟩

end Computes

/-! ### Expressions, conditions and statements -/

/-- Calls by number compute what a callee does. -/
def ComputesCalls (arena : Arena) (depth : Nat) (callee : Callee) : Prop :=
  ∀ name args, Computes arena depth (fun n ↦ call arena n name args) (callee name args)

section Evaluators

variable {callee : Callee}

/-- Where no calls are made, none looks at functions. -/
theorem blind_noCall (name : String) (args : List Value) : Blind (noCall name args) := .pure _

/-- Where no calls are made, none touches the frames. -/
theorem respects_noCall (name : String) (args : List Value) :
    Respects Machine.SameOuter (noCall name args) := .pure _

/-- An expression without parts does what it does without calls. -/
theorem computes_leaf (e : Expr) :
    Computes arena depth (fun _ ↦ lift (e.eval noCall)) (e.eval noCall) :=
  .lift (e.blind_eval blind_noCall) (e.respects_eval respects_noCall)

mutual

/-- An expression is computed, by induction on it; calls are what is assumed of it. -/
theorem computes_expr (hcall : ComputesCalls arena depth callee) :
    ∀ e : Expr, Computes arena depth (fun n ↦ expr arena n e) (e.eval callee)
  | .negate e => .succ rfl <| (computes_expr hcall e).bind fun _ ↦ .ofExcept _
  | .binary _ l r => .succ rfl <| (computes_expr hcall l).bind fun _ ↦
    (computes_expr hcall r).bind fun _ ↦ .ofExcept _
  | .var name => .succ rfl (computes_leaf (.var name))
  | .int n => .succ rfl (computes_leaf (.int n))
  | .decimal d => .succ rfl (computes_leaf (.decimal d))
  | .text s => .succ rfl (computes_leaf (.text s))
  | .bool b => .succ rfl (computes_leaf (.bool b))
  | .call name args => .succ rfl <| (computes_exprs hcall args).bind fun vs ↦
    (hcall name vs).bind fun v? ↦ by
      cases v? with
      | none => exact .fail _
      | some v => exact .pure _
  | .unresolved s => .succ rfl (computes_leaf (.unresolved s))

/-- Arguments are computed one after the other. -/
theorem computes_exprs (hcall : ComputesCalls arena depth callee) :
    ∀ es : List Expr, Computes arena depth (fun n ↦ exprs arena n es) (Expr.evalAll callee es)
  | [] => .succ rfl (.pure _)
  | e :: es => .succ rfl <| (computes_expr hcall e).bind fun _ ↦
    (computes_exprs hcall es).bind fun _ ↦ .pure _

end

variable (hcall : ComputesCalls arena depth callee)

include hcall

/-- A condition is computed as its operands are. -/
theorem computes_cond (c : Cond) :
    Computes arena depth (fun n ↦ cond arena n c) (c.eval callee) := by
  induction c with
  | literal b => exact .succ rfl (.pure b)
  | or l r ihl ihr => exact .succ rfl <| ihl.bind fun _ ↦ ihr.bind fun _ ↦ .pure _
  | and l r ihl ihr => exact .succ rfl <| ihl.bind fun _ ↦ ihr.bind fun _ ↦ .pure _
  | compare rel l r =>
    exact .succ rfl <| (computes_expr hcall l).bind fun _ ↦
      (computes_expr hcall r).bind fun _ ↦ .ofExcept _
  | holds e => exact .succ rfl <| (computes_expr hcall e).bind fun _ ↦ .pure _

/-- Statements with expressions evaluate them first; all others do what they do without calls. -/
theorem computes_statement (line : SourceLine) (s : Statement) :
    Computes arena depth (fun n ↦ statement arena n line s) (s.run callee line) := by
  have hleaf : ∀ s : Statement,
      Computes arena depth (fun _ ↦ lift (s.run noCall line)) (s.run noCall line) := fun s ↦
    .lift (s.blind_run blind_noCall line)
      (s.respects_run Machine.runs_sameOuter.toWrites respects_noCall line)
  cases s with
  | result e? =>
    cases e? with
    | none => exact .succ rfl (hleaf (.result none))
    | some e => exact .succ rfl <| (computes_expr hcall e).bind fun v ↦ .pure _
  | assign name e =>
    refine .succ rfl <| (computes_expr hcall e).bind fun v ↦ .bind ?_ fun _ ↦ .pure _
    exact .lift (.assign name v) (.assign Machine.runs_sameOuter.toWrites.revises name v)
  | call name args =>
    exact .succ rfl <| (computes_exprs hcall args).bind fun vs ↦
      (hcall name vs).discard.bind fun _ ↦ .pure _
  | defer name args =>
    refine .succ rfl <| (computes_exprs hcall args).bind fun vs ↦ .bind ?_ fun _ ↦ .pure _
    exact .lift (.modify fun _ _ ↦ rfl)
      (Respects.modify fun m ↦ Machine.runs_sameOuter.defer m _)
  | pause e =>
    refine .succ rfl <| (computes_expr hcall e).bind fun v ↦ .bind ?_ fun _ ↦ .pure _
    exact .lift (Statement.blind_pauseFor v)
      (Statement.respects_pauseFor Machine.runs_sameOuter.toWrites.revises v)
  | _ => exact .succ rfl (hleaf _)

/-! ### Loops -/

/-- A loop that has run some of its iterations computes the loop that has the others left. The
induction is on those that are left. -/
theorem computes_loop (line : SourceLine) (c : Cond) (step? : Option Statement) {body : List Tree}
    {x : Action Signal} {step : Action Unit} {limit : Nat}
    (hbody : Computes arena depth (fun n ↦ sequence arena n (body.map Tree.id)) x)
    (hstep : Computes arena depth
      (fun n ↦ step?.elim (pure ()) fun s ↦ discard (statement arena n line s)) step)
    {count left : Nat} (hcount : count + left = limit) :
    Computes arena depth (fun n ↦ loop arena n line c step? (body.map Tree.id) limit count)
      (Action.loop limit (c.eval callee) (Action.withOwnChain x) step left) := by
  induction left generalizing count with
  | zero =>
    refine .succ rfl <| (computes_cond hcall c).bind fun b ↦ ?_
    cases b with
    | false => exact .pure _
    | true =>
      have hlimit : limit ≤ count := by omega
      simp only [hlimit, if_true]
      exact .fail _
  | succ left ih =>
    refine .succ rfl <| (computes_cond hcall c).bind fun b ↦ ?_
    cases b with
    | false => exact .pure _
    | true =>
      -- there is an iteration left, so the limit has not been reached
      have hlimit : ¬ limit ≤ count := by omega
      simp only [hlimit, if_true, if_false]
      refine hbody.withOwnChain.bind fun signal ↦ ?_
      cases signal with
      | next => exact hstep.bind fun _ ↦ @ih (count + 1) (by omega)
      | left => exact .pure _
      | returned v? => exact .pure _

end Evaluators

/-! ### Nodes -/

/-- The node of a stored tree is found at its number. -/
theorem node_succ {t : Tree} (ht : t.Stored arena) (n : Nat) :
    node arena (n + 1) t.id = within t.line (match t with
      | .statement _ line s => statement arena n line s
      | .block _ line head body => block arena n line head (body.map Tree.id)
      | .twice _ _ inner => do
        match ← node arena n inner.id with
        | .next => node arena n inner.id
        | signal => pure signal) := by
  rw [node, ht.getElem?]
  cases t <;> rfl

variable {callee : Callee}

mutual

/-- A stored tree does by number what it does by itself. -/
theorem computes_node (hcall : ComputesCalls arena depth callee) :
    ∀ t : Tree, t.Stored arena → Computes arena depth (fun n ↦ node arena n t.id) (t.run callee)
  | .statement id line s, ht => by
    refine .succ rfl ?_
    simp only [node_succ ht]
    exact (computes_statement hcall line s).within line
  | .block id line head body, ht => by
    have hbody : Computes arena depth
        (fun n ↦ sequence arena n (body.map Tree.id)) (Tree.runAll callee body) :=
      computes_sequence hcall body ht.1
    refine .succ rfl ?_
    simp only [node_succ ht]
    refine .within line (.succ rfl ?_)
    cases head with
    | function name params => exact (Computes.define ht.1 name params).bind fun _ ↦ .pure _
    | ifBlock c =>
      refine (Computes.chosen false).bind fun _ ↦ (computes_cond hcall c).bind fun b ↦ ?_
      cases b with
      | true => exact (Computes.chosen true).bind fun _ ↦ hbody.withOwnChain
      | false => exact .pure _
    | elseIf c =>
      refine .getBind fun m _ ↦ ?_
      show Computes arena depth (fun n ↦ if m.chosen then _ else _) (if m.chosen then _ else _)
      split
      · exact .pure _
      · refine (computes_cond hcall c).bind fun b ↦ ?_
        cases b with
        | true => exact (Computes.chosen true).bind fun _ ↦ hbody.withOwnChain
        | false => exact .pure _
    | elseBlock =>
      refine .getBind fun m _ ↦ .bind (.chosen false) fun _ ↦ ?_
      show Computes arena depth (fun n ↦ if m.chosen then _ else _) (if m.chosen then _ else _)
      split
      · exact .pure _
      · exact hbody.withOwnChain
    | whileLoop c =>
      refine .getBind fun m _ ↦ ?_
      exact computes_loop hcall line c none hbody (.pure _) (Nat.zero_add _)
    | forLoop init c step =>
      -- the limit is read after the initial statement, which may call functions
      refine (computes_statement hcall line init).discard.bind fun _ ↦ .getBind fun m _ ↦ ?_
      exact computes_loop hcall line c (some step) hbody
        (computes_statement hcall line step).discard (Nat.zero_add _)
  | .twice id line inner, ht => by
    have hinner := computes_node hcall inner ht.1
    refine .succ rfl ?_
    simp only [node_succ ht]
    refine .within line (hinner.bind fun signal ↦ ?_)
    cases signal with
    | next => exact hinner
    | left => exact .pure _
    | returned v? => exact .pure _

/-- Trees in a row are computed if they are stored, each with what is left of the fuel. -/
theorem computes_sequence (hcall : ComputesCalls arena depth callee) :
    ∀ ts : List Tree, Tree.StoredAll arena ts →
      Computes arena depth (fun n ↦ sequence arena n (ts.map Tree.id)) (Tree.runAll callee ts)
  | [], _ => .succ rfl (.pure _)
  | t :: ts, ⟨ht, hts⟩ => by
    refine .succ rfl <| (computes_node hcall t ht).bind fun signal ↦ ?_
    cases signal with
    | next => exact computes_sequence hcall ts hts
    | left => exact .pure _
    | returned v? => exact .pure _

end

/-! ### Calls -/

/-- A call by number does what the function does. The induction is on the depth left to calls; the
body of the function makes its calls at one level less. -/
theorem computes_call (depth : Nat) : ComputesCalls arena depth (callFunction depth) := by
  induction depth with
  | zero =>
    intro name args
    rw [callFunction]
    refine .succ rfl <| .routine fun f hf ↦ ?_
    show Computes arena 0 (fun n ↦ if f.params.length ≠ args.length then _ else _)
      (if f.params.length ≠ args.length then _ else _)
    split
    · exact .fail _
    · -- without a level left the machine is asked, too, and says that the limit is reached
      refine .getBind fun m hm ↦ ?_
      have hlimit : m.limits.callDepth ≤ m.store.depth := Nat.le_of_sub_eq_zero hm.depthLeft
      show Computes arena 0 (fun n ↦ if m.limits.callDepth ≤ m.store.depth then _ else _) _
      simp only [if_pos hlimit]
      exact .fail _
  | succ depth ih =>
    intro name args
    rw [callFunction]
    refine .succ rfl <| .routine fun f hf ↦ ?_
    show Computes arena (depth + 1) (fun n ↦ if f.params.length ≠ args.length then _ else _)
      (if f.params.length ≠ args.length then _ else _)
    split
    · exact .fail _
    · -- the machine is asked for what the recursion has already said: there is a level left
      refine .peek fun m hm ↦ ?_
      have hlimit : ¬ m.limits.callDepth ≤ m.store.depth := by
        have hdepth : m.limits.callDepth - m.store.depth = depth + 1 := hm.depthLeft
        omega
      show Computes arena (depth + 1)
        (fun n ↦ if m.limits.callDepth ≤ m.store.depth then _ else _) _
      simp only [if_neg hlimit]
      have hdefine : Computes arena depth
          (fun _ ↦ lift (modifyStore (·.defineAll (f.params.zip args))))
          (modifyStore (·.defineAll (f.params.zip args))) :=
        .lift (.put fun s fs ↦ s.defineAll_withFunctions fs _)
          (Respects.modify fun m ↦ ⟨m.store.tail_frames_defineAll _, rfl⟩)
      have hrun := hdefine.bind fun _ ↦ (computes_sequence ih f.body hf).withOwnChain
      have houter := respects_functionBody (respects_callFunction depth) (f.params.zip args) f.body
      exact (hrun.inCall houter).bind fun signal ↦ .pure _

/-- A call in the present state of the machine. -/
theorem computes_callee (name : String) (args : List Value) :
    Computes arena depth (fun n ↦ call arena n name args) (Action.callee name args) := by
  intro m hm
  obtain rfl := hm.depthLeft
  exact computes_call m.depthLeft name args m hm

/-- A stored tree in the present state of the machine. -/
theorem computes_runTree {t : Tree} (ht : t.Stored arena) :
    Computes arena depth (fun n ↦ node arena n t.id) (Action.runTree t) := by
  intro m hm
  obtain rfl := hm.depthLeft
  exact computes_node (computes_call m.depthLeft) t ht m hm

end Arena

end Haklang
