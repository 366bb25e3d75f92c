import Haklang.Proofs.Execution.Frames

/-!
# Chains of conditions

A chain is a first member with a condition, any number of later ones, and a last one without a
condition, if there is one. It exists only as trees that stand in a row, and what connects them is
one flag of the machine, which each of them reads and writes and which bodies and calls that run in
between write too.

`Chain.select` says without the flag what a chain does: the conditions are evaluated in order up to
the first that holds, the body of that member runs, and the others end at once. It runs on a machine
whose flag is down, and never looks at it. `Chain.runEvery_trees` says that the trees do the same,
and which flag they leave behind.

That rests on two facts. Conditions leave the flag as it was, since the body of a function has a
chain of its own (`Cond.chosen_outcome_eval`). And a member behind the one that was chosen does
nothing, but the last one lowers the flag (`Chain.runEvery_restTrees_of_chosen`).

The law is about trees that are all run, however each of them ends. So it says what chains do
between the lines of a session that goes on after failures (`Tree.runEvery_cons_runTree`). A body
stops behind a tree that does not end normally; the trees that it has run by then are those of a
chain again, a shorter one (`Chain.outcome_runAll_trees`).
-/

namespace Haklang

open Haklang.Action

/-! ### Conditions and the flag -/

namespace Machine

/-- The flag is the same. -/
def SameChain (m m' : Machine) : Prop := m'.chosen = m.chosen

instance : IsPreorder Machine SameChain where
  refl _ := rfl
  trans _ _ _ h h' := Eq.trans h' h

end Machine

/-- The flag of a chain of its own is put back. -/
theorem respects_sameChain_withOwnChain {α : Type} (x : Action α) :
    Respects Machine.SameChain (withOwnChain x) := by
  intro m
  rw [after_withOwnChain]
  rfl

/-- A frame has no flag. -/
theorem respects_sameChain_inCall {α : Type} {x : Action α}
    (hx : Respects Machine.SameChain x) : Respects Machine.SameChain (inCall x) := by
  intro m
  rw [after_inCall]
  exact hx { m with store := m.store.enter }

/-- A call leaves the flag as it was, since the body of the function has a chain of its own. -/
theorem respects_sameChain_callFunction (depth : Nat) (name : String) (args : List Value) :
    Respects Machine.SameChain (callFunction depth name args) := by
  refine respects_callFunction_of_body (fun call _ params body ↦ ?_) depth name args
  have hdefine : Respects Machine.SameChain (modifyStore (·.defineAll params)) :=
    Respects.modify fun _ ↦ rfl
  exact respects_sameChain_inCall (hdefine.bind fun _ ↦ respects_sameChain_withOwnChain _)

/-- A condition leaves the flag as it was, whatever it calls. -/
theorem Cond.chosen_outcome_eval (depth : Nat) (c : Cond) (m : Machine) :
    ((c.eval (callFunction depth)).outcome m).2.chosen = m.chosen := by
  rw [snd_outcome]
  exact c.respects_eval (respects_sameChain_callFunction depth) m

/-! ### Chains -/

/-- Runs trees in order, each on the machine that the one before has left behind, however that
ended. The answers say how they end. -/
def Tree.runEvery (call : Callee) : List Tree → Machine → List (Except Diagnostic Signal) × Machine
  | [], m => ([], m)
  | t :: ts, m =>
    let (answer, m) := (t.run call).outcome m
    let (answers, m) := runEvery call ts m
    (answer :: answers, m)

theorem Tree.runEvery_cons {call : Callee} {t : Tree} {m m' : Machine}
    {answer : Except Diagnostic Signal} (h : (t.run call).outcome m = (answer, m'))
    (ts : List Tree) :
    runEvery call (t :: ts) m =
      (answer :: (runEvery call ts m').1, (runEvery call ts m').2) := by
  rw [runEvery, h]

/-- A member of a chain. -/
structure Member where
  /-- The serial number of its tree. -/
  id : Nat
  /-- The line of its header. -/
  line : SourceLine
  /-- The body. -/
  body : List Tree

/-- A member of a chain that has a condition. -/
structure Branch extends Member where
  /-- The condition. -/
  cond : Cond

/-- A chain of conditions. -/
structure Chain where
  /-- The first member. -/
  first : Branch
  /-- The later members that have conditions, in order. -/
  later : List Branch
  /-- The last member, if there is one without a condition. -/
  last? : Option Member

/-- Runs the body of a member. -/
def Member.perform (call : Callee) (x : Member) : Action Signal :=
  within x.line (withOwnChain (Tree.runAll call x.body))

/-- The tree of a member without a condition. -/
def Member.tree (x : Member) : Tree := .block x.id x.line .elseBlock x.body

namespace Branch

/-- Evaluates the condition. -/
def test (call : Callee) (b : Branch) : Action Bool := within b.line (b.cond.eval call)

/-- The tree of a first member. -/
def firstTree (b : Branch) : Tree := .block b.id b.line (.ifBlock b.cond) b.body

/-- The tree of a later member. -/
def laterTree (b : Branch) : Tree := .block b.id b.line (.elseIf b.cond) b.body

end Branch

namespace Chain

/-- The trees of later members and of the last one. -/
def restTrees (later : List Branch) (last? : Option Member) : List Tree :=
  later.map Branch.laterTree ++ (last?.map Member.tree).toList

/-- The trees of a chain. -/
def trees (c : Chain) : List Tree := c.first.firstTree :: restTrees c.later c.last?

/-- What comes of a chain. -/
structure Selection where
  /-- How the members end, in order. -/
  answers : List (Except Diagnostic Signal)
  /-- The machine behind the last of them. -/
  machine : Machine
  /-- Whether a condition held. -/
  held : Bool

/-- What comes of a chain with one more member before it, one that was not chosen. -/
def Selection.behind (s : Selection) (answer : Except Diagnostic Signal) : Selection :=
  { s with answers := answer :: s.answers }

/-- What comes of members of which none has been chosen before. The conditions are evaluated in
order up to the first that holds; a condition that fails does not hold. The body of that member
runs, or the body of the last member if no condition holds. Members behind the one that was chosen
end at once. -/
def selectFrom (call : Callee) (last? : Option Member) : List Branch → Machine → Selection
  | [], m =>
    match last? with
    | none => { answers := [], machine := m, held := false }
    | some x =>
      let (answer, m) := (x.perform call).outcome m
      { answers := [answer], machine := m, held := false }
  | b :: rest, m =>
    match (b.test call).outcome m with
    | (.ok true, m) =>
      let (answer, m) := (b.perform call).outcome m
      let skipped := (restTrees rest last?).map fun _ ↦ .ok .next
      { answers := answer :: skipped, machine := m, held := true }
    | (.ok false, m) => (selectFrom call last? rest m).behind (.ok .next)
    | (.error d, m) => (selectFrom call last? rest m).behind (.error d)

/-- What comes of a chain. -/
def select (call : Callee) (c : Chain) (m : Machine) : Selection :=
  selectFrom call c.last? (c.first :: c.later) m

end Chain

/-! ### Members -/

variable (call : Callee) {m : Machine}

/-- What a body does to the machine does not depend on the flag, and the flag stays as it was. -/
theorem Member.outcome_perform_chosen (x : Member) (m : Machine) (chosen : Bool) :
    (x.perform call).outcome { m with chosen } =
      (((x.perform call).outcome m).1, { ((x.perform call).outcome m).2 with chosen }) := by
  simp only [perform, outcome_within, outcome_withOwnChain]

theorem Member.chosen_outcome_perform (x : Member) :
    ((x.perform call).outcome m).2.chosen = m.chosen := by
  rw [perform, outcome_within, outcome_withOwnChain]

/-- The last member lowers the flag, and does nothing more behind one that was chosen. -/
theorem Member.run_tree_of_chosen (x : Member) (hm : m.chosen = true) :
    (x.tree.run call).outcome m = (.ok .next, { m with chosen := false }) := by
  obtain ⟨store, console, generator, limits, deferred, chosen⟩ := m
  obtain rfl : chosen = true := hm
  rfl

/-- The last member runs its body if none was chosen. -/
theorem Member.run_tree_of_not (x : Member) (hm : m.chosen = false) :
    (x.tree.run call).outcome m = (x.perform call).outcome m := by
  obtain ⟨store, console, generator, limits, deferred, chosen⟩ := m
  obtain rfl : chosen = false := hm
  rfl

namespace Branch

/-- The first member is a later one of a chain in which none has been chosen. -/
theorem run_firstTree (b : Branch) (m : Machine) :
    (b.firstTree.run call).outcome m =
      (b.laterTree.run call).outcome { m with chosen := false } := rfl

/-- Behind a member that was chosen, a later one does nothing. -/
theorem run_laterTree_of_chosen (b : Branch) (hm : m.chosen = true) :
    (b.laterTree.run call).outcome m = (.ok .next, m) := by
  obtain ⟨store, console, generator, limits, deferred, chosen⟩ := m
  obtain rfl : chosen = true := hm
  rfl

/-- A later member runs its body if none was chosen before and its condition holds. -/
theorem run_laterTree_of_not (b : Branch) (hm : m.chosen = false) :
    (b.laterTree.run call).outcome m =
      match (b.test call).outcome m with
      | (.ok true, m) => (b.perform call).outcome { m with chosen := true }
      | (.ok false, m) => (.ok .next, m)
      | (.error d, m) => (.error d, m) := by
  obtain ⟨store, console, generator, limits, deferred, chosen⟩ := m
  obtain rfl : chosen = false := hm
  have hrun : (b.laterTree.run call).outcome ⟨store, console, generator, limits, deferred, false⟩ =
      (within b.line do
        if ← b.cond.eval call then
          modify fun m ↦ { m with chosen := true }
          withOwnChain (Tree.runAll call b.body)
        else pure .next).outcome ⟨store, console, generator, limits, deferred, false⟩ := rfl
  rw [hrun, test, outcome_within, outcome_within, outcome_bind]
  rcases (b.cond.eval call).outcome _ with ⟨d | (_ | _), m'⟩
  · rfl
  · rfl
  · exact (outcome_within b.line _ _).symm

end Branch

/-! ### The law -/

variable {call}

namespace Chain

/-- Behind a member that was chosen, the others do nothing, but the last one lowers the flag. The
induction is on the later members. -/
theorem runEvery_restTrees_of_chosen (later : List Branch) (last? : Option Member)
    (hm : m.chosen = true) :
    Tree.runEvery call (restTrees later last?) m =
      ((restTrees later last?).map fun _ ↦ .ok .next, { m with chosen := last?.isNone }) := by
  induction later with
  | nil =>
    rcases last? with - | x
    · show ([], m) = ([], { m with chosen := true })
      rw [← hm]
    · exact Tree.runEvery_cons (x.run_tree_of_chosen call hm) []
  | cons b rest ih =>
    have hrun := Tree.runEvery_cons (b.run_laterTree_of_chosen call hm)
      (restTrees rest last?)
    rw [ih] at hrun
    exact hrun

/-- Members of which none has been chosen before. The induction is on those that have conditions;
as long as no condition holds, the flag stays down. -/
theorem runEvery_restTrees (depth : Nat) (last? : Option Member) (branches : List Branch)
    (hm : m.chosen = false) :
    Tree.runEvery (callFunction depth) (restTrees branches last?) m =
      let s := selectFrom (callFunction depth) last? branches m
      (s.answers, { s.machine with chosen := s.held && last?.isNone }) := by
  induction branches generalizing m with
  | nil =>
    rcases last? with - | x
    · show ([], m) = ([], { m with chosen := false })
      rw [← hm]
    · have hchosen : ((x.perform (callFunction depth)).outcome m).2.chosen = false :=
        (x.chosen_outcome_perform _).trans hm
      have hrun := x.run_tree_of_not (callFunction depth) hm
      rcases h : (x.perform (callFunction depth)).outcome m with ⟨answer, m'⟩
      rw [h] at hchosen hrun
      simp only [selectFrom, h]
      show Tree.runEvery _ [x.tree] m = ([answer], { m' with chosen := false })
      rw [Tree.runEvery_cons hrun, ← hchosen]
      rfl
  | cons b rest ih =>
    have htest : ((b.test (callFunction depth)).outcome m).2.chosen = false := by
      rw [Branch.test, outcome_within]
      exact (b.cond.chosen_outcome_eval depth m).trans hm
    have hrun := b.run_laterTree_of_not (callFunction depth) hm
    unfold selectFrom
    rcases h : (b.test (callFunction depth)).outcome m with ⟨d | (_ | _), m'⟩ <;>
      rw [h] at htest hrun
    · -- the condition fails
      have h' := Tree.runEvery_cons hrun (restTrees rest last?)
      rw [ih htest] at h'
      exact h'
    · -- it does not hold
      have h' := Tree.runEvery_cons hrun (restTrees rest last?)
      rw [ih htest] at h'
      exact h'
    · -- it holds: the flag is up behind the body, and the others are passed over
      have hbody := b.outcome_perform_chosen (callFunction depth) m' true
      have h' := Tree.runEvery_cons (hrun.trans hbody) (restTrees rest last?)
      rw [runEvery_restTrees_of_chosen rest last? rfl] at h'
      exact h'

/-- The first member lowers the flag, and then it is as good as a later one. -/
theorem runEvery_trees_eq_restTrees (c : Chain) (m : Machine) :
    Tree.runEvery call c.trees m =
      Tree.runEvery call (restTrees (c.first :: c.later) c.last?) { m with chosen := false } := by
  rcases h : (c.first.laterTree.run call).outcome { m with chosen := false } with ⟨answer, m'⟩
  have hfirst : (c.first.firstTree.run call).outcome m = (answer, m') :=
    (c.first.run_firstTree call m).trans h
  rw [trees, Tree.runEvery_cons hfirst]
  exact (Tree.runEvery_cons h (restTrees c.later c.last?)).symm

/-- The law of chains. In whatever state and with whatever flag the trees of a chain are run, they
do what the chain selects: the conditions are evaluated in order up to the first that holds, the
body of that member runs, or that of the last one if no condition holds, and the members behind it
end at once. Then the flag is down if the chain has a last member without a condition; if it has
none, the flag says whether a condition held. -/
theorem runEvery_trees (depth : Nat) (c : Chain) (m : Machine) :
    Tree.runEvery (callFunction depth) c.trees m =
      let s := c.select (callFunction depth) { m with chosen := false }
      (s.answers, { s.machine with chosen := s.held && c.last?.isNone }) := by
  rw [runEvery_trees_eq_restTrees]
  exact runEvery_restTrees depth c.last? (c.first :: c.later) rfl

end Chain

/-! ### Chains between lines -/

/-- Calls may be nested as deep behind a tree as before it, so trees that are run one by one, each
in the state that the one before has left behind, are run like trees in a row. -/
theorem Tree.runEvery_cons_runTree (t : Tree) (ts : List Tree) {m m' : Machine}
    {answer : Except Diagnostic Signal} (h : (Action.runTree t).outcome m = (answer, m')) :
    runEvery (callFunction m.depthLeft) (t :: ts) m =
      (answer :: (runEvery (callFunction m'.depthLeft) ts m').1,
        (runEvery (callFunction m'.depthLeft) ts m').2) := by
  have hrun : (t.run (callFunction m.depthLeft)).outcome m = (answer, m') := h
  have hdepth : m'.depthLeft = m.depthLeft := by
    have houter : Machine.SameOuter m ((t.run (callFunction m.depthLeft)).after m) :=
      t.respects_run Machine.runs_sameOuter (fun name args ↦
        (respects_callFunction m.depthLeft name args).mono Machine.SameFrames.sameOuter) m
    rw [← snd_outcome, hrun] at houter
    exact houter.depthLeft_eq
  rw [hdepth]
  exact runEvery_cons hrun ts

/-! ### Chains in bodies -/

namespace Tree

theorem outcome_runAll_of_next {t : Tree} {m m' : Machine}
    (h : (t.run call).outcome m = (.ok .next, m')) (ts : List Tree) :
    (runAll call (t :: ts)).outcome m = (runAll call ts).outcome m' := by
  rw [runAll, outcome_bind, h]

theorem outcome_runAll_of_ne {t : Tree} {m m' : Machine} {answer : Except Diagnostic Signal}
    (h : (t.run call).outcome m = (answer, m')) (hne : answer ≠ .ok .next) (ts : List Tree) :
    (runAll call (t :: ts)).outcome m = (answer, m') := by
  rw [runAll, outcome_bind, h]
  rcases answer with d | (_ | _ | _)
  · rfl
  · exact absurd rfl hne
  · rfl
  · rfl

/-- A body runs every tree of a first part. All but the last of these end normally, and the body
ends as the last one does; if that ends normally too, the first part is all of the body. -/
theorem exists_runEvery_take (call : Callee) (t : Tree) (ts : List Tree) (m : Machine) :
    ∃ k answer m', k ≤ ts.length ∧
      runEvery call (t :: ts.take k) m = (List.replicate k (.ok .next) ++ [answer], m') ∧
      (runAll call (t :: ts)).outcome m = (answer, m') ∧
      (answer = .ok .next → k = ts.length) := by
  induction ts generalizing t m with
  | nil =>
    obtain ⟨answer, m', h⟩ : ∃ answer m', (t.run call).outcome m = (answer, m') := ⟨_, _, rfl⟩
    refine ⟨0, answer, m', Nat.le_refl 0, runEvery_cons h [], ?_, fun _ ↦ rfl⟩
    by_cases hanswer : answer = .ok .next
    · subst hanswer
      exact outcome_runAll_of_next h []
    · exact outcome_runAll_of_ne h hanswer []
  | cons u us ih =>
    obtain ⟨answer, m₁, h⟩ : ∃ answer m', (t.run call).outcome m = (answer, m') := ⟨_, _, rfl⟩
    by_cases hanswer : answer = .ok .next
    · -- the tree ends normally, and the others run
      subst hanswer
      obtain ⟨k, answer, m', hk, hevery, hall, hlast⟩ := ih u m₁
      refine ⟨k + 1, answer, m', Nat.succ_le_succ hk, ?_, ?_, fun h ↦ congrArg Nat.succ (hlast h)⟩
      · rw [List.take_succ_cons, runEvery_cons h, hevery]
        rfl
      · rw [outcome_runAll_of_next h, hall]
    · exact ⟨0, answer, m₁, Nat.zero_le _, runEvery_cons h [], outcome_runAll_of_ne h hanswer _,
        fun h ↦ absurd h hanswer⟩

end Tree

namespace Chain

/-- The first member and as many behind it as given. -/
def take (c : Chain) (k : Nat) : Chain where
  first := c.first
  later := c.later.take k
  last? := if k ≤ c.later.length then none else c.last?

theorem trees_take (c : Chain) (k : Nat) :
    (c.take k).trees = c.first.firstTree :: (restTrees c.later c.last?).take k := by
  rw [restTrees, List.take_append, List.length_map, ← List.map_take]
  show _ :: (_ ++ _) = _ :: (_ ++ _)
  congr 2
  unfold take
  dsimp only
  split
  case isTrue h => rw [Nat.sub_eq_zero_of_le h]; rfl
  case isFalse h =>
    refine (List.take_of_length_le ?_).symm
    have : (c.last?.map Member.tree).toList.length ≤ 1 := by
      cases c.last? <;> simp
    omega

/-- In a body, a chain stops behind a member that does not end normally. The members that have run
by then are a chain too, and the body ends as the last of them does. -/
theorem outcome_runAll_trees (depth : Nat) (c : Chain) (m : Machine) :
    ∃ k answer, (answer = .ok .next → (c.take k).trees = c.trees) ∧
      let s := (c.take k).select (callFunction depth) { m with chosen := false }
      s.answers = List.replicate k (.ok .next) ++ [answer] ∧
      (Tree.runAll (callFunction depth) c.trees).outcome m =
        (answer, { s.machine with chosen := s.held && (c.take k).last?.isNone }) := by
  obtain ⟨k, answer, m', -, hevery, hall, hlast⟩ :=
    Tree.exists_runEvery_take (callFunction depth) c.first.firstTree (restTrees c.later c.last?) m
  have hlaw := runEvery_restTrees depth (c.take k).last? ((c.take k).first :: (c.take k).later)
    (m := { m with chosen := false }) rfl
  rw [← runEvery_trees_eq_restTrees, trees_take, hevery] at hlaw
  obtain ⟨hanswers, hmachine⟩ := Prod.mk.inj hlaw.symm
  refine ⟨k, answer, fun h ↦ ?_, hanswers, ?_⟩
  · rw [trees_take, hlast h, List.take_length]
    rfl
  · exact hall.trans (congrArg (answer, ·) hmachine.symm)

end Chain

end Haklang
