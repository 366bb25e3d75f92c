import Haklang.Proofs.Execution.Chain
import Haklang.Proofs.Execution.Traced

/-!
# Chains with members that run twice

A marker before a member of a chain puts the tree of that member into one that runs twice. Both runs
read and write the one flag of the chain, and the members take notice of it in different ways, so
markers do not all have the same effect on a chain.

A marked later member with a condition does no harm. Once it has been chosen, its second run ends at
once, and if its condition did not hold, that is evaluated again. A marked first member that has run
its body to the end lowers the flag again, since first members do, and evaluates its condition
again; if that does not hold now, another member may be chosen besides. And a marked last member
runs its body whether a condition held or not: the first run of it ends at once and lowers the flag,
and then the second finds it down.

All this is said of what can be seen of the members while they run (`Tree.watch`): which conditions
are evaluated, which bodies run, in which order, and how they end. `MarkedChain.Course` and
`MarkedChain.Whole` describe what is seen of the members from one on and of the whole chain;
`MarkedChain.watchEvery_trees` says what follows for conditions that hold and for bodies.
-/

namespace Haklang

open Haklang.Action

/-! ### Watching trees -/

/-- What can be seen of a member of a chain while it runs. -/
inductive Sight where
  /-- The condition was evaluated. -/
  | tested (answer : Except Diagnostic Bool)
  /-- The body ran. -/
  | performed (answer : Except Diagnostic Signal)

namespace Tree

/-- Runs a tree, and tells what can be seen of it as a member of a chain. Of what stands in its body
nothing is told. -/
def watch (call : Callee) : Tree → Traced Sight Signal
  | .twice _ line inner => Traced.within line do
    match ← inner.watch call with
    | .next => inner.watch call
    | signal => pure signal
  | .block _ line (.ifBlock cond) body => Traced.within line do
    Traced.quiet (modify fun m ↦ { m with chosen := false })
    if ← Traced.telling .tested (cond.eval call) then
      Traced.quiet (modify fun m ↦ { m with chosen := true })
      Traced.telling .performed (withOwnChain (runAll call body))
    else pure .next
  | .block _ line (.elseIf cond) body => Traced.within line do
    if (← Traced.quiet get).chosen then pure .next
    else if ← Traced.telling .tested (cond.eval call) then
      Traced.quiet (modify fun m ↦ { m with chosen := true })
      Traced.telling .performed (withOwnChain (runAll call body))
    else pure .next
  | .block _ line .elseBlock body => Traced.within line do
    let chosen := (← Traced.quiet get).chosen
    Traced.quiet (modify fun m ↦ { m with chosen := false })
    if chosen then pure .next
    else Traced.telling .performed (withOwnChain (runAll call body))
  | t => Traced.quiet (t.run call)

/-- A tree that is watched runs as it does otherwise. -/
theorem copies_watch (call : Callee) : ∀ t : Tree, Traced.Copies (t.watch call) (t.run call)
  | .twice _ line inner => by
    rw [watch, run]
    refine ((copies_watch call inner).bind fun signal ↦ ?_).within line
    rcases signal with _ | _ | _
    · exact copies_watch call inner
    · exact .pure _
    · exact .pure _
  | .block _ line (.ifBlock cond) body => by
    rw [watch, run]
    refine .within (.bind (.quiet _) fun _ ↦ .bind (.telling _ _) fun b ↦ ?_) line
    exact .ite _ (.bind (.quiet _) fun _ ↦ .telling _ _) (.pure _)
  | .block _ line (.elseIf cond) body => by
    rw [watch, run]
    refine .within (.bind (.quiet _) fun m ↦ .ite _ (.pure _) ?_) line
    refine .bind (.telling _ _) fun b ↦ ?_
    exact .ite _ (.bind (.quiet _) fun _ ↦ .telling _ _) (.pure _)
  | .block _ line .elseBlock body => by
    rw [watch, run]
    refine .within (.bind (.quiet _) fun m ↦ .bind (.quiet _) fun _ ↦ ?_) line
    exact .ite _ (.pure _) (.telling _ _)
  | .statement .. => .quiet _
  | .block _ _ (.forLoop ..) _ => .quiet _
  | .block _ _ (.whileLoop _) _ => .quiet _
  | .block _ _ (.function ..) _ => .quiet _

/-- Behind a first run that ends normally, a tree that runs twice is seen twice. -/
theorem watch_twice_of_next {call : Callee} {t : Tree} {m m' : Machine} {es : List Sight}
    (h : t.watch call m = (es, .ok .next, m')) (id : Nat) (line : SourceLine) :
    (Tree.twice id line t).watch call m =
      (es ++ (t.watch call m').1, (t.watch call m').2.1.mapError (·.locate line),
        (t.watch call m').2.2) := by
  rw [watch, Traced.within, Traced.bind_of_ok h]

/-- A marked tree that does not run to its end is run only once. -/
theorem watch_twice_of_ne {call : Callee} {t : Tree} {m m' : Machine} {es : List Sight}
    {answer : Except Diagnostic Signal} (h : t.watch call m = (es, answer, m'))
    (hne : answer ≠ .ok .next) (id : Nat) (line : SourceLine) :
    (Tree.twice id line t).watch call m = (es, answer.mapError (·.locate line), m') := by
  rw [watch, Traced.within]
  rcases answer with d | (_ | _ | v?)
  · rw [Traced.bind_of_error h]
  · exact absurd rfl hne
  · rw [Traced.bind_of_ok h]
    exact congrArg (·, _) (List.append_nil es)
  · rw [Traced.bind_of_ok h]
    exact congrArg (·, _) (List.append_nil es)

end Tree

/-! ### Single members -/

/-- What is seen of a member with a condition if none has been chosen before, how it ends, and
whether it has been chosen then. -/
inductive Visit : List Sight → Except Diagnostic Signal → Bool → Prop where
  /-- The condition does not hold. -/
  | refused : Visit [.tested (.ok false)] (.ok .next) false
  /-- The condition fails. -/
  | failed (d d' : Diagnostic) : Visit [.tested (.error d)] (.error d') false
  /-- The condition holds, and the body runs. -/
  | chosen {answer answer' : Except Diagnostic Signal}
    (h : answer' = .ok .next ↔ answer = .ok .next) :
    Visit [.tested (.ok true), .performed answer] answer' true

namespace Visit

variable {es : List Sight} {answer : Except Diagnostic Signal} {chosen : Bool}

/-- A visit of a block that ends normally shows whether the chain has been chosen there. -/
theorem eq_of_next (h : Visit es (.ok .next) chosen) :
    es = if chosen then [.tested (.ok true), .performed (.ok .next)]
      else [.tested (.ok false)] := by
  rcases h with - | - | h
  · rfl
  · rw [h.1 rfl]
    rfl

/-- A visit begins with a condition. -/
theorem exists_eq_tested (h : Visit es answer chosen) :
    ∃ answer rest, es = .tested answer :: rest := by
  rcases h with - | - | -
  · exact ⟨_, _, rfl⟩
  · exact ⟨_, _, rfl⟩
  · exact ⟨_, _, rfl⟩

/-- A member that has not ended normally has not run its body to the end. -/
theorem map_append_ne (h : Visit es answer chosen) (hanswer : answer ≠ .ok .next) (i j : Nat)
    (seen rest : List (Nat × Sight)) :
    es.map (i, ·) ++ seen ≠ (j, .tested (.ok true)) :: (j, .performed (.ok .next)) :: rest := by
  rcases h with - | - | h
  · exact absurd rfl hanswer
  · simp
  · rintro heq
    simp only [List.map_cons, List.cons_append, List.cons.injEq, Prod.mk.injEq,
      Sight.performed.injEq] at heq
    exact hanswer (h.2 heq.2.1.2)

end Visit

namespace Branch

variable (b : Branch) {m : Machine}

/-- The first block is like a later one behind a flag that is not set. -/
theorem watch_firstTree (call : Callee) (m : Machine) :
    b.firstTree.watch call m = b.laterTree.watch call { m with chosen := false } := rfl

/-- Behind a member that was chosen, nothing is seen of a later one. -/
theorem watch_laterTree_of_chosen (call : Callee) (hm : m.chosen = true) :
    b.laterTree.watch call m = ([], .ok .next, m) := by
  obtain ⟨store, console, generator, limits, deferred, chosen⟩ := m
  obtain rfl : chosen = true := hm
  rfl

/-- Where nothing has been chosen yet, the condition of a block is evaluated, and its body runs
exactly if that holds. -/
theorem exists_visit (depth : Nat) (hm : m.chosen = false) :
    ∃ es answer m', b.laterTree.watch (callFunction depth) m = (es, answer, m') ∧
      Visit es answer m'.chosen := by
  have hwatch : b.laterTree.watch (callFunction depth) m =
      Traced.within b.line (do
        if ← Traced.telling .tested (b.cond.eval (callFunction depth)) then
          Traced.quiet (modify fun m ↦ { m with chosen := true })
          Traced.telling .performed (withOwnChain (Tree.runAll (callFunction depth) b.body))
        else pure .next) m := by
    obtain ⟨store, console, generator, limits, deferred, chosen⟩ := m
    obtain rfl : chosen = false := hm
    rfl
  have hchosen := (b.cond.chosen_outcome_eval depth m).trans hm
  rcases h : (b.cond.eval (callFunction depth)).outcome m with ⟨d | (_ | _), m'⟩ <;>
    rw [h] at hchosen
  · -- the condition fails
    refine ⟨[.tested (.error d)], .error (d.locate b.line), m', hwatch.trans ?_, ?_⟩
    · rw [Traced.within, Traced.bind_of_error (Traced.telling_of_outcome h _)]
      rfl
    · rw [show m'.chosen = false from hchosen]
      exact .failed d _
  · -- it does not hold, and nothing is chosen
    refine ⟨[.tested (.ok false)], .ok .next, m', hwatch.trans ?_, ?_⟩
    · rw [Traced.within, Traced.bind_of_ok (Traced.telling_of_outcome h _)]
      rfl
    · rw [show m'.chosen = false from hchosen]
      exact .refused
  · -- it holds, and the body runs with the flag up, which its own chain does not touch
    obtain ⟨answer, m'', hbody⟩ : ∃ answer m'',
        (withOwnChain (Tree.runAll (callFunction depth) b.body)).outcome
          { m' with chosen := true } = (answer, m'') := ⟨_, _, rfl⟩
    have hraised : (Traced.quiet (modify fun m ↦ { m with chosen := true } : Action Unit) :
        Traced Sight Unit) m' = ([], .ok (), { m' with chosen := true }) := rfl
    refine ⟨[.tested (.ok true), .performed answer], answer.mapError (·.locate b.line), m'',
      hwatch.trans ?_, ?_⟩
    · rw [Traced.within, Traced.bind_of_ok (Traced.telling_of_outcome h _), if_pos rfl,
        Traced.bind_of_ok hraised, Traced.telling_of_outcome hbody]
      rfl
    · rw [outcome_withOwnChain] at hbody
      rw [← (Prod.mk.inj hbody).2]
      exact .chosen Traced.mapError_eq_ok_iff

end Branch

namespace Member

variable (x : Member) {m : Machine}

/-- Behind a member that was chosen, nothing is seen of the last one, but it lowers the flag. -/
theorem watch_tree_of_chosen (call : Callee) (hm : m.chosen = true) :
    x.tree.watch call m = ([], .ok .next, { m with chosen := false }) := by
  obtain ⟨store, console, generator, limits, deferred, chosen⟩ := m
  obtain rfl : chosen = true := hm
  rfl

/-- The last member runs its body if none was chosen. -/
theorem exists_performed (call : Callee) (hm : m.chosen = false) :
    ∃ answer answer' m', x.tree.watch call m = ([.performed answer], answer', m') ∧
      (answer' = .ok .next ↔ answer = .ok .next) ∧ m'.chosen = false := by
  obtain ⟨answer, m', hbody⟩ : ∃ answer m',
      (withOwnChain (Tree.runAll call x.body)).outcome m = (answer, m') := ⟨_, _, rfl⟩
  have hwatch : x.tree.watch call m =
      Traced.within x.line
        (Traced.telling .performed (withOwnChain (Tree.runAll call x.body))) m := by
    obtain ⟨store, console, generator, limits, deferred, chosen⟩ := m
    obtain rfl : chosen = false := hm
    rfl
  refine ⟨answer, answer.mapError (·.locate x.line), m', hwatch.trans ?_,
    Traced.mapError_eq_ok_iff, ?_⟩
  · rw [Traced.within, Traced.telling_of_outcome hbody]
  · rw [outcome_withOwnChain] at hbody
    rw [← (Prod.mk.inj hbody).2]
    exact hm

end Member

/-! ### Marked chains -/

/-- A member of a chain and the marker before it, if there is one: the number and the line of the
tree that runs the member twice. -/
structure Marked (α : Type) where
  /-- The member. -/
  member : α
  /-- The marker. -/
  mark? : Option (Nat × SourceLine)

namespace Marked

variable {α : Type}

/-- Whether there is a marker. -/
def isTwice (x : Marked α) : Bool := x.mark?.isSome

/-- The tree of the member, made to run twice if there is a marker. -/
def wrap (x : Marked α) (t : Tree) : Tree :=
  match x.mark? with
  | none => t
  | some (id, line) => .twice id line t

end Marked

/-- A chain of conditions with markers before some of its members. -/
structure MarkedChain where
  /-- The first member. -/
  first : Marked Branch
  /-- The later members that have conditions, in order. -/
  later : List (Marked Branch)
  /-- The last member, if there is one without a condition. -/
  last? : Option (Marked Member)

/-- What is seen of members that run in a row, with the places of the members. -/
abbrev Sightings : Type := List (Nat × Sight)

namespace Tree

/-- Runs trees in order, each on the machine that the one before has left behind, however that
ended, and tells what is seen of each, with its place. -/
def watchEvery (call : Callee) (place : Nat) :
    List Tree → Machine → Sightings × List (Except Diagnostic Signal) × Machine
  | [], m => ([], [], m)
  | t :: ts, m =>
    let (es, answer, m) := t.watch call m
    let (seen, answers, m) := watchEvery call (place + 1) ts m
    (es.map (place, ·) ++ seen, answer :: answers, m)

/-- Runs trees in order, up to the first that ends with a signal, and tells what is seen of each,
with its place. -/
def watchAll (call : Callee) (place : Nat) : List Tree → Traced (Nat × Sight) Signal
  | [] => pure .next
  | t :: ts => do
    match ← (t.watch call).mapEvents (place, ·) with
    | .next => watchAll call (place + 1) ts
    | signal => pure signal

variable {call : Callee} {place : Nat}

/-- What is seen of trees in a row, with the place of each. -/
theorem watchEvery_cons {t : Tree} {m m' : Machine} {es : List Sight}
    {answer : Except Diagnostic Signal} (h : t.watch call m = (es, answer, m')) (ts : List Tree) :
    watchEvery call place (t :: ts) m =
      (es.map (place, ·) ++ (watchEvery call (place + 1) ts m').1,
        answer :: (watchEvery call (place + 1) ts m').2.1,
        (watchEvery call (place + 1) ts m').2.2) := by
  rw [watchEvery, h]

/-- The events alone, for the first tree and those behind it. -/
theorem fst_watchEvery_cons {t : Tree} {m m' : Machine} {es : List Sight}
    {answer : Except Diagnostic Signal} (h : t.watch call m = (es, answer, m')) (ts : List Tree) :
    (watchEvery call place (t :: ts) m).1 =
      es.map (place, ·) ++ (watchEvery call (place + 1) ts m').1 := by
  rw [watchEvery_cons h]

/-- Trees that are watched run as they do otherwise. -/
theorem snd_watchEvery (call : Callee) (place : Nat) (ts : List Tree) (m : Machine) :
    (watchEvery call place ts m).2 = runEvery call ts m := by
  induction ts generalizing place m with
  | nil => rfl
  | cons t ts ih =>
    obtain ⟨es, answer, m', h⟩ : ∃ es answer m', t.watch call m = (es, answer, m') :=
      ⟨_, _, _, rfl⟩
    have hrun : (t.run call).outcome m = (answer, m') := by
      rw [← t.copies_watch call m, h]
    rw [watchEvery_cons h, runEvery_cons hrun, ← ih (place + 1) m']

/-- Watching trees in a row makes no difference. -/
theorem copies_watchAll (call : Callee) (place : Nat) (ts : List Tree) :
    Traced.Copies (watchAll call place ts) (runAll call ts) := by
  induction ts generalizing place with
  | nil => exact .pure _
  | cons t ts ih =>
    rw [watchAll, runAll]
    refine ((t.copies_watch call).mapEvents _).bind fun signal ↦ ?_
    rcases signal with _ | _ | _
    · exact ih (place + 1)
    · exact .pure _
    · exact .pure _

/-- A body that stops early has shown a first part of what all trees show. -/
theorem watchAll_prefix (call : Callee) (place : Nat) (ts : List Tree) (m : Machine) :
    (watchAll call place ts m).1 <+: (watchEvery call place ts m).1 := by
  induction ts generalizing place m with
  | nil => exact List.prefix_rfl
  | cons t ts ih =>
    obtain ⟨es, answer, m', h⟩ : ∃ es answer m', t.watch call m = (es, answer, m') :=
      ⟨_, _, _, rfl⟩
    have hlabelled : (t.watch call).mapEvents (place, ·) m =
        (es.map (place, ·), answer, m') := by rw [Traced.mapEvents, h]
    rw [watchEvery_cons h, watchAll]
    rcases answer with d | (_ | _ | _)
    · rw [Traced.bind_of_error hlabelled]
      exact List.prefix_append _ _
    · rw [Traced.bind_of_ok hlabelled]
      exact List.prefix_append_right_inj _ |>.2 (ih (place + 1) m')
    · rw [Traced.bind_of_ok hlabelled]
      exact List.prefix_append_right_inj _ |>.2 List.nil_prefix
    · rw [Traced.bind_of_ok hlabelled]
      exact List.prefix_append_right_inj _ |>.2 List.nil_prefix

end Tree

namespace MarkedChain

/-- The trees of later members and of the last one. -/
def restTrees (later : List (Marked Branch)) (last? : Option (Marked Member)) : List Tree :=
  later.map (fun b ↦ b.wrap b.member.laterTree) ++
    (last?.map fun x ↦ x.wrap x.member.tree).toList

/-- The trees of a chain. -/
def trees (c : MarkedChain) : List Tree :=
  c.first.wrap c.first.member.firstTree :: restTrees c.later c.last?

/-- Whether there is a last member without a condition, with a marker before it. -/
def lastTwice (last? : Option (Marked Member)) : Bool := last?.any Marked.isTwice

/-- What is seen, from a member on that has been chosen, of the last member at the given place:
nothing, unless that runs twice. -/
def Passed (place : Nat) (last? : Option (Marked Member)) (seen : Sightings) : Prop :=
  if lastTwice last? then ∃ answer, seen = [(place, .performed answer)] else seen = []

/-- What is seen of members of which none has been chosen before, the last one being at the given
place. -/
inductive Course (place : Nat) (last? : Option (Marked Member)) : Sightings → Prop where
  /-- There is no last member. -/
  | done (h : last? = none) : Course place last? []
  /-- The last member runs its body. -/
  | last {answer} (h : last?.isSome) : Course place last? [(place, .performed answer)]
  /-- It does so twice. -/
  | again {answer answer'} (h : lastTwice last? = true) :
    Course place last? [(place, .performed answer), (place, .performed answer')]
  /-- A condition does not hold. -/
  | refused {i answer seen} (hanswer : answer ≠ .ok true) (h : Course place last? seen) :
    Course place last? ((i, .tested answer) :: seen)
  /-- A condition holds, and the body runs. -/
  | chosen {i answer seen} (h : Passed place last? seen) :
    Course place last? ((i, .tested (.ok true)) :: (i, .performed answer) :: seen)

section Rest

variable {m : Machine} {last? : Option (Marked Member)} {i place : Nat}

/-- What is seen of the last member behind one that was chosen. -/
theorem passed_last (call : Callee) (hm : m.chosen = true) :
    Passed place last?
      (Tree.watchEvery call place (last?.map fun x ↦ x.wrap x.member.tree).toList m).1 := by
  rcases last? with - | ⟨x, - | ⟨id, line⟩⟩
  · exact rfl
  · have hwatch := x.watch_tree_of_chosen call hm
    exact Tree.fst_watchEvery_cons hwatch []
  · -- the first run lowers the flag, so the second one runs the body
    obtain ⟨answer, answer', m', hwatch, -, -⟩ :=
      x.exists_performed (m := { m with chosen := false }) call rfl
    have htwice := Tree.watch_twice_of_next (x.watch_tree_of_chosen call hm) id line
    rw [hwatch] at htwice
    exact ⟨answer, Tree.fst_watchEvery_cons htwice []⟩

/-- What is seen of the last member if none has been chosen. -/
theorem course_last (call : Callee) (hm : m.chosen = false) :
    Course place last?
      (Tree.watchEvery call place (last?.map fun x ↦ x.wrap x.member.tree).toList m).1 := by
  rcases last? with - | ⟨x, mark?⟩
  · exact .done rfl
  obtain ⟨answer, answer', m', hwatch, hnext, hm'⟩ := x.exists_performed call hm
  rcases mark? with - | ⟨id, line⟩
  · exact Tree.fst_watchEvery_cons hwatch _ ▸ .last rfl
  · by_cases hanswer : answer' = .ok .next
    · subst hanswer
      obtain ⟨again, again', m'', hagain, -, -⟩ := x.exists_performed call hm'
      have htwice := Tree.watch_twice_of_next hwatch id line
      rw [hagain] at htwice
      exact Tree.fst_watchEvery_cons htwice _ ▸ .again rfl
    · have htwice := Tree.watch_twice_of_ne hwatch hanswer id line
      exact Tree.fst_watchEvery_cons htwice _ ▸ .last rfl

/-- Behind a member that was chosen, nothing is seen of a later one, whether it runs twice or
not. -/
theorem watch_wrap_laterTree_of_chosen (call : Callee) (b : Marked Branch) (hm : m.chosen = true) :
    ∃ answer, (b.wrap b.member.laterTree).watch call m = ([], answer, m) := by
  have hwatch := b.member.watch_laterTree_of_chosen call hm
  obtain ⟨b, - | ⟨id, line⟩⟩ := b
  · exact ⟨_, hwatch⟩
  · have htwice := Tree.watch_twice_of_next hwatch id line
    rw [hwatch] at htwice
    exact ⟨_, htwice⟩

/-- Behind a member that was chosen, nothing is seen of the later ones. -/
theorem passed_restTrees (call : Callee) (later : List (Marked Branch)) (hm : m.chosen = true)
    (hplace : i + later.length = place) :
    Passed place last? (Tree.watchEvery call i (restTrees later last?) m).1 := by
  induction later generalizing i with
  | nil =>
    obtain rfl : i = place := hplace
    exact passed_last call hm
  | cons b later ih =>
    obtain ⟨answer, hwatch⟩ := watch_wrap_laterTree_of_chosen call b hm
    have hrest := ih (i := i + 1) (by rw [← hplace, List.length_cons]; omega)
    exact Tree.fst_watchEvery_cons hwatch _ ▸ hrest

/-- What is seen behind a visit goes by whether it has chosen the member. -/
theorem course_of_visit {es : List Sight} {answer : Except Diagnostic Signal} {chosen : Bool}
    {seen : Sightings} (h : Visit es answer chosen)
    (hpassed : chosen = true → Passed place last? seen)
    (hcourse : chosen = false → Course place last? seen) :
    Course place last? (es.map (i, ·) ++ seen) := by
  rcases h with - | - | -
  · exact .refused nofun (hcourse rfl)
  · exact .refused nofun (hcourse rfl)
  · exact .chosen (hpassed rfl)

/-- What is seen of members of which none has been chosen. The induction is on those that have
conditions. -/
theorem course_restTrees (depth : Nat) (later : List (Marked Branch)) (hm : m.chosen = false)
    (hplace : i + later.length = place) :
    Course place last? (Tree.watchEvery (callFunction depth) i (restTrees later last?) m).1 := by
  induction later generalizing i m with
  | nil =>
    obtain rfl : i = place := hplace
    exact course_last _ hm
  | cons b later ih =>
    have hplace : i + 1 + later.length = place := by rw [← hplace, List.length_cons]; omega
    have hvisit {es answer m'} (h : Visit es answer (Machine.chosen m')) :
        Course place last? (es.map (i, ·) ++
          (Tree.watchEvery (callFunction depth) (i + 1) (restTrees later last?) m').1) :=
      course_of_visit h (fun hm' ↦ passed_restTrees _ later hm' hplace)
        fun hm' ↦ ih hm' hplace
    obtain ⟨es, answer, m', hwatch, h⟩ := b.member.exists_visit depth hm
    rcases b with ⟨b, - | ⟨id, line⟩⟩
    · exact Tree.fst_watchEvery_cons hwatch _ ▸ hvisit h
    by_cases hanswer : answer = .ok .next
    · subst hanswer
      have htwice := Tree.watch_twice_of_next hwatch id line
      rcases hm' : m'.chosen with - | -
      · -- the condition did not hold, and is evaluated again
        obtain ⟨es', answer', m'', hwatch', h'⟩ := b.exists_visit depth hm'
        rw [hwatch', h.eq_of_next, hm'] at htwice
        exact Tree.fst_watchEvery_cons htwice _ ▸ .refused nofun (hvisit h')
      · -- the body ran, and nothing is seen of the second run
        rw [b.watch_laterTree_of_chosen _ hm', List.append_nil] at htwice
        exact Tree.fst_watchEvery_cons htwice _ ▸ hvisit h
    · have htwice := Tree.watch_twice_of_ne hwatch hanswer id line
      exact Tree.fst_watchEvery_cons htwice _ ▸ hvisit h

end Rest

/-! ### Whole chains -/

/-- The place of the last member. -/
def lastPlace (c : MarkedChain) : Nat := c.later.length + 1

/-- What is seen of a chain. -/
inductive Whole (c : MarkedChain) : Sightings → Prop where
  /-- The first member is like a later one, unless it runs twice and its body has run to its
  end. -/
  | once {seen} (h : Course c.lastPlace c.last? seen)
    (hnext : c.first.isTwice = true →
      ∀ i rest, seen ≠ (i, .tested (.ok true)) :: (i, .performed (.ok .next)) :: rest) :
    Whole c seen
  /-- Then it starts the chain anew. -/
  | again {answer seen} (htwice : c.first.isTwice = true)
    (h : Course c.lastPlace c.last? ((0, .tested answer) :: seen)) :
    Whole c ((0, .tested (.ok true)) :: (0, .performed (.ok .next)) :: (0, .tested answer) :: seen)

/-- The chain does as `Whole` says. -/
theorem whole_trees (depth : Nat) (c : MarkedChain) (m : Machine) :
    Whole c (Tree.watchEvery (callFunction depth) 0 c.trees m).1 := by
  have hvisit {es answer m'} (h : Visit es answer (Machine.chosen m')) :
      Course c.lastPlace c.last? (es.map (0, ·) ++
        (Tree.watchEvery (callFunction depth) 1 (restTrees c.later c.last?) m').1) :=
    course_of_visit h (fun hm' ↦ passed_restTrees _ c.later hm' (Nat.add_comm _ _))
      fun hm' ↦ course_restTrees depth c.later hm' (Nat.add_comm _ _)
  obtain ⟨⟨b, mark?⟩, later, last?⟩ := c
  obtain ⟨es, answer, m', hwatch, h⟩ :=
    b.exists_visit depth (m := { m with chosen := false }) rfl
  rw [← b.watch_firstTree] at hwatch
  rcases mark? with - | ⟨id, line⟩
  · exact Tree.fst_watchEvery_cons hwatch _ ▸ .once (hvisit h) nofun
  by_cases hanswer : answer = .ok .next
  · subst hanswer
    obtain ⟨es', answer', m'', hwatch', h'⟩ :=
      b.exists_visit depth (m := { m' with chosen := false }) rfl
    have htwice := Tree.watch_twice_of_next hwatch id line
    rw [b.watch_firstTree, hwatch'] at htwice
    obtain ⟨tested, rest, rfl⟩ := h'.exists_eq_tested
    rcases hm' : m'.chosen with - | - <;> rw [h.eq_of_next, hm'] at htwice
    · -- the condition did not hold, and is evaluated again
      refine Tree.fst_watchEvery_cons htwice _ ▸ .once ?_ fun _ _ _ ↦ by simp
      exact .refused nofun (hvisit h')
    · exact Tree.fst_watchEvery_cons htwice _ ▸ .again rfl (hvisit h')
  · have htwice := Tree.watch_twice_of_ne hwatch hanswer id line
    exact Tree.fst_watchEvery_cons htwice _ ▸
      .once (hvisit h) fun _ j ↦ h.map_append_ne hanswer 0 j _

/-! ### The law -/

section Law

variable {place : Nat} {last? : Option (Marked Member)} {seen : Sightings}

/-- An item that stands between two parts of a list is a member of it. -/
theorem mem_of_eq_append {α : Type} {l before after : List α} {a : α}
    (h : l = before ++ a :: after) : a ∈ l := by
  rw [h]
  exact List.mem_append_right _ List.mem_cons_self

/-- Nothing but the last body is seen behind a member that was chosen. -/
theorem Passed.eq_performed (h : Passed place last? seen) {e : Nat × Sight} (he : e ∈ seen) :
    (∃ answer, e = (place, .performed answer)) ∧ lastTwice last? = true := by
  rw [Passed] at h
  split at h
  case isTrue htwice =>
    obtain ⟨answer, rfl⟩ := h
    exact ⟨⟨answer, List.mem_singleton.1 he⟩, htwice⟩
  case isFalse =>
    rw [h] at he
    cases he

/-- There is a last block if it is marked. -/
theorem isSome_of_lastTwice (h : lastTwice last? = true) : last?.isSome = true := by
  rcases last? with - | x
  · cases h
  · rfl

namespace Course

/-- Behind a condition that holds, the body of its member is seen, and then nothing but what is
seen of the last member. -/
theorem behind_tested (h : Course place last? seen) {before after : Sightings} {i : Nat}
    (hseen : seen = before ++ (i, .tested (.ok true)) :: after) :
    ∃ answer rest, after = (i, .performed answer) :: rest ∧ Passed place last? rest := by
  induction h generalizing before with
  | done => exact absurd (mem_of_eq_append hseen) (by simp)
  | last => exact absurd (mem_of_eq_append hseen) (by simp)
  | again => exact absurd (mem_of_eq_append hseen) (by simp)
  | refused hanswer h ih =>
    rcases before with - | ⟨e, before⟩
    · obtain ⟨hhead, -⟩ := List.cons.inj hseen
      simp only [Prod.mk.injEq, Sight.tested.injEq] at hhead
      exact absurd hhead.2 hanswer
    · exact ih (List.cons.inj hseen).2
  | chosen h =>
    rcases before with - | ⟨e, - | ⟨e', before⟩⟩
    · obtain ⟨hhead, rfl⟩ := List.cons.inj hseen
      obtain rfl : _ = i := (Prod.mk.inj hhead).1
      exact ⟨_, _, rfl, h⟩
    · cases (List.cons.inj hseen).2
    · have hmem := mem_of_eq_append (List.cons.inj (List.cons.inj hseen).2).2
      obtain ⟨⟨answer, heq⟩, -⟩ := h.eq_performed hmem
      cases heq

/-- Before a body, its own condition is seen, and it holds, unless the body is the last one. -/
theorem before_performed (h : Course place last? seen) {before after : Sightings} {i : Nat}
    {answer : Except Diagnostic Signal} (hseen : seen = before ++ (i, .performed answer) :: after) :
    (∃ front, before = front ++ [(i, .tested (.ok true))]) ∨ i = place ∧ last?.isSome := by
  induction h generalizing before with
  | done => exact absurd (mem_of_eq_append hseen) (by simp)
  | last h =>
    have hmem := mem_of_eq_append hseen
    simp only [List.mem_singleton, Prod.mk.injEq] at hmem
    exact .inr ⟨hmem.1, h⟩
  | again h =>
    have hmem := mem_of_eq_append hseen
    simp only [List.mem_cons, Prod.mk.injEq, List.not_mem_nil, or_false, ← and_or_left] at hmem
    exact .inr ⟨hmem.1, isSome_of_lastTwice h⟩
  | refused hanswer h ih =>
    rcases before with - | ⟨e, before⟩
    · cases hseen
    · obtain ⟨rfl, htail⟩ := List.cons.inj hseen
      refine (ih htail).imp_left ?_
      rintro ⟨front, rfl⟩
      exact ⟨_ :: front, rfl⟩
  | chosen h =>
    rcases before with - | ⟨e, - | ⟨e', before⟩⟩
    · cases hseen
    · obtain ⟨rfl, htail⟩ := List.cons.inj hseen
      obtain rfl : _ = i := (Prod.mk.inj (List.cons.inj htail).1).1
      exact .inl ⟨[], rfl⟩
    · have hmem := mem_of_eq_append (List.cons.inj (List.cons.inj hseen).2).2
      obtain ⟨⟨answer, heq⟩, htwice⟩ := h.eq_performed hmem
      exact .inr ⟨(Prod.mk.inj heq).1, isSome_of_lastTwice htwice⟩

/-- If the last member does not run twice, the body of at most one member is seen. -/
theorem place_eq (h : Course place last? seen) (hlast : lastTwice last? = false) {i j : Nat}
    {answer answer' : Except Diagnostic Signal} (hi : (i, .performed answer) ∈ seen)
    (hj : (j, .performed answer') ∈ seen) : i = j := by
  induction h with
  | done => cases hi
  | last =>
    simp only [List.mem_singleton, Prod.mk.injEq] at hi hj
    exact hi.1.trans hj.1.symm
  | again h => exact absurd h (by simp [hlast])
  | refused hanswer h ih =>
    exact ih ((List.mem_cons.1 hi).resolve_left nofun) ((List.mem_cons.1 hj).resolve_left nofun)
  | chosen h =>
    obtain rfl : _ = [] := by simpa [Passed, hlast] using h
    simp only [List.mem_cons, Prod.mk.injEq, reduceCtorEq, and_false, false_or,
      List.not_mem_nil, or_false] at hi hj
    exact hi.1.trans hj.1.symm

end Course

namespace Whole

variable {c : MarkedChain}

/-- Behind a condition that holds, the body of its member is seen. Then the first member starts the
chain anew if it runs twice and this was the first time; else nothing but what is seen of the last
member follows. -/
theorem behind_tested (h : c.Whole seen) {before after : Sightings} {i : Nat}
    (hseen : seen = before ++ (i, .tested (.ok true)) :: after) :
    ∃ answer rest, after = (i, .performed answer) :: rest ∧
      ((before = [] ∧ c.first.isTwice = true ∧ answer = .ok .next) ∧
          (∃ again rest', rest = (0, .tested again) :: rest') ∨
        ¬ (before = [] ∧ c.first.isTwice = true ∧ answer = .ok .next) ∧
          Passed c.lastPlace c.last? rest) := by
  rcases h with ⟨h, hnext⟩ | ⟨htwice, h⟩
  · obtain ⟨answer, rest, rfl, hrest⟩ := h.behind_tested hseen
    refine ⟨answer, rest, rfl, .inr ⟨?_, hrest⟩⟩
    rintro ⟨rfl, htwice, rfl⟩
    exact hnext htwice i rest hseen
  · rcases before with - | ⟨e, - | ⟨e', before⟩⟩
    · obtain ⟨hhead, rfl⟩ := List.cons.inj hseen
      obtain rfl : 0 = i := (Prod.mk.inj hhead).1
      exact ⟨_, _, rfl, .inl ⟨⟨rfl, htwice, rfl⟩, _, _, rfl⟩⟩
    · cases (List.cons.inj hseen).2
    · obtain ⟨answer, rest, rfl, hrest⟩ :=
        h.behind_tested (List.cons.inj (List.cons.inj hseen).2).2
      exact ⟨answer, rest, rfl, .inr ⟨fun hfirst ↦ List.cons_ne_nil _ _ hfirst.1, hrest⟩⟩

/-- Before a body, its own condition is seen, and it holds, unless the body is the last one. -/
theorem before_performed (h : c.Whole seen) {before after : Sightings} {i : Nat}
    {answer : Except Diagnostic Signal} (hseen : seen = before ++ (i, .performed answer) :: after) :
    (∃ front, before = front ++ [(i, .tested (.ok true))]) ∨
      i = c.lastPlace ∧ c.last?.isSome := by
  rcases h with ⟨h, -⟩ | ⟨-, h⟩
  · exact h.before_performed hseen
  · rcases before with - | ⟨e, - | ⟨e', before⟩⟩
    · cases hseen
    · obtain ⟨rfl, htail⟩ := List.cons.inj hseen
      obtain rfl : 0 = i := (Prod.mk.inj (List.cons.inj htail).1).1
      exact .inl ⟨[], rfl⟩
    · simp only [List.cons_append, List.cons.injEq] at hseen
      obtain ⟨rfl, rfl, htail⟩ := hseen
      refine (h.before_performed htail).imp_left ?_
      rintro ⟨front, rfl⟩
      exact ⟨_ :: _ :: front, rfl⟩

/-- If neither the first nor the last member runs twice, the body of at most one member is seen. -/
theorem place_eq (h : c.Whole seen) (hfirst : c.first.isTwice = false)
    (hlast : lastTwice c.last? = false) {i j : Nat} {answer answer' : Except Diagnostic Signal}
    (hi : (i, .performed answer) ∈ seen) (hj : (j, .performed answer') ∈ seen) : i = j := by
  rcases h with ⟨h, -⟩ | ⟨htwice, -⟩
  · exact h.place_eq hlast hi hj
  · exact absurd htwice (by simp [hfirst])

end Whole

end Law

/-- The law of marked chains. The members are seen in the course of running them, each after the one
before however that ended, and what is seen of them in a body that stops early is a first part of
that.

Behind a condition that holds, the body of its member runs. Then nothing more is seen of the chain,
with two exceptions: a first member that runs twice, and has run its body to the end for the first
time, evaluates its condition again; and a last member that runs twice runs its body once. No body
runs but behind its own condition that holds, and that of the last member. So the bodies of at most
one member run if neither the first nor the last member runs twice. -/
theorem watchEvery_trees (depth : Nat) (c : MarkedChain) (m : Machine) :
    let seen := (Tree.watchEvery (callFunction depth) 0 c.trees m).1
    ((Tree.watchEvery (callFunction depth) 0 c.trees m).2 =
        Tree.runEvery (callFunction depth) c.trees m ∧
      (Tree.watchAll (callFunction depth) 0 c.trees).Copies
        (Tree.runAll (callFunction depth) c.trees) ∧
      (Tree.watchAll (callFunction depth) 0 c.trees m).1 <+: seen) ∧
    (∀ before i after, seen = before ++ (i, .tested (.ok true)) :: after →
      ∃ answer rest, after = (i, .performed answer) :: rest ∧
        ((before = [] ∧ c.first.isTwice = true ∧ answer = .ok .next) ∧
            (∃ again rest', rest = (0, .tested again) :: rest') ∨
          ¬ (before = [] ∧ c.first.isTwice = true ∧ answer = .ok .next) ∧
            Passed c.lastPlace c.last? rest)) ∧
    (∀ before i answer after, seen = before ++ (i, .performed answer) :: after →
      (∃ front, before = front ++ [(i, .tested (.ok true))]) ∨
        i = c.lastPlace ∧ c.last?.isSome) ∧
    (c.first.isTwice = false → lastTwice c.last? = false →
      ∀ i j answer answer', (i, .performed answer) ∈ seen → (j, .performed answer') ∈ seen →
        i = j) := by
  intro seen
  have hwhole := c.whole_trees depth m
  refine ⟨⟨Tree.snd_watchEvery _ _ _ m, Tree.copies_watchAll _ _ _, Tree.watchAll_prefix _ _ _ m⟩,
    fun _ _ _ ↦ hwhole.behind_tested, fun _ _ _ _ ↦ hwhole.before_performed,
    fun hfirst hlast _ _ _ _ ↦ hwhole.place_eq hfirst hlast⟩

/-- A last member that runs twice runs its body though a condition held. -/
theorem watchEvery_trees_lastTwice :
    let c : MarkedChain :=
      { first := ⟨{ id := 0, line := ⟨1, ""⟩, body := [], cond := .literal true }, none⟩
        later := []
        last? := some ⟨{ id := 1, line := ⟨2, ""⟩, body := [] }, some (2, ⟨2, ""⟩)⟩ }
    (Tree.watchEvery (callFunction 0) 0 c.trees { generator := .ofSeed 0 }).1 =
      [(0, .tested (.ok true)), (0, .performed (.ok .next)), (1, .performed (.ok .next))] := rfl

end MarkedChain

end Haklang
