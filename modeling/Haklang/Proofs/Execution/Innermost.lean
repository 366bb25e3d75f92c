import Haklang.Proofs.Execution.Failures
import Mathlib.Data.Prod.Lex
import Mathlib.Logic.Relation

/-!
# Following failures inwards

Following the moments that a moment leads to comes to an end (`Starts.wellFounded`), so a failure
can be followed inwards to the moment at which the fault was found. From this two things can be told
about it. A diagnostic that calls are nested too deeply comes from a call at the limit
(`Moment.Fails.exists_call`). A diagnostic with a line has the line of the innermost tree that
failed (`Moment.Innermost.line_eq`), and there is such a tree (`Moment.Fails.exists_innermost`): the
trees around it, the loops that it is in and the calls that led to it leave the line alone.
-/

open Relation (ReflTransGen TransGen)

namespace Haklang

open Haklang.Action

/-! ### Coming to an end -/

namespace Task

/-- How much of the program there is to a task. -/
noncomputable def size : Task → Nat
  | .expr e => sizeOf e
  | .exprs es => sizeOf es
  | .cond c => sizeOf c
  | .statement _ s => sizeOf s
  | .tree t => sizeOf t
  | .trees ts => sizeOf ts
  | .loop _ c body step? _ => 1 + sizeOf c + sizeOf body + (step?.map fun p ↦ sizeOf p.2).getD 0
  | .randomizing _ => 0
  | .call _ _ => 0

/-- How often a task may lead to one like itself. -/
def rounds : Task → Nat
  | .randomizing names => names.length
  | .loop _ _ _ _ left => left
  | _ => 0

end Task

/-- What goes down from a moment to every moment that it leads to: how deep calls may still be
nested, then how much of the program is left, then how many rounds are left. -/
noncomputable def Moment.rank (p : Moment) : Nat ×ₗ Nat ×ₗ Nat :=
  toLex (p.depth, toLex (p.task.size, p.task.rounds))

theorem Starts.rank_lt {p q : Moment} (h : Starts p q) : q.rank < p.rank := by
  have hlt : q.depth < p.depth ∨ q.depth = p.depth ∧
      (q.task.size < p.task.size ∨
        q.task.size = p.task.size ∧ q.task.rounds < p.task.rounds) := by
    cases h <;> simp [Task.size, Task.rounds] <;> omega
  simpa [Moment.rank, Prod.Lex.toLex_lt_toLex] using hlt

/-- Following the moments that a moment leads to comes to an end. -/
theorem Starts.wellFounded : WellFounded fun q p : Moment ↦ Starts p q :=
  Subrelation.wf Starts.rank_lt (InvImage.wf Moment.rank wellFounded_lt)

/-! ### What is passed on -/

theorem Task.fault_report (task : Task) (d : Diagnostic) : (task.report d).fault = d.fault := by
  cases task <;> rfl

/-- A line that was given stays. -/
theorem Task.line_report {task : Task} {d : Diagnostic} (h : d.line? ≠ none) :
    (task.report d).line? = d.line? := by
  obtain ⟨line, hline⟩ := Option.ne_none_iff_exists'.1 h
  cases task with
  | tree t => rw [report, Diagnostic.locate, hline, Option.getD_some]
  | _ => rfl

namespace Moment

variable {p q : Moment} {t : Tree} {d : Diagnostic}

theorem Finds.line (h : p.Finds d) : d.line? = none := by
  cases h with
  | plain hd => exact hd.line
  | call _ _ hd | loop _ hd | stop _ hd => rw [hd]

/-- A failure can be followed to a moment that has found the fault itself. -/
theorem Fails.exists_finds (h : p.Fails d) :
    ∃ q d', ReflTransGen Starts p q ∧ q.Fails d' ∧ q.Finds d' ∧ d'.fault = d.fault := by
  induction p using Starts.wellFounded.induction generalizing d with
  | _ p ih =>
    obtain hfinds | ⟨q, d', hq, hfails, rfl⟩ := h.cases
    · exact ⟨p, d, .refl, h, hfinds, rfl⟩
    · obtain ⟨r, d'', hr, hfinds, hfault⟩ := ih q hq hfails
      rw [Task.fault_report]
      exact ⟨r, d'', hr.head hq, hfinds, hfault⟩

/-- A failure that calls are nested too deeply is that of a call at the limit. -/
theorem Fails.exists_call (h : p.Fails d) (hd : d.fault.category = .callDepth) :
    ∃ q name args, ReflTransGen Starts p q ∧ q.task = .call name args ∧ q.depth = 0 ∧
      d.fault = .callDepth name q.machine.limits.callDepth ∧
      q.Fails { fault := .callDepth name q.machine.limits.callDepth } := by
  obtain ⟨q, d', hq, hfails, hfinds, hfault⟩ := h.exists_finds
  rw [← hfault] at hd ⊢
  cases hfinds with
  | plain hplain => exact absurd hd (hplain.category_ne rfl)
  | @call name args htask hdepth hcall =>
    subst hcall
    exact ⟨q, name, args, hq, htask, hdepth, rfl, hfails⟩
  | loop _ hloop =>
    subst hloop
    cases hd
  | stop _ hstop =>
    subst hstop
    cases hd

/-- What fails inside makes what is outside fail with the same fault. -/
theorem fails_of_reached (hq : ReflTransGen Starts p q) (h : q.Fails d) :
    ∃ d', p.Fails d' ∧ d'.fault = d.fault := by
  induction hq using ReflTransGen.head_induction_on with
  | refl => exact ⟨d, h, rfl⟩
  | @head p p' hstep _ ih =>
    obtain ⟨d', hd', hfault⟩ := ih
    exact ⟨_, hstep.fails hd', (Task.fault_report p.task d').trans hfault⟩

/-- A run is stopped exactly if an operator on the way stops it. -/
theorem exists_stops_iff :
    (∃ q, ReflTransGen Starts p q ∧ q.Stops) ↔ ∃ d, p.Fails d ∧ d.fault = .noMagnitude := by
  constructor
  · rintro ⟨q, hq, hstops⟩
    exact fails_of_reached hq hstops.fails
  · rintro ⟨d, h, hd⟩
    obtain ⟨q, d', hq, -, hfinds, hfault⟩ := h.exists_finds
    rw [← hfault] at hd
    cases hfinds with
    | plain hplain =>
      exact absurd (Fault.category_eq_stopped_iff.2 hd) (hplain.category_ne rfl)
    | call _ _ hcall =>
      subst hcall
      cases hd
    | loop _ hloop =>
      subst hloop
      cases hd
    | stop hstops => exact ⟨q, hq, hstops⟩

/-- Trees that fail have given a line. -/
theorem line_ne_none_of_trees {n : Nat} {ts : List Tree} {m : Machine}
    (h : (⟨n, .trees ts, m⟩ : Moment).Fails d) : d.line? ≠ none := by
  induction ts generalizing m with
  | nil =>
    obtain ⟨q, hq, -⟩ := starts_of_fails_trees h
    cases hq
  | cons t ts ih =>
    obtain ⟨q, hq, hfails⟩ := starts_of_fails_trees h
    cases hq with
    | treesHead =>
      obtain ⟨_, d', -, -, rfl⟩ := starts_of_fails_tree hfails
      exact nofun
    | treesTail _ => exact ih hfails

/-- Only trees give a line to a diagnostic. -/
theorem Fails.exists_tree (h : p.Fails d) (hd : d.line? ≠ none) :
    ∃ q t, ReflTransGen Starts p q ∧ q.task = .tree t ∧ ∃ d, q.Fails d := by
  induction p using Starts.wellFounded.induction generalizing d with
  | _ p ih =>
    by_cases htree : ∃ t, p.task = .tree t
    · obtain ⟨t, ht⟩ := htree
      exact ⟨p, t, .refl, ht, d, h⟩
    obtain hfinds | ⟨q, d', hq, hfails, rfl⟩ := h.cases
    · exact absurd hfinds.line hd
    · have hreport : p.task.report d' = d' := by
        cases htask : p.task with
        | tree t => exact absurd ⟨t, htask⟩ htree
        | _ => rfl
      rw [hreport] at hd
      obtain ⟨r, t, hr, ht⟩ := ih q hq hfails hd
      exact ⟨r, t, hr.head hq, ht⟩

/-! ### The innermost tree -/

/-- The innermost tree that failed: a tree reached from a moment that fails, and inside of which no
tree fails. -/
structure Innermost (p q : Moment) (t : Tree) : Prop where
  /-- It is reached from the moment. -/
  reached : ReflTransGen Starts p q
  /-- It is a tree. -/
  task : q.task = .tree t
  /-- It fails. -/
  fails : ∃ d, q.Fails d
  /-- No tree that it leads to fails. -/
  inner : ∀ r u, TransGen Starts q r → r.task = .tree u → ¬ ∃ d, r.Fails d

/-- What is innermost behind a moment that is reached is innermost altogether. -/
theorem Innermost.of_reaches {r : Moment} (hr : q.Innermost r t) (h : ReflTransGen Starts p q) :
    p.Innermost r t :=
  ⟨h.trans hr.reached, hr.task, hr.fails, hr.inner⟩

/-- Where a tree fails, there is an innermost one. -/
theorem exists_innermost_of_tree (hp : p.task = .tree t) (h : p.Fails d) :
    ∃ q u, p.Innermost q u := by
  induction p using Starts.wellFounded.transGen.induction generalizing t d with
  | _ p ih =>
    by_cases hinner : ∃ r u, TransGen Starts p r ∧ r.task = .tree u ∧ ∃ d, r.Fails d
    · obtain ⟨r, u, hr, hu, d', hd'⟩ := hinner
      obtain ⟨q, v, hq⟩ := ih r (Relation.transGen_swap.1 hr) hu hd'
      exact ⟨q, v, hq.of_reaches hr.to_reflTransGen⟩
    · exact ⟨p, t, .refl, hp, ⟨d, h⟩, fun r u hr hu hd ↦ hinner ⟨r, u, hr, hu, hd⟩⟩

/-- A diagnostic with a line is owed to a tree. -/
theorem Fails.exists_innermost (h : p.Fails d) (hd : d.line? ≠ none) : ∃ q t, p.Innermost q t := by
  obtain ⟨q, t, hq, ht, d', hd'⟩ := h.exists_tree hd
  obtain ⟨r, u, hr⟩ := exists_innermost_of_tree ht hd'
  exact ⟨r, u, hr.of_reaches hq⟩

/-- What fails inside with a line makes what is outside fail with the same line. -/
theorem fails_of_reached_line (hq : ReflTransGen Starts p q) (h : q.Fails d) (hd : d.line? ≠ none) :
    ∃ d', p.Fails d' ∧ d'.line? = d.line? := by
  induction hq using ReflTransGen.head_induction_on with
  | refl => exact ⟨d, h, rfl⟩
  | @head p p' hstep _ ih =>
    obtain ⟨d', hd', hline⟩ := ih
    exact ⟨_, hstep.fails hd', (Task.line_report (hline ▸ hd)).trans hline⟩

/-- The innermost tree that failed is the one whose line is reported. -/
theorem Innermost.line_eq (hq : p.Innermost q t) (h : p.Fails d) : d.line? = some t.line := by
  obtain ⟨d', hd'⟩ := hq.fails
  obtain ⟨n, task, m⟩ := q
  obtain rfl : task = .tree t := hq.task
  obtain ⟨r, d'', hr, hd'', rfl⟩ := starts_of_fails_tree hd'
  -- inside there is no line yet, since only a tree that fails could have given it
  have hnone : d''.line? = none := by
    by_contra hline
    obtain ⟨r', u, hr', hu⟩ := hd''.exists_tree hline
    exact hq.inner r' u (.head' hr hr') hu.1 hu.2
  have hline : (d''.locate t.line).line? = some t.line := by
    rw [Diagnostic.locate, hnone, Option.getD_none]
  obtain ⟨d₁, hd₁, heq⟩ := fails_of_reached_line hq.reached hd' (by rw [hline]; nofun)
  rw [h.unique hd₁, heq, hline]

end Moment

end Haklang
