import Haklang.Proofs.Execution.Upheld
import Haklang.Proofs.Tree.Lines

/-!
# What the machine knows of the source

The bodies of functions and the lines of deferred calls are all that a machine keeps of the source.
If they are written in some lines, and a tree runs that is written in these lines, then the same is
true when it has run, whatever it has called: trees that are written in the lines uphold it
(`Tree.upholds_knowsOnly`). So all trees that run on the way are written in these lines
(`Moment.Within.reaches`).
-/

open Relation (ReflTransGen)

namespace Haklang

open Haklang.Action

/-! ### Statements at a line -/

namespace SourceLine

/-- The statements at a line: what it reads as, or those in the header of a loop. -/
def statements (line : SourceLine) : List Statement :=
  match Line.ofString line.text with
  | .statement s => [s]
  | .header (.forLoop init _ step) => [.ofString init, .ofString step]
  | _ => []

/-- The line has a statement that puts off a call of the function. -/
def PutsOff (line : SourceLine) (name : String) : Prop :=
  ∃ args, Statement.defer name args ∈ line.statements

end SourceLine

namespace Tree.WrittenIn

variable {lines : List SourceLine} {t : Tree}

/-- The statements that a tree runs itself are at its line. -/
theorem direct_subset (h : t.WrittenIn lines) : t.direct ⊆ t.line.statements := by
  cases h with
  | @statement _ line s _ hs =>
    show [s] ⊆ line.statements
    rw [SourceLine.statements, hs]
    exact List.Subset.refl _
  | @block _ line header _ _ hheader _ =>
    cases header with
    | forLoop init cond step =>
      show [Statement.ofString init, .ofString step] ⊆ line.statements
      rw [SourceLine.statements, hheader]
      exact List.Subset.refl _
    | _ => exact List.nil_subset _
  | twice _ => exact List.nil_subset _

theorem children (h : t.WrittenIn lines) : ∀ u ∈ t.children, u.WrittenIn lines := by
  cases h with
  | statement _ _ => exact nofun
  | @block _ _ header _ _ _ hbody =>
    cases header with
    | function name params => exact nofun
    | _ => exact hbody
  | twice hinner => exact fun u hu ↦ List.mem_singleton.1 hu ▸ hinner

end Tree.WrittenIn

/-! ### Machines -/

namespace Machine

variable {lines more : List SourceLine} {m m' : Machine}

/-- The bodies of the functions are written in the lines, and the calls that are put off were put
off at one of them. -/
structure KnowsOnly (lines : List SourceLine) (m : Machine) : Prop where
  /-- The bodies of the functions. -/
  functions : ∀ name f, m.store.functions.find? name = some f → ∀ t ∈ f.body, t.WrittenIn lines
  /-- The calls that are put off. -/
  deferred : ∀ call ∈ m.deferred, call.line ∈ lines ∧ call.line.PutsOff call.name

theorem KnowsOnly.mono (h : m.KnowsOnly lines) (hmore : lines ⊆ more) : m.KnowsOnly more where
  functions name f hf t ht := (h.functions name f hf t ht).mono hmore
  deferred call hcall := ⟨hmore (h.deferred call hcall).1, (h.deferred call hcall).2⟩

/-- Taking the first call from the queue adds nothing. -/
theorem KnowsOnly.dequeue (h : m.KnowsOnly lines) {call : DeferredCall} {rest : List DeferredCall}
    (hqueue : m.deferred = call :: rest) :
    KnowsOnly lines { m with deferred := rest } where
  functions := h.functions
  deferred other hother := h.deferred other (by rw [hqueue]; exact List.mem_cons_of_mem _ hother)

/-- If a machine knows only the lines, so does the other. -/
def LearnsOnly (lines : List SourceLine) (m m' : Machine) : Prop :=
  m.KnowsOnly lines → m'.KnowsOnly lines

theorem learnsOnly_of_eq (hfunctions : m'.store.functions = m.store.functions)
    (hdeferred : m'.deferred = m.deferred) : LearnsOnly lines m m' := fun h ↦ by
  refine ⟨?_, ?_⟩
  · rw [hfunctions]
    exact h.functions
  · rw [hdeferred]
    exact h.deferred

end Machine

/-- Trees that are written in the lines add only them: a function that they define has a body inside
of them, and a call that they put off gets the line of the tree. -/
theorem Tree.upholds_knowsOnly {lines : List SourceLine} :
    Upholds (WrittenIn lines) (Machine.KnowsOnly lines) where
  congr hfunctions hdeferred := Machine.learnsOnly_of_eq hfunctions hdeferred
  body h := h.functions _ _
  children _ ht := ht.children
  function id line name params body ht m h := by
    refine ⟨fun other f hf ↦ ?_, h.deferred⟩
    have hf : (m.store.functions.insert name { params, body }).find? other = some f := hf
    rw [Table.find?_insert] at hf
    split at hf
    · cases hf
      generalize hhead : BlockHead.function name params = head at ht
      cases ht with
      | block _ _ hbody => exact hbody
    · exact h.functions other f hf
  defer t ht name args hs m values h := by
    refine ⟨h.functions, fun call hcall ↦ ?_⟩
    rcases List.mem_append.1 hcall with hcall | hcall
    · exact h.deferred call hcall
    · obtain rfl := List.mem_singleton.1 hcall
      exact ⟨ht.line_mem, args, ht.direct_subset hs⟩

/-! ### Moments -/

/-- The trees of the task are written in the lines, and the machine knows only them. -/
structure Moment.Within (lines : List SourceLine) (p : Moment) : Prop where
  /-- The task. -/
  task : p.task.Kind (Machine.LearnsOnly lines) (Tree.WrittenIn lines)
  /-- The machine. -/
  machine : p.machine.KnowsOnly lines

namespace Moment.Within

variable {lines : List SourceLine} {p q : Moment}

theorem after (hp : p.Within lines) : p.after.KnowsOnly lines :=
  Tree.upholds_knowsOnly.after hp.task hp.machine

theorem starts (hp : p.Within lines) (h : Starts p q) : q.Within lines :=
  have hq := Tree.upholds_knowsOnly.starts hp.task hp.machine h
  ⟨hq.1, hq.2⟩

theorem reaches (hp : p.Within lines) (h : ReflTransGen Starts p q) : q.Within lines :=
  have hq := Tree.upholds_knowsOnly.reaches hp.task hp.machine h
  ⟨hq.1, hq.2⟩

end Moment.Within

end Haklang
