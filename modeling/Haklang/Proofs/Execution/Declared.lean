import Haklang.Proofs.Execution.Frames

/-!
# What a variable is declared as

A variable once in sight stays in sight, and its type and its shield are those that it was declared
with: nothing but another declaration gives it a new shield, and nothing but another declaration or
a value popped into it gives it a new type. Which statements of a tree may do so is read off the
tree (`Tree.statements`). Those of functions that are called do not count, since a call leaves all
frames as they were.

All three facts are about some part of a variable that stays (`Machine.Keeps`), so one induction
over trees does for them (`Tree.keeps_run`).
-/

namespace Haklang

open Haklang.Action

namespace Statement

/-- The statement declares a variable of that name. -/
def Declares (name : String) : Statement → Prop
  | declare other _ _ => other = name
  | _ => False

/-- The statement pops a value into a variable of that name. -/
def PopsInto (name : String) : Statement → Prop
  | pop other => other = name
  | _ => False

end Statement

namespace Tree

mutual

/-- The statements that run with a tree, those of the trees inside and of headers included. The
definition of a function runs none. -/
def statements : Tree → List Statement
  | statement _ _ s => [s]
  | block _ _ (.function _ _) _ => []
  | block _ _ (.forLoop init _ step) body => init :: step :: statementsAll body
  | block _ _ _ body => statementsAll body
  | twice _ _ inner => statements inner

/-- The statements that run with trees. -/
def statementsAll : List Tree → List Statement
  | [] => []
  | t :: ts => statements t ++ statementsAll ts

end

theorem mem_statementsAll {s : Statement} {t : Tree} {ts : List Tree} (ht : t ∈ ts)
    (hs : s ∈ t.statements) : s ∈ statementsAll ts := by
  induction ts with
  | nil => cases ht
  | cons u us ih =>
    rw [statementsAll, List.mem_append]
    rcases List.mem_cons.1 ht with rfl | ht
    · exact .inl hs
    · exact .inr (ih ht)

theorem statements_subset_of_mem_children {t u : Tree} (hu : u ∈ t.children) :
    u.statements ⊆ t.statements := by
  intro s hs
  cases t with
  | statement id line s => cases hu
  | block id line head body =>
    cases head with
    | function name params => cases hu
    | forLoop init cond step => exact .tail _ (.tail _ (mem_statementsAll hu hs))
    | ifBlock cond => exact mem_statementsAll hu hs
    | elseIf cond => exact mem_statementsAll hu hs
    | elseBlock => exact mem_statementsAll hu hs
    | whileLoop cond => exact mem_statementsAll hu hs
  | twice id line inner =>
    obtain rfl := List.mem_singleton.1 hu
    exact hs

theorem direct_subset_statements (t : Tree) : t.direct ⊆ t.statements := by
  intro s hs
  cases t with
  | statement id line s => exact hs
  | block id line head body =>
    cases head with
    | forLoop init cond step =>
      exact List.mem_append_left (statementsAll body) hs
    | _ => cases hs
  | twice id line inner => cases hs

end Tree

/-! ### Parts of a variable that stay -/

variable {α : Type}

/-- If the name stands for a variable, then it still does, and the part `f` of it is the same. -/
def Machine.Keeps (f : Variable → α) (name : String) (m m' : Machine) : Prop :=
  ∀ v, m.store.lookup? name = some v → ∃ w, m'.store.lookup? name = some w ∧ f w = f v

namespace Machine

variable {f : Variable → α} {name : String}

theorem keeps_of_lookup?_eq {m m' : Machine}
    (h : m'.store.lookup? name = m.store.lookup? name) : Keeps f name m m' :=
  fun v hv ↦ ⟨v, h.trans hv, rfl⟩

instance : IsPreorder Machine (Keeps f name) where
  refl _ := keeps_of_lookup?_eq rfl
  trans _ _ _ h h' v hv := by
    obtain ⟨w, hw, hwv⟩ := h v hv
    obtain ⟨u, hu, huw⟩ := h' w hw
    exact ⟨u, hu, huw.trans hwv⟩

theorem keeps_put {m : Machine} {other : String} {w : Variable}
    (h : other = name → ∀ v, m.store.lookup? name = some v → f w = f v) :
    Keeps f name m { m with store := m.store.put other w } := by
  intro v hv
  by_cases hname : name = other
  · refine ⟨w, ?_, h hname.symm v hv⟩
    show (m.store.put other w).lookup? name = some w
    rw [Store.lookup?_put, if_pos hname]
  · refine ⟨v, ?_, rfl⟩
    show (m.store.put other w).lookup? name = some v
    rw [Store.lookup?_put, if_neg hname, hv]

/-- Leaves that do not declare anew keep what the type and the shield determine. -/
theorem revises_keeps (hf : ∀ v w, v.tag = w.tag → v.shielded = w.shielded → f v = f w) :
    Revises (Keeps f name) where
  put m other w _ hretains := keeps_put fun hname v hv ↦ by
    subst hname
    exact hf w v (hretains v hv).1 (hretains v hv).2
  push _ _ _ _ := keeps_of_lookup?_eq rfl
  pop _ := keeps_of_lookup?_eq rfl
  note _ _ _ := keeps_of_lookup?_eq rfl
  readLine _ := keeps_of_lookup?_eq rfl
  generator _ _ := keeps_of_lookup?_eq rfl

end Machine

/-- Calls leave the variables in sight alone. -/
theorem respects_keeps_callFunction {f : Variable → α} {name : String} (depth : Nat)
    (other : String) (args : List Value) :
    Respects (Machine.Keeps f name) (callFunction depth other args) :=
  (respects_callFunction depth other args).mono fun h ↦ Machine.keeps_of_lookup?_eq <| by
    rw [Store.lookup?_eq_findSome?, Store.lookup?_eq_findSome?, h.frames]

section Trees

variable {f : Variable → α} {name : String}
  (hf : ∀ v w, v.tag = w.tag → v.shielded = w.shielded → f v = f w)

theorem Statement.allows_keeps {s : Statement} {line : SourceLine}
    (hdeclares : s.Declares name → ∀ v w, f v = f w)
    (hpops : s.PopsInto name → ∀ v w, v.shielded = w.shielded → f v = f w) :
    s.Allows (Machine.Keeps f name) line where
  declare other tag shielded hs m := Machine.keeps_put fun hname v _ ↦ by
    subst hs
    exact hdeclares hname _ v
  pop other hs m value := Machine.keeps_put fun hname v hv ↦ by
    subst hs
    refine hpops hname _ v ?_
    -- the variable that is bound takes the shield of the one in sight
    rw [hname, hv]
    rfl
  defer _ _ _ _ _ := Machine.keeps_of_lookup?_eq rfl

include hf

/-- A tree keeps what the type and the shield of a variable determine, unless it declares the
variable or pops into it. -/
theorem Tree.keeps_run (depth : Nat) (t : Tree)
    (hdeclares : (∃ s ∈ t.statements, s.Declares name) → ∀ v w, f v = f w)
    (hpops : (∃ s ∈ t.statements, s.PopsInto name) →
      ∀ v w, v.shielded = w.shielded → f v = f w) :
    Respects (Machine.Keeps f name) (t.run (callFunction depth)) := by
  have hkind : Kind (Machine.Keeps f name) fun u ↦ u.statements ⊆ t.statements :=
    { children := fun u hu _ hchild ↦
        List.Subset.trans (statements_subset_of_mem_children hchild) hu
      direct := fun u hu s hs ↦
        have hmem : s ∈ t.statements := hu (u.direct_subset_statements hs)
        s.allows_keeps (fun h ↦ hdeclares ⟨s, hmem, h⟩) fun h ↦ hpops ⟨s, hmem, h⟩
      function := fun _ _ _ _ _ _ _ ↦ Machine.keeps_of_lookup?_eq rfl
      chosen := fun _ _ ↦ Machine.keeps_of_lookup?_eq rfl }
  exact t.respects_run_of (Machine.revises_keeps hf) hkind (respects_keeps_callFunction depth)
    (List.Subset.refl _)

end Trees

/-- What a variable is declared as stays. A variable in sight before a tree runs is in sight behind
it, whether the tree fails or not and whatever it calls. If no statement of the tree declares a
variable of the name, its shield is as it was, and if none pops into it either, so is its type. -/
theorem Tree.exists_lookup?_after_run (depth : Nat) (t : Tree) (m : Machine) {name : String}
    {v : Variable} (hv : m.store.lookup? name = some v) :
    ∃ w, ((t.run (callFunction depth)).after m).store.lookup? name = some w ∧
      ((∀ s ∈ t.statements, ¬ s.Declares name) → w.shielded = v.shielded) ∧
      ((∀ s ∈ t.statements, ¬ s.Declares name ∧ ¬ s.PopsInto name) →
        w.tag = v.tag ∧ w.shielded = v.shielded) := by
  -- that there is a variable at all is the part that is the same of all variables
  obtain ⟨w, hw, -⟩ := t.keeps_run (f := fun _ ↦ ()) (fun _ _ _ _ ↦ rfl) depth (fun _ _ _ ↦ rfl)
    (fun _ _ _ _ ↦ rfl) m v hv
  refine ⟨w, hw, fun hdeclares ↦ ?_, fun hstatements ↦ ?_⟩
  · have hshield := t.keeps_run (f := Variable.shielded) (fun _ _ _ h ↦ h) depth
      (fun ⟨s, hs, h⟩ ↦ absurd h (hdeclares s hs)) (fun _ _ _ h ↦ h) m v hv
    obtain ⟨w', hw', hshield⟩ := hshield
    cases hw.symm.trans hw'
    exact hshield
  · have hboth := t.keeps_run (f := fun v ↦ (v.tag, v.shielded))
      (fun _ _ htag hshield ↦ Prod.ext htag hshield) depth
      (fun ⟨s, hs, h⟩ ↦ absurd h (hstatements s hs).1)
      (fun ⟨s, hs, h⟩ ↦ absurd h (hstatements s hs).2) m v hv
    obtain ⟨w', hw', hboth⟩ := hboth
    cases hw.symm.trans hw'
    exact ⟨congrArg Prod.fst hboth, congrArg Prod.snd hboth⟩

/-- The body of a loop assigns to a shielded variable and calls a function that declares another one
of the name, pops into it and fails. -/
theorem Tree.exists_lookup?_after_run_redeclared :
    let body : List Tree :=
      [.statement 0 ⟨1, ""⟩ (.declare "x" (.item .text) false), .statement 1 ⟨2, ""⟩ (.pop "x"),
        .statement 2 ⟨3, ""⟩ (.unknown "?")]
    let m : Machine :=
      { generator := .ofSeed 0
        store := (({} : Store).declare "x" (.item .int) true).defineFunction "f" ⟨[], body⟩ }
    let t : Tree := .twice 6 ⟨4, ""⟩ <| .block 5 ⟨4, ""⟩
      (.forLoop (.assign "x" (.var "y")) (.literal true) (.assign "y" (.var "x")))
      [.statement 4 ⟨5, ""⟩ (.call "f" [])]
    ∃ v, ((t.run (callFunction 1)).after m).store.lookup? "x" = some v ∧
      v.tag = .item .int ∧ v.shielded = true := by
  intro body m t
  have hv : m.store.lookup? "x" = some ⟨.default (.item .int), .item .int, true⟩ := by
    show (Store.put {} "x" _).lookup? "x" = _
    rw [Store.lookup?_put, if_pos rfl]
  obtain ⟨w, hw, -, hboth⟩ := t.exists_lookup?_after_run 1 m hv
  refine ⟨w, hw, hboth fun s hs ↦ ?_⟩
  have hs : s ∈ [Statement.assign "x" (.var "y"), .assign "y" (.var "x"), .call "f" []] := hs
  simp only [List.mem_cons, List.not_mem_nil, or_false] at hs
  rcases hs with rfl | rfl | rfl <;> exact ⟨not_false, not_false⟩

end Haklang
