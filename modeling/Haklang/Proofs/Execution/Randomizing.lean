import Haklang.Proofs.Random.Bounds
import Haklang.Proofs.Store.Snapshots

/-!
# Randomizing all variables

Randomizing all variables is a fold that can be told in advance. The variables whose turn comes are
those in sight without a shield, in ascending order of their names (`Store.exposed`); a value is
drawn for each from what the one before left of the generator (`Generator.drawEach`); and all that
the store gets are these values (`Store.fillAll`). The run does exactly that
(`Statement.randomizeEach_apply`), although it looks up every variable again in a store that it has
changed meanwhile: giving a variable a value leaves the types and the shields of all variables alone
(`Store.exposed_fill`).

Of the store, the fold reads nothing but what names stand for. So it does not matter to the outcome
in which frames the variables are and how they came there.
-/

namespace Haklang

open Haklang.Action

/-! ### Draws -/

/-- Draws a value for each type in turn, under the name that goes with it. -/
def Generator.drawEach : List (String × TypeTag) → Generator → List (String × Value) × Generator
  | [], g => ([], g)
  | (name, t) :: rest, g =>
    let drawn := draw t g
    let others := drawEach rest drawn.2
    ((name, drawn.1) :: others.1, others.2)

/-- The names stay in their order. -/
theorem Generator.map_fst_drawEach (turns : List (String × TypeTag)) (g : Generator) :
    (drawEach turns g).1.map Prod.fst = turns.map Prod.fst := by
  induction turns generalizing g with
  | nil => rfl
  | cons turn rest ih => exact congrArg (turn.1 :: ·) (ih _)

/-- For each turn there is a value of its type and within its bounds. -/
theorem Generator.exists_drawnFor {turns : List (String × TypeTag)} {name : String} {t : TypeTag}
    (h : (name, t) ∈ turns) (g : Generator) :
    ∃ value, (name, value) ∈ (drawEach turns g).1 ∧ value.DrawnFor t := by
  induction turns generalizing g with
  | nil => cases h
  | cons turn rest ih =>
    rcases List.mem_cons.1 h with rfl | h
    · exact ⟨_, List.mem_cons_self, drawnFor_draw t g⟩
    · obtain ⟨value, hmem, hvalue⟩ := ih h (draw turn.2 g).2
      exact ⟨value, List.mem_cons_of_mem _ hmem, hvalue⟩

/-! ### Values for variables -/

namespace Store

/-- Gives a variable a value, in the innermost frame. -/
def fill (s : Store) (name : String) (value : Value) : Store := (s.update name fun _ ↦ .ok value).2

/-- Gives variables values, in order. -/
def fillAll (s : Store) : List (String × Value) → Store
  | [] => s
  | (name, value) :: rest => (s.fill name value).fillAll rest

/-- The variables among the given names that are in sight and have no shield, with their types. -/
def exposed (s : Store) (names : List String) : List (String × TypeTag) :=
  names.filterMap fun name ↦
    (s.lookup? name).bind fun v ↦ if v.shielded then none else some (name, v.tag)

variable (s : Store) (name : String) (value : Value)

/-- A variable in sight is written in the innermost frame with its new value. -/
theorem fill_eq {v : Variable} (h : s.lookup? name = some v) :
    s.fill name value = s.put name { v with value } := by
  rw [fill, update, h]

/-- Without a variable in sight there is nothing to fill. -/
theorem fill_eq_self (h : s.lookup? name = none) : s.fill name value = s := by
  rw [fill, update, h]

/-- Filling changes the value of that variable only, and neither its type nor its shield. -/
theorem lookup?_fill (other : String) : (s.fill name value).lookup? other =
    (s.lookup? other).map fun v ↦ if other = name then { v with value } else v := by
  rcases h : s.lookup? name with - | v
  · rw [fill_eq_self s name value h]
    by_cases ho : other = name
    · rw [ho, h, Option.map_none]
    · simp [ho]
  · rw [fill_eq s name value h, lookup?_put]
    by_cases ho : other = name
    · rw [if_pos ho, ho, h, Option.map_some, if_pos rfl]
    · simp [ho]

/-- Giving a variable a value leaves open whose turn it is. -/
theorem exposed_fill (names : List String) :
    (s.fill name value).exposed names = s.exposed names := by
  refine List.filterMap_congr fun other _ ↦ ?_
  rw [lookup?_fill]
  rcases s.lookup? other with - | v
  · rfl
  · show (if (if other = name then { v with value } else v).shielded then none else _) = _
    split <;> rfl

/-- A name in front has a turn if its variable has no shield. -/
theorem exposed_cons (rest : List String) {v : Variable} (h : s.lookup? name = some v) :
    s.exposed (name :: rest) =
      if v.shielded then s.exposed rest else (name, v.tag) :: s.exposed rest := by
  rw [exposed, List.filterMap_cons, h, Option.bind_some]
  cases v.shielded <;> rfl

/-- Frames that are not the innermost one, functions and the stack are no matter of values. -/
theorem rest_fill : (s.fill name value).frames.tail = s.frames.tail ∧
    (s.fill name value).functions = s.functions ∧ (s.fill name value).stack = s.stack := by
  rcases h : s.lookup? name with - | v
  · rw [fill_eq_self s name value h]
    exact ⟨rfl, rfl, rfl⟩
  · rw [fill_eq s name value h]
    exact ⟨s.tail_frames_put _ _, s.functions_put _ _, s.stack_put _ _⟩

variable (values : List (String × Value))

/-- Filling one variable after another touches nothing else, either. -/
theorem rest_fillAll : (s.fillAll values).frames.tail = s.frames.tail ∧
    (s.fillAll values).functions = s.functions ∧ (s.fillAll values).stack = s.stack := by
  induction values generalizing s with
  | nil => exact ⟨rfl, rfl, rfl⟩
  | cons p rest ih =>
    obtain ⟨hframes, hfunctions, hstack⟩ := ih (s.fill p.1 p.2)
    obtain ⟨hframes', hfunctions', hstack'⟩ := s.rest_fill p.1 p.2
    exact ⟨hframes.trans hframes', hfunctions.trans hfunctions', hstack.trans hstack'⟩

/-- A variable without a value among those given stays as it is. -/
theorem lookup?_fillAll_of_not_mem {values : List (String × Value)} {name : String}
    (h : name ∉ values.map Prod.fst) : (s.fillAll values).lookup? name = s.lookup? name := by
  induction values generalizing s with
  | nil => rfl
  | cons p rest ih =>
    have hne : name ≠ p.1 := List.ne_of_not_mem_cons h
    rw [fillAll, ih (s.fill p.1 p.2) (List.not_mem_of_not_mem_cons h), lookup?_fill]
    simp only [if_neg hne, Option.map_id']

/-- A variable gets its value, and keeps its type and its shield. -/
theorem lookup?_fillAll_of_mem {values : List (String × Value)} {name : String} {value : Value}
    {v : Variable} (hnodup : (values.map Prod.fst).Nodup) (h : (name, value) ∈ values)
    (hv : s.lookup? name = some v) :
    (s.fillAll values).lookup? name = some { v with value } := by
  induction values generalizing s v with
  | nil => cases h
  | cons p rest ih =>
    obtain ⟨hnot, hnodup⟩ := List.nodup_cons.1 hnodup
    rw [fillAll]
    rcases List.mem_cons.1 h with rfl | h
    · rw [lookup?_fillAll_of_not_mem _ hnot, lookup?_fill, hv, Option.map_some, if_pos rfl]
    · have hne : name ≠ p.1 := by
        rintro rfl
        exact hnot (List.mem_map.2 ⟨_, h, rfl⟩)
      refine ih (s.fill p.1 p.2) hnodup h ?_
      rw [lookup?_fill, hv, Option.map_some, if_neg hne]

/-- What a name contributes to the variables without a shield. -/
theorem exposed_eq_some_iff {s : Store} {name : String} {turn : String × TypeTag} :
    ((s.lookup? name).bind fun v ↦ if v.shielded then none else some (name, v.tag)) = some turn ↔
      ∃ v, s.lookup? name = some v ∧ v.shielded = false ∧ (name, v.tag) = turn := by
  rw [Option.bind_eq_some_iff]
  refine exists_congr fun v ↦ and_congr_right fun _ ↦ ?_
  cases v.shielded <;> simp

/-- No name comes into sight or goes out of it. -/
theorem isSome_lookup?_fillAll :
    ((s.fillAll values).lookup? name).isSome = (s.lookup? name).isSome := by
  induction values generalizing s with
  | nil => rfl
  | cons p rest ih => rw [fillAll, ih, lookup?_fill, Option.isSome_map]

/-- Values for variables act on what names stand for. -/
theorem lookup?_fillAll_congr {s s' : Store} (h : ∀ name, s.lookup? name = s'.lookup? name)
    (values : List (String × Value)) (name : String) :
    (s.fillAll values).lookup? name = (s'.fillAll values).lookup? name := by
  induction values generalizing s s' with
  | nil => exact h name
  | cons p rest ih => exact ih fun other ↦ by rw [lookup?_fill, lookup?_fill, h]

/-- The variables whose turn it is, among names, are those in sight without a shield. -/
theorem mem_exposed_iff {s : Store} {names : List String} {name : String} {t : TypeTag} :
    (name, t) ∈ s.exposed names ↔
      name ∈ names ∧ ∃ v, s.lookup? name = some v ∧ v.shielded = false ∧ v.tag = t := by
  simp only [exposed, List.mem_filterMap, exposed_eq_some_iff]
  constructor
  · rintro ⟨name', hname, v, hv, hshield, h⟩
    obtain ⟨rfl, rfl⟩ := Prod.mk.inj h
    exact ⟨hname, v, hv, hshield, rfl⟩
  · rintro ⟨hname, v, hv, hshield, rfl⟩
    exact ⟨name, hname, v, hv, hshield, rfl⟩

/-- Turns come in the order of the names. -/
theorem pairwise_exposed {names : List String} (h : names.Pairwise (· < ·)) :
    ((s.exposed names).map Prod.fst).Pairwise (· < ·) := by
  rw [List.pairwise_map, exposed, List.pairwise_filterMap]
  refine h.imp fun hlt turn hturn turn' hturn' ↦ ?_
  obtain ⟨-, -, -, rfl⟩ := exposed_eq_some_iff.1 hturn
  obtain ⟨-, -, -, rfl⟩ := exposed_eq_some_iff.1 hturn'
  exact hlt

/-- Whose turn it is, is known from what names stand for. -/
theorem exposed_congr {s s' : Store} (h : ∀ name, s.lookup? name = s'.lookup? name) :
    s.exposed s.names = s'.exposed s'.names := by
  rw [names_congr h]
  exact List.filterMap_congr fun name _ ↦ by rw [h]

end Store

/-! ### Runs -/

/-- The variables whose turn comes when all are randomized, with their types. -/
def Machine.turns (m : Machine) : List (String × TypeTag) := m.store.exposed m.store.names

/-- The machine after those of the given variables that have no shield got a random value. -/
def Machine.randomized (m : Machine) (names : List String) : Machine :=
  let drawn := Generator.drawEach (m.store.exposed names) m.generator
  { m with store := m.store.fillAll drawn.1, generator := drawn.2 }

namespace Statement

/-- A shielded variable is left as it is, and nothing is drawn for it. -/
theorem randomizeOne_of_shielded {m : Machine} {name : String} {v : Variable}
    (hv : m.store.lookup? name = some v) (hshield : v.shielded = true) :
    randomizeOne name m = .ok () m := by
  rw [randomizeOne, bind_of_ok (read_get_of_some hv), if_pos hshield]
  rfl

/-- Any other variable gets the value that is drawn for its type. -/
theorem randomizeOne_of_exposed {m : Machine} {name : String} {v : Variable}
    (hv : m.store.lookup? name = some v) (hshield : v.shielded = false) :
    randomizeOne name m = .ok () { m with
      store := m.store.fill name (Generator.draw v.tag m.generator).1
      generator := (Generator.draw v.tag m.generator).2 } := by
  have hupdate (value : Value) :
      m.store.update name (fun _ ↦ .ok value) = (.ok (), m.store.fill name value) := by
    rw [Store.fill, Store.update, hv]
  rw [randomizeOne, bind_of_ok (read_get_of_some hv), if_neg (Bool.not_eq_true _ ▸ hshield)]
  exact change_of_ok (f := (·.update name fun _ ↦ .ok _)) (hupdate _)

/-- The run is the fold that is told in advance. -/
theorem randomizeEach_apply {names : List String} {m : Machine}
    (h : ∀ name ∈ names, (m.store.lookup? name).isSome = true) :
    randomizeEach names m = .ok () (m.randomized names) := by
  induction names generalizing m with
  | nil => rfl
  | cons name rest ih =>
    obtain ⟨hname, hrest⟩ := List.forall_mem_cons.1 h
    obtain ⟨v, hv⟩ := Option.isSome_iff_exists.1 hname
    rw [randomizeEach, Machine.randomized, Store.exposed_cons _ _ _ hv]
    cases hshield : v.shielded with
    | true =>
      rw [bind_of_ok (randomizeOne_of_shielded hv hshield)]
      exact ih hrest
    | false =>
      rw [bind_of_ok (randomizeOne_of_exposed hv hshield), ih, Machine.randomized]
      · -- the store that is looked at has changed, but not as to whose turn it is
        rw [Store.exposed_fill]
        rfl
      · intro other hother
        rw [Store.lookup?_fill, Option.isSome_map]
        exact hrest other hother

/-- All variables are randomized at once, and this does not fail. -/
theorem randomizeAll_apply (call : Callee) (line : SourceLine) (m : Machine) :
    randomizeAll.run call line m = .ok .next (m.randomized m.store.names) := by
  have h : randomizeEach m.store.names m = .ok () (m.randomized m.store.names) :=
    randomizeEach_apply fun name hname ↦ Store.mem_names_iff.1 hname
  show (randomizeEach m.store.names >>= fun _ ↦ pure Signal.next) m = _
  rw [bind_of_ok h]
  rfl

end Statement

/-! ### What is randomized and what is not -/

namespace Machine

/-- `m'` is `m` with all variables randomized. -/
structure Randomizes (m m' : Machine) : Prop where
  /-- It is the turn of the variables in sight without a shield. -/
  mem_turns : ∀ name t, (name, t) ∈ m.turns ↔
    ∃ v, m.store.lookup? name = some v ∧ v.shielded = false ∧ v.tag = t
  /-- Each has one turn, in ascending order of the names. -/
  ascending : (m.turns.map Prod.fst).Pairwise (· < ·)
  /-- One value is drawn for each turn, and nothing else. -/
  generator : m'.generator = (Generator.drawEach m.turns m.generator).2
  /-- A shielded variable stays as it is. -/
  shielded : ∀ name v, m.store.lookup? name = some v → v.shielded = true →
    m'.store.lookup? name = some v
  /-- Any other variable gets the value of its turn, which is one of its type and within bounds,
  and keeps its type and its shield. -/
  exposed : ∀ name v, m.store.lookup? name = some v → v.shielded = false →
    ∃ value, (name, value) ∈ (Generator.drawEach m.turns m.generator).1 ∧ value.DrawnFor v.tag ∧
      m'.store.lookup? name = some { v with value }
  /-- The same names are in sight. -/
  names : m'.store.names = m.store.names
  /-- All frames but the innermost stay as they are. -/
  outer : m'.store.frames.tail = m.store.frames.tail
  /-- So does everything that is not about variables or random values. -/
  rest : m' = { m with store := m'.store, generator := m'.generator } ∧
    m'.store.functions = m.store.functions ∧ m'.store.stack = m.store.stack

variable (m : Machine)

/-- Of all variables in sight it is the turn of those without a shield. -/
theorem mem_turns_iff {name : String} {t : TypeTag} : (name, t) ∈ m.turns ↔
    ∃ v, m.store.lookup? name = some v ∧ v.shielded = false ∧ v.tag = t := by
  rw [turns, Store.mem_exposed_iff, Store.mem_names_iff]
  constructor
  · exact fun h ↦ h.2
  · rintro ⟨v, hv, h⟩
    exact ⟨hv ▸ rfl, v, hv, h⟩

/-- The turns are in ascending order, since the names in sight are. -/
theorem pairwise_turns : (m.turns.map Prod.fst).Pairwise (· < ·) :=
  m.store.pairwise_exposed m.store.pairwise_names

/-- A name gets at most one value. -/
theorem nodup_drawEach_turns (g : Generator) :
    ((Generator.drawEach m.turns g).1.map Prod.fst).Nodup := by
  rw [Generator.map_fst_drawEach]
  exact m.pairwise_turns.imp ne_of_lt

/-- A shielded variable has no turn, so it keeps its value. -/
theorem lookup?_randomized_of_shielded {name : String} {v : Variable}
    (hv : m.store.lookup? name = some v) (hshield : v.shielded = true) :
    (m.randomized m.store.names).store.lookup? name = some v := by
  refine (m.store.lookup?_fillAll_of_not_mem ?_).trans hv
  rw [Generator.map_fst_drawEach]
  intro hmem
  obtain ⟨⟨_, t⟩, hturn, rfl⟩ := List.mem_map.1 hmem
  obtain ⟨w, hw, hexposed, -⟩ := m.mem_turns_iff.1 hturn
  cases hv.symm.trans hw
  exact Bool.noConfusion (hshield.symm.trans hexposed)

/-- A variable without a shield gets the value drawn at its turn. -/
theorem lookup?_randomized_of_exposed {name : String} {v : Variable}
    (hv : m.store.lookup? name = some v) (hshield : v.shielded = false) :
    ∃ value, (name, value) ∈ (Generator.drawEach m.turns m.generator).1 ∧ value.DrawnFor v.tag ∧
      (m.randomized m.store.names).store.lookup? name = some { v with value } := by
  have hturn : (name, v.tag) ∈ m.turns := m.mem_turns_iff.2 ⟨v, hv, hshield, rfl⟩
  obtain ⟨value, hmem, hvalue⟩ := Generator.exists_drawnFor hturn m.generator
  exact ⟨value, hmem, hvalue,
    m.store.lookup?_fillAll_of_mem (m.nodup_drawEach_turns m.generator) hmem hv⟩

/-- The same names are in sight, since each variable is filled where it is in sight. -/
theorem names_randomized : (m.randomized m.store.names).store.names = m.store.names :=
  (Store.pairwise_names _).eq_of_mem_iff m.store.pairwise_names fun name ↦ by
    rw [Store.mem_names_iff, Store.mem_names_iff]
    exact Bool.eq_iff_iff.1 (m.store.isSome_lookup?_fillAll name _)

/-- All that is asked for holds when every variable in sight has been through. -/
theorem randomizes_randomized : m.Randomizes (m.randomized m.store.names) where
  mem_turns _ _ := m.mem_turns_iff
  ascending := m.pairwise_turns
  generator := rfl
  shielded _ _ := m.lookup?_randomized_of_shielded
  exposed _ _ := m.lookup?_randomized_of_exposed
  names := m.names_randomized
  outer := (m.store.rest_fillAll _).1
  rest := ⟨rfl, (m.store.rest_fillAll _).2⟩

/-- The machines have the same variables in sight and the same random values to come. -/
def Alike (m₁ m₂ : Machine) : Prop :=
  (∀ name, m₁.store.lookup? name = m₂.store.lookup? name) ∧ m₁.generator = m₂.generator

/-- Where the variables are is no matter of what comes out. -/
theorem Alike.randomized {m₁ m₂ : Machine} (h : m₁.Alike m₂) :
    (m₁.randomized m₁.store.names).Alike (m₂.randomized m₂.store.names) := by
  have hturns : m₁.turns = m₂.turns := Store.exposed_congr h.1
  have hdrawn : Generator.drawEach m₁.turns m₁.generator =
      Generator.drawEach m₂.turns m₂.generator := by rw [hturns, h.2]
  refine ⟨fun name ↦ ?_, congrArg Prod.snd hdrawn⟩
  show (m₁.store.fillAll (Generator.drawEach m₁.turns m₁.generator).1).lookup? name =
    (m₂.store.fillAll (Generator.drawEach m₂.turns m₂.generator).1).lookup? name
  rw [hdrawn]
  exact Store.lookup?_fillAll_congr h.1 _ name

end Machine

/-- Randomizing all variables never fails. It respects shields, types, bounds and the order of
names, and what comes out depends on nothing but the variables in sight and the generator: not on
the frames that the variables are in, nor on the order in which they were declared. -/
theorem randomizeAll_randomizes (call : Callee) (line : SourceLine) (m : Machine) :
    ∃ m', Statement.randomizeAll.run call line m = .ok .next m' ∧ m.Randomizes m' ∧
      ∀ call₂ line₂ m₂, m.Alike m₂ → ∃ m₂',
        Statement.randomizeAll.run call₂ line₂ m₂ = .ok .next m₂' ∧ m'.Alike m₂' :=
  ⟨_, Statement.randomizeAll_apply call line m, m.randomizes_randomized,
    fun call₂ line₂ m₂ h ↦ ⟨_, Statement.randomizeAll_apply call₂ line₂ m₂, h.randomized⟩⟩

/-- A variable of the program that is in sight in a call, and one of the call, get the same value
of the same generator. -/
theorem randomizes_in_call_as_in_program :
    let generator := Generator.ofTape [1, 9223372036854775808]
    let program : Machine := { store := (Store.declare {} "x" (.item .int) false).enter, generator }
    let inCall : Machine := { store := (Store.enter {}).declare "x" (.item .int) false, generator }
    program.Alike inCall ∧ ∀ call line, ∃ m₁ m₂,
      Statement.randomizeAll.run call line program = .ok .next m₁ ∧
      Statement.randomizeAll.run call line inCall = .ok .next m₂ ∧ m₁.Alike m₂ := by
  intro generator program inCall
  have h : program.Alike inCall := by
    refine ⟨fun name ↦ ?_, rfl⟩
    show (Store.declare {} "x" _ false).lookup? name =
      ((Store.enter {}).declare "x" _ false).lookup? name
    rw [Store.declare, Store.declare, Store.lookup?_put, Store.lookup?_put]
    rfl
  refine ⟨h, fun call line ↦ ?_⟩
  obtain ⟨m₁, hm₁, -, htwo⟩ := randomizeAll_randomizes call line program
  obtain ⟨m₂, hm₂, halike⟩ := htwo call line inCall h
  exact ⟨m₁, m₂, hm₁, hm₂, halike⟩

end Haklang
