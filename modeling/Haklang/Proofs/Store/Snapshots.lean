import Haklang.Proofs.Execution.Frames
import Mathlib.Data.Finmap
import Mathlib.Data.Finset.Sort
import Mathlib.Data.String.Basic

/-!
# Frames against snapshots

A store keeps one logical table of variables spread over many frames: each frame has only what was
written in it, and shows what the frames below it have under all other names. `SnapshotStore` is the
same thing without that economy. It has, for the program and for every call in progress, a complete
map of the variables in sight. A call starts with a copy of the map of its caller and the end of a
call throws the map away, so nothing is ever looked up or copied from below.

Nobody can tell the two apart (`Store.trace_eq_snapshots`). Whatever operations are carried out,
failing ones included, each gives the same answer on both sides, and after each of them every name
stands for the same, the names in sight are the same and so is the number of calls in progress.

The two go side by side (`SnapshotStore.Describes`): the snapshot at each height is what can be
looked up from that frame downwards. A write in the innermost frame changes what is looked up from
there exactly as it changes the topmost map (`Describes.write`), and the copy that a store makes
before it changes a variable of an outer frame shows nowhere (`Describes.own`), also when the change
then fails. The frames below the innermost one are never touched, and neither are the maps below the
topmost one.
-/

namespace Haklang

/-! ### Stacks of snapshots -/

/-- All variables in sight at one moment. -/
abbrev Snapshot : Type := Finmap fun _ : String ↦ Variable

/-- A store that keeps all variables in sight, once for the program and once for each call in
progress. -/
structure SnapshotStore where
  /-- The variables in sight from the innermost call. -/
  top : Snapshot := ∅
  /-- Those in sight from its callers, the innermost one first, and from the program. -/
  outer : List Snapshot := []
  /-- The functions. -/
  functions : Table Function := {}
  /-- The stack, its top first. -/
  stack : List Value := []

namespace SnapshotStore

/-- The store with a variable in the topmost map. -/
def write (r : SnapshotStore) (name : String) (v : Variable) : SnapshotStore :=
  { r with top := r.top.insert name v }

/-- A call starts with all that its caller sees. -/
def enter (r : SnapshotStore) : SnapshotStore := { r with outer := r.top :: r.outer }

/-- The end of a call throws the topmost map away; the last map stays. -/
def exit (r : SnapshotStore) : SnapshotStore :=
  match r.outer with
  | [] => r
  | map :: rest => { r with top := map, outer := rest }

/-- The variable of a name; there has to be one. -/
def get (r : SnapshotStore) (name : String) : Except Fault Variable :=
  match r.top.lookup name with
  | some v => .ok v
  | none => .error (.undefinedVariable name)

/-- Declares a variable that holds what its type starts with. -/
def declare (r : SnapshotStore) (name : String) (tag : TypeTag) (shielded : Bool) :
    SnapshotStore :=
  r.write name { value := .default tag, tag, shielded }

/-- Changes a variable and gives it as it was before. -/
def alter (r : SnapshotStore) (name : String) (f : Variable → Variable) :
    Except Fault Variable × SnapshotStore :=
  match r.top.lookup name with
  | some v => (.ok v, r.write name (f v))
  | none => (.error (.undefinedVariable name), r)

/-- Gives a variable the value that `f` computes from it. -/
def update (r : SnapshotStore) (name : String) (f : Variable → Except Fault Value) :
    Except Fault Unit × SnapshotStore :=
  match r.top.lookup name with
  | none => (.error (.undefinedVariable name), r)
  | some v =>
    match f v with
    | .ok value => (.ok (), r.write name { v with value })
    | .error e => (.error e, r)

/-- Stores a value, converted to the type of the variable. -/
def set (r : SnapshotStore) (name : String) (value : Value) :
    Except Fault Unit × SnapshotStore :=
  match r.top.lookup name with
  | none => (.error (.undefinedVariable name), r)
  | some v =>
    match value.convert? v.tag with
    | some w => (.ok (), r.write name { v with value := w })
    | none => (.error (.store value.kind v.tag name), r)

/-- Declares a variable with the type of a value, holding the value; the shield stays. -/
def bind (r : SnapshotStore) (name : String) (value : Value) : SnapshotStore :=
  match r.top.lookup name with
  | some v => r.write name { value := value.stored, tag := value.typeTag, shielded := v.shielded }
  | none => r.write name { value := value.stored, tag := value.typeTag, shielded := false }

/-- Stores the value in an existing variable, or declares one. -/
def assign (r : SnapshotStore) (name : String) (value : Value) :
    Except Fault Unit × SnapshotStore :=
  match r.top.lookup name with
  | some _ => r.set name value
  | none => (.ok (), r.bind name value)

/-- Declares a parameter. -/
def define (r : SnapshotStore) (name : String) (value : Value) : SnapshotStore :=
  r.write name { value, tag := value.typeTag, shielded := false }

/-- Takes the top value from the stack; there has to be one. -/
def pop (r : SnapshotStore) : Except Fault Value × SnapshotStore :=
  match r.stack with
  | [] => (.error .emptyStack, r)
  | value :: rest => (.ok value, { r with stack := rest })

end SnapshotStore

namespace Store

/-! ### Operations and what can be seen after them -/

/-- Copies a variable into the innermost frame, gives it, and changes it there. -/
def alter (s : Store) (name : String) (f : Variable → Variable) : Except Fault Variable × Store :=
  match s.own name with
  | (.ok v, s) => (.ok v, s.put name (f v))
  | (.error e, s) => (.error e, s)

/-- An operation that may change a store. -/
inductive Operation where
  /-- Declares a variable. -/
  | declare (name : String) (tag : TypeTag) (shielded : Bool)
  /-- Stores a value in a variable. -/
  | set (name : String) (value : Value)
  /-- Assigns a value. -/
  | assign (name : String) (value : Value)
  /-- Declares a variable with the type of a value. -/
  | bind (name : String) (value : Value)
  /-- Declares a parameter. -/
  | define (name : String) (value : Value)
  /-- Asks for a variable in order to change it, and leaves it as it is. -/
  | own (name : String)
  /-- Asks for a variable and changes it. -/
  | alter (name : String) (f : Variable → Variable)
  /-- Asks for a variable and gives it a value computed from it, which may fail. -/
  | update (name : String) (f : Variable → Except Fault Value)
  /-- Starts a call. -/
  | enter
  /-- Ends a call. -/
  | exit
  /-- Defines a function. -/
  | defineFunction (name : String) (f : Function)
  /-- Pushes a value. -/
  | push (value : Value)
  /-- Pops a value. -/
  | pop

/-- What an operation gives if it does not fail. -/
inductive Answer where
  /-- Nothing. -/
  | done
  /-- A variable. -/
  | variable (v : Variable)
  /-- A value. -/
  | value (v : Value)
deriving DecidableEq

/-- All that can be asked about a store without changing it. -/
structure Observation where
  /-- What a name stands for, if it stands for anything. -/
  lookup : String → Option Variable
  /-- What a name stands for, or the fault that it stands for nothing. -/
  get : String → Except Fault Variable
  /-- Whether what a name stands for is shielded, or the same fault. -/
  shielded : String → Except Fault Bool
  /-- The names in sight. -/
  names : List String
  /-- The number of calls in progress. -/
  depth : Nat
  /-- The functions. -/
  function : String → Except Fault Function
  /-- The stack. -/
  stack : List Value

/-- An answer as one of an operation. -/
def answered {σ α : Type} (f : α → Answer) (r : Except Fault α × σ) : Except Fault Answer × σ :=
  (r.1.map f, r.2)

/-- Carries an operation out. -/
def Operation.run : Operation → Store → Except Fault Answer × Store
  | declare name tag shielded, s => (.ok .done, s.declare name tag shielded)
  | set name value, s => answered (fun _ ↦ .done) (s.set name value)
  | assign name value, s => answered (fun _ ↦ .done) (s.assign name value)
  | bind name value, s => (.ok .done, s.bind name value)
  | define name value, s => (.ok .done, s.define name value)
  | own name, s => answered .variable (s.own name)
  | alter name f, s => answered .variable (s.alter name f)
  | update name f, s => answered (fun _ ↦ .done) (s.update name f)
  | enter, s => (.ok .done, s.enter)
  | exit, s => (.ok .done, s.exit)
  | defineFunction name f, s => (.ok .done, s.defineFunction name f)
  | push value, s => (.ok .done, s.push value)
  | pop, s => answered .value s.pop

/-- Carries an operation out on snapshots. -/
def Operation.runOnSnapshots : Operation → SnapshotStore → Except Fault Answer × SnapshotStore
  | declare name tag shielded, r => (.ok .done, r.declare name tag shielded)
  | set name value, r => answered (fun _ ↦ .done) (r.set name value)
  | assign name value, r => answered (fun _ ↦ .done) (r.assign name value)
  | bind name value, r => (.ok .done, r.bind name value)
  | define name value, r => (.ok .done, r.define name value)
  | own name, r => answered .variable (r.alter name id)
  | alter name f, r => answered .variable (r.alter name f)
  | update name f, r => answered (fun _ ↦ .done) (r.update name f)
  | enter, r => (.ok .done, r.enter)
  | exit, r => (.ok .done, r.exit)
  | defineFunction name f, r => (.ok .done, { r with functions := r.functions.insert name f })
  | push value, r => (.ok .done, { r with stack := value :: r.stack })
  | pop, r => answered .value r.pop

/-- What can be seen of a store. -/
def observe (s : Store) : Observation where
  lookup := s.lookup?
  get := s.get
  shielded name := (s.get name).map Variable.shielded
  names := s.names
  depth := s.depth
  function := s.function
  stack := s.stack

/-- What can be seen of a stack of snapshots. It is read off the topmost map, and the names are
those of that map in ascending order. -/
def observeSnapshots (r : SnapshotStore) : Observation where
  lookup name := r.top.lookup name
  get := r.get
  shielded name := (r.get name).map Variable.shielded
  names := r.top.keys.sort
  depth := r.outer.length
  function name :=
    match r.functions.find? name with
    | some f => .ok f
    | none => .error (.undefinedFunction name)
  stack := r.stack

/-- The answers of operations that are carried out one after the other, each with what can be seen
after it. -/
def trace {σ : Type} (run : Operation → σ → Except Fault Answer × σ) (observe : σ → Observation)
    (s : σ) : List Operation → List (Except Fault Answer × Observation)
  | [] => []
  | op :: rest =>
    ((run op s).1, observe (run op s).2) :: trace run observe (run op s).2 rest

/-! ### Names -/

/-- The names in sight are those that can be looked up. -/
theorem mem_names_iff {s : Store} {name : String} :
    name ∈ s.names ↔ (s.lookup? name).isSome = true := by
  rw [lookup?_eq_findSome?, List.findSome?_isSome_iff]
  simp only [names, List.mem_mergeSort, List.mem_eraseDups, List.mem_flatMap, Table.mem_names_iff]

/-- Without its repetitions a list has none. -/
theorem nodup_eraseDups : ∀ names : List String, names.eraseDups.Nodup
  | [] => by simp
  | name :: rest => by
    rw [List.eraseDups_cons, List.nodup_cons]
    exact ⟨by simp [List.mem_eraseDups], nodup_eraseDups _⟩
termination_by names => names.length
decreasing_by
  have h := List.length_filter_le (fun other ↦ !other == name) rest
  simp only [List.length_cons]
  omega

/-- The names in sight are in ascending order, and each is there once. -/
theorem pairwise_names (s : Store) : s.names.Pairwise (· < ·) := by
  have hsorted : s.names.Pairwise fun a b ↦ (compare a b).isLE = true := by
    refine List.pairwise_mergeSort (fun a b c hab hbc ↦ ?_) (fun a b ↦ ?_) _
    · rw [Std.LawfulBCmp.isLE_iff_le] at hab hbc ⊢
      exact le_trans hab hbc
    · rw [Bool.or_eq_true, Std.LawfulBCmp.isLE_iff_le, Std.LawfulBCmp.isLE_iff_le]
      exact le_total a b
  have hnodup : s.names.Nodup := (List.mergeSort_perm _ _).nodup_iff.mpr (nodup_eraseDups _)
  exact (hsorted.and hnodup).imp fun h ↦
    lt_of_le_of_ne (Std.LawfulBCmp.isLE_iff_le.mp h.1) h.2

/-- The names in sight are known from what names stand for. -/
theorem names_congr {s s' : Store} (h : ∀ name, s.lookup? name = s'.lookup? name) :
    s.names = s'.names :=
  s.pairwise_names.eq_of_mem_iff s'.pairwise_names fun name ↦ by
    rw [mem_names_iff, mem_names_iff, h]

/-- A finite map that has what can be looked up has the names in sight. -/
theorem names_eq_sort {s : Store} {map : Snapshot} (h : ∀ name, s.lookup? name = map.lookup name) :
    s.names = map.keys.sort := by
  have hnodup : s.names.Nodup := s.pairwise_names.imp ne_of_lt
  have hsorted : s.names.Pairwise (· ≤ ·) := s.pairwise_names.imp le_of_lt
  have hkeys : s.names.toFinset = map.keys := by
    ext name
    rw [List.mem_toFinset, mem_names_iff, h, Finmap.mem_keys, Finmap.lookup_isSome]
  rw [← hkeys]
  exact ((List.toFinset_sort (· ≤ ·) hnodup).mpr hsorted).symm

end Store

/-! ### The two side by side -/

/-- What can be looked up from each frame downwards. -/
def Frame.views : List Frame → List (String → Option Variable)
  | [] => []
  | f :: outer => (fun name ↦ (f :: outer).findSome? (·.find? name)) :: views outer

namespace Store

/-- From the innermost frame downwards there is what can be looked up in the store. -/
theorem views_frames (s : Store) :
    Frame.views s.frames = s.lookup? :: Frame.views s.frames.tail := by
  have hlookup : s.lookup? = fun name ↦ s.frames.findSome? (·.find? name) :=
    funext s.lookup?_eq_findSome?
  rw [hlookup]
  cases h : s.frames with
  | nil => simp [frames] at h
  | cons f outer => rfl

/-- The depth is the number of views of the frames behind the innermost one. -/
theorem depth_eq_length_views (s : Store) : s.depth = (Frame.views s.frames.tail).length := by
  have hlength : ∀ fs, (Frame.views fs).length = fs.length := by
    intro fs
    induction fs with
    | nil => rfl
    | cons f outer ih => rw [Frame.views, List.length_cons, ih, List.length_cons]
  rw [hlength, List.length_tail, length_frames, Nat.add_sub_cancel]

end Store

namespace SnapshotStore

/-- A stack of snapshots describes a store if the snapshot at each height is what can be looked up
from that frame downwards. -/
structure Describes (r : SnapshotStore) (s : Store) : Prop where
  /-- The topmost map is what can be looked up in the store. -/
  top : ∀ name, s.lookup? name = r.top.lookup name
  /-- The maps below are what can be looked up from the frames below. -/
  outer : Frame.views s.frames.tail = r.outer.map fun map name ↦ map.lookup name
  /-- The functions are the same. -/
  functions : s.functions = r.functions
  /-- The stack is the same. -/
  stack : s.stack = r.stack

/-- The answers are the same, and so is what can be seen afterwards. -/
def Agree {α : Type} (x : Except Fault α × Store) (y : Except Fault α × SnapshotStore) : Prop :=
  x.1 = y.1 ∧ Describes y.2 x.2

variable {r : SnapshotStore} {s : Store}

/-- What is read is the same, or it is undefined in both. -/
theorem Describes.get (h : Describes r s) (name : String) : s.get name = r.get name := by
  -- both read what the name stands for in the same way
  let found : Option Variable → Except Fault Variable
    | some v => .ok v
    | none => .error (.undefinedVariable name)
  show found (s.lookup? name) = found (r.top.lookup name)
  rw [h.top]

/-- A description says all that can be seen. -/
theorem Describes.observe (h : Describes r s) : s.observe = Store.observeSnapshots r := by
  have hlookup : s.lookup? = fun name ↦ r.top.lookup name := funext h.top
  have hget : s.get = r.get := funext h.get
  have hdepth : s.depth = r.outer.length := by
    rw [s.depth_eq_length_views, h.outer, List.length_map]
  have hfunction : s.function = fun name ↦
      match r.functions.find? name with
      | some f => .ok f
      | none => .error (.undefinedFunction name) := by
    rw [← h.functions]
    exact funext fun _ ↦ rfl
  rw [Store.observe, Store.observeSnapshots, hlookup, hget, Store.names_eq_sort h.top, hdepth,
    hfunction, h.stack]

/-! ### Writing -/

/-- A write in the innermost frame is a write in the topmost map. -/
theorem Describes.write (h : Describes r s) (name : String) (v : Variable) :
    Describes (r.write name v) (s.put name v) where
  top other := by
    rw [Store.lookup?_put, SnapshotStore.write]
    split
    case isTrue ho => rw [ho, Finmap.lookup_insert]
    case isFalse ho => rw [Finmap.lookup_insert_of_ne _ ho, h.top]
  outer := by
    rw [Store.tail_frames_put]
    exact h.outer
  functions := (s.functions_put _ _).trans h.functions
  stack := (s.stack_put _ _).trans h.stack

/-- The copy of a variable of an outer frame does not show. -/
theorem Describes.put_of_lookup? (h : Describes r s) {name : String} {v : Variable}
    (hv : s.lookup? name = some v) : Describes r (s.put name v) where
  top other := by
    rw [Store.lookup?_put]
    split
    case isTrue ho => rw [← h.top, ho, hv]
    case isFalse => exact h.top other
  outer := by
    rw [Store.tail_frames_put]
    exact h.outer
  functions := (s.functions_put _ _).trans h.functions
  stack := (s.stack_put _ _).trans h.stack

/-- A copy of a variable in the innermost frame is not seen. -/
theorem Describes.own (h : Describes r s) (name : String) : Describes r (s.own name).2 := by
  unfold Store.own
  split
  case h_1 v hv => exact h.put_of_lookup? hv
  case h_2 => exact h

/-- A variable that is bound keeps the shield of the one that was in sight, in both. -/
theorem Describes.bind (h : Describes r s) (name : String) (value : Value) :
    Describes (r.bind name value) (s.bind name value) := by
  unfold Store.bind SnapshotStore.bind
  rw [h.top]
  rcases r.top.lookup name with - | v
  · exact h.write name _
  · exact h.write name _

/-- Where a change fails, the variable has been copied at most. -/
theorem Describes.agree_update (h : Describes r s) (name : String)
    (f : Variable → Except Fault Value) : Agree (s.update name f) (r.update name f) := by
  unfold Store.update SnapshotStore.update
  rw [h.top]
  rcases r.top.lookup name with - | v
  · exact ⟨rfl, h⟩
  · dsimp only
    rcases f v with e | value
    · exact ⟨rfl, h.own name⟩
    · exact ⟨rfl, h.write name _⟩

/-- Storing is a change that computes the value by conversion. -/
theorem Describes.agree_set (h : Describes r s) (name : String) (value : Value) :
    Agree (s.set name value) (r.set name value) := by
  have hset : r.set name value = r.update name fun v ↦
      match value.convert? v.tag with
      | some w => .ok w
      | none => .error (.store value.kind v.tag name) := by
    unfold SnapshotStore.set SnapshotStore.update
    rcases r.top.lookup name with - | v
    · rfl
    · dsimp only
      rcases value.convert? v.tag with - | w <;> rfl
  rw [hset]
  exact h.agree_update name _

/-- An assignment finds a variable in both or in none, so it sets or binds it in both. -/
theorem Describes.agree_assign (h : Describes r s) (name : String) (value : Value) :
    Agree (s.assign name value) (r.assign name value) := by
  unfold Store.assign SnapshotStore.assign
  rw [h.top]
  rcases r.top.lookup name with - | v
  · exact ⟨rfl, h.bind name value⟩
  · exact h.agree_set name value

/-- What is asked for in order to be changed is copied and then changed, which is one write. -/
theorem Describes.agree_alter (h : Describes r s) (name : String) (f : Variable → Variable) :
    Agree (s.alter name f) (r.alter name f) := by
  have htop := h.top name
  unfold Store.alter SnapshotStore.alter Store.own
  rcases hv : s.lookup? name with - | v <;> rw [hv] at htop <;> rw [← htop]
  · exact ⟨rfl, h⟩
  · exact ⟨rfl, (h.put_of_lookup? hv).write name (f v)⟩

/-- What is asked for and left as it is has at most been copied. -/
theorem Describes.agree_own (h : Describes r s) (name : String) :
    Agree (s.own name) (r.alter name id) := by
  have htop := h.top name
  unfold SnapshotStore.alter Store.own
  rcases hv : s.lookup? name with - | v <;> rw [hv] at htop <;> rw [← htop]
  · exact ⟨rfl, h⟩
  · exact ⟨rfl, h.write name v⟩

/-- Popping gives the same value from the same stack, or fails in both. -/
theorem Describes.agree_pop (h : Describes r s) : Agree s.pop r.pop := by
  unfold Store.pop SnapshotStore.pop
  rw [h.stack]
  rcases hstack : r.stack with - | ⟨value, rest⟩
  · exact ⟨rfl, h⟩
  · exact ⟨rfl, ⟨h.top, h.outer, h.functions, rfl⟩⟩

/-! ### Calls -/

/-- An empty frame on top shows what is below it. -/
theorem Describes.enter (h : Describes r s) : Describes r.enter s.enter where
  top name := by
    have hempty : s.enter.lookup? name = s.lookup? name := by
      rw [Store.lookup?_eq_findSome?, Store.lookup?_eq_findSome?]
      rfl
    rw [hempty]
    exact h.top name
  outer := by
    rw [Store.tail_frames_enter, s.views_frames, h.outer, funext h.top]
    rfl
  functions := h.functions
  stack := h.stack

/-- Without its innermost frame a store shows what can be looked up from the next one. Outside of
calls there is nothing to leave. -/
theorem Describes.exit (h : Describes r s) : Describes r.exit s.exit := by
  have houter := h.outer
  unfold SnapshotStore.exit
  by_cases hcalls : s.calls = []
  · have hexit : s.exit = s := by rw [Store.exit, hcalls, List.tail_nil, ← hcalls]
    have hnil : r.outer = [] := by
      rw [Store.frames, hcalls] at houter
      exact List.map_eq_nil_iff.mp houter.symm
    rw [hexit, hnil]
    exact h
  · rw [← Store.frames_exit hcalls, s.exit.views_frames] at houter
    rcases hr : r.outer with - | ⟨map, rest⟩ <;> rw [hr] at houter
    · cases houter
    · obtain ⟨htop, hrest⟩ := List.cons.inj houter
      exact ⟨fun name ↦ congrFun htop name, hrest, h.functions, h.stack⟩

/-! ### Runs -/

/-- What is agreed on is answered in the same way. -/
theorem Agree.answered {α : Type} {x : Except Fault α × Store} {y : Except Fault α × SnapshotStore}
    (h : Agree x y) (f : α → Store.Answer) : Agree (Store.answered f x) (Store.answered f y) :=
  ⟨congrArg (Except.map f) h.1, h.2⟩

/-- Every operation agrees. -/
theorem Describes.agree_run (h : Describes r s) (op : Store.Operation) :
    Agree (op.run s) (op.runOnSnapshots r) := by
  cases op with
  | declare name tag shielded => exact ⟨rfl, h.write name _⟩
  | set name value => exact (h.agree_set name value).answered _
  | assign name value => exact (h.agree_assign name value).answered _
  | bind name value => exact ⟨rfl, h.bind name value⟩
  | define name value => exact ⟨rfl, h.write name _⟩
  | own name => exact (h.agree_own name).answered _
  | alter name f => exact (h.agree_alter name f).answered _
  | update name f => exact (h.agree_update name f).answered _
  | enter => exact ⟨rfl, h.enter⟩
  | exit => exact ⟨rfl, h.exit⟩
  | defineFunction name f =>
    exact ⟨rfl, h.top, h.outer, congrArg (·.insert name f) h.functions, h.stack⟩
  | push value => exact ⟨rfl, h.top, h.outer, h.functions, congrArg (value :: ·) h.stack⟩
  | pop => exact h.agree_pop.answered _

/-- A described store stays described, so all that can be seen on the way is the same. The
induction is on the operations. -/
theorem Describes.trace_eq (h : Describes r s) (ops : List Store.Operation) :
    Store.trace Store.Operation.run Store.observe s ops =
      Store.trace Store.Operation.runOnSnapshots Store.observeSnapshots r ops := by
  induction ops generalizing r s with
  | nil => rfl
  | cons op rest ih =>
    obtain ⟨hanswer, hafter⟩ := h.agree_run op
    rw [Store.trace, Store.trace, hanswer, hafter.observe, ih hafter]

/-- An empty snapshot describes an empty store. -/
theorem describes_empty : Describes {} {} := ⟨fun _ ↦ rfl, rfl, rfl, rfl⟩

end SnapshotStore

namespace Store

/-- Names are observed in ascending order, each of them once. -/
theorem names_of_mem_trace {s : Store} {ops : List Operation}
    {step : Except Fault Answer × Observation} (h : step ∈ trace Operation.run observe s ops) :
    step.2.names.Pairwise (· < ·) := by
  induction ops generalizing s with
  | nil => cases h
  | cons op rest ih =>
    rw [trace, List.mem_cons] at h
    rcases h with rfl | h
    · exact pairwise_names _
    · exact ih h

/-- Copy on write cannot be told from full snapshots. From the empty store, any operations in any
order, failing ones included, give the same answers as on a stack of complete maps, of which only
the topmost one is ever read and written; and after each of them every name stands for the same, as
do the names in sight, the number of calls, the functions and the stack. The names are in ascending
order, and each is there once. -/
theorem trace_eq_snapshots (ops : List Operation) :
    trace Operation.run observe {} ops =
        trace Operation.runOnSnapshots observeSnapshots {} ops ∧
      ∀ step ∈ trace Operation.run observe {} ops, step.2.names.Pairwise (· < ·) :=
  ⟨SnapshotStore.describes_empty.trace_eq ops, fun _ h ↦ names_of_mem_trace h⟩

end Store

end Haklang
