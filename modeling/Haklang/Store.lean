import Haklang.Table
import Haklang.Fault
import Haklang.Tree
import Haklang.Value.Conversion

/-!
# The store

What a program remembers between statements: its variables, its functions and a stack of values.

Variables live in frames, one for the program and one for every call in progress. A name is looked
up from the innermost frame outwards, so a function sees the variables of its callers; but only the
innermost frame is ever written. To change a variable of an outer frame is to copy it into the
innermost one, and when a call ends, its frame and with it all its changes are gone.

`Store.put` is the one operation that writes a variable. `lookup?_put` says what it does to the
view `lookup?`, and `calls_put_of_cons` that it leaves all outer frames alone.
-/

namespace Haklang

/-- A variable. -/
structure Variable where
  /-- What it holds. -/
  value : Value
  /-- Its type. -/
  tag : TypeTag
  /-- Whether it keeps its value when all variables are randomized. -/
  shielded : Bool
deriving DecidableEq

/-- A function: its parameters and the trees of its body. -/
structure Function where
  /-- The names of the parameters. -/
  params : List String
  /-- The body. -/
  body : List Tree

/-- The variables of the program or of one call. -/
abbrev Frame : Type := Table Variable

/-- Variables, functions and the stack. -/
structure Store where
  /-- The variables of the program. -/
  globals : Frame := {}
  /-- The variables of the calls in progress, the innermost call first. -/
  calls : List Frame := []
  /-- The functions. -/
  functions : Table Function := {}
  /-- The stack, its top first. -/
  stack : List Value := []

namespace Store

instance : Inhabited Store := ⟨{}⟩

/-! ### Frames -/

/-- All frames, the innermost first. -/
def frames (s : Store) : List Frame := s.calls ++ [s.globals]

/-- The number of calls in progress. -/
def depth (s : Store) : Nat := s.calls.length

/-- The innermost frame. -/
def top (s : Store) : Frame := s.calls.headD s.globals

/-- The store with another innermost frame. -/
def withTop (s : Store) (f : Frame) : Store :=
  match s.calls with
  | [] => { s with globals := f }
  | _ :: outer => { s with calls := f :: outer }

/-- The store at the start of a call. -/
def enter (s : Store) : Store := { s with calls := {} :: s.calls }

/-- The store after the innermost call. -/
def exit (s : Store) : Store := { s with calls := s.calls.tail }

/-- The variable that a name stands for: that of the innermost frame that has one. -/
def lookup? (s : Store) (name : String) : Option Variable :=
  match s.calls.findSome? (·.find? name) with
  | some v => some v
  | none => s.globals.find? name

/-- Writes a variable in the innermost frame. -/
def put (s : Store) (name : String) (v : Variable) : Store := s.withTop (s.top.insert name v)

@[simp] theorem top_withTop (s : Store) (f : Frame) : (s.withTop f).top = f := by
  unfold withTop
  split <;> simp [top, *]

@[simp] theorem depth_withTop (s : Store) (f : Frame) : (s.withTop f).depth = s.depth := by
  unfold withTop
  split <;> simp [depth, *]

@[simp] theorem depth_put (s : Store) (name : String) (v : Variable) :
    (s.put name v).depth = s.depth := depth_withTop _ _

theorem frames_put (s : Store) (name : String) (v : Variable) :
    (s.put name v).frames = s.top.insert name v :: s.frames.tail := by
  cases h : s.calls <;> simp [frames, put, withTop, top, h]

@[simp] theorem functions_put (s : Store) (name : String) (v : Variable) :
    (s.put name v).functions = s.functions := by
  unfold put withTop
  split <;> rfl

@[simp] theorem stack_put (s : Store) (name : String) (v : Variable) :
    (s.put name v).stack = s.stack := by
  unfold put withTop
  split <;> rfl

@[simp] theorem exit_enter (s : Store) : s.enter.exit = s := rfl

theorem lookup?_eq_findSome? (s : Store) (name : String) :
    s.lookup? name = s.frames.findSome? (·.find? name) := by
  cases h : s.calls.findSome? (·.find? name) <;> simp [lookup?, frames, h, List.findSome?_append]

theorem lookup?_eq (s : Store) (name : String) :
    s.lookup? name = (s.top.find? name).or (s.exit.frames.findSome? (·.find? name)) := by
  cases hc : s.calls with
  | nil => cases h : s.globals.find? name <;> simp [lookup?_eq_findSome?, frames, top, exit, hc, h]
  | cons f outer => cases h : f.find? name <;> simp [lookup?_eq_findSome?, frames, top, exit, hc, h]

/-- Writing in a call leaves the frames of its callers alone. -/
theorem calls_put_of_cons {s : Store} {f : Frame} {outer : List Frame} (h : s.calls = f :: outer)
    (name : String) (v : Variable) :
    (s.put name v).calls = f.insert name v :: outer ∧ (s.put name v).globals = s.globals := by
  simp [put, withTop, top, h]

/-- Writing changes what the written name stands for and nothing else. -/
theorem lookup?_put (s : Store) (name other : String) (v : Variable) :
    (s.put name v).lookup? other = if other = name then some v else s.lookup? other := by
  by_cases h : other = name
  · subst h
    simp [lookup?_eq, put]
  · cases hc : s.calls <;>
      simp [lookup?_eq_findSome?, frames, put, withTop, top, hc, List.findSome?_cons,
        Table.find?_insert_of_ne _ h, h]

/-! ### Variables -/

/-- The variable that a name stands for; there has to be one. -/
def get (s : Store) (name : String) : Except Fault Variable :=
  match s.lookup? name with
  | some v => .ok v
  | none => .error (.undefinedVariable name)

/-- Declares a variable in the innermost frame, holding what its type starts with. -/
def declare (s : Store) (name : String) (tag : TypeTag) (shielded : Bool) : Store :=
  s.put name { value := .default tag, tag, shielded }

/-- Copies a variable into the innermost frame and gives it; there has to be one of that name. -/
def own (s : Store) (name : String) : Except Fault Variable × Store :=
  match s.lookup? name with
  | some v => (.ok v, s.put name v)
  | none => (.error (.undefinedVariable name), s)

/-- Copying a variable changes nothing that can be looked up. -/
theorem lookup?_own (s : Store) (name other : String) :
    (s.own name).2.lookup? other = s.lookup? other := by
  unfold own
  split
  case h_1 v h =>
    rw [lookup?_put]
    split
    case isTrue ho => rw [ho, h]
    case isFalse => rfl
  case h_2 => rfl

/-- Gives a variable the value that `f` computes from it, in the innermost frame; its type and its
shield stay. When `f` fails, the variable is copied and not changed. -/
def update (s : Store) (name : String) (f : Variable → Except Fault Value) :
    Except Fault Unit × Store :=
  match s.lookup? name with
  | none => (.error (.undefinedVariable name), s)
  | some v =>
    match f v with
    | .ok value => (.ok (), s.put name { v with value })
    | .error e => (.error e, (s.own name).2)

/-- Stores a value in a variable, converted to its type. -/
def set (s : Store) (name : String) (value : Value) : Except Fault Unit × Store :=
  s.update name fun v ↦
    match value.convert? v.tag with
    | some w => .ok w
    | none => .error (.store value.kind v.tag name)

/-- Declares a variable with the type of a value, holding the value. An existing variable of the
name gives its shield. -/
def bind (s : Store) (name : String) (value : Value) : Store :=
  let shielded := ((s.lookup? name).map Variable.shielded).getD false
  s.put name { value := value.stored, tag := value.typeTag, shielded }

/-- Assignment: stores the value in an existing variable, or declares one. -/
def assign (s : Store) (name : String) (value : Value) : Except Fault Unit × Store :=
  match s.lookup? name with
  | some _ => s.set name value
  | none => (.ok (), s.bind name value)

/-- Declares a parameter in the innermost frame. -/
def define (s : Store) (name : String) (value : Value) : Store :=
  s.put name { value, tag := value.typeTag, shielded := false }

/-- The names of all variables in sight, in ascending order. -/
def names (s : Store) : List String :=
  (s.frames.flatMap Table.names).eraseDups.mergeSort fun a b ↦ (compare a b).isLE

/-! ### Functions and the stack -/

/-- Defines a function, in place of any other of its name. -/
def defineFunction (s : Store) (name : String) (f : Function) : Store :=
  { s with functions := s.functions.insert name f }

/-- The function of a name; there has to be one. -/
def function (s : Store) (name : String) : Except Fault Function :=
  match s.functions.find? name with
  | some f => .ok f
  | none => .error (.undefinedFunction name)

/-- Pushes a value on the stack. -/
def push (s : Store) (value : Value) : Store := { s with stack := value :: s.stack }

/-- Takes the top value from the stack; there has to be one. -/
def pop (s : Store) : Except Fault Value × Store :=
  match s.stack with
  | [] => (.error .emptyStack, s)
  | value :: rest => (.ok value, { s with stack := rest })

end Store

end Haklang
