import Haklang.Machine

/-!
# Arguments

The arguments that the program is started with. An argument is one of these:

* `--` and a name, a long option; a value may follow after an equals sign;
* `-` and at least one letter, a cluster of short options; what follows the letter of an option
  with a value is that value, also after an equals sign;
* `--` alone, after which every argument is positional;
* anything else, a positional argument; there may be one, the path of a program.

An option that has no value yet takes the next argument, unless that looks like options itself.
Arguments are read in order, and reading ends at the first that is wrong or that asks for the
version or for help, so what comes after it does not matter.
-/

namespace Haklang

/-- The options. -/
inductive Switch where
  /-- The program itself follows. -/
  | eval
  /-- Start the prompt after the program. -/
  | interactive
  /-- The seed of the generator. -/
  | seed
  /-- The limit on iterations. -/
  | iterations
  /-- The limit on the depth of calls. -/
  | callDepth
  /-- Show a summary of the options. -/
  | help
  /-- Show the version. -/
  | version
deriving DecidableEq, Repr

namespace Switch

/-- All options. -/
def all : List Switch := [eval, interactive, seed, iterations, callDepth, help, version]

/-- The long name. -/
def name : Switch → String
  | eval => "eval"
  | interactive => "interactive"
  | seed => "seed"
  | iterations => "max-iterations"
  | callDepth => "max-call-depth"
  | help => "help"
  | version => "version"

/-- The letter, if there is one. -/
def letter? : Switch → Option Char
  | eval => some 'e'
  | interactive => some 'i'
  | seed => none
  | iterations => none
  | callDepth => none
  | help => some 'h'
  | version => some 'V'

/-- Whether a value belongs to the option. -/
def takesValue : Switch → Bool
  | eval => true
  | interactive => false
  | seed => true
  | iterations => true
  | callDepth => true
  | help => false
  | version => false

/-- The option of a long name. -/
def ofName? (name : List Char) : Option Switch := all.find? fun s ↦ s.name.toList = name

/-- The option of a letter. -/
def ofLetter? (c : Char) : Option Switch := all.find? fun s ↦ s.letter? = some c

theorem mem_all (s : Switch) : s ∈ all := by cases s <;> decide

@[simp] theorem ofName?_name (s : Switch) : ofName? s.name.toList = some s := by
  cases s <;> decide +kernel

end Switch

/-- What is wrong with arguments. -/
inductive Misuse where
  /-- There is no such option. -/
  | unknown (argument : String)
  /-- An option has no value. -/
  | missingValue (s : Switch)
  /-- An option without value was given one. -/
  | unwantedValue (s : Switch)
  /-- An option was given twice. -/
  | repeated (s : Switch)
  /-- A value is no number of 64 bits. -/
  | badNumber (s : Switch) (value : String)
  /-- The path is empty. -/
  | emptyPath
  /-- There is a second positional argument. -/
  | superfluous (argument : String)
deriving DecidableEq, Repr

/-- The message about a misuse. -/
def Misuse.render : Misuse → String
  | unknown argument => "unexpected argument '" ++ argument ++ "'"
  | missingValue s => "a value is required for '--" ++ s.name ++ "'"
  | unwantedValue s => "no value is allowed for '--" ++ s.name ++ "'"
  | repeated s => "'--" ++ s.name ++ "' cannot be used twice"
  | badNumber s value => "invalid value '" ++ value ++ "' for '--" ++ s.name ++ "'"
  | emptyPath => "the path of the program is empty"
  | superfluous argument => "unexpected argument '" ++ argument ++ "'"

/-- Why reading the arguments ends before the last one. -/
inductive Interruption where
  /-- The summary of the options was asked for. -/
  | help
  /-- The version was asked for. -/
  | version
  /-- An argument is wrong. -/
  | misuse (m : Misuse)
deriving DecidableEq, Repr

/-- What arguments say. -/
structure Arguments where
  /-- The program itself. -/
  eval? : Option String := none
  /-- The path of a program. -/
  path? : Option String := none
  /-- Whether to start the prompt after the program. -/
  interactive : Bool := false
  /-- The seed of the generator. -/
  seed? : Option UInt64 := none
  /-- The limit on iterations. -/
  iterations? : Option Nat := none
  /-- The limit on the depth of calls. -/
  callDepth? : Option Nat := none
deriving DecidableEq, Repr

namespace Arguments

/-- The number of 64 bits that digits stand for, after a plus sign or none. -/
def number? (cs : List Char) : Option UInt64 :=
  match Numeral.read? ((Text.after? ['+'] cs).getD cs) with
  | some n => if n < UInt64.size then some (UInt64.ofNat n) else none
  | none => none

/-- What is written is read back. -/
theorem number?_write (n : UInt64) : number? (Numeral.write n.toNat) = some n := by
  have hsign : Text.after? ['+'] (Numeral.write n.toNat) = none := by
    cases hw : Numeral.write n.toNat with
    | nil => rfl
    | cons c rest =>
      have hc : c.isDigit = true := Numeral.isDigit_of_mem_write (hw ▸ List.mem_cons_self)
      rw [Text.after?, if_neg]
      rintro rfl
      exact absurd hc (by decide)
  simp [number?, hsign, n.toNat_lt]

/-- The number that is the value of an option. -/
def numberOf (s : Switch) (value : List Char) : Except Interruption UInt64 :=
  match number? value with
  | some n => .ok n
  | none => .error (.misuse (.badNumber s (String.ofList value)))

/-- Refuses an option that was given before. -/
def once {α : Type} (s : Switch) : Option α → Except Interruption Unit
  | none => .ok ()
  | some _ => .error (.misuse (.repeated s))

/-- Takes an option with its value. -/
def give (a : Arguments) (s : Switch) (value : List Char) : Except Interruption Arguments :=
  match s with
  | .eval => do
    once s a.eval?
    return { a with eval? := some (String.ofList value) }
  | .seed => do
    once s a.seed?
    return { a with seed? := some (← numberOf s value) }
  | .iterations => do
    once s a.iterations?
    return { a with iterations? := some (← numberOf s value).toNat }
  | .callDepth => do
    once s a.callDepth?
    return { a with callDepth? := some (← numberOf s value).toNat }
  | .interactive => .error (.misuse (.unwantedValue s))
  | .help => .error (.misuse (.unwantedValue s))
  | .version => .error (.misuse (.unwantedValue s))

/-- Takes an option without value. -/
def turnOn (a : Arguments) (s : Switch) : Except Interruption Arguments :=
  match s with
  | .interactive =>
    if a.interactive then .error (.misuse (.repeated s)) else .ok { a with interactive := true }
  | .help => .error .help
  | .version => .error .version
  | .eval => .error (.misuse (.missingValue s))
  | .seed => .error (.misuse (.missingValue s))
  | .iterations => .error (.misuse (.missingValue s))
  | .callDepth => .error (.misuse (.missingValue s))

/-- Takes a positional argument. -/
def position (a : Arguments) (argument : String) : Except Interruption Arguments :=
  if a.path?.isSome then .error (.misuse (.superfluous argument))
  else if argument = "" then .error (.misuse .emptyPath)
  else .ok { a with path? := some argument }

/-- Takes a long option, and gives the option if its value is still to come. -/
def long (a : Arguments) (argument : List Char) :
    Except Interruption (Arguments × Option Switch) :=
  let (name, value?) := match Text.splitAtFirst? (· == '=') argument with
    | some (name, value) => (name, some value)
    | none => (argument, none)
  match Switch.ofName? name with
  | none => .error (.misuse (.unknown (String.ofList ('-' :: '-' :: argument))))
  | some s =>
    match value?, s.takesValue with
    | some value, _ => return (← a.give s value, none)
    | none, true => .ok (a, some s)
    | none, false => return (← a.turnOn s, none)

/-- Takes a cluster of short options, and gives the last one if its value is still to come. -/
def cluster (a : Arguments) : List Char → Except Interruption (Arguments × Option Switch)
  | [] => .ok (a, none)
  | c :: rest =>
    match Switch.ofLetter? c with
    | none => .error (.misuse (.unknown (String.ofList ['-', c])))
    | some s =>
      if s.takesValue then
        if rest = [] then .ok (a, some s)
        else return (← a.give s ((Text.after? ['='] rest).getD rest), none)
      else do
        let a ← a.turnOn s
        a.cluster rest

/-- Whether an argument looks like options, and so cannot be the value of the option before it. A
dash alone does not. -/
def looksLikeOptions (argument : String) : Bool :=
  match argument.toList with
  | '-' :: _ :: _ => true
  | _ => false

/-- Takes one argument that is not the value of an option, and gives the option if its value is
still to come. -/
def take (a : Arguments) (argument : String) : Except Interruption (Arguments × Option Switch) :=
  match argument.toList with
  | '-' :: '-' :: cs => a.long cs
  | '-' :: c :: cs => a.cluster (c :: cs)
  | _ => do return (← a.position argument, none)

/-- Reads arguments in order, after those that `a` stands for; an option may be waiting for its
value. -/
def readAll (a : Arguments) (awaiting? : Option Switch) :
    List String → Except Interruption Arguments
  | [] =>
    match awaiting? with
    | none => .ok a
    | some s => .error (.misuse (.missingValue s))
  | argument :: rest =>
    match awaiting? with
    | some s => do
      if looksLikeOptions argument then throw (.misuse (.missingValue s))
      let a ← a.give s argument.toList
      a.readAll none rest
    | none =>
      if argument = "--" then rest.foldlM position a
      else do
        let (a, awaiting?) ← a.take argument
        a.readAll awaiting? rest

/-- Reads all arguments. A seed that they do not give is taken from the environment, if it is set
there. -/
def ofList (arguments : List String) (environmentSeed? : Option String) :
    Except Interruption Arguments := do
  let a ← readAll {} none arguments
  match a.seed?, environmentSeed? with
  | none, some value => a.give .seed value.toList
  | _, _ => return a

/-- The limits that the arguments set. -/
def limits (a : Arguments) : Limits :=
  let default : Limits := {}
  { iterations := a.iterations?.getD default.iterations
    callDepth := a.callDepth?.getD default.callDepth }

end Arguments

end Haklang
