import Haklang.SourceLine
import Haklang.Value.Basic

/-!
# Faults and diagnostics

A fault is the cause of a failure, with all that its message names. Each fault belongs to one
category; the category has the name and the summary that head every message, and the fault adds
the detail. A diagnostic is a fault together with the line that failed, and `Diagnostic.render` is
the one place where its text is put together.

A line that is already there is kept: `Diagnostic.locate` gives one only to a diagnostic without, so
the innermost line that failed is the one reported (`locate_locate`).

One fault is no failure that a program reports. `Fault.noMagnitude` says that arithmetic on 64 bits
left its range where nothing checks for it. Where overflow is trapped, the run is stopped at that
point; where it wraps around, the power that was to be computed recurs without end. Neither gives an
answer. An evaluation that comes to this fault ends there, as with any other fault, and nothing that
is said of the time behind it (that a message is written, that the next deferred call runs)
describes a run. `Fault.category_eq_stopped_iff` singles it out.
-/

namespace Haklang

/-- The categories of failures. -/
inductive Fault.Category where
  /-- A line matched no rule. -/
  | unknownStatement
  /-- A variable was never declared. -/
  | undefinedVariable
  /-- A function was never defined. -/
  | undefinedFunction
  /-- A call has too few or too many arguments. -/
  | arity
  /-- A list has no item at a position. -/
  | index
  /-- An operation does not apply to a type. -/
  | type
  /-- A loop, or the queue of deferred calls, reached its limit. -/
  | runaway
  /-- A value was popped when none was left. -/
  | emptyStack
  /-- An expression has no value. -/
  | expression
  /-- Calls are nested beyond their limit. -/
  | callDepth
  /-- A file or the console failed. -/
  | inputOutput
  /-- The run itself is stopped; no failure is reported. -/
  | stopped
deriving DecidableEq, Repr

namespace Fault.Category

/-- The name that heads every message. -/
def name : Category → String
  | unknownStatement => "SyntaxError"
  | undefinedVariable => "UndefinedVariableError"
  | undefinedFunction => "UndefinedFunctionError"
  | arity => "ArityError"
  | index => "IndexError"
  | type => "TypeError"
  | runaway => "RunawayLoopError"
  | emptyStack => "EmptyStackError"
  | expression => "ExpressionError"
  | callDepth => "RecursionLimitError"
  | inputOutput => "IoError"
  | stopped => "panic"

/-- The summary after the name. -/
def summary : Category → String
  | unknownStatement => "unrecognized statement"
  | undefinedVariable => "variable is not declared"
  | undefinedFunction => "function is not defined"
  | arity => "wrong number of arguments"
  | index => "list index out of range"
  | type => "operation not supported for this type"
  | runaway => "loop exceeded the iteration limit"
  | emptyStack => "pop from an empty stack"
  | expression => "cannot evaluate expression"
  | callDepth => "call depth limit exceeded"
  | inputOutput => "input/output failure"
  | stopped => "attempt to negate with overflow"

end Fault.Category

/-- What a message says was attempted with two operands. -/
inductive Fault.Attempt where
  /-- Addition. -/
  | add
  /-- Subtraction. -/
  | subtract
  /-- Multiplication. -/
  | multiply
  /-- Division. -/
  | divide
  /-- Raising to a power. -/
  | raise
  /-- Comparison. -/
  | compare
deriving DecidableEq, Repr

/-- The verb for an attempt. -/
def Fault.Attempt.verb : Attempt → String
  | add => "add"
  | subtract => "subtract"
  | multiply => "multiply"
  | divide => "divide"
  | raise => "raise"
  | compare => "compare"

/-- The causes of failures. -/
inductive Fault where
  /-- A line that matched no rule was reached. -/
  | unrecognized (line : String)
  /-- An increment names no known step. -/
  | unknownStep (keyword : String)
  /-- A variable was never declared. -/
  | undefinedVariable (name : String)
  /-- A function was never defined. -/
  | undefinedFunction (name : String)
  /-- A function takes another number of arguments. -/
  | argumentCount (name : String) (takes got : Nat)
  /-- A list has no item at a position, counted from one. -/
  | outsideList (position : Nat) (name : String) (size : Nat)
  /-- Two operands do not go together. -/
  | operands (attempt : Fault.Attempt) (left right : ValueKind)
  /-- Lists of two kinds of items were added. -/
  | addLists (left right : ItemType)
  /-- A value does not fit the items of a list. -/
  | appendTo (value : ValueKind) (items : ItemType)
  /-- A negative number was raised to a power with places. -/
  | negativeBase
  /-- A value does not fit the type of a variable. -/
  | store (value : ValueKind) (type : TypeTag) (name : String)
  /-- A variable that holds no list was used as one. -/
  | notList (name : String)
  /-- The text of an item does not fit a list. -/
  | itemMisfit (item : String) (name : String)
  /-- A variable that holds no list was to be sorted. -/
  | sortNoList (name : String)
  /-- A pause was asked for whose length is no number. -/
  | pauseNoNumber (value : ValueKind)
  /-- A variable that holds no number was incremented. -/
  | incrementNoNumber (name : String) (value : ValueKind)
  /-- A console line cannot be read as the type of its variable. -/
  | consoleLine (line : String) (type : TypeTag) (name : String)
  /-- A condition still held after all the iterations allowed. -/
  | runawayLoop (limit : Nat)
  /-- Deferred calls were left after all the runs allowed. -/
  | runawayDeferred (limit : Nat)
  /-- A value was popped when none was left. -/
  | emptyStack
  /-- An integer result needs more than 64 bits. -/
  | integerOverflow
  /-- Zero was raised to a negative power. -/
  | zeroToNegative
  /-- A power has no finite value. -/
  | powerRange
  /-- A function that returned nothing was used for its value. -/
  | noResult (name : String)
  /-- Text that is no expression was evaluated. -/
  | unresolved (text : String)
  /-- A pause is too long. -/
  | pauseRange
  /-- Calls are nested beyond their limit. -/
  | callDepth (name : String) (limit : Nat)
  /-- A program file cannot be read. -/
  | unreadableFile (path : String) (reason : String)
  /-- The magnitude of the least integer was asked for, which 64 bits do not hold. -/
  | noMagnitude
deriving DecidableEq

namespace Fault

/-- The category of a fault. -/
def category : Fault → Category
  | unrecognized _ | unknownStep _ => .unknownStatement
  | undefinedVariable _ => .undefinedVariable
  | undefinedFunction _ => .undefinedFunction
  | argumentCount _ _ _ => .arity
  | outsideList _ _ _ => .index
  | operands _ _ _ | addLists _ _ | appendTo _ _ | negativeBase | store _ _ _ | notList _
  | itemMisfit _ _ | sortNoList _ | pauseNoNumber _ | incrementNoNumber _ _
  | consoleLine _ _ _ => .type
  | runawayLoop _ | runawayDeferred _ => .runaway
  | emptyStack => .emptyStack
  | integerOverflow | zeroToNegative | powerRange | noResult _ | unresolved _
  | pauseRange => .expression
  | callDepth _ _ => .callDepth
  | unreadableFile _ _ => .inputOutput
  | noMagnitude => .stopped

/-- A variable's name in brackets, as messages show it. -/
def bracketed (name : String) : String := "[" ++ name ++ "]"

/-- The detail of a fault. Popping from the empty stack has none, and neither has what stops a
run. -/
def detail? : Fault → Option String
  | unrecognized line => some line
  | unknownStep keyword => some ("unknown increment keyword '" ++ keyword ++ "'")
  | undefinedVariable name => some name
  | undefinedFunction name => some name
  | argumentCount name takes got =>
    some (bracketed name ++ " takes " ++ Numeral.text takes ++ " argument(s), got "
      ++ Numeral.text got)
  | outsideList position name size =>
    some ("index " ++ Numeral.text position ++ " outside " ++ bracketed name ++ " of length "
      ++ Numeral.text size)
  | operands attempt left right =>
    some ("cannot " ++ attempt.verb ++ " " ++ left.name ++ " and " ++ right.name)
  | addLists left right => some ("cannot add lists of " ++ left.name ++ " and " ++ right.name)
  | appendTo value items => some ("cannot append " ++ value.name ++ " to a list of " ++ items.name)
  | negativeBase => some "negative base with a fractional exponent"
  | store value type name =>
    some ("cannot store " ++ value.name ++ " into " ++ type.render ++ " " ++ bracketed name)
  | notList name => some (bracketed name ++ " is not a list")
  | itemMisfit item name => some ("'" ++ item ++ "' does not fit list " ++ bracketed name)
  | sortNoList name => some ("cannot sort " ++ bracketed name ++ ", not a list")
  | pauseNoNumber value => some ("cannot sleep for " ++ value.name)
  | incrementNoNumber name value =>
    some ("cannot increment " ++ bracketed name ++ ", it holds " ++ value.name)
  | consoleLine line type name =>
    some ("'" ++ line ++ "' is not a valid value for " ++ type.render ++ " " ++ bracketed name)
  | runawayLoop limit =>
    some ("condition still true after " ++ Numeral.text limit ++ " iterations")
  | runawayDeferred limit =>
    some ("deferred calls still queued after " ++ Numeral.text limit ++ " runs")
  | emptyStack => none
  | integerOverflow => some "integer overflow"
  | zeroToNegative => some "zero raised to a negative power"
  | powerRange => some "power out of range"
  | noResult name => some (bracketed name ++ " returned no value")
  | unresolved text => some ("'" ++ text ++ "'")
  | pauseRange =>
    some "cannot convert float seconds to Duration: value is either too big or NaN"
  | callDepth name limit =>
    some (bracketed name ++ " nested deeper than " ++ Numeral.text limit ++ " calls")
  | unreadableFile path reason => some ("cannot read " ++ path ++ ": " ++ reason)
  | noMagnitude => none

/-- The message of a fault: the name and the summary of its category, and its detail. -/
def render (f : Fault) : String :=
  let head := f.category.name ++ ": " ++ f.category.summary
  match f.detail? with
  | none => head
  | some detail => head ++ ": " ++ detail

/-- One fault stops a run. -/
theorem category_eq_stopped_iff {f : Fault} : f.category = .stopped ↔ f = .noMagnitude := by
  cases f <;> simp [category]

end Fault

/-- A fault and, once it is known, the line that failed. -/
structure Diagnostic where
  /-- The cause. -/
  fault : Fault
  /-- The line that failed. -/
  line? : Option SourceLine := none
deriving DecidableEq

namespace Diagnostic

/-- The diagnostic with a line, unless it has one already. -/
def locate (d : Diagnostic) (line : SourceLine) : Diagnostic :=
  { d with line? := some (d.line?.getD line) }

/-- The line given first, which is the innermost one, is kept. -/
@[simp] theorem locate_locate (d : Diagnostic) (inner outer : SourceLine) :
    (d.locate inner).locate outer = d.locate inner := rfl

/-- The text of a diagnostic: the message of the fault, and below it the number and the text of
the line. -/
def render (d : Diagnostic) : String :=
  match d.line? with
  | none => d.fault.render
  | some line =>
    d.fault.render ++ "\n  at line " ++ Numeral.text line.number ++ "\n  | " ++ line.text

end Diagnostic

end Haklang
