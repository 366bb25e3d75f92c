import Haklang.CommandLine.Arguments
import Haklang.CommandLine.Invocation
import Haklang.CommandLine.Prompt
import Haklang.Console
import Haklang.Execution
import Haklang.Expr.Basic
import Haklang.Expr.Reader
import Haklang.Fault
import Haklang.Increment
import Haklang.Line.Basic
import Haklang.Line.Output
import Haklang.Line.Reader
import Haklang.Machine
import Haklang.Main
import Haklang.Number.Binary64
import Haklang.Number.Decimal.Basic
import Haklang.Number.Decimal.Quotient
import Haklang.Number.Decimal.Reader
import Haklang.Number.Decimal.Rounding
import Haklang.Number.Integer
import Haklang.Number.Numeral
import Haklang.Passage
import Haklang.Random.Draw
import Haklang.Random.Generator
import Haklang.Random.Keystream
import Haklang.Session
import Haklang.SourceLine
import Haklang.Store
import Haklang.Table
import Haklang.Text.Blank
import Haklang.Text.Cut
import Haklang.Text.Digit
import Haklang.Text.Nesting
import Haklang.Tree
import Haklang.Value.Basic
import Haklang.Value.Conversion
import Haklang.Value.Operator
import Haklang.Value.Order
import Haklang.Value.TypeTag
import Haklang.Proofs.Action.Respects
import Haklang.Proofs.Execution.Respects
import Haklang.Proofs.Action.Blind
import Haklang.Proofs.Arena.Basic
import Haklang.Proofs.Arena.Fuel
import Haklang.Proofs.Session.Batch
import Haklang.Proofs.Session.Termination
import Haklang.Proofs.Tree.Grammar
import Haklang.Proofs.Arena.Batch
import Haklang.Proofs.Arena.Forest
import Haklang.Proofs.Arena.Parser
import Haklang.Proofs.Arena.Safety
import Haklang.Proofs.Store.Snapshots
import Haklang.Proofs.Random.Bounds
import Haklang.Proofs.Execution.Randomizing
import Haklang.Proofs.Execution.Calls
import Haklang.Proofs.Execution.Moments
import Haklang.Proofs.Execution.Upheld
import Haklang.Proofs.Session.Deferred
import Haklang.Proofs.Session.WellTyped
import Haklang.Proofs.Execution.Chain
import Haklang.Proofs.Text.Scan
import Haklang.Proofs.Text.Joined
import Haklang.Proofs.Text.Found
import Haklang.Proofs.Number.Written
import Haklang.Proofs.Number.Rounded
import Haklang.Proofs.Expr.Written
import Haklang.Proofs.Expr.RoundTrip
import Haklang.Proofs.Expr.Operand
import Haklang.Proofs.Cond.Comparison
import Haklang.Proofs.Expr.Binding
import Haklang.Proofs.Line.Comment
import Haklang.Proofs.Passage.Conservation
import Haklang.Proofs.Line.Name
import Haklang.Proofs.Line.Literal
import Haklang.Proofs.Line.Output
import Haklang.Proofs.Line.WrittenList
import Haklang.Proofs.Number.Arithmetic
import Haklang.Proofs.Execution.MarkedChain
import Haklang.Proofs.Execution.Signals
import Haklang.Proofs.Execution.Declared
import Haklang.Proofs.Execution.Atomic
import Haklang.Proofs.Execution.Failures
import Haklang.Proofs.Execution.Innermost
import Haklang.Proofs.Execution.Ceiling
import Haklang.Proofs.Execution.ForLoop
import Haklang.Proofs.Session.Integrity
import Haklang.Proofs.Execution.Known
import Haklang.Proofs.Session.Location
import Haklang.Proofs.Action.Parallel
import Haklang.Proofs.Tree.Renumbered
import Haklang.Proofs.Execution.Renumbered
import Haklang.Proofs.Session.Renumbered
import Haklang.Proofs.Session.Stopping
import Haklang.Proofs.Session.Layout
import Haklang.Proofs.Number.Quotient
import Haklang.Proofs.Value.Arithmetic
import Haklang.Proofs.Value.Power
import Haklang.Proofs.Line.Declaration
import Haklang.Proofs.Value.Order
import Haklang.Proofs.Expr.Greatest
import Haklang.Proofs.Number.Notation
import Haklang.Proofs.Execution.ReadBack
import Haklang.Proofs.Execution.Increment
