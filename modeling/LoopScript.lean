import LoopScript.Text.Basic
import LoopScript.Text.Rune
import LoopScript.Text.Blank
import LoopScript.Text.Printable
import LoopScript.Text.Quoted
import LoopScript.Text.Base64
import LoopScript.Decimal.Binary64
import LoopScript.Decimal.Shortest
import LoopScript.Decimal.Layout
import LoopScript.Decimal.Reader
import LoopScript.Table
import LoopScript.Position
import LoopScript.Frame
import LoopScript.Operator
import LoopScript.Token.Basic
import LoopScript.Token.Lexer
import LoopScript.Tree.Basic
import LoopScript.Tree.Diagnostic
import LoopScript.Tree.Parser
import LoopScript.Value.Basic
import LoopScript.Value.Arithmetic
import LoopScript.Fault
import LoopScript.Env
import LoopScript.RuntimeError
import LoopScript.Execution
import LoopScript.Eval
import LoopScript.Host
import LoopScript.Engine
import LoopScript.Heap
import LoopScript.Session
import LoopScript.Lint
import LoopScript.Path
import LoopScript.Disk
import LoopScript.Yaml.Source
import LoopScript.Yaml.Cursor
import LoopScript.Yaml.Scalar
import LoopScript.Yaml.Token.Basic
import LoopScript.Yaml.Property
import LoopScript.Yaml.Token.Lexer
import LoopScript.Yaml.Timestamp
import LoopScript.Yaml.Tag
import LoopScript.Yaml.Node
import LoopScript.Yaml.ReadError
import LoopScript.Yaml.Reader
import LoopScript.Manifest.Fields
import LoopScript.Manifest
import LoopScript.Flags
import LoopScript.Command
import LoopScript.Console.Field
import LoopScript.Console.Toolkit
import LoopScript.Console.Basic
import LoopScript.Console.View
import LoopScript.Main
import LoopScript.Proofs.Grammar
import LoopScript.Proofs.Parser.Budget
import LoopScript.Proofs.Parser.Soundness
import LoopScript.Proofs.Parser
import LoopScript.Proofs.Eval.Outcome
import LoopScript.Proofs.Eval.Raises
import LoopScript.Proofs.InClass
import LoopScript.Proofs.Lint.Soundness
import LoopScript.Proofs.Eval.Reach
import LoopScript.Proofs.Lint.Precision
import LoopScript.Proofs.Relocation
import LoopScript.Proofs.Text.Rune
import LoopScript.Proofs.Eval.Relocation
import LoopScript.Proofs.Token.Join
import LoopScript.Proofs.Join
import LoopScript.Proofs.Text.Boundary
import LoopScript.Proofs.Token.Tiling
import LoopScript.Proofs.Console.Invariant
import LoopScript.Proofs.Print
import LoopScript.Proofs.Parser.FirstError
import LoopScript.Proofs.Text.Lines
import LoopScript.Proofs.Tree.Marks
import LoopScript.Proofs.Parser.Places
import LoopScript.Proofs.Frame
import LoopScript.Proofs.Eval.Innermost
import LoopScript.Proofs.Eval.Coupling
import LoopScript.Proofs.Console.Account
import LoopScript.Proofs.Eval.Steady
import LoopScript.Proofs.Session.Separation
import LoopScript.Proofs.Session.Isolation
import LoopScript.Proofs.Eval.Footprint
import LoopScript.Proofs.Eval.Truncation
import LoopScript.Proofs.Eval.Limit
import LoopScript.Proofs.Eval.Loop
import LoopScript.Proofs.Braces
import LoopScript.Proofs.Console.Buffering
import LoopScript.Proofs.Token.Shape
import LoopScript.Proofs.WellFormed
import LoopScript.Proofs.Tree.Nodes
import LoopScript.Proofs.Lint.Exactness
import LoopScript.Proofs.Parser.Order
import LoopScript.Proofs.Parser.Progress
import LoopScript.Proofs.Host.Wrapping
import LoopScript.Proofs.Eval.Shown
import LoopScript.Proofs.Text.Quoted
import LoopScript.Proofs.Value.Inspect
import LoopScript.Proofs.Console.Candidates
import LoopScript.Proofs.Console.Toolkit
import LoopScript.Proofs.Console.Contents
import LoopScript.Proofs.Console.Recall
import LoopScript.Proofs.Console.Report
import LoopScript.Proofs.Console.Completion
import LoopScript.Proofs.Console.Screen
import LoopScript.Proofs.Console.Inspection
import LoopScript.Proofs.Token.Layout
import LoopScript.Proofs.Token.Normal
import LoopScript.Proofs.Host.Sealed
import LoopScript.Proofs.Meaning
import LoopScript.Proofs.Written
import LoopScript.Proofs.Quotation
import LoopScript.Proofs.Decimal.Numeral
import LoopScript.Proofs.Counting
import LoopScript.Proofs.Calculation
