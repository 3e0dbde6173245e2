import Script.Span
import Script.Text.Blank
import Script.Token.Basic
import Script.Token.Lexer
import Script.Token.Stream
import Script.Number.Binary
import Script.Number.Shortest
import Script.Number.Text
import Script.Number.Numeral
import Script.Number.Arithmetic
import Script.Text.Order
import Script.Text.Graphic
import Script.Text.Quoted
import Script.Text.CaseTable
import Script.Text.Case
import Script.Tree.Basic
import Script.Parser.Error
import Script.Parser.Basic
import Script.Parser.Expr
import Script.Parser.Stmt
import Script.Dict
import Script.Value.Basic
import Script.Value.Store
import Script.Value.Render
import Script.Value.Equality
import Script.Sink
import Script.Eval.Error
import Script.Eval.Machine
import Script.Eval.Operator
import Script.Eval.Native
import Script.Eval.Access
import Script.Eval.Expr
import Script.Eval.Stmt
import Script.Run.Failure
import Script.Run.Namespace
import Script.Run.Pass
import Script.Files.Path
import Script.Files.Source
import Script.Files.Tree
import Script.Run.Batch
import Script.Run.Session
import Script.Command.Args
import Script.Command.Execute
import Script.Main
import Script.Proofs.Grammar.Basic
import Script.Proofs.Grammar.Passing
import Script.Proofs.Grammar.Steps
import Script.Proofs.Grammar.Soundness
import Script.Proofs.Grammar.Completeness
import Script.Proofs.Printing.Basic
import Script.Proofs.Printing.Lexing
import Script.Proofs.Printing.Reading
import Script.Proofs.Printing.RoundTrip
import Script.Proofs.Eval.Keeping
import Script.Proofs.Eval.Visit
import Script.Proofs.Eval.Coverage
import Script.Proofs.Run.Halting
import Script.Proofs.Eval.Termination
import Script.Proofs.Grammar.Layout
import Script.Proofs.Eval.Coupling
import Script.Proofs.Eval.ScopeFrame
import Script.Proofs.Grammar.Program
import Script.Proofs.Run.Output
import Script.Proofs.Run.TwoPhase
import Script.Proofs.Run.Names
import Script.Proofs.Run.Layout
import Script.Proofs.Token.Composition
import Script.Proofs.Grammar.Sequence
import Script.Proofs.Run.Agreement
import Script.Proofs.Token.Lossless
import Script.Proofs.Token.Writing
import Script.Proofs.Token.Locating
import Script.Proofs.Eval.CallDepth
import Script.Proofs.Eval.Validity
import Script.Proofs.Run.Conversation
import Script.Proofs.Number.Whole
import Script.Proofs.Value.Data
import Script.Proofs.Printing.Data
import Script.Proofs.Run.ReadBack
import Script.Proofs.Tree.Names
import Script.Proofs.Grammar.Naming
import Script.Proofs.Eval.Lockstep
import Script.Proofs.Run.Interference
import Script.Proofs.Eval.Appending
import Script.Proofs.Eval.Refusal
import Script.Proofs.Run.Refusal
import Script.Proofs.Run.Failing
import Script.Proofs.Grammar.Blame
import Script.Proofs.Grammar.Range
import Script.Proofs.Eval.Heredity
import Script.Proofs.Run.Origin
import Script.Proofs.Run.InRange
import Script.Proofs.Value.Similarity
import Script.Proofs.Value.Equivalence
import Script.Proofs.Value.Printout
import Script.Proofs.Files.Joining
import Script.Proofs.Grammar.Lookahead
import Script.Proofs.Run.Cursor
import Script.Proofs.Token.Cutting
import Script.Proofs.Grammar.Moving
import Script.Proofs.Grammar.Spans
import Script.Proofs.Tree.Jumps
import Script.Proofs.Eval.Raising
import Script.Proofs.Eval.Jumping
import Script.Proofs.Run.Confinement
import Script.Proofs.Eval.Chains
import Script.Proofs.Eval.Development
import Script.Proofs.Run.Scoping
import Script.Proofs.Grammar.Semicolon
import Script.Proofs.Text.Order
import Script.Proofs.Run.MapHistory
