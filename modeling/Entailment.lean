import Entailment.Argument
import Entailment.Argument.Reading
import Entailment.Argument.Verdict
import Entailment.Command.Content
import Entailment.Command.FileTree
import Entailment.Command.Options
import Entailment.Command.Run
import Entailment.Dictionary
import Entailment.Failure
import Entailment.Formula
import Entailment.Formula.Condition
import Entailment.Formula.Reading
import Entailment.Formula.Valuation
import Entailment.Line
import Entailment.Line.Layout
import Entailment.Line.Lexeme
import Entailment.Line.Piece
import Entailment.Line.Reader
import Entailment.Main
import Entailment.Outcome
import Entailment.Proofs.Argument.Deduction
import Entailment.Proofs.Argument.Grammar
import Entailment.Proofs.Argument.LineGrammar
import Entailment.Proofs.Argument.Refusals
import Entailment.Proofs.Argument.RoundTrip
import Entailment.Proofs.Argument.Tautology
import Entailment.Proofs.Argument.Validity
import Entailment.Proofs.Argument.Valuation
import Entailment.Proofs.Command.CommandLine
import Entailment.Proofs.Command.Directory
import Entailment.Proofs.Command.Isolation
import Entailment.Proofs.Command.KeepGoing
import Entailment.Proofs.Formula.Begun
import Entailment.Proofs.Formula.Conditions
import Entailment.Proofs.Formula.Grammar
import Entailment.Proofs.Formula.Leaves
import Entailment.Proofs.Formula.LineGrammar
import Entailment.Proofs.Formula.Meaning
import Entailment.Proofs.Formula.Valuation
import Entailment.Proofs.Formula.Viable
import Entailment.Proofs.Line.Canonical
import Entailment.Proofs.Line.Completion
import Entailment.Proofs.Line.Extension
import Entailment.Proofs.Line.Faults
import Entailment.Proofs.Line.Layout
import Entailment.Proofs.Line.Munch
import Entailment.Proofs.Line.Pieces
import Entailment.Proofs.Line.Reader
import Entailment.Proofs.Line.Scanned
import Entailment.Proofs.Line.Spans
import Entailment.Proofs.Line.Tiled
import Entailment.Proofs.Line.Verdict
import Entailment.Proofs.Line.Written
import Entailment.Proofs.Session.Columns
import Entailment.Proofs.Session.Entries
import Entailment.Proofs.Session.Guarded
import Entailment.Proofs.Session.History
import Entailment.Proofs.Session.Limits
import Entailment.Proofs.Session.Lines
import Entailment.Proofs.Session.Reachable
import Entailment.Proofs.Session.Reload
import Entailment.Proofs.Session.Spelling
import Entailment.Proofs.Session.Steps
import Entailment.Proofs.Session.Thinning
import Entailment.Proofs.Statement.Grammar
import Entailment.Proofs.Statement.LineGrammar
import Entailment.Proofs.Statement.Refusals
import Entailment.Proofs.Statement.Writable
import Entailment.Proofs.Token.Lexable
import Entailment.Proofs.Token.Reading
import Entailment.Proofs.TruthTable.Calls
import Entailment.Proofs.TruthTable.Enumeration
import Entailment.Proofs.TruthTable.Guarded
import Entailment.Proofs.TruthTable.Rows
import Entailment.Query
import Entailment.Session
import Entailment.Session.Run
import Entailment.Statement
import Entailment.Statement.Reading
import Entailment.Text.Blank
import Entailment.Text.Lines
import Entailment.Token
import Entailment.Token.Succession
import Entailment.TruthTable
