import TexFormula.Cli.Duration
import TexFormula.Cli.Layout
import TexFormula.Cli.Options
import TexFormula.Cli.Report
import TexFormula.Diagnostic.Basic
import TexFormula.Diagnostic.Caret
import TexFormula.Diagnostic.Lexical
import TexFormula.Diagnostic.Syntactic
import TexFormula.Eval.Engine
import TexFormula.Eval.Evaluate
import TexFormula.Eval.Scope
import TexFormula.Expr.Basic
import TexFormula.Expr.Equality
import TexFormula.Expr.Outline
import TexFormula.Expr.Printer
import TexFormula.Formula
import TexFormula.Main
import TexFormula.Parser.Cursor
import TexFormula.Parser.Interpretation
import TexFormula.Parser.Name
import TexFormula.Parser.Parse
import TexFormula.Parser.Productions
import TexFormula.Parser.Rules
import TexFormula.Parser.Run
import TexFormula.Parser.State
import TexFormula.Parser.Termination
import TexFormula.Proofs.Cli.Layout
import TexFormula.Proofs.Diagnostic.Caret
import TexFormula.Proofs.Diagnostic.Located
import TexFormula.Proofs.Eval.Agreement
import TexFormula.Proofs.Eval.Bindings
import TexFormula.Proofs.Eval.Definedness
import TexFormula.Proofs.Eval.PostOrder
import TexFormula.Proofs.Eval.Traversal
import TexFormula.Proofs.Expr.Flags
import TexFormula.Proofs.Expr.Legibility
import TexFormula.Proofs.Expr.Nodes
import TexFormula.Proofs.Expr.Outline
import TexFormula.Proofs.Expr.Readback
import TexFormula.Proofs.Expr.WellFormed
import TexFormula.Proofs.Grammar.Accounts
import TexFormula.Proofs.Grammar.Balance
import TexFormula.Proofs.Grammar.Basic
import TexFormula.Proofs.Grammar.Ledger
import TexFormula.Proofs.Grammar.Nesting
import TexFormula.Proofs.Grammar.Rendering
import TexFormula.Proofs.Parser.Calls
import TexFormula.Proofs.Parser.Checks
import TexFormula.Proofs.Parser.Completeness
import TexFormula.Proofs.Parser.Confinement
import TexFormula.Proofs.Parser.Correspondence
import TexFormula.Proofs.Parser.Errors
import TexFormula.Proofs.Parser.Faithful
import TexFormula.Proofs.Parser.Fallback
import TexFormula.Proofs.Parser.Forward
import TexFormula.Proofs.Parser.Frame
import TexFormula.Proofs.Parser.Grouping
import TexFormula.Proofs.Parser.Justified
import TexFormula.Proofs.Parser.Likeness
import TexFormula.Proofs.Parser.Lookahead
import TexFormula.Proofs.Parser.Loops
import TexFormula.Proofs.Parser.Moves
import TexFormula.Proofs.Parser.Numbers
import TexFormula.Proofs.Parser.Operations
import TexFormula.Proofs.Parser.Relevance
import TexFormula.Proofs.Parser.Respelling
import TexFormula.Proofs.Parser.Soundness
import TexFormula.Proofs.Parser.Steps
import TexFormula.Proofs.Parser.Transcript
import TexFormula.Proofs.Token.Decomposition
import TexFormula.Proofs.Token.Faults
import TexFormula.Proofs.Token.Head
import TexFormula.Proofs.Token.Lexed
import TexFormula.Proofs.Token.Lexemes
import TexFormula.Proofs.Token.Names
import TexFormula.Proofs.Token.Spacing
import TexFormula.Source.Position
import TexFormula.Source.ReadingHead
import TexFormula.Text.Blank
import TexFormula.Text.CharRange
import TexFormula.Text.Combining
import TexFormula.Text.Invisible
import TexFormula.Text.Quoted
import TexFormula.Token.Basic
import TexFormula.Token.Kind
import TexFormula.Token.Lexer
import TexFormula.Token.Vocabulary
