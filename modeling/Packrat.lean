import Packrat.Batch
import Packrat.Proofs.Peg.Faithful
import Packrat.Proofs.Peg.LeftCall
import Packrat.Proofs.Peg.Nullable
import Packrat.Proofs.Peg.Part
import Packrat.Proofs.Peg.Place
import Packrat.Text.LineIndex
import Packrat.Typed.Inventory
import Packrat.Proofs.Peg.Ready
import Packrat.Proofs.Peg.Descent
import Packrat.Proofs.Peg.Runs
import Packrat.Proofs.Peg.Ending
import Packrat.Proofs.Lexeme.Scan
import Packrat.Proofs.Token.Stream
import Packrat.Proofs.Token.Grouped
import Packrat.Proofs.Token.Layout
import Packrat.Proofs.Peg.Tiling
import Packrat.Proofs.Language.Grammar
import Packrat.Proofs.Parse.Ends
import Packrat.Proofs.Parse.Covering
import Packrat.Proofs.Parse.Lossless
import Packrat.Proofs.Peg.Computed
import Packrat.Proofs.Parse.Computed
import Packrat.Proofs.Language.Rung
import Packrat.Proofs.Language.Grouped
import Packrat.Proofs.Parse.Grouping
import Packrat.Proofs.Peg.Visits
import Packrat.Proofs.Peg.Furthest
import Packrat.Proofs.Peg.Reads
import Packrat.Proofs.Peg.Limits
import Packrat.Proofs.Peg.Reported
import Packrat.Proofs.Lexeme.Number
import Packrat.Proofs.Token.Spaced
import Packrat.Proofs.Diagnostic.Expected
import Packrat.Proofs.Language.Chain
import Packrat.Proofs.Language.Operand
import Packrat.Proofs.Language.Climb
import Packrat.Proofs.Parse.ChainTree
import Packrat.Proofs.Parse.Chaining
import Packrat.Proofs.Parse.ErrorPlace
import Packrat.Proofs.Language.Nesting
import Packrat.Proofs.Language.Head
import Packrat.Proofs.Parse.Heads
import Packrat.Proofs.Peg.Lasting
import Packrat.Proofs.Peg.Tables
import Packrat.Proofs.Peg.Pieces
import Packrat.Proofs.Peg.Abandoned
import Packrat.Proofs.Parse.Tables
import Packrat.Proofs.Language.Condition
import Packrat.Proofs.Parse.Conditions
import Packrat.Proofs.Lexeme.LineBreak
import Packrat.Proofs.Peg.Backtracking
import Packrat.Proofs.Token.Position
import Packrat.Proofs.Tree.Plain
import Packrat.Proofs.Parse.Formatting
import Packrat.Proofs.Peg.Link
import Packrat.Proofs.Peg.Acceptance
import Packrat.Proofs.Peg.Folding
import Packrat.Proofs.Peg.FoldCounter
import Packrat.Proofs.Peg.Trace
import Packrat.Proofs.Peg.Exact
import Packrat.Proofs.Lexeme.Alone
import Packrat.Proofs.Token.Alone
import Packrat.Proofs.Language.TokenTree
import Packrat.Proofs.Peg.Filled
import Packrat.Proofs.Tree.Framed
import Packrat.Proofs.Tree.Located
import Packrat.Proofs.Parse.Framing
import Packrat.Proofs.Peg.Sketch
import Packrat.Proofs.Token.Glued
import Packrat.Proofs.Language.Glued
import Packrat.Proofs.Parse.Glued
import Packrat.Proofs.Lexeme.Escape
import Packrat.Proofs.Lexeme.Quote
import Packrat.Proofs.Lexeme.Reached
import Packrat.Proofs.Lexeme.Progress
import Packrat.Proofs.Lexeme.RawString
import Packrat.Proofs.Lexeme.Munch
import Packrat.Proofs.Token.Munch
import Packrat.Proofs.Text.Lines
import Packrat.Proofs.Metrics.Lines
import Packrat.Proofs.Peg.Yield
import Packrat.Proofs.Peg.Children
import Packrat.Proofs.Parse.Children
import Packrat.Proofs.Metrics.Statements
import Packrat.Proofs.Parse.Places
import Packrat.Proofs.Metrics.Executable
import Packrat.Proofs.Typed.Part
import Packrat.Proofs.Typed.List
import Packrat.Proofs.Typed.Tail
import Packrat.Proofs.Typed.Import
import Packrat.Proofs.Text.Encoding
import Packrat.Proofs.Text.Position
import Packrat.Proofs.Peg.Staying
import Packrat.Proofs.Typed.Parameter
import Packrat.Proofs.Peg.Key
import Packrat.Proofs.Peg.Enough
import Packrat.Proofs.Peg.Plainly
import Packrat.Proofs.Peg.Lookup
