import SprigCompiler.CommandLine
import SprigCompiler.Compile
import SprigCompiler.Javascript.Emission
import SprigCompiler.Javascript.Page
import SprigCompiler.Main
import SprigCompiler.Number.Binary64
import SprigCompiler.Number.Decimal
import SprigCompiler.Number.Shortest
import SprigCompiler.Parser.Application
import SprigCompiler.Parser.Basic
import SprigCompiler.Parser.Error
import SprigCompiler.Parser.Program
import SprigCompiler.Parser.Statement
import SprigCompiler.Proofs.Compile.Concatenation
import SprigCompiler.Proofs.Compile.Diagnostics
import SprigCompiler.Proofs.Compile.Endings
import SprigCompiler.Proofs.Grammar.Basic
import SprigCompiler.Proofs.Grammar.Blocks
import SprigCompiler.Proofs.Grammar.Exchange
import SprigCompiler.Proofs.Grammar.Expressions
import SprigCompiler.Proofs.Grammar.Lexemes
import SprigCompiler.Proofs.Grammar.Shapes
import SprigCompiler.Proofs.Grammar.Trees
import SprigCompiler.Proofs.Guarded.Compilation
import SprigCompiler.Proofs.Guarded.Parsing
import SprigCompiler.Proofs.Guarded.Text
import SprigCompiler.Proofs.Guarded.Tokens
import SprigCompiler.Proofs.Javascript.Arithmetic
import SprigCompiler.Proofs.Javascript.Grammar
import SprigCompiler.Proofs.Javascript.Identification
import SprigCompiler.Proofs.Javascript.Indentation
import SprigCompiler.Proofs.Javascript.Lexical
import SprigCompiler.Proofs.Javascript.Locations
import SprigCompiler.Proofs.Javascript.Mentions
import SprigCompiler.Proofs.Javascript.Nesting
import SprigCompiler.Proofs.Javascript.Normal
import SprigCompiler.Proofs.Javascript.Pages
import SprigCompiler.Proofs.Javascript.Reader
import SprigCompiler.Proofs.Javascript.Reading
import SprigCompiler.Proofs.Javascript.Scripts
import SprigCompiler.Proofs.Javascript.Strictness
import SprigCompiler.Proofs.Javascript.StringLiteral
import SprigCompiler.Proofs.Javascript.Strings
import SprigCompiler.Proofs.Number.Numerals
import SprigCompiler.Proofs.Number.Written
import SprigCompiler.Proofs.Parser.Accounting
import SprigCompiler.Proofs.Parser.Between
import SprigCompiler.Proofs.Parser.Blame
import SprigCompiler.Proofs.Parser.Building
import SprigCompiler.Proofs.Parser.Chains
import SprigCompiler.Proofs.Parser.Completeness
import SprigCompiler.Proofs.Parser.Cuts
import SprigCompiler.Proofs.Parser.Descent
import SprigCompiler.Proofs.Parser.EntryPoint
import SprigCompiler.Proofs.Parser.Failures
import SprigCompiler.Proofs.Parser.Layout
import SprigCompiler.Proofs.Parser.Legibility
import SprigCompiler.Proofs.Parser.Locality
import SprigCompiler.Proofs.Parser.Lookahead
import SprigCompiler.Proofs.Parser.Loops
import SprigCompiler.Proofs.Parser.Operands
import SprigCompiler.Proofs.Parser.Parallel
import SprigCompiler.Proofs.Parser.Programs
import SprigCompiler.Proofs.Parser.Seams
import SprigCompiler.Proofs.Parser.Soundness
import SprigCompiler.Proofs.Parser.Termination
import SprigCompiler.Proofs.Parser.Texts
import SprigCompiler.Proofs.Parser.Unclosed
import SprigCompiler.Proofs.Parser.Unions
import SprigCompiler.Proofs.Parser.Unspanned
import SprigCompiler.Proofs.Parser.Validity
import SprigCompiler.Proofs.Parser.Writings
import SprigCompiler.Proofs.Parser.Yields
import SprigCompiler.Proofs.Shell.Groups
import SprigCompiler.Proofs.Shell.Lines
import SprigCompiler.Proofs.Shell.Sessions
import SprigCompiler.Proofs.Shell.Statements
import SprigCompiler.Proofs.Text.Endings
import SprigCompiler.Proofs.Text.Excerpts
import SprigCompiler.Proofs.Text.Positions
import SprigCompiler.Proofs.Text.Scans
import SprigCompiler.Proofs.Token.Coverage
import SprigCompiler.Proofs.Token.Endings
import SprigCompiler.Proofs.Token.Lexemes
import SprigCompiler.Proofs.Token.Lines
import SprigCompiler.Proofs.Token.Meanings
import SprigCompiler.Proofs.Token.Patterns
import SprigCompiler.Proofs.Token.Pieces
import SprigCompiler.Proofs.Token.Reprinting
import SprigCompiler.Proofs.Token.Scanning
import SprigCompiler.Proofs.Token.Spans
import SprigCompiler.Proofs.Token.Spelling
import SprigCompiler.Proofs.Token.Writings
import SprigCompiler.Proofs.Token.Zipper
import SprigCompiler.Proofs.Tree.Construction
import SprigCompiler.Proofs.Tree.Listing
import SprigCompiler.Proofs.Tree.Relocation
import SprigCompiler.Proofs.Tree.Shift
import SprigCompiler.Proofs.Tree.Symbolic
import SprigCompiler.Proofs.Tree.Table
import SprigCompiler.Proofs.Tree.Types
import SprigCompiler.Proofs.Tree.Unspanned
import SprigCompiler.Shell.Evaluation
import SprigCompiler.Shell.Session
import SprigCompiler.Text.Blank
import SprigCompiler.Text.Diagnostic
import SprigCompiler.Text.Location
import SprigCompiler.Text.Quoted
import SprigCompiler.Text.Source
import SprigCompiler.Text.Unprintable
import SprigCompiler.Token.Basic
import SprigCompiler.Token.Cursor
import SprigCompiler.Token.Piece
import SprigCompiler.Token.Tokenize
import SprigCompiler.Tree.Kind
import SprigCompiler.Tree.Node
import SprigCompiler.Tree.Text
import SprigCompiler.Tree.Walk
