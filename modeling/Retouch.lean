import Retouch.Cli.Args
import Retouch.Cli.Help
import Retouch.Cli.Run
import Retouch.Config.Basic
import Retouch.Config.Environment
import Retouch.Config.Load
import Retouch.Config.Quoted
import Retouch.Config.Toml
import Retouch.Config.Value
import Retouch.Document
import Retouch.Edit.Batch
import Retouch.Edit.Marker
import Retouch.Edit.Patch
import Retouch.Editor
import Retouch.Fault
import Retouch.Json
import Retouch.Log
import Retouch.Log.Filter
import Retouch.Main
import Retouch.Outline
import Retouch.Path
import Retouch.Plan
import Retouch.Print
import Retouch.Proofs.Accepting
import Retouch.Proofs.Anchoring
import Retouch.Proofs.Arena
import Retouch.Proofs.Bindings
import Retouch.Proofs.Branching
import Retouch.Proofs.Breaks
import Retouch.Proofs.Capturing
import Retouch.Proofs.Chains
import Retouch.Proofs.Commands
import Retouch.Proofs.Conflicts
import Retouch.Proofs.Coordinates
import Retouch.Proofs.Editor
import Retouch.Proofs.Edits
import Retouch.Proofs.Extraction
import Retouch.Proofs.Flipping
import Retouch.Proofs.Frame
import Retouch.Proofs.Freshness
import Retouch.Proofs.Hoisting
import Retouch.Proofs.Indenting
import Retouch.Proofs.Landing
import Retouch.Proofs.Layers
import Retouch.Proofs.Lexemes
import Retouch.Proofs.Lexing
import Retouch.Proofs.Lines
import Retouch.Proofs.Lookahead
import Retouch.Proofs.Markers
import Retouch.Proofs.Matching
import Retouch.Proofs.Merging
import Retouch.Proofs.Multiline
import Retouch.Proofs.Naming
import Retouch.Proofs.Negation
import Retouch.Proofs.Offers
import Retouch.Proofs.Parsing.Constant
import Retouch.Proofs.Parsing.Declaration
import Retouch.Proofs.Parsing.Expression
import Retouch.Proofs.Parsing.Function
import Retouch.Proofs.Parsing.Markup
import Retouch.Proofs.Parsing.Module
import Retouch.Proofs.Parsing.Name
import Retouch.Proofs.Parsing.Pattern
import Retouch.Proofs.Parsing.Primary
import Retouch.Proofs.Parsing.Runs
import Retouch.Proofs.Parsing.Statement
import Retouch.Proofs.Parsing.Target
import Retouch.Proofs.Parsing.Type
import Retouch.Proofs.Patch
import Retouch.Proofs.Patching
import Retouch.Proofs.Plan
import Retouch.Proofs.Positions
import Retouch.Proofs.Precedence
import Retouch.Proofs.References
import Retouch.Proofs.Reindenting
import Retouch.Proofs.Reordering
import Retouch.Proofs.Scanning
import Retouch.Proofs.Scopes
import Retouch.Proofs.Shifting
import Retouch.Proofs.Signs
import Retouch.Proofs.Slices
import Retouch.Proofs.Spans
import Retouch.Proofs.Splice
import Retouch.Proofs.Steps
import Retouch.Proofs.Stretches
import Retouch.Proofs.Targets
import Retouch.Proofs.Text
import Retouch.Proofs.Words
import Retouch.Refactoring.Basic
import Retouch.Refactoring.Braces
import Retouch.Refactoring.GenericType
import Retouch.Refactoring.Registry
import Retouch.Refactoring.Switch
import Retouch.Refactoring.Ternary
import Retouch.Refactoring.Variable
import Retouch.Selection
import Retouch.Settings
import Retouch.Syntax.Kind
import Retouch.Syntax.Node
import Retouch.Syntax.Numeral
import Retouch.Syntax.Parser.Basic
import Retouch.Syntax.Parser.Declaration
import Retouch.Syntax.Parser.Expression
import Retouch.Syntax.Parser.Function
import Retouch.Syntax.Parser.Markup
import Retouch.Syntax.Parser.Module
import Retouch.Syntax.Parser.Name
import Retouch.Syntax.Parser.Pattern
import Retouch.Syntax.Parser.Primary
import Retouch.Syntax.Parser.Statement
import Retouch.Syntax.Parser.Target
import Retouch.Syntax.Parser.Type
import Retouch.Syntax.Printer.Basic
import Retouch.Syntax.Printer.Pen
import Retouch.Syntax.Scan.Name
import Retouch.Syntax.Scan.Number
import Retouch.Syntax.Scan.Quoted
import Retouch.Syntax.Scan.Sign
import Retouch.Syntax.Scan.Token
import Retouch.Syntax.Scan.Trivia
import Retouch.Syntax.Token
import Retouch.Text.Basic
import Retouch.Text.CharClass
import Retouch.Text.Indentation
import Retouch.Text.Lines
import Retouch.Text.Regex
import Retouch.Tree
import Retouch.Workspace
