import ZigLint.Token.Lexer
import ZigLint.Syntax.Node
import ZigLint.Syntax.Parser.Basic
import ZigLint.Syntax.Parser.Declaration
import ZigLint.Syntax.Parser.Primary
import ZigLint.Syntax.Tree
import ZigLint.Declaration.Kind
import ZigLint.Declaration.Site
import ZigLint.Document
import ZigLint.Naming.Style
import ZigLint.Number.Binary64
import ZigLint.Text.Reader
import ZigLint.Toml.Item
import ZigLint.Toml.Parser
import ZigLint.Rule.Basic
import ZigLint.Rule.Builtin
import ZigLint.Analyzer
import ZigLint.Json.Parser
import ZigLint.Json.Printer
import ZigLint.Report.Basic
import ZigLint.Report.Json
import ZigLint.Config.Search
import ZigLint.Disk.Ignore
import ZigLint.Command.Arguments
import ZigLint.Command.Run
import ZigLint.Main
import ZigLint.Proofs.Analyzer.FixDocument
import ZigLint.Proofs.Analyzer.SecondPass
import ZigLint.Proofs.Rule.FixText
import ZigLint.Proofs.Analyzer.WellFormed
import ZigLint.Proofs.Suppression.LineScope
import ZigLint.Proofs.Suppression.Comments
import ZigLint.Proofs.Analyzer.RuleIsolation
import ZigLint.Proofs.Rule.LayoutIndependence
import ZigLint.Proofs.Disk.Way
import ZigLint.Proofs.Workspace.Coherence
import ZigLint.Proofs.Workspace.Interleaving
import ZigLint.Proofs.Workspace.Operations
import ZigLint.Proofs.Lineage.Agreement
import ZigLint.Proofs.Declaration.TypeKinds
import ZigLint.Proofs.Text.Takes
import ZigLint.Proofs.Json.Literals
import ZigLint.Proofs.Json.RoundTrip
import ZigLint.Proofs.Report.RoundTrip
import ZigLint.Proofs.Parser.BracketSteps
import ZigLint.Proofs.Parser.Keeps
import ZigLint.Proofs.Parser.ExpressionNesting
import ZigLint.Proofs.Parser.DeclarationNesting
import ZigLint.Proofs.Parser.PrimaryNesting
import ZigLint.Proofs.Syntax.Bracketed
import ZigLint.Proofs.Fix.OneByOne
import ZigLint.Proofs.Token.OnLines
import ZigLint.Proofs.Token.Tiling
import ZigLint.Proofs.Lineage.ShortestPaths
import ZigLint.Proofs.Declaration.Aliases
import ZigLint.Proofs.Suppression.Grammar
import ZigLint.Proofs.Syntax.Precedence
import ZigLint.Proofs.Naming.StyleReached
import ZigLint.Proofs.Syntax.Accessors
import ZigLint.Proofs.Syntax.Containment
import ZigLint.Proofs.Lineage.LexicalScope
import ZigLint.Proofs.Text.Locations
import ZigLint.Proofs.Analyzer.CheckedOptions
import ZigLint.Proofs.Config.Search
import ZigLint.Proofs.Types.Unwrapping
import ZigLint.Proofs.Types.FirstReturn
import ZigLint.Proofs.Syntax.Totality
