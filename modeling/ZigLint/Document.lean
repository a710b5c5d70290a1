import ZigLint.Declaration.Site
import ZigLint.Lineage
import ZigLint.Problem.Basic
import ZigLint.Suppression
import ZigLint.Text.Quoted

namespace ZigLint

/-!
# Documents

A document is a parsed file with the tables that rules need: lineage, lines and
suppression comments.
-/

/-- A file prepared for analysis. -/
structure Document where
  path : String
  tree : SyntaxTree
  lineage : Lineage
  suppressions : SuppressionTable
  lines : LineMap

namespace Document

/-- The document of a parsed file. -/
def ofTree (path : String) (tree : SyntaxTree) : Document where
  path
  tree
  lineage := .ofTree tree
  suppressions := .ofSource tree.source
  lines := .ofSource tree.source

/-- Parents of a node, nearest first. -/
def ancestors (document : Document) (node : NodeIndex) : List NodeIndex :=
  document.lineage.ancestors node

/-- All nodes with the given tag, in order of their index. -/
def nodesWithTag (document : Document) (tag : NodeTag) : List NodeIndex :=
  document.tree.indices.filter fun node => document.tree.tag? node == some tag

/-- The node stands inside a test declaration. -/
def isInTest (document : Document) (node : NodeIndex) : Bool :=
  (document.ancestors node).any fun ancestor => document.tree.tag? ancestor == some .testDecl

/-- The nearest function declaration around a node. -/
def enclosingFn? (document : Document) (node : NodeIndex) : Option NodeIndex :=
  (document.ancestors node).find? fun ancestor => document.tree.tag? ancestor == some .fnDecl

/-- The location of a byte offset. -/
def location (document : Document) (offset : Nat) : Location :=
  document.lines.location offset

/-- The locations of the first and last byte of a span. -/
def spanLocations (document : Document) (span : Span) : Location × Location :=
  document.lines.spanLocations span

/-- The location at which a node starts. -/
def nodeLocation? (document : Document) (node : NodeIndex) : Option Location :=
  (document.tree.nodeSpan? node).map fun span => document.location span.start

/-- The location at which a token starts. -/
def tokenLocation (document : Document) (token : TokenIndex) : Location :=
  document.location (document.tree.tokenSpan token).start

/-- A problem about a span. -/
def problem
    (document : Document)
    (ruleId : String)
    (severity : Severity)
    (span : Span)
    (message : String)
    (fix? : Option Fix) :
    Problem :=
  let (start, stop) := document.spanLocations span
  { ruleId, severity, start, stop, message, disabledByComment := false, fix? }

/-- A one-line summary of the document. -/
def summary (document : Document) : String :=
  let path := Text.quoted document.path
  let nodes := document.lineage.size
  let comments := document.suppressions.comments.length
  s!"Document \x7b path: {path}, nodes: {nodes}, suppressions: {comments}, .. \x7d"

/-- A comment disables the problem. -/
def suppresses (document : Document) (problem : Problem) : Bool :=
  document.suppressions.suppresses problem.ruleId problem.start.line

end Document

end ZigLint
