import ZigLint.Text.Location

namespace ZigLint

/-!
# Suppression comments

A line comment can switch rules off:

* `// zlinter-disable-next-line RULE, RULE - reason` for the line after it,
* `// zlinter-disable-current-line RULE - reason` for the line it stands on.

Without rule names it switches every rule off. Each line is read on its own. A
small scanner finds the first line comment outside of literals, and the text of
that comment is then read as a directive.
-/

/-- A directive with the lines it covers, both ends included. -/
structure DisableComment where
  lineStart : Nat
  lineEnd : Nat
  ruleIds : List String
  deriving Repr, DecidableEq

namespace DisableComment

/-- The line lies in the range of the directive. -/
def covers (comment : DisableComment) (line : Nat) : Bool :=
  comment.lineStart ≤ line && line ≤ comment.lineEnd

/-- The directive switches the rule off; a directive without rules does so for all. -/
def appliesTo (comment : DisableComment) (ruleId : String) : Bool :=
  comment.ruleIds.isEmpty || comment.ruleIds.contains ruleId

end DisableComment

/-- The line that a directive is about, seen from the line it stands on. -/
inductive DirectiveTarget where
  | nextLine
  | currentLine
  deriving Repr, DecidableEq

namespace DirectiveTarget

/-- The word that starts the directive. -/
def keyword : DirectiveTarget → String
  | .nextLine => "zlinter-disable-next-line"
  | .currentLine => "zlinter-disable-current-line"

/-- The target with the given word. -/
def ofKeyword? (word : String) : Option DirectiveTarget :=
  [nextLine, currentLine].find? fun target => target.keyword == word

/-- The number of the line that a directive on `line` is about. -/
def line (target : DirectiveTarget) (line : Nat) : Nat :=
  match target with
  | .nextLine => line + 1
  | .currentLine => line

end DirectiveTarget

/-- Where a scan of one line stands. -/
inductive LineState where
  /-- Outside of comments and literals. -/
  | code
  /-- After one slash. -/
  | slash
  /-- Right after the two slashes of a comment. -/
  | comment
  /-- In a multi-line string literal, which reaches to the end of the line. -/
  | ignored
  /-- In a string literal. -/
  | inString
  /-- After a backslash in a string literal. -/
  | stringEscape
  /-- In a character literal. -/
  | inChar
  /-- After a backslash in a character literal. -/
  | charEscape
  deriving Repr, DecidableEq

namespace LineState

/-- The state after one more character; `next?` is the character that follows it. -/
def step (state : LineState) (char : Char) (next? : Option Char) : LineState :=
  match state with
  | .code =>
      if char = '/' then .slash
      else if char = '"' then .inString
      else if char = '\'' then .inChar
      else if char = '\\' ∧ next? = some '\\' then .ignored
      else .code
  | .slash =>
      if char = '/' then .comment
      else if char = '"' then .inString
      else if char = '\'' then .inChar
      else .code
  | .comment => .comment
  | .ignored => .ignored
  | .inString =>
      if char = '\\' then .stringEscape
      else if char = '"' then .code
      else .inString
  | .stringEscape => .inString
  | .inChar =>
      if char = '\\' then .charEscape
      else if char = '\'' then .code
      else .inChar
  | .charEscape => .inChar

/-- The text after the slashes of the first line comment in the rest of a line. -/
def commentText? (state : LineState) : List Char → Option (List Char)
  | [] => none
  | char :: rest =>
      match state.step char rest.head? with
      | .comment => some rest
      | next => next.commentText? rest

end LineState

/-- The target and the rules that a comment names. -/
structure Directive where
  target : DirectiveTarget
  ruleIds : List String
  deriving Repr, DecidableEq

namespace Directive

/-- The blanks before the first word of a comment. -/
def isBlank (char : Char) : Bool :=
  char == ' ' || char == '\t' || char == '\r'

/-- What may stand between the words of a directive. -/
def isSeparator (char : Char) : Bool :=
  isBlank char || char == ','

/-- The characters of a rule name. -/
def isRuleIdChar (char : Char) : Bool :=
  char.isAlphanum || char == '_'

/-- The characters of the first word. -/
def isWordChar (char : Char) : Bool :=
  isRuleIdChar char || char == '-'

/-- The maximal runs of characters without a separator. -/
def words : List Char → List (List Char)
  | [] => []
  | [char] => if isSeparator char then [] else [[char]]
  | char :: next :: rest =>
      if isSeparator char then
        words (next :: rest)
      else if isSeparator next then
        [char] :: words (next :: rest)
      else
        match words (next :: rest) with
        | word :: more => (char :: word) :: more
        | [] => [[char]]

/-- A set of rule names as a sorted list without repetitions. -/
def ruleIdSet (ruleIds : List String) : List String :=
  ruleIds.eraseDups.mergeSort fun left right => !decide (right < left)

/--
The rule names after the first word of a directive.

They end at the first dash. Any character that is neither part of a name nor a
separator makes the comment an ordinary one.
-/
def ruleIds? (rest : List Char) : Option (List String) :=
  let named := rest.takeWhile (· != '-')
  if named.all fun char => isSeparator char || isRuleIdChar char then
    some (ruleIdSet ((words named).map String.ofList))
  else
    none

/-- The directive that a comment holds, given its text after the slashes. -/
def ofComment? (text : List Char) : Option Directive := do
  if text.head? = some '/' ∨ text.head? = some '!' then
    none
  else
    let content := text.dropWhile isBlank
    let target ← DirectiveTarget.ofKeyword? (String.ofList (content.takeWhile isWordChar))
    let rest := content.dropWhile isWordChar
    if rest.head?.all isSeparator then
      return { target, ruleIds := ← ruleIds? rest }
    else
      none

/-- The directive on a line. -/
def ofLine? (line : List Char) : Option Directive :=
  (LineState.code.commentText? line).bind ofComment?

/-- The directive, standing on the given line, with the line it is about. -/
def toComment (directive : Directive) (line : Nat) : DisableComment where
  lineStart := directive.target.line line
  lineEnd := directive.target.line line
  ruleIds := directive.ruleIds

end Directive

/-- All directives of a source, in source order. -/
structure SuppressionTable where
  comments : List DisableComment
  deriving Repr, DecidableEq

namespace SuppressionTable

/-- The table of a source. -/
def ofSource (source : String) : SuppressionTable where
  comments := ((Text.lines source.toList).zipIdx 1).filterMap fun (text, line) =>
    (Directive.ofLine? text).map fun directive => directive.toComment line

/-- The table holds no directive. -/
def isEmpty (table : SuppressionTable) : Bool :=
  table.comments.isEmpty

/-- A directive switches the rule off on the line. -/
def suppresses (table : SuppressionTable) (ruleId : String) (line : Nat) : Bool :=
  table.comments.any fun comment => comment.covers line && comment.appliesTo ruleId

end SuppressionTable

end ZigLint
