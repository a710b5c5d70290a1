import ZigLint.Document
import ZigLint.Rule.Options

namespace ZigLint

/-!
# Rules

A rule looks at one document and reports problems. It owns a table of options,
which it can judge without a document: `Rule.validate` says why a table is
rejected. A rule that is run on a table it rejects goes by its default options.
-/

/-- A rule with its built-in id, description and severity. -/
structure Rule where
  id : String
  description : String
  defaultSeverity : Severity
  /-- Accept a table of options or say why not. -/
  validate : Toml.Table → Except OptionError Unit
  /-- The problems of a document, in the order in which the rule finds them. -/
  problems : RuleOptions → Document → List Problem

namespace Rule

/-- A rule whose options are read from a table by `fields`. -/
def ofFields
    (id : String)
    (description : String)
    (defaultSeverity : Severity)
    (fields : List (OptionField Options))
    (defaults : Options)
    (check : Options → Severity → Document → List Problem) :
    Rule where
  id
  description
  defaultSeverity
  validate table := do
    let _ ← OptionField.decode fields defaults table
  problems options document :=
    let decoded := (OptionField.decode fields defaults options.table).toOption.getD defaults
    check decoded options.severity document

/-- Run the rule on a document. -/
def run (rule : Rule) (options : RuleOptions) (document : Document) : Option LintResult :=
  LintResult.ofProblems? document.path (rule.problems options document)

/-- Check a table of options, and name the rule if it rejects it. -/
def checkOptions (rule : Rule) (table : Toml.Table) : Except InvalidOptions Unit :=
  match rule.validate table with
  | .ok _ => .ok ()
  | .error error => .error { ruleId := rule.id, error }

end Rule

namespace Document

/-- A name that is written as `@"..."`, which no style judges. -/
def isQuotedName (name : String) : Bool :=
  name.toList.head? == some '@'

/--
The problem of a name that breaks its style.

The fix renames it, unless the style would leave the name as it is.
-/
def nameProblem?
    (document : Document)
    (ruleId : String)
    (severity : Severity)
    (style : NamingStyle)
    (token : TokenIndex)
    (subject : String) :
    Option Problem :=
  let name := document.tree.tokenText token
  let span := document.tree.tokenSpan token
  if isQuotedName name || style.check name then
    none
  else
    let renamed := style.convert name
    let fix? : Option Fix :=
      if renamed = name then none else some ⟨span.start, span.stop, renamed⟩
    some (document.problem ruleId severity span s!"{subject} '{name}' should be {style.name}" fix?)

end Document

end ZigLint
