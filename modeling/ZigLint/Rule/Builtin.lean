import ZigLint.Rule.DeclarationNaming
import ZigLint.Rule.FieldNaming
import ZigLint.Rule.NoUndefined

namespace ZigLint.Rule

/-!
# Built-in rules

The rules that come with the program, and their selection by id.
-/

/-- Every built-in rule. -/
def builtin : List Rule :=
  [DeclarationNaming.rule, FieldNaming.rule, NoUndefined.rule]

/-- The built-in rule with the given id. -/
def builtin? (id : String) : Option Rule :=
  builtin.find? fun rule => rule.id == id

/-- The built-in rules with the given ids, in that order, or the first id that names none. -/
def select (ids : List String) : Except String (List Rule) :=
  ids.mapM fun id =>
    match builtin? id with
    | some rule => .ok rule
    | none => .error id

end ZigLint.Rule
