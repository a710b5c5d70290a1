import ZigLint.Naming.Style
import ZigLint.Problem.Basic
import ZigLint.Text.Quoted
import ZigLint.Toml.Value

namespace ZigLint

/-!
# Rule options

A rule reads its options from a table. `OptionField` says how the value of one
key changes the options, and `OptionField.decode` takes the entries of a table
in order, starting from the default options: the first entry that is not known
or does not fit is the reason why the table is rejected.
-/

/-- The sorts of value that an option may ask for. -/
inductive OptionSort where
  | boolean
  | sequence
  | text
  deriving Repr, DecidableEq

/-- Why a table of options is rejected. -/
inductive OptionError where
  /-- The rule has no such option. -/
  | unknownOption (key : String) (known : List String)
  /-- There is no such naming style. -/
  | unknownStyle (name : String)
  /-- The value is of another sort than the option asks for. -/
  | wrongSort (found : Toml.Value) (expected : OptionSort)
  /-- A naming style is given neither as a text nor as a table. -/
  | styleNotNamed
  /-- A naming style is given as a table without entries. -/
  | styleTableEmpty
  /-- A naming style is given as a table with several entries. -/
  | styleTableCrowded
  /-- A naming style is given as a table whose entry has a value of its own. -/
  | styleEntryNotEmpty (value : Toml.Value)
  deriving Repr

namespace OptionSort

/-- What the option expects. -/
def expectation : OptionSort → String
  | .boolean => "a boolean"
  | .sequence => "a sequence"
  | .text => "a string"

end OptionSort

namespace OptionError

/-- Names in backquotes, separated by commas. -/
def listing (names : List String) : String :=
  ", ".intercalate (names.map fun name => s!"`{name}`")

/-- A value as errors show it. -/
def describe : Toml.Value → String
  | .string text => "string " ++ Text.quoted text
  | .integer number => s!"integer `{number}`"
  | .float number => s!"floating point `{number.text}`"
  | .boolean truth => s!"boolean `{truth}`"
  | .array _ => "sequence"
  | .table _ => "map"

/-- What is wrong with the value of an entry in a style table. -/
def describeStyleEntry : Toml.Value → String
  | .array _ => "expected empty array"
  | .table _ => "expected empty table"
  | value => s!"expected table, found {value.sort}"

/-- The wording of the error. -/
def message : OptionError → String
  | .unknownOption key known => s!"unknown field `{key}`, expected one of " ++ listing known
  | .unknownStyle name =>
      s!"unknown variant `{name}`, expected one of " ++ listing (NamingStyle.all.map NamingStyle.name)
  | .wrongSort found expected =>
      "invalid type: " ++ describe found ++ ", expected " ++ expected.expectation
  | .styleNotNamed => "invalid type: unit variant, expected string only"
  | .styleTableEmpty => "wanted exactly 1 element, found 0 elements"
  | .styleTableCrowded => "wanted exactly 1 element, more than 1 element"
  | .styleEntryNotEmpty value => describeStyleEntry value

end OptionError

/-- A table of options that the rule with id `ruleId` rejects. -/
structure InvalidOptions where
  ruleId : String
  error : OptionError
  deriving Repr

namespace InvalidOptions

/-- The wording of the error. -/
def message (invalid : InvalidOptions) : String :=
  s!"Invalid options for rule '{invalid.ruleId}': {invalid.error.message}"

end InvalidOptions

/-- How the value of one key changes the options of a rule. -/
structure OptionField (Options : Type) where
  key : String
  read : Toml.Value → Options → Except OptionError Options

namespace OptionField

/-- Read a truth value. -/
def readBoolean : Toml.Value → Except OptionError Bool
  | .boolean truth => .ok truth
  | value => .error (.wrongSort value .boolean)

/-- Read a text. -/
def readText : Toml.Value → Except OptionError String
  | .string text => .ok text
  | value => .error (.wrongSort value .text)

/-- Read a list of texts. -/
def readTexts : Toml.Value → Except OptionError (List String)
  | .array items => items.mapM readText
  | value => .error (.wrongSort value .sequence)

/-- The naming style with the given name. -/
def styleNamed (name : String) : Except OptionError NamingStyle :=
  match NamingStyle.ofName? name with
  | some style => .ok style
  | none => .error (.unknownStyle name)

/-- Read a naming style: its name, or a table whose only key is its name. -/
def readStyle : Toml.Value → Except OptionError NamingStyle
  | .string name => styleNamed name
  | .table [] => .error .styleTableEmpty
  | .table [(name, value)] => do
      let style ← styleNamed name
      if value.isEmpty then
        return style
      else
        throw (.styleEntryNotEmpty value)
  | .table _ => .error .styleTableCrowded
  | _ => .error .styleNotNamed

/-- An option that takes a truth value. -/
def boolean (key : String) (set : Bool → Options → Options) : OptionField Options where
  key
  read value options := (set · options) <$> readBoolean value

/-- An option that takes a list of texts. -/
def texts (key : String) (set : List String → Options → Options) : OptionField Options where
  key
  read value options := (set · options) <$> readTexts value

/-- An option that takes a naming style. -/
def style (key : String) (set : NamingStyle → Options → Options) : OptionField Options where
  key
  read value options := (set · options) <$> readStyle value

/-- Let one entry of a table change the options. -/
def decodeEntry (fields : List (OptionField Options)) (options : Options)
    (entry : String × Toml.Value) : Except OptionError Options :=
  match fields.find? fun field => field.key == entry.1 with
  | some field => field.read entry.2 options
  | none => .error (.unknownOption entry.1 (fields.map OptionField.key))

/-- The options that a table describes. -/
def decode (fields : List (OptionField Options)) (defaults : Options) (table : Toml.Table) :
    Except OptionError Options :=
  table.foldlM (decodeEntry fields) defaults

end OptionField

/-- What a rule is run with: the severity of its problems and its table of options. -/
structure RuleOptions where
  severity : Severity
  table : Toml.Table
  deriving Repr

end ZigLint
