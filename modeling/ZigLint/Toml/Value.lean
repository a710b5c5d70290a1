import ZigLint.Number.Binary64

namespace ZigLint.Toml

/-!
# TOML values

The values of a TOML file. A table lists its entries in the order in which they
appear; `Value.settle?` puts them in increasing order of their keys. A table
whose first key is `dateKey` stands for a date, and dates are not settled.
-/

/-- A TOML value. -/
inductive Value where
  | string (text : String)
  | integer (number : Int)
  | float (number : Binary64)
  | boolean (truth : Bool)
  | array (items : List Value)
  | table (entries : List (String × Value))
  deriving Repr

/-- The entries of a table. -/
abbrev Table := List (String × Value)

namespace Table

/-- The value at a key. -/
def get? (table : Table) (key : String) : Option Value :=
  (List.find? (fun (entryKey, _) => entryKey == key) table).map Prod.snd

end Table

namespace Value

/-- What sort of value it is, in one word. -/
def sort : Value → String
  | .string _ => "string"
  | .integer _ => "integer"
  | .float _ => "float"
  | .boolean _ => "boolean"
  | .array _ => "array"
  | .table _ => "table"

/-- An array without items or a table without entries. -/
def isEmpty : Value → Bool
  | .array items => items.isEmpty
  | .table entries => entries.isEmpty
  | _ => false

end Value

/-- The first key of a table that stands for a date. -/
def dateKey : String := "$__toml_private_datetime"

namespace Table

/-- The table stands for a date. -/
def isDate (table : Table) : Bool :=
  table.head?.any fun (key, _) => key == dateKey

/-- The entries in increasing order of their keys. -/
def sort (table : Table) : Table :=
  table.mergeSort fun left right => !decide (right.1 < left.1)

end Table

mutual

/-- The value with the entries of all tables in order; a date, and what holds one, has none. -/
def Value.settle? : Value → Option Value
  | .array items => (settleItems? items).map .array
  | .table entries =>
      if Table.isDate entries then
        none
      else
        (settleEntries? entries).map fun settled => .table (Table.sort settled)
  | .string text => some (.string text)
  | .integer number => some (.integer number)
  | .float number => some (.float number)
  | .boolean truth => some (.boolean truth)

/-- The items of an array, settled. -/
def settleItems? : List Value → Option (List Value)
  | [] => some []
  | item :: rest => do return (← item.settle?) :: (← settleItems? rest)

/-- The entries of a table, with their values settled. -/
def settleEntries? : List (String × Value) → Option (List (String × Value))
  | [] => some []
  | (key, value) :: rest => do return (key, ← value.settle?) :: (← settleEntries? rest)

end

/-- The table with settled values and its entries in order. -/
def Table.settle? (table : Table) : Option Table :=
  (settleEntries? table).map Table.sort

end ZigLint.Toml
