namespace ZigLint

/-!
# JSON values

The values of JSON. A number that is not written as a whole number is kept as
its text; the entries of an object keep their order.
-/

/-- A JSON value. -/
inductive Json where
  | null
  | boolean (truth : Bool)
  | integer (number : Int)
  | real (text : String)
  | string (text : String)
  | array (items : List Json)
  | object (entries : List (String × Json))
  deriving Repr, Inhabited

namespace Json

/-- The value of an object at a key. -/
def get? (key : String) : Json → Option Json
  | .object entries => (entries.find? fun (entryKey, _) => entryKey == key).map Prod.snd
  | _ => none

/-- The items of an array. -/
def items? : Json → Option (List Json)
  | .array items => some items
  | _ => none

/-- The text of a string. -/
def text? : Json → Option String
  | .string text => some text
  | _ => none

/-- The truth of a boolean. -/
def boolean? : Json → Option Bool
  | .boolean truth => some truth
  | _ => none

/-- A whole number of at most 64 bits. -/
def natural? : Json → Option Nat
  | .integer number => if 0 ≤ number ∧ number ≤ 0xFFFFFFFFFFFFFFFF then some number.toNat else none
  | _ => none

/--
The parts of a record with the given field names.

An object gives them by name, and other entries do not matter; an array gives
them by position and must not be longer than the record.
-/
def parts? (names : List String) : Json → Option (List (Option Json))
  | .object entries => some (names.map fun name => (Json.object entries).get? name)
  | .array items =>
      if items.length ≤ names.length then
        some ((List.range names.length).map fun position => items[position]?)
      else
        none
  | _ => none

end Json

end ZigLint
