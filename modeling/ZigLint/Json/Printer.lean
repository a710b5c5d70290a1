import ZigLint.Json.Value

namespace ZigLint.Json

/-!
# Printing JSON

The text of a JSON value over several lines: each item and entry stands on a
line of its own, two blanks deeper than what it belongs to.
-/

/-- The last two digits of a number in lower-case hexadecimal. -/
def hexPair (number : Nat) : List Char :=
  [Nat.digitChar (number / 16 % 16), Nat.digitChar (number % 16)]

/-- A character inside a string literal. -/
def escapeChar (char : Char) : List Char :=
  if char = '"' then ['\\', '"']
  else if char = '\\' then ['\\', '\\']
  else if char = '\x08' then ['\\', 'b']
  else if char = '\x0c' then ['\\', 'f']
  else if char = '\n' then ['\\', 'n']
  else if char = '\r' then ['\\', 'r']
  else if char = '\t' then ['\\', 't']
  else if char.toNat < 0x20 then ['\\', 'u', '0', '0'] ++ hexPair char.toNat
  else [char]

/-- A text as a string literal. -/
def literal (text : String) : List Char :=
  '"' :: text.toList.flatMap escapeChar ++ ['"']

/-- The decimal digits of a whole number with its sign. -/
def wholeNumber (number : Int) : List Char :=
  if number < 0 then
    '-' :: Nat.toDigits 10 number.natAbs
  else
    Nat.toDigits 10 number.natAbs

/-- A line break and the blanks in front of a line at the given depth. -/
def newLine (depth : Nat) : List Char :=
  '\n' :: List.replicate (2 * depth) ' '

mutual

/-- The text of a value whose first line stands at the given depth. -/
def prettyChars (depth : Nat) : Json → List Char
  | .null => "null".toList
  | .boolean truth => if truth then "true".toList else "false".toList
  | .integer number => wholeNumber number
  | .real text => text.toList
  | .string text => literal text
  | .array [] => ['[', ']']
  | .array (item :: items) =>
      '[' :: newLine (depth + 1) ++ prettyChars (depth + 1) item ++ prettyItems (depth + 1) items
        ++ newLine depth ++ [']']
  | .object [] => ['\x7b', '\x7d']
  | .object ((key, value) :: entries) =>
      '\x7b' :: newLine (depth + 1) ++ literal key ++ [':', ' '] ++ prettyChars (depth + 1) value
        ++ prettyEntries (depth + 1) entries ++ newLine depth ++ ['\x7d']

/-- Further items of an array, each after a comma. -/
def prettyItems (depth : Nat) : List Json → List Char
  | [] => []
  | item :: items => ',' :: newLine depth ++ prettyChars depth item ++ prettyItems depth items

/-- Further entries of an object, each after a comma. -/
def prettyEntries (depth : Nat) : List (String × Json) → List Char
  | [] => []
  | (key, value) :: entries =>
      ',' :: newLine depth ++ literal key ++ [':', ' '] ++ prettyChars depth value
        ++ prettyEntries depth entries

end

/-- The text of a value. -/
def pretty (json : Json) : String :=
  String.ofList (prettyChars 0 json)

end ZigLint.Json
