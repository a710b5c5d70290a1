import ZigLint.Json.Value
import ZigLint.Text.Digits
import ZigLint.Text.Reader

namespace ZigLint.Json

/-!
# Reading JSON

The grammar of JSON. `Json.parse?` answers `none` for a text outside it, for one
that nests too deeply and for one with an unpaired surrogate escape.
-/

open Reader
open Text (digitsValue isHexDigit)

/-- Skip blanks and line breaks. -/
def blanks : Reader Unit := do
  let _ ← takeWhile fun char => char == ' ' || char == '\t' || char == '\n' || char == '\r'

/-- The code of a `\u` escape, after its `u`. -/
def codeUnit : Reader Nat := do
  return digitsValue 16 (← takeExactly 4 isHexDigit)

/-- The character of a `\u` escape, after its `u`; a large code is written as two escapes. -/
def unicodeEscape : Reader Char := do
  let code ← codeUnit
  if 0xD800 ≤ code && code < 0xDC00 then
    expect "\\u"
    let low ← codeUnit
    if 0xDC00 ≤ low && low < 0xE000 then
      return Char.ofNat (0x10000 + (code - 0xD800) * 0x400 + (low - 0xDC00))
    else
      failure
  else if 0xDC00 ≤ code && code < 0xE000 then
    failure
  else
    return Char.ofNat code

/-- The character of an escape, after its backslash. -/
def escape : Reader Char := do
  match ← next with
  | '"' => return '"'
  | '\\' => return '\\'
  | '/' => return '/'
  | 'b' => return '\x08'
  | 'f' => return '\x0c'
  | 'n' => return '\n'
  | 'r' => return '\r'
  | 't' => return '\t'
  | 'u' => unicodeEscape
  | _ => failure

/-- A character that stands for itself in a string. -/
def isPlain (char : Char) : Bool :=
  0x20 ≤ char.toNat && char != '"' && char != '\\'

/-- A string literal. -/
def stringLiteral : Reader String := do
  expect "\""
  let text ← collect do
    if ← accept "\"" then
      return .done []
    else if ← accept "\\" then
      return .yield [← escape]
    else
      return .yield (← takeWhile1 isPlain)
  return String.ofList text

/-- The digits of a number before its fraction: a zero, or digits that start with another. -/
def wholeDigits : Reader (List Char) := do
  let digits ← takeWhile1 Char.isDigit
  if digits.length > 1 ∧ digits.head? = some '0' then
    failure
  else
    return digits

/-- The fraction of a number with its point, or nothing. -/
def fraction : Reader (List Char) := do
  if ← accept "." then
    return '.' :: (← takeWhile1 Char.isDigit)
  else
    return []

/-- The exponent of a number with its mark, or nothing. -/
def exponent : Reader (List Char) := do
  match ← peek? with
  | some mark =>
      if mark == 'e' || mark == 'E' then
        let _ ← next
        let sign ← takeWhile fun char => char == '+' || char == '-'
        if sign.length > 1 then
          failure
        else
          return mark :: sign ++ (← takeWhile1 Char.isDigit)
      else
        return []
  | none => return []

/-- A number; minus zero is not a whole number. -/
def number : Reader Json := do
  let negative ← accept "-"
  let digits ← wholeDigits
  let rest := (← fraction) ++ (← exponent)
  let value := digitsValue 10 digits
  if rest.isEmpty ∧ ¬(negative ∧ value = 0) then
    return .integer (if negative then -value else value)
  else
    return .real (String.ofList ((if negative then ['-'] else []) ++ digits ++ rest))

/-- The rest of a list after its opening bracket: items, separated by commas, up to `close`. -/
def listRest (close : String) (item : Reader α) : Reader (List α) := do
  blanks
  if ← accept close then
    return []
  else
    collect do
      blanks
      let value ← item
      blanks
      if ← accept "," then
        return .yield [value]
      else
        expect close
        return .done [value]

/-- An entry of an object. -/
def entry (value : Reader Json) : Reader (String × Json) := do
  let key ← stringLiteral
  blanks
  expect ":"
  blanks
  return (key, ← value)

/-- A value without parts. -/
def scalar : Reader Json := do
  if ← accept "null" then
    return .null
  else if ← accept "true" then
    return .boolean true
  else if ← accept "false" then
    return .boolean false
  else
    match ← peek? with
    | some '"' => return .string (← stringLiteral)
    | _ => number

/-- A value in which at most `depth` arrays and objects nest. -/
def value : (depth : Nat) → Reader Json
  | 0 => scalar
  | depth + 1 => do
      if ← accept "[" then
        return .array (← listRest "]" (value depth))
      else if ← accept "\x7b" then
        return .object (← listRest "\x7d" (entry (value depth)))
      else
        scalar

/-- Number of arrays and objects that may nest. -/
def maxDepth : Nat := 127

/-- A text that holds one value. -/
def document : Reader Json := do
  blanks
  let result ← value maxDepth
  blanks
  if ← atEnd then
    return result
  else
    failure

/-- The value that a text describes. -/
def parse? (text : String) : Option Json :=
  document.run? text

end ZigLint.Json
