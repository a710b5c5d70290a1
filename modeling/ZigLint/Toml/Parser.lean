import ZigLint.Text.Digits
import ZigLint.Text.Reader
import ZigLint.Toml.Item

namespace ZigLint.Toml

/-!
# Reading TOML

The grammar of TOML without dates: strings of four sorts, integers in four
bases, floats, booleans, arrays and inline tables, under keys, dotted keys and
the two sorts of header. `Toml.parse?` answers `none` for a text outside the
grammar and for one that defines a key or table twice.
-/

open Reader
open Text (digitsValue isHexDigit)

/-- The blanks inside a line. -/
def isBlank (char : Char) : Bool :=
  char == ' ' || char == '\t'

/-- A character that may stand in a comment or a string as it is. -/
def isPlain (char : Char) : Bool :=
  char == '\t' || (0x20 ≤ char.toNat && char.toNat ≤ 0x7E) || 0x80 ≤ char.toNat

/-- A character of a bare key. -/
def isBareKeyChar (char : Char) : Bool :=
  char.isAlphanum || char == '_' || char == '-'

/-- Skip blanks. -/
def blanks : Reader Unit := do
  let _ ← takeWhile isBlank

/-- Read a line break, and tell whether there was one. -/
def lineBreak : Reader Bool := do
  if ← accept "\n" then
    return true
  else
    accept "\r\n"

/-- Skip a comment, if there is one. -/
def comment : Reader Unit := do
  if ← accept "#" then
    let _ ← takeWhile isPlain

/-- Skip blanks and a comment up to the end of the line or file. -/
def lineEnd : Reader Unit := do
  blanks
  comment
  unless ← lineBreak do
    unless ← atEnd do
      failure

/-- Skip blanks, line breaks and comments. -/
def filler : Reader Unit := do
  let _ ← collect (α := Unit) do
    let _ ← takeWhile isBlank
    match ← peek? with
    | some '#' =>
        comment
        unless ← lineBreak do
          failure
        return .yield []
    | _ =>
        if ← lineBreak then
          return .yield []
        else
          return .done []

section Strings

/-- The character with a hexadecimal code of the given length. -/
def codeEscape (length : Nat) : Reader Char := do
  let code := digitsValue 16 (← takeExactly length isHexDigit)
  if code.isValidChar then
    return Char.ofNat code
  else
    failure

/-- The character that an escape stands for, after its backslash. -/
def escape : Reader Char := do
  match ← next with
  | 'b' => return '\x08'
  | 't' => return '\t'
  | 'n' => return '\n'
  | 'f' => return '\x0c'
  | 'r' => return '\r'
  | '"' => return '"'
  | '\\' => return '\\'
  | 'u' => codeEscape 4
  | 'U' => codeEscape 8
  | _ => failure

/-- The rest of a basic string after its opening quote. -/
def basicString : Reader (List Char) :=
  collect do
    if ← accept "\"" then
      return .done []
    else if ← accept "\\" then
      return .yield [← escape]
    else
      return .yield (← takeWhile1 fun char => isPlain char && char != '"' && char != '\\')

/-- The rest of a literal string after its opening quote. -/
def literalString : Reader (List Char) := do
  let text ← takeWhile fun char => isPlain char && char != '\''
  expect "'"
  return text

/--
A run of quotes in a string that three quotes close.

Fewer than three belong to the text. Of a longer run the last three close the
string, and at most two before them belong to it.
-/
def quoteRun (quote : Char) : Reader (ForInStep (List Char)) := do
  let run ← peekWhile (· == quote)
  if run.length < 3 then
    skip run.length
    return .yield run
  else
    let inner := min (run.length - 3) 2
    skip (inner + 3)
    return .done (run.take inner)

/-- Skip a line break after a backslash and all blanks and line breaks behind it. -/
def joinLines : Reader Bool := do
  let input ← get
  blanks
  if ← lineBreak then
    let _ ← collect (α := Unit) do
      blanks
      if ← lineBreak then
        return .yield []
      else
        return .done []
    return true
  else
    set input
    return false

/-- The rest of a multi-line basic string after its opening quotes. -/
def multiLineBasic : Reader (List Char) := do
  let _ ← lineBreak
  collect do
    match ← peek? with
    | some '"' => quoteRun '"'
    | some '\\' =>
        let _ ← next
        if ← joinLines then
          return .yield []
        else
          return .yield [← escape]
    | _ =>
        if ← lineBreak then
          return .yield ['\n']
        else
          return .yield (← takeWhile1 fun char => isPlain char && char != '"' && char != '\\')

/-- The rest of a multi-line literal string after its opening quotes. -/
def multiLineLiteral : Reader (List Char) := do
  let _ ← lineBreak
  collect do
    match ← peek? with
    | some '\'' => quoteRun '\''
    | _ =>
        if ← lineBreak then
          return .yield ['\n']
        else
          return .yield (← takeWhile1 fun char => isPlain char && char != '\'')

/-- The text of a string of any sort. -/
def stringChars : Reader (List Char) := do
  if ← accept "\"\"\"" then
    multiLineBasic
  else if ← accept "\"" then
    basicString
  else if ← accept "'''" then
    multiLineLiteral
  else
    expect "'"
    literalString

/-- A string value of any sort. -/
def stringValue : Reader String := do
  return String.ofList (← stringChars)

end Strings

section Keys

/-- One part of a key. -/
def simpleKey : Reader String := do
  if ← accept "\"" then
    return String.ofList (← basicString)
  else if ← accept "'" then
    return String.ofList (← literalString)
  else
    return String.ofList (← takeWhile1 isBareKeyChar)

/-- Number of parts that a key may not reach. -/
def keyPartLimit : Nat := 80

/-- A key as the parts before its last one and the last one. -/
def key : Reader (List String × String) := do
  let parts ← collect do
    blanks
    let part ← simpleKey
    blanks
    if ← accept "." then
      return .yield [part]
    else
      return .done [part]
  match parts.getLast? with
  | some last => if parts.length < keyPartLimit then return (parts.dropLast, last) else failure
  | none => failure

end Keys

section Numbers

/-- Digits in which single underscores may stand between two digits, without them. -/
def plainDigits? (isDigit : Char → Bool) : List Char → Option (List Char)
  | [] => none
  | [digit] => if isDigit digit then some [digit] else none
  | digit :: '_' :: rest =>
      if isDigit digit then (plainDigits? isDigit rest).map (digit :: ·) else none
  | digit :: next :: rest =>
      if isDigit digit then (plainDigits? isDigit (next :: rest)).map (digit :: ·) else none

/-- Split a sign off. -/
def splitSign : List Char → Bool × List Char
  | '-' :: rest => (true, rest)
  | '+' :: rest => (false, rest)
  | text => (false, text)

/-- A decimal whole number without sign and without leading zeros. -/
def wholePart? (text : List Char) : Option (List Char) := do
  let digits ← plainDigits? Char.isDigit text
  if digits.length > 1 ∧ digits.head? = some '0' then none else some digits

/-- The number lies in the range of 64-bit integers. -/
def inIntegerRange (number : Int) : Bool :=
  -0x8000000000000000 ≤ number && number < 0x8000000000000000

/-- An integer in any of the four bases. -/
def integer? (text : List Char) : Option Int := do
  let number : Int ←
    match text with
    | '0' :: 'x' :: rest => do
        pure (digitsValue 16 (← plainDigits? isHexDigit rest))
    | '0' :: 'o' :: rest => do
        pure (digitsValue 8 (← plainDigits? (fun char => '0' ≤ char && char ≤ '7') rest))
    | '0' :: 'b' :: rest => do
        pure (digitsValue 2 (← plainDigits? (fun char => char == '0' || char == '1') rest))
    | _ => do
        let (negative, rest) := splitSign text
        let value := digitsValue 10 (← wholePart? rest)
        pure (if negative then -value else value)
  if inIntegerRange number then some number else none

/-- The exponent of a float, after its mark. -/
def exponent? (text : List Char) : Option Int := do
  let (negative, rest) := splitSign text
  let value := digitsValue 10 (← plainDigits? Char.isDigit rest)
  return if negative then -value else value

/-- Split a text at its first character with a property, which is left out. -/
def splitAt? (property : Char → Bool) (text : List Char) : Option (List Char × List Char) :=
  match text.dropWhile (fun char => !property char) with
  | _ :: rest => some (text.takeWhile (fun char => !property char), rest)
  | [] => none

/-- A float with a fraction or an exponent, or one of the special values. -/
def float? (text : List Char) : Option Binary64 := do
  let (negative, rest) := splitSign text
  if rest = "inf".toList then
    return .infinite negative
  else if rest = "nan".toList then
    return .nan
  else
    let (mantissa, exponent) ←
      match splitAt? (fun char => char == 'e' || char == 'E') rest with
      | some (mantissa, mark) => do pure (mantissa, some (← exponent? mark))
      | none => pure (rest, none)
    let (whole, fraction) ←
      match splitAt? (· == '.') mantissa with
      | some (whole, places) => do
          pure (← wholePart? whole, ← plainDigits? Char.isDigit places)
      | none => do
          if exponent.isNone then none else pure (← wholePart? mantissa, [])
    let digits := digitsValue 10 (whole ++ fraction)
    let number := Binary64.ofDecimal negative digits (exponent.getD 0 - fraction.length)
    if number = .infinite false then none else some number

/-- A character of a number or of a word such as `true`. -/
def isScalarChar (char : Char) : Bool :=
  char.isAlphanum || char == '_' || char == '+' || char == '-' || char == '.'

/-- A number or truth value. -/
def scalar : Reader Value := do
  let text ← takeWhile1 isScalarChar
  if text = "true".toList then
    return .boolean true
  else if text = "false".toList then
    return .boolean false
  else
    match integer? text, float? text with
    | some number, _ => return .integer number
    | none, some number => return .float number
    | none, none => failure

end Numbers

section Containers

variable (value : Reader Value)

/-- The rest of an array after its opening bracket. -/
def arrayRest : Reader (List Value) :=
  collect do
    filler
    if ← accept "]" then
      return .done []
    else
      let item ← value
      filler
      if ← accept "," then
        return .yield [item]
      else
        expect "]"
        return .done [item]

/-- A key with its value, up to the end of the value. -/
def keyValue : Reader ((List String × String) × Value) := do
  let name ← key
  expect "="
  blanks
  return (name, ← value)

/-- The rest of an inline table after its opening brace. -/
def inlineTableRest : Reader Table := do
  blanks
  if ← accept "\x7d" then
    return []
  else
    let pairs ← collect do
      let pair ← keyValue value
      blanks
      if ← accept "," then
        return .yield [pair]
      else
        expect "\x7d"
        return .done [pair]
    let entries ← pairs.foldlM
      (fun entries ((path, name), item) => (Entries.insert name item path entries : Option Entries))
      []
    return Entries.close entries

end Containers

/-- A value that may nest at most `depth` arrays and inline tables. -/
def value : (depth : Nat) → Reader Value
  | 0 => do
      match ← peek? with
      | some '"' | some '\'' => return .string (← stringValue)
      | _ => scalar
  | depth + 1 => do
      match ← peek? with
      | some '"' | some '\'' => return .string (← stringValue)
      | some '[' =>
          expect "["
          return .array (← arrayRest (value depth))
      | some '\x7b' =>
          expect "\x7b"
          return .table (← inlineTableRest (value depth))
      | _ => scalar

/-- Number of arrays and inline tables that may nest. -/
def maxDepth : Nat := 79

/-- A file that has been read up to some line. -/
structure Progress where
  root : Entries
  current : List String

/-- Read a header and open its table. -/
def header (progress : Progress) : Reader Progress := do
  if ← accept "[[" then
    let (path, name) ← key
    expect "]]"
    lineEnd
    let root ← (Entries.modifyAt (Entries.appendTable name) path progress.root : Option Entries)
    return { root, current := path ++ [name] }
  else
    expect "["
    let (path, name) ← key
    expect "]"
    lineEnd
    let root ← (Entries.modifyAt (Entries.openTable name) path progress.root : Option Entries)
    return { root, current := path ++ [name] }

/-- Read a key with its value into the table that is open. -/
def assignment (progress : Progress) : Reader Progress := do
  let ((path, name), item) ← keyValue (value maxDepth)
  lineEnd
  let root ←
    (Entries.modifyAt (Entries.insert name item path) progress.current progress.root :
      Option Entries)
  return { progress with root }

/-- Read all lines of a file. -/
def file : Reader Table := do
  let _ ← accept "\ufeff"
  let progress ← iterate
    (fun progress => do
      blanks
      match ← peek? with
      | none => return .done progress
      | some '#' =>
          lineEnd
          return .yield progress
      | some '\n' | some '\r' =>
          if ← lineBreak then
            return .yield progress
          else
            failure
      | some '[' => return .yield (← header progress)
      | some _ => return .yield (← assignment progress))
    { root := [], current := [] }
  return progress.root.close

/-- The table that a TOML text describes. -/
def parse? (text : String) : Option Table :=
  file.run? text

end ZigLint.Toml
