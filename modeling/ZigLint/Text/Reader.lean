namespace ZigLint

/-!
# Reading text

A `Reader` takes characters off the front of a text and may fail. What it has
not read yet is an `Unread`, which knows how many characters it holds. As with
token lists, repetition is total because a round that reads nothing is the last
one.
-/

/-- The part of a text that has not been read yet, with its number of characters. -/
structure Unread where
  chars : List Char
  count : Nat
  count_eq : count = chars.length

namespace Unread

/-- A text of which nothing has been read. -/
def ofString (text : String) : Unread where
  chars := text.toList
  count := text.toList.length
  count_eq := rfl

/-- Leave the first `number` characters out; past the end nothing is left. -/
def drop (input : Unread) (number : Nat) : Unread where
  chars := input.chars.drop number
  count := input.count - number
  count_eq := by simp [input.count_eq]

end Unread

/-- A computation that reads a text from left to right. -/
abbrev Reader := StateT Unread Option

namespace Reader

/-- The next character, without reading it. -/
def peek? : Reader (Option Char) := do
  return (← get).chars.head?

/-- Nothing is left to read. -/
def atEnd : Reader Bool := do
  return (← get).chars.isEmpty

/-- Read as many characters as given, whatever they are. -/
def skip (number : Nat) : Reader Unit :=
  modify (·.drop number)

/-- Read one character. -/
def next : Reader Char := do
  match ← peek? with
  | some char =>
      skip 1
      return char
  | none => failure

/-- Read the given text if it comes next, and tell whether it did. -/
def accept (text : String) : Reader Bool := do
  if text.toList.isPrefixOf (← get).chars then
    skip text.length
    return true
  else
    return false

/-- Read the given text or fail. -/
def expect (text : String) : Reader Unit := do
  unless ← accept text do
    failure

/-- The longest run of characters with a property that comes next, without reading it. -/
def peekWhile (property : Char → Bool) : Reader (List Char) := do
  return (← get).chars.takeWhile property

/-- Read the longest run of characters with a property. -/
def takeWhile (property : Char → Bool) : Reader (List Char) := do
  let run ← peekWhile property
  skip run.length
  return run

/-- Read the longest run of characters with a property, which must not be empty. -/
def takeWhile1 (property : Char → Bool) : Reader (List Char) := do
  let run ← takeWhile property
  if run.isEmpty then
    failure
  else
    return run

/-- Read as many characters as asked for, all with a property, or fail. -/
def takeExactly (number : Nat) (property : Char → Bool) : Reader (List Char) := do
  let run := (← get).chars.take number
  if run.length = number ∧ run.all property then
    skip number
    return run
  else
    failure

/--
Run `round` on `value` again and again until it answers `done`.

A round that reads no character ends the repetition, too.
-/
def iterate (round : α → Reader (ForInStep α)) (value : α) : Reader α :=
  fun input =>
    match round value input with
    | none => none
    | some (.done last, rest) => some (last, rest)
    | some (.yield next, rest) =>
        if rest.count < input.count then
          iterate round next rest
        else
          some (next, rest)
  termination_by input => input.count

/-- Run `round` until it answers `done`, and join the lists it answers. -/
def collect (round : Reader (ForInStep (List α))) : Reader (List α) := do
  let lists ← iterate
    (fun lists => do
      match ← round with
      | .done last => return .done (last :: lists)
      | .yield more => return .yield (more :: lists))
    []
  return lists.reverse.flatten

/-- What a reader answers for a whole text. -/
def run? (reader : Reader α) (text : String) : Option α :=
  (reader (.ofString text)).map Prod.fst

end Reader

end ZigLint
