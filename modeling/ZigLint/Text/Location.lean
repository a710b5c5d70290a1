import ZigLint.Text.Bytes
import ZigLint.Text.Span

namespace ZigLint

/-!
# Lines and locations

A `Location` names a byte of a source three ways: by offset, and by line and
column counted from one, columns in bytes. `LineMap` holds where the lines of a
source start and turns offsets into locations; offsets past the end fall on it.
-/

/-- A place in a source. -/
structure Location where
  offset : Nat
  line : Nat
  column : Nat
  deriving Repr, DecidableEq, Inhabited

namespace Text

/-- The lines of a text, without their line breaks; an empty text is one empty line. -/
def lines : List Char → List (List Char)
  | [] => [[]]
  | char :: rest =>
      if char = '\n' then
        [] :: lines rest
      else
        match lines rest with
        | line :: more => (char :: line) :: more
        | [] => [[char]]

/-- The offsets right after each line break of `chars`, which starts at byte `offset`. -/
def lineStartsAfter (offset : Nat) : List Char → List Nat
  | [] => []
  | char :: rest =>
      let next := offset + char.utf8Size
      if char = '\n' then
        next :: lineStartsAfter next rest
      else
        lineStartsAfter next rest

end Text

/-- Where the lines of a source start. -/
structure LineMap where
  length : Nat
  starts : List Nat
  deriving Repr, DecidableEq

namespace LineMap

/-- The line map of a source. -/
def ofSource (source : String) : LineMap where
  length := source.utf8ByteSize
  starts := 0 :: Text.lineStartsAfter 0 source.toList

/-- The location of a byte offset; an offset past the end is moved to the end. -/
def location (map : LineMap) (offset : Nat) : Location :=
  let offset := min offset map.length
  let before := map.starts.takeWhile (· ≤ offset)
  {
    offset
    line := before.length
    column := offset - before.getLastD 0 + 1
  }

/-- The locations of the first and last byte of a span; of an empty span, its start twice. -/
def spanLocations (map : LineMap) (span : Span) : Location × Location :=
  let start := map.location span.start
  if span.isEmpty then
    (start, start)
  else
    (start, map.location (span.stop - 1))

end LineMap

end ZigLint
