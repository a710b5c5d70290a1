namespace ZigLint.Text

/-!
# Byte offsets into text

Offsets count the bytes of the UTF-8 encoding, while texts are handled as lists
of characters. `splitAtByte?` moves between the two: it succeeds exactly at the
offsets that lie on a character boundary of the text.
-/

/-- Number of bytes in the UTF-8 encoding of `chars`. -/
def byteLength : List Char → Nat
  | [] => 0
  | char :: rest => char.utf8Size + byteLength rest

/--
Cut `chars` after `offset` bytes.

The answer is `none` when the offset lies inside a character or past the end.
-/
def splitAtByte? (offset : Nat) : List Char → Option (List Char × List Char)
  | [] => if offset = 0 then some ([], []) else none
  | char :: rest =>
      if offset = 0 then
        some ([], char :: rest)
      else if offset < char.utf8Size then
        none
      else
        (splitAtByte? (offset - char.utf8Size) rest).map fun (before, after) =>
          (char :: before, after)

/-- The offset is a character boundary of `chars`, the end included. -/
def isBoundary (chars : List Char) (offset : Nat) : Bool :=
  (splitAtByte? offset chars).isSome

/-- The characters of the byte range `[start, stop)`, when both ends are boundaries. -/
def slice? (chars : List Char) (start stop : Nat) : Option (List Char) := do
  let (_, after) ← splitAtByte? start chars
  if start ≤ stop then
    let (inside, _) ← splitAtByte? (stop - start) after
    return inside
  else
    none

end ZigLint.Text
