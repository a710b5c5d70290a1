import Mathlib.Algebra.GroupWithZero.Nat
import ZigLint.Proofs.Fix.Splice
import ZigLint.Text.Location

namespace ZigLint

/-!
# Line numbers

The line of a place is the number of line breaks before it, counted from one.
Every byte offset falls on one of the lines of a text: not before the line starts,
and not behind the line break that ends it. A token keeps its line when words
before it are replaced by other words, since no word holds a line break.
-/

namespace Text

theorem exists_first_line
    (chars : List Char) :
    ∃ line more, lines chars = line :: more := by
  cases chars with
  | nil => exact ⟨[], [], rfl⟩
  | cons char rest =>
      rw [lines]
      split
      · exact ⟨[], lines rest, rfl⟩
      · split <;> exact ⟨_, _, rfl⟩

/-- Characters that are no line break stand at the front of the first line. -/
theorem lines_append
    {front rest line : List Char}
    {more : List (List Char)}
    (noBreak : '\n' ∉ front)
    (linesEq : lines rest = line :: more) :
    lines (front ++ rest) = (front ++ line) :: more := by
  induction front with
  | nil => exact linesEq
  | cons char after inductionHypothesis =>
      have notBreak : char ≠ '\n' := fun isBreak => noBreak (isBreak ▸ List.mem_cons_self)
      have laterEq := inductionHypothesis fun member => noBreak (List.mem_cons_of_mem _ member)
      rw [List.cons_append, lines, if_neg notBreak, laterEq]
      rfl

/-- A character that is no line break stands at the front of the first line. -/
theorem lines_cons
    {char : Char}
    {rest line : List Char}
    {more : List (List Char)}
    (notBreak : char ≠ '\n')
    (linesEq : lines rest = line :: more) :
    lines (char :: rest) = (char :: line) :: more :=
  lines_append (by simpa using notBreak.symm : '\n' ∉ [char]) linesEq

/-- The first line of a text goes on in the last line of a front with line breaks. -/
theorem lines_append_break
    {front rest line : List Char}
    {more : List (List Char)}
    (hasBreak : '\n' ∈ front)
    (linesEq : lines rest = line :: more) :
    ∃ inner last,
      lines (front ++ rest) =
          front.takeWhile (· != '\n') :: (inner ++ (last ++ line) :: more) ∧
        inner.length + 1 = front.count '\n' := by
  induction front with
  | nil => cases hasBreak
  | cons char after inductionHypothesis =>
      by_cases isBreak : char = '\n'
      · subst isBreak
        rw [List.cons_append, lines, if_pos rfl, List.takeWhile_cons_of_neg (by decide),
          List.count_cons_self]
        by_cases another : '\n' ∈ after
        · obtain ⟨inner, last, afterEq, countEq⟩ := inductionHypothesis another
          exact ⟨after.takeWhile (· != '\n') :: inner, last, by rw [afterEq]; rfl, by
            rw [List.length_cons, countEq]⟩
        · exact ⟨[], after, by rw [lines_append another linesEq]; rfl, by
            rw [List.count_eq_zero.mpr another]; rfl⟩
      · have inAfter : '\n' ∈ after := by simpa [Ne.symm isBreak] using hasBreak
        obtain ⟨inner, last, afterEq, countEq⟩ := inductionHypothesis inAfter
        refine ⟨inner, last, ?_, ?_⟩
        · rw [List.cons_append, lines_cons isBreak afterEq,
            List.takeWhile_cons_of_pos (by simpa using isBreak)]
        · rw [List.count_cons_of_ne isBreak, countEq]

/-- The lines of a text are its parts between line breaks. -/
theorem lines_eq_splitOn
    (chars : List Char) :
    lines chars = chars.splitOn '\n' := by
  induction chars with
  | nil => rfl
  | cons char rest inductionHypothesis =>
      rw [List.splitOn_cons_eq_if_modifyHead, ← inductionHypothesis]
      by_cases isBreak : char = '\n'
      · rw [lines, if_pos isBreak, if_pos (by simpa using isBreak)]
      · obtain ⟨line, more, linesEq⟩ := exists_first_line rest
        rw [lines_cons isBreak linesEq, if_neg (by simpa using isBreak), linesEq]
        rfl

theorem lineStartsAfter_append
    (offset : Nat)
    (front back : List Char) :
    lineStartsAfter offset (front ++ back) =
      lineStartsAfter offset front ++ lineStartsAfter (offset + byteLength front) back := by
  induction front generalizing offset with
  | nil => rfl
  | cons char rest inductionHypothesis =>
      simp only [List.cons_append, lineStartsAfter, byteLength, inductionHypothesis, Nat.add_assoc]
      split <;> rfl

/-- A text has a line start after each of its line breaks. -/
theorem length_lineStartsAfter
    (offset : Nat)
    (chars : List Char) :
    (lineStartsAfter offset chars).length = chars.count '\n' := by
  induction chars generalizing offset with
  | nil => rfl
  | cons char rest inductionHypothesis =>
      rw [lineStartsAfter, List.count_cons]
      split
      · rename_i isBreak
        simp [isBreak, inductionHypothesis]
      · rename_i notBreak
        simp [notBreak, inductionHypothesis]

theorem mem_lineStartsAfter
    {offset start : Nat}
    {chars : List Char}
    (member : start ∈ lineStartsAfter offset chars) :
    offset < start ∧ start ≤ offset + byteLength chars := by
  induction chars generalizing offset with
  | nil => cases member
  | cons char rest inductionHypothesis =>
      have positive := char.utf8Size_pos
      rw [byteLength]
      rw [lineStartsAfter] at member
      split at member
      · rcases List.mem_cons.mp member with rfl | isLater
        · omega
        · have := inductionHypothesis isLater
          omega
      · have := inductionHypothesis member
        omega

/-- No line of a text starts before the text. -/
theorem takeWhile_lineStartsAfter
    {offset place : Nat}
    (placeLe : place ≤ offset)
    (chars : List Char) :
    (lineStartsAfter offset chars).takeWhile (· ≤ place) = [] := by
  cases starts : lineStartsAfter offset chars with
  | nil => rfl
  | cons start later =>
      have isAfter := (mem_lineStartsAfter (starts ▸ List.mem_cons_self)).1
      rw [List.takeWhile_cons_of_neg (by simp only [decide_eq_true_eq]; omega)]

/-- The offset, in bytes, at which the line after the given ones starts. -/
def lineStart (before : List (List Char)) : Nat :=
  (before.map fun line => byteLength line + 1).sum

theorem lineStart_cons
    (line : List Char)
    (before : List (List Char)) :
    lineStart (line :: before) = byteLength line + 1 + lineStart before := by
  rw [lineStart, List.map_cons, List.sum_cons, lineStart]

/--
Every place of a text falls on a line, and as many lines stand before it as line
starts follow the start of the text up to the place.
-/
theorem exists_line_at
    {offset place : Nat}
    {chars : List Char}
    (offsetLe : offset ≤ place)
    (inside : place ≤ offset + byteLength chars) :
    ∃ before line after,
      lines chars = before ++ line :: after ∧
        ((lineStartsAfter offset chars).takeWhile (· ≤ place)).length = before.length ∧
          offset + lineStart before ≤ place ∧
            place ≤ offset + lineStart before + byteLength line := by
  induction chars generalizing offset with
  | nil => exact ⟨[], [], [], rfl, rfl, offsetLe, inside⟩
  | cons char rest inductionHypothesis =>
      rw [byteLength] at inside
      obtain ⟨first, more, linesEq⟩ := exists_first_line rest
      by_cases isBreak : char = '\n'
      · subst isBreak
        have sizeEq : '\n'.utf8Size = 1 := rfl
        rw [sizeEq] at inside
        rw [lines, if_pos rfl, lineStartsAfter, if_pos rfl, sizeEq]
        by_cases placeLt : place < offset + 1
        · refine ⟨[], [], lines rest, rfl, ?_, offsetLe, Nat.le_of_lt_succ placeLt⟩
          rw [List.takeWhile_cons_of_neg (by simp only [decide_eq_true_eq]; omega)]
          rfl
        · obtain ⟨before, line, after, restEq, countEq, startLe, placeLe⟩ :=
            inductionHypothesis (Nat.le_of_not_lt placeLt) (by omega)
          refine ⟨[] :: before, line, after, by rw [restEq]; rfl, ?_, ?_, ?_⟩
          · rw [List.takeWhile_cons_of_pos (by simp only [decide_eq_true_eq]; omega),
              List.length_cons, countEq, List.length_cons]
          · rw [lineStart_cons, byteLength]
            omega
          · rw [lineStart_cons, byteLength]
            omega
      · rw [lines_cons isBreak linesEq, lineStartsAfter, if_neg isBreak]
        by_cases placeLt : place < offset + char.utf8Size
        · refine ⟨[], char :: first, more, rfl, ?_, offsetLe, ?_⟩
          · rw [takeWhile_lineStartsAfter (Nat.le_of_lt placeLt)]
            rfl
          · rw [byteLength]
            show place ≤ offset + 0 + (char.utf8Size + byteLength first)
            omega
        · obtain ⟨before, line, after, restEq, countEq, startLe, placeLe⟩ :=
            inductionHypothesis (Nat.le_of_not_lt placeLt) (by omega)
          rw [linesEq] at restEq
          cases before with
          | nil =>
              obtain ⟨rfl, rfl⟩ := List.cons_eq_cons.mp restEq
              refine ⟨[], char :: first, more, rfl, countEq, offsetLe, ?_⟩
              rw [byteLength]
              omega
          | cons head later =>
              obtain ⟨rfl, rfl⟩ := List.cons_eq_cons.mp restEq
              rw [lineStart_cons] at startLe placeLe
              refine ⟨(char :: first) :: later, line, after, rfl, countEq, ?_, ?_⟩
              · rw [lineStart_cons, byteLength]
                omega
              · rw [lineStart_cons, byteLength]
                omega

end Text

namespace LineMap

theorem length_ofSource
    (source : String) :
    (ofSource source).length = Text.byteLength source.toList := by
  rw [← Text.utf8ByteSize_ofList, String.ofList_toList]
  rfl

/-- Every offset falls on the line with its number; an offset past the end falls on the end. -/
theorem exists_line
    (source : String)
    (offset : Nat) :
    ∃ before line after,
      Text.lines source.toList = before ++ line :: after ∧
        ((ofSource source).location offset).line = before.length + 1 ∧
          Text.lineStart before ≤ min offset source.utf8ByteSize ∧
            min offset source.utf8ByteSize ≤ Text.lineStart before + Text.byteLength line := by
  have lengthEq : source.utf8ByteSize = Text.byteLength source.toList := length_ofSource source
  obtain ⟨before, line, after, linesEq, countEq, startLe, placeLe⟩ :=
    Text.exists_line_at (Nat.zero_le (min offset source.utf8ByteSize))
      (by omega : _ ≤ 0 + Text.byteLength source.toList)
  rw [Nat.zero_add] at startLe placeLe
  refine ⟨before, line, after, linesEq, ?_, startLe, placeLe⟩
  show ((0 :: Text.lineStartsAfter 0 source.toList).takeWhile
    (· ≤ min offset source.utf8ByteSize)).length = before.length + 1
  rw [List.takeWhile_cons_of_pos (by simp), List.length_cons, countEq]

/-- The line of the place after `front` is one more than the number of line breaks in it. -/
theorem line_location
    {source : String}
    {front back : List Char}
    (sourceEq : source.toList = front ++ back) :
    ((ofSource source).location (Text.byteLength front)).line = front.count '\n' + 1 := by
  have lengthEq : source.utf8ByteSize = Text.byteLength front + Text.byteLength back := by
    rw [← Text.byteLength_append, ← sourceEq]
    exact length_ofSource source
  have insideEq : min (Text.byteLength front) source.utf8ByteSize = Text.byteLength front := by
    omega
  have frontStarts : ∀ start ∈ 0 :: Text.lineStartsAfter 0 front,
      decide (start ≤ Text.byteLength front) = true := by
    intro start member
    rw [decide_eq_true_eq]
    rcases List.mem_cons.mp member with rfl | isLater
    · exact Nat.zero_le _
    · have := Text.mem_lineStartsAfter isLater
      omega
  have backStarts := Text.takeWhile_lineStartsAfter (Nat.le_add_left (Text.byteLength front) 0) back
  simp only [location, ofSource, insideEq, sourceEq]
  rw [Text.lineStartsAfter_append, ← List.cons_append, List.takeWhile_append_of_pos frontStarts,
    backStarts, List.append_nil, List.length_cons, Text.length_lineStartsAfter]

end LineMap

namespace Piece

/-- Two places, each in a text of its own, follow the same number of line breaks. -/
def SameLine
    (offset newOffset : Nat)
    (chars newChars : List Char)
    (place newPlace : Nat) :
    Prop :=
  ∃ front back newFront newBack,
    chars = front ++ back ∧
      place = offset + Text.byteLength front ∧
        newChars = newFront ++ newBack ∧
          newPlace = newOffset + Text.byteLength newFront ∧ newFront.count '\n' = front.count '\n'

theorem SameLine.append
    {offset newOffset place newPlace : Nat}
    {before newBefore chars newChars : List Char}
    (sameLine :
      SameLine (offset + Text.byteLength before) (newOffset + Text.byteLength newBefore) chars
        newChars place newPlace)
    (countEq : newBefore.count '\n' = before.count '\n') :
    SameLine offset newOffset (before ++ chars) (newBefore ++ newChars) place newPlace := by
  obtain ⟨front, back, newFront, newBack, rfl, rfl, rfl, rfl, frontsEq⟩ := sameLine
  refine ⟨before ++ front, back, newBefore ++ newFront, newBack, ?_, ?_, ?_, ?_, ?_⟩
  · rw [List.append_assoc]
  · rw [Text.byteLength_append, Nat.add_assoc]
  · rw [List.append_assoc]
  · rw [Text.byteLength_append, Nat.add_assoc]
  · rw [List.count_append, List.count_append, countEq, frontsEq]

/-- A token of renamed pieces stands on the same line as before. -/
theorem Renamed.sameLine
    {names : Nat → Option (List Char)}
    {index position offset newOffset : Nat}
    {afterPoint : Bool}
    {pieces renamed : List Piece}
    {token newToken : Token}
    (isRenamed : Renamed names index afterPoint pieces renamed)
    (found : (tokensFrom offset pieces)[position]? = some token)
    (newFound : (tokensFrom newOffset renamed)[position]? = some newToken) :
    SameLine offset newOffset (join pieces) (join renamed) token.offset newToken.offset := by
  induction isRenamed generalizing position offset newOffset with
  | nil =>
      cases position with
      | zero =>
          cases found
          cases newFound
          exact ⟨[], [], [], [], rfl, rfl, rfl, rfl, rfl⟩
      | succ before => cases found
  | gap isGap _ inductionHypothesis =>
      simp only [tokensFrom, isGap] at found newFound
      rw [join_cons, join_cons]
      exact (inductionHypothesis found newFound).append rfl
  | kept isToken _ _ inductionHypothesis =>
      simp only [tokensFrom, isToken] at found newFound
      rw [join_cons, join_cons]
      cases position with
      | zero =>
          cases found
          cases newFound
          exact ⟨[], _, [], _, rfl, rfl, rfl, rfl, rfl⟩
      | succ before => exact (inductionHypothesis found newFound).append rfl
  | @word _ piece _ word _ _ isToken _ isWord wasWord _ inductionHypothesis =>
      simp only [tokensFrom, isToken, ofWord] at found newFound
      rw [join_cons, join_cons]
      cases position with
      | zero =>
          cases found
          cases newFound
          exact ⟨[], _, [], _, rfl, rfl, rfl, rfl, rfl⟩
      | succ before =>
          have noBreak : piece.chars.count '\n' = 0 :=
            List.count_eq_zero.mpr (Lexeme.not_mem_of_isWord wasWord (by decide))
          have newNoBreak : word.count '\n' = 0 :=
            List.count_eq_zero.mpr (Lexeme.not_mem_of_isWord isWord (by decide))
          exact (inductionHypothesis found newFound).append (newNoBreak.trans noBreak.symm)

/-- Places on the same line have the same line number. -/
theorem SameLine.line_eq
    {source output : String}
    {place newPlace : Nat}
    (sameLine : SameLine 0 0 source.toList output.toList place newPlace) :
    ((LineMap.ofSource output).location newPlace).line =
      ((LineMap.ofSource source).location place).line := by
  obtain ⟨front, back, newFront, newBack, charsEq, rfl, newCharsEq, rfl, countEq⟩ := sameLine
  rw [Nat.zero_add, Nat.zero_add, LineMap.line_location charsEq, LineMap.line_location newCharsEq,
    countEq]

end Piece

end ZigLint
