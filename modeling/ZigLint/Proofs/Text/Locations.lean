import Mathlib.Data.List.DropRight
import ZigLint.Proofs.Problem.Places
import ZigLint.Proofs.Text.Boundaries

namespace ZigLint

/-!
# Locations and bytes

Lines are cut by characters, but offsets, columns and spans count bytes, and an
offset may fall inside a character. A line break is a byte of its own and no part
of any other character, so what stands before an offset can be counted byte by
byte: the line is told by the line breaks, the column by the bytes after the last
one. Locations keep the order of offsets, and the two ends of a span never cross.
-/

namespace Text

/-- The bytes of a text. -/
def bytes (chars : List Char) : List UInt8 :=
  chars.flatMap String.utf8EncodeChar

/-- The byte of a line break. -/
def breakByte : UInt8 := 10

/-- The offsets right after each line break of bytes, the first of which is at `offset`. -/
def startsAfterBreaks (offset : Nat) : List UInt8 → List Nat
  | [] => []
  | byte :: rest =>
      if byte = breakByte then
        (offset + 1) :: startsAfterBreaks (offset + 1) rest
      else
        startsAfterBreaks (offset + 1) rest

theorem toList_toUTF8
    (text : String) :
    text.toUTF8.data.toList = bytes text.toList := by
  rw [← String.ofList_toList (s := text), String.toUTF8, String.toByteArray_ofList,
    List.utf8Encode, List.toList_data_toByteArray, String.ofList_toList]
  rfl

theorem length_bytes
    (chars : List Char) :
    (bytes chars).length = byteLength chars := by
  induction chars with
  | nil => rfl
  | cons char rest inductionHypothesis =>
      rw [bytes, List.flatMap_cons, List.length_append, String.length_utf8EncodeChar, byteLength,
        ← inductionHypothesis, bytes]

/-- The bytes of a character other than a line break are no line breaks. -/
theorem breakByte_not_mem
    {char : Char}
    (notBreak : char ≠ '\n') :
    breakByte ∉ String.utf8EncodeChar char := by
  have codeNe : char.val.toNat ≠ 10 := fun isTen => notBreak (Char.toNat_inj.mp isTen)
  have byte_ne : ∀ {code : Nat}, code % 256 ≠ 10 → breakByte ≠ UInt8.ofNat code := by
    intro code differs same
    have codesEq := congrArg UInt8.toNat same
    rw [UInt8.toNat_ofNat'] at codesEq
    exact differs codesEq.symm
  -- A character is its own byte, or all of its bytes are large.
  unfold String.utf8EncodeChar
  generalize char.val.toNat = code at codeNe
  dsimp only
  split
  · exact fun member => byte_ne (by omega) (List.mem_singleton.mp member)
  · split
    · simp only [List.mem_cons, List.not_mem_nil, or_false, not_or]
      exact ⟨byte_ne (by omega), byte_ne (by omega)⟩
    · split
      · simp only [List.mem_cons, List.not_mem_nil, or_false, not_or]
        exact ⟨byte_ne (by omega), byte_ne (by omega), byte_ne (by omega)⟩
      · simp only [List.mem_cons, List.not_mem_nil, or_false, not_or]
        exact ⟨byte_ne (by omega), byte_ne (by omega), byte_ne (by omega), byte_ne (by omega)⟩

variable {offset : Nat} {front back rest : List UInt8}

theorem startsAfterBreaks_append
    (offset : Nat)
    (front back : List UInt8) :
    startsAfterBreaks offset (front ++ back) =
      startsAfterBreaks offset front ++ startsAfterBreaks (offset + front.length) back := by
  induction front generalizing offset with
  | nil => rfl
  | cons byte rest inductionHypothesis =>
      simp only [List.cons_append, startsAfterBreaks, inductionHypothesis, List.length_cons,
        Nat.add_assoc, Nat.add_comm 1]
      split <;> rfl

theorem startsAfterBreaks_of_not_mem
    (offset : Nat)
    (noBreak : breakByte ∉ front) :
    startsAfterBreaks offset front = [] := by
  induction front generalizing offset with
  | nil => rfl
  | cons byte rest inductionHypothesis =>
      obtain ⟨notFirst, notLater⟩ := not_or.mp (List.mem_cons.not.mp noBreak)
      rw [startsAfterBreaks, if_neg (Ne.symm notFirst), inductionHypothesis _ notLater]

/-- The lines of a text start behind the line breaks among its bytes. -/
theorem lineStartsAfter_eq
    (offset : Nat)
    (chars : List Char) :
    lineStartsAfter offset chars = startsAfterBreaks offset (bytes chars) := by
  induction chars generalizing offset with
  | nil => rfl
  | cons char rest inductionHypothesis =>
      rw [lineStartsAfter, bytes, List.flatMap_cons, startsAfterBreaks_append,
        String.length_utf8EncodeChar, inductionHypothesis]
      by_cases isBreak : char = '\n'
      · subst isBreak
        rfl
      · rw [if_neg isBreak, startsAfterBreaks_of_not_mem _ (breakByte_not_mem isBreak)]
        rfl

theorem lt_of_mem_startsAfterBreaks
    {start : Nat}
    (member : start ∈ startsAfterBreaks offset rest) :
    offset < start := by
  induction rest generalizing offset with
  | nil => cases member
  | cons byte later inductionHypothesis =>
      have later_lt : start ∈ startsAfterBreaks (offset + 1) later → offset < start :=
        fun isLater => Nat.lt_of_succ_lt (inductionHypothesis isLater)
      rw [startsAfterBreaks] at member
      split at member
      · rcases List.mem_cons.mp member with rfl | isLater
        · exact Nat.lt_succ_self _
        · exact later_lt isLater
      · exact later_lt member

/-- The line starts up to a place are those of the bytes before it. -/
theorem takeWhile_startsAfterBreaks
    (offset count : Nat)
    (rest : List UInt8) :
    (startsAfterBreaks offset rest).takeWhile (· ≤ offset + count) =
      startsAfterBreaks offset (rest.take count) := by
  induction rest generalizing offset count with
  | nil => rw [List.take_nil]; rfl
  | cons byte later inductionHypothesis =>
      cases count with
      | zero =>
          rw [List.take_zero, startsAfterBreaks, List.takeWhile_eq_nil_iff]
          intro notEmpty isUpTo
          have isAfter := lt_of_mem_startsAfterBreaks (List.get_mem _ ⟨0, notEmpty⟩)
          rw [decide_eq_true_eq] at isUpTo
          omega
      | succ count =>
          have laterEq := inductionHypothesis (offset + 1) count
          rw [Nat.add_right_comm, Nat.add_assoc] at laterEq
          rw [List.take_succ_cons, startsAfterBreaks, startsAfterBreaks]
          split
          · rw [List.takeWhile_cons_of_pos (by simp only [decide_eq_true_eq]; omega), laterEq]
          · exact laterEq

theorem length_startsAfterBreaks
    (offset : Nat)
    (rest : List UInt8) :
    (startsAfterBreaks offset rest).length = rest.count breakByte := by
  induction rest generalizing offset with
  | nil => rfl
  | cons byte later inductionHypothesis =>
      rw [startsAfterBreaks]
      split
      · rename_i isBreak
        rw [List.length_cons, inductionHypothesis, isBreak, List.count_cons_self]
      · rename_i notBreak
        rw [inductionHypothesis, List.count_cons_of_ne notBreak]

/-- Behind the last line start stand the bytes after the last line break. -/
theorem getLastD_startsAfterBreaks
    (offset : Nat)
    (rest : List UInt8) :
    (startsAfterBreaks offset rest).getLastD offset +
        (rest.rtakeWhile (· != breakByte)).length =
      offset + rest.length := by
  induction rest using List.reverseRecOn with
  | nil => rfl
  | append_singleton front byte inductionHypothesis =>
      rw [startsAfterBreaks_append, List.length_append, List.length_singleton]
      by_cases isBreak : byte = breakByte
      · subst isBreak
        rw [List.rtakeWhile_concat_neg _ _ _ (by simp), startsAfterBreaks, if_pos rfl,
          startsAfterBreaks, List.getLastD_concat]
        rfl
      · rw [List.rtakeWhile_concat_pos _ _ _ (by simpa using isBreak), startsAfterBreaks,
          if_neg isBreak, startsAfterBreaks, List.append_nil, List.length_append, ← Nat.add_assoc,
          inductionHypothesis]
        rfl

/-- The bytes of a text before an offset; before an offset past the end stand all bytes. -/
def bytesBefore (source : String) (offset : Nat) : List UInt8 :=
  source.toUTF8.data.toList.take (min offset source.utf8ByteSize)

theorem bytesBefore_eq
    (source : String)
    (offset : Nat) :
    bytesBefore source offset = (bytes source.toList).take (min offset source.utf8ByteSize) := by
  rw [bytesBefore, toList_toUTF8]

theorem length_bytesBefore
    (source : String)
    (offset : Nat) :
    (bytesBefore source offset).length = min offset source.utf8ByteSize := by
  rw [bytesBefore_eq, List.length_take, length_bytes, ← utf8ByteSize_eq, Nat.min_assoc,
    Nat.min_self]

end Text

namespace LineMap

/-- A location is told by the bytes before it. -/
theorem location_ofSource
    (source : String)
    (offset : Nat) :
    (ofSource source).location offset = {
      offset := min offset source.utf8ByteSize
      line := 1 + (Text.bytesBefore source offset).count Text.breakByte
      column := 1 + ((Text.bytesBefore source offset).rtakeWhile (· != Text.breakByte)).length
    } := by
  have startsEq :
      (ofSource source).starts.takeWhile (· ≤ min offset source.utf8ByteSize) =
        0 :: Text.startsAfterBreaks 0 (Text.bytesBefore source offset) := by
    show (0 :: Text.lineStartsAfter 0 source.toList).takeWhile _ = _
    rw [List.takeWhile_cons_of_pos (by simp), Text.lineStartsAfter_eq, Text.bytesBefore_eq,
      ← Text.takeWhile_startsAfterBreaks, Nat.zero_add]
  have lengthEq := Text.length_startsAfterBreaks 0 (Text.bytesBefore source offset)
  have lastEq := Text.getLastD_startsAfterBreaks 0 (Text.bytesBefore source offset)
  rw [Text.length_bytesBefore, Nat.zero_add] at lastEq
  have mapLength : (ofSource source).length = source.utf8ByteSize := rfl
  rw [location, mapLength, Location.mk.injEq, startsEq, List.getLastD_cons, List.length_cons]
  refine ⟨rfl, ?_, ?_⟩ <;> omega

-- The offset is inside of the first character.
example : (ofSource "é\nab").location 1 = { offset := 1, line := 1, column := 2 } := by
  decide

variable {map : LineMap}

/-- A location is at the offset, or at the end if the offset is past it. -/
theorem offset_location_eq_min
    (map : LineMap)
    (offset : Nat) :
    (map.location offset).offset = min offset map.length :=
  rfl

/-- The ends of a span, whatever it covers, are in order and inside the source. -/
theorem spanLocations_ordered
    (map : LineMap)
    (span : Span) :
    (map.spanLocations span).1.offset ≤ (map.spanLocations span).2.offset ∧
      (map.spanLocations span).2.offset ≤ map.length := by
  rw [spanLocations]
  split
  · exact ⟨Nat.le_refl _, Nat.min_le_right _ _⟩
  · rename_i notEmpty
    simp only [Span.isEmpty, Span.length, beq_iff_eq] at notEmpty
    simp only [offset_location_eq_min]
    omega

/-- A span that is not empty ends at its last byte. -/
theorem spanLocations_stop
    {span : Span}
    (startLt : span.start < span.stop)
    (inside : span.stop ≤ map.length) :
    (map.spanLocations span).2.offset = span.stop - 1 := by
  rw [spanLocations_of_lt startLt]
  exact offset_location (Nat.le_trans (Nat.sub_le span.stop 1) inside)

end LineMap

/-- The locations that a document answers are exact and in the order of the offsets. -/
structure Document.LocatesExactly (document : Document) : Prop where
  /-- Lines and columns are counted from one, in the bytes before the offset. -/
  location_eq :
    ∀ offset,
      document.location offset = {
        offset := min offset document.tree.source.utf8ByteSize
        line := 1 + (Text.bytesBefore document.tree.source offset).count Text.breakByte
        column :=
          1 +
            ((Text.bytesBefore document.tree.source offset).rtakeWhile
              (· != Text.breakByte)).length
      }
  location_lt :
    ∀ first second,
      first < second →
        second ≤ document.tree.source.utf8ByteSize →
          Prod.Lex (· < ·) (· < ·)
            ((document.location first).line, (document.location first).column)
            ((document.location second).line, (document.location second).column)
  /-- This holds of inverted spans and of spans past the end, too. -/
  span_ordered :
    ∀ span,
      (document.spanLocations span).1.offset ≤ (document.spanLocations span).2.offset ∧
        (document.spanLocations span).2.offset ≤ document.tree.source.utf8ByteSize
  span_stop :
    ∀ span : Span,
      span.start < span.stop →
        span.stop ≤ document.tree.source.utf8ByteSize →
          (document.spanLocations span).2.offset = span.stop - 1

/-- The locations of a document are exact, whatever its source. -/
theorem Document.ofTree_locatesExactly
    (path : String)
    (tree : SyntaxTree) :
    (ofTree path tree).LocatesExactly where
  location_eq := LineMap.location_ofSource tree.source
  location_lt _ _ isBefore inside := Prod.lex_def.mpr (LineMap.location_lt isBefore inside)
  span_ordered := LineMap.spanLocations_ordered _
  span_stop _ startLt inside := LineMap.spanLocations_stop startLt inside

end ZigLint
