import Mathlib.Data.List.TakeWhile
import ZigLint.Document
import ZigLint.Proofs.Problem.Order
import ZigLint.Proofs.Text.Lines

namespace ZigLint

/-!
# Where problems stand

A problem about a span starts at the first byte of the span and stops at the last
one. Locations are ordered as the offsets they are made of, so problems at
different offsets that are in order have growing offsets.
-/

/-- A span that is not empty is located at its first and its last byte. -/
theorem LineMap.spanLocations_of_lt
    {map : LineMap}
    {span : Span}
    (startLt : span.start < span.stop) :
    map.spanLocations span = (map.location span.start, map.location (span.stop - 1)) := by
  have notEmpty : span.isEmpty = false := by
    simp only [Span.isEmpty, Span.length, beq_eq_false_iff_ne]
    omega
  simp only [spanLocations, notEmpty, Bool.false_eq_true, if_false]

namespace Document

/-- A problem about a span starts where the span does. -/
theorem problem_start
    (document : Document)
    (ruleId : String)
    (severity : Severity)
    (span : Span)
    (message : String)
    (fix? : Option Fix) :
    (document.problem ruleId severity span message fix?).start = document.location span.start := by
  simp only [problem, spanLocations, LineMap.spanLocations]
  split <;> rfl

/-- A problem about a span that is not empty stops at the last byte of the span. -/
theorem problem_stop
    (document : Document)
    (ruleId : String)
    (severity : Severity)
    {span : Span}
    (message : String)
    (fix? : Option Fix)
    (startLt : span.start < span.stop) :
    (document.problem ruleId severity span message fix?).stop =
      document.location (span.stop - 1) := by
  simp only [problem, spanLocations, LineMap.spanLocations_of_lt startLt, location]

end Document

namespace LineMap

variable {map : LineMap} {offset other : Nat}

theorem offset_location
    (inside : offset ≤ map.length) :
    (map.location offset).offset = offset :=
  Nat.min_eq_left inside

/-- A line starts at or before each of its places. -/
theorem getLastD_takeWhile_le
    (starts : List Nat)
    (offset : Nat) :
    (starts.takeWhile (· ≤ offset)).getLastD 0 ≤ offset := by
  rw [List.getLastD_eq_getLast?]
  cases found : (starts.takeWhile (· ≤ offset)).getLast? with
  | none => exact Nat.zero_le offset
  | some start =>
      have isStart := List.mem_takeWhile_imp (List.mem_of_getLast? found)
      simpa using isStart

/-- An earlier place has a smaller line, or the same line and a smaller column. -/
theorem location_lt
    (isBefore : offset < other)
    (inside : other ≤ map.length) :
    (map.location offset).line < (map.location other).line ∨
      (map.location offset).line = (map.location other).line ∧
        (map.location offset).column < (map.location other).column := by
  have offsetEq : min offset map.length = offset := by omega
  have otherEq : min other map.length = other := by omega
  -- The line starts up to the earlier place are the first ones of those up to the later place.
  have isFront : map.starts.takeWhile (· ≤ offset) <+: map.starts.takeWhile (· ≤ other) := by
    have startsEq :
        map.starts.takeWhile (· ≤ offset) =
          (map.starts.takeWhile (· ≤ other)).takeWhile (· ≤ offset) := by
      rw [List.takeWhile_takeWhile]
      congr 1
      funext start
      grind
    rw [startsEq]
    exact List.takeWhile_prefix _
  simp only [location, offsetEq, otherEq]
  rcases Nat.lt_or_eq_of_le isFront.length_le with shorter | sameLength
  · exact .inl shorter
  · have lastLe := getLastD_takeWhile_le map.starts offset
    rw [isFront.eq_of_length sameLength] at lastLe ⊢
    exact .inr ⟨rfl, by omega⟩

theorem line_le
    (offsetLe : offset ≤ other)
    (inside : other ≤ map.length) :
    (map.location offset).line ≤ (map.location other).line := by
  rcases Nat.lt_or_eq_of_le offsetLe with isBefore | rfl
  · have := location_lt isBefore inside
    omega
  · exact Nat.le_refl _

end LineMap

/-- Problems at different offsets that are in order have growing offsets. -/
theorem Problem.offset_lt_of_mayPrecede
    {map : LineMap}
    {left right : Problem}
    (leftEq : left.start = map.location left.start.offset)
    (rightEq : right.start = map.location right.start.offset)
    (inside : left.start.offset ≤ map.length)
    (distinct : left.start.offset ≠ right.start.offset)
    (inOrder : left.mayPrecede right = true) :
    left.start.offset < right.start.offset := by
  rcases Nat.lt_or_gt_of_ne distinct with isBefore | isAfter
  · exact isBefore
  · have laterLocation := LineMap.location_lt isAfter inside
    rw [← leftEq, ← rightEq] at laterLocation
    rw [mayPrecede_iff] at inOrder
    omega

end ZigLint
