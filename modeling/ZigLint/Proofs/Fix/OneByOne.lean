import Mathlib.Algebra.Ring.Int.Defs
import ZigLint.Proofs.Fix.Selection

namespace ZigLint

/-!
# Fixing one place at a time

Splicing goes through a source once, from front to back. The same text comes out
when each applied fix is carried out on its own, from the last to the first: a fix
then changes nothing before it, so the offsets of the fixes still to come stay
right. The slices that are taken on the way, of the source and of every text in
between, are all slices of whole characters.
-/

namespace Fix

/--
Replace the range of the fix in a text.

The answer is `none` when the range is inverted, reaches past the end or cuts a
character.
-/
def replaceIn? (fix : Fix) (text : String) : Option String := do
  let before ← Text.slice? text.toList 0 fix.start
  let after ← Text.slice? text.toList fix.stop text.utf8ByteSize
  if fix.start ≤ fix.stop then
    return String.ofList before ++ fix.text ++ String.ofList after
  else
    none

/-- By how many bytes a text grows when the fix is carried out. -/
def growth (fix : Fix) : Int :=
  fix.text.utf8ByteSize - (fix.stop - fix.start)

/-- The spans before, between and after the fixes in a text, from byte `cursor` to its end. -/
def keptSpans (cursor length : Nat) : List Fix → List Span
  | [] => [{ start := cursor, stop := length }]
  | fix :: rest => { start := cursor, stop := fix.start } :: keptSpans fix.stop length rest

/-- The outcome is what carrying out the applied fixes one by one gives. -/
structure OneByOne (source : String) (fixes : List Fix) (outcome : FixOutcome) : Prop where
  perm : (outcome.applied ++ outcome.skipped).Perm fixes
  ordered :
    outcome.applied.Pairwise fun earlier later =>
      earlier.start ≤ later.start ∧ earlier.stop ≤ later.start
  valid : ∀ fix ∈ outcome.applied, fix.IsValid source
  /-- The last fix is carried out first, on the source. -/
  output : outcome.applied.foldrM replaceIn? source = some outcome.output
  length :
    (outcome.output.utf8ByteSize : Int) =
      source.utf8ByteSize + (outcome.applied.map growth).sum
  slices :
    ∀ span ∈ keptSpans 0 source.utf8ByteSize outcome.applied,
      (Text.slice? source.toList span.start span.stop).isSome = true

/-- Splicing replaces the spans of the fixes that are applied. -/
theorem splice_replaces
    (cursor : Nat)
    (rest : List Char)
    (fixes : List Fix) :
    Replaces cursor (splice cursor rest fixes).applied rest (splice cursor rest fixes).output := by
  fun_induction splice cursor rest fixes with
  | case1 => exact .done
  | case2 cursor rest fix fixes kept later found result inductionHypothesis =>
      obtain ⟨old, rfl, startEq, stopEq⟩ := exists_old_of_cut? found
      simp only [List.append_assoc]
      exact .fix startEq stopEq inductionHypothesis
  | case3 cursor rest fix fixes notFound result inductionHypothesis => exact inductionHypothesis

theorem replaceIn?_append
    {fix : Fix}
    {before old after : List Char}
    (startEq : fix.start = Text.byteLength before)
    (stopEq : fix.stop = fix.start + Text.byteLength old) :
    fix.replaceIn? (String.ofList (before ++ (old ++ after))) =
      some (String.ofList (before ++ (fix.text.toList ++ after))) := by
  have frontFound :
      Text.slice? (before ++ (old ++ after)) 0 fix.start = some before := by
    have found := Text.slice?_append [] before (old ++ after)
    rwa [Text.byteLength, Nat.zero_add, ← startEq] at found
  have backFound :
      Text.slice? (before ++ (old ++ after)) fix.stop
        (Text.byteLength (before ++ (old ++ after))) = some after := by
    have found := Text.slice?_append (before ++ old) after []
    have stopLength : Text.byteLength (before ++ old) = fix.stop := by
      rw [Text.byteLength_append, stopEq, startEq]
    rwa [← Text.byteLength_append, List.append_nil, List.append_assoc, stopLength] at found
  rw [replaceIn?, String.toList_ofList, Text.utf8ByteSize_ofList, frontFound, backFound]
  simp only [Option.bind_eq_bind, Option.bind_some, if_pos (show fix.start ≤ fix.stop by omega),
    Option.pure_def, String.ofList_append, String.ofList_toList, String.append_assoc]

namespace Replaces

variable
  {cursor : Nat}
  {fixes : List Fix}
  {chars output front : List Char}

/-- The fixes carried out one by one, from the last to the first, give the output. -/
theorem foldrM_eq
    (replaces : Replaces cursor fixes chars output)
    (cursorEq : Text.byteLength front = cursor) :
    fixes.foldrM replaceIn? (String.ofList (front ++ chars)) =
      some (String.ofList (front ++ output)) := by
  induction replaces generalizing front with
  | done => rfl
  | @fix cursor fix fixes kept old rest output startEq stopEq _ inductionHypothesis =>
      have startLength : fix.start = Text.byteLength (front ++ kept) := by
        rw [Text.byteLength_append, cursorEq, startEq]
      have stopLength : Text.byteLength ((front ++ kept) ++ old) = fix.stop := by
        rw [Text.byteLength_append, ← startLength, stopEq]
      have later := inductionHypothesis stopLength
      have here :
          fix.replaceIn? (String.ofList ((front ++ kept) ++ (old ++ output))) =
            some (String.ofList ((front ++ kept) ++ (fix.text.toList ++ output))) :=
        replaceIn?_append startLength stopEq
      simp only [List.append_assoc] at later here
      rw [List.foldrM_cons, later, Option.bind_eq_bind, Option.bind_some, here]

theorem byteLength_eq
    (replaces : Replaces cursor fixes chars output) :
    (Text.byteLength output : Int) = Text.byteLength chars + (fixes.map growth).sum := by
  induction replaces with
  | done => simp
  | fix startEq stopEq _ inductionHypothesis =>
      simp only [Text.byteLength_append, List.map_cons, List.sum_cons, growth,
        Text.utf8ByteSize_eq]
      omega

/-- What stays of a source is taken in slices of whole characters. -/
theorem slices
    {source : String}
    {span : Span}
    (replaces : Replaces cursor fixes chars output)
    (sourceEq : source.toList = front ++ chars)
    (cursorEq : Text.byteLength front = cursor)
    (member : span ∈ keptSpans cursor source.utf8ByteSize fixes) :
    (Text.slice? source.toList span.start span.stop).isSome = true := by
  induction replaces generalizing front with
  | @done cursor chars =>
      obtain rfl := List.mem_singleton.mp member
      have found := Text.slice?_append front chars []
      rw [List.append_nil, ← Text.byteLength_append, ← sourceEq, ← Text.utf8ByteSize_eq,
        cursorEq] at found
      rw [found]
      rfl
  | @fix cursor fix fixes kept old rest _ startEq stopEq _ inductionHypothesis =>
      rcases List.mem_cons.mp member with rfl | isLater
      · have found := Text.slice?_append front kept (old ++ rest)
        rw [← sourceEq, cursorEq, ← startEq] at found
        rw [found]
        rfl
      · obtain ⟨sourceLater, stopLength⟩ := split_after_parts sourceEq cursorEq startEq stopEq
        exact inductionHypothesis sourceLater stopLength isLater

end Replaces

/-- Applying fixes is the same as carrying out those that are applied one by one. -/
theorem apply_oneByOne
    (source : String)
    (fixes : List Fix) :
    OneByOne source fixes (apply source fixes) := by
  obtain ⟨taken, left, sifts, appliedEq, skippedEq⟩ := exists_sifts_apply source fixes
  have ordered := numberedByStart_pairwise fixes
  have replaces := splice_replaces 0 source.toList (sortByStart fixes)
  have atStart : source.toList = [] ++ source.toList := rfl
  refine ⟨?_, ?_, ?_, ?_, ?_, ?_⟩
  · have perm := (sifts.perm.trans (numberedByStart_perm fixes)).map Prod.fst
    rwa [List.map_append, ← appliedEq, ← skippedEq, List.zipIdx_map_fst] at perm
  · rw [appliedEq, List.pairwise_map]
    refine ((ordered.sublist sifts.taken_sublist).and (sifts.taken_apart ordered)).imp ?_
    rintro earlier later ⟨precedes, stopLe⟩
    exact ⟨precedes.start_le, stopLe⟩
  · intro fix isApplied
    rw [appliedEq] at isApplied
    obtain ⟨item, isTaken, rfl⟩ := List.mem_map.mp isApplied
    exact (sifts.of_mem_taken ordered isTaken).1
  · have noBytes : Text.byteLength [] = 0 := rfl
    have outputEq := replaces.foldrM_eq noBytes
    rwa [List.nil_append, List.nil_append, String.ofList_toList] at outputEq
  · have lengthEq := replaces.byteLength_eq
    rwa [← Text.utf8ByteSize_eq, ← Text.utf8ByteSize_ofList] at lengthEq
  · intro span member
    exact replaces.slices atStart rfl member

end Fix

end ZigLint
