import ZigLint.Text.Bytes

namespace ZigLint

/-!
# Fixes

A `Fix` replaces a byte range of a source by a text. `Fix.apply` takes the fixes
in order of their start, each one that begins at or after the end of the one
taken before it; fixes that are inverted, reach past the end or cut a character
are left out.
-/

/-- Replace the bytes `[start, stop)` by `text`. -/
structure Fix where
  start : Nat
  stop : Nat
  text : String
  deriving Repr, DecidableEq

/-- The outcome of applying fixes to a source. -/
structure FixOutcome where
  output : String
  applied : List Fix
  skipped : List Fix
  deriving Repr, DecidableEq

namespace FixOutcome

/-- Some fix was left out. -/
def hasSkipped (outcome : FixOutcome) : Bool :=
  !outcome.skipped.isEmpty

end FixOutcome

namespace Fix

/-- The two fixes have a byte in common. -/
def overlaps (left right : Fix) : Bool :=
  left.start < right.stop && right.start < left.stop

/--
Cut the fix out of `rest`, the text from byte `cursor` on.

The answer is what stays before the fix and what follows it; it is `none` when
the fix starts before the cursor or its range is not one of whole characters.
-/
def cut? (cursor : Nat) (rest : List Char) (fix : Fix) : Option (List Char × List Char) :=
  if cursor ≤ fix.start ∧ fix.start ≤ fix.stop then do
    let (kept, after) ← Text.splitAtByte? (fix.start - cursor) rest
    let (_, later) ← Text.splitAtByte? (fix.stop - fix.start) after
    return (kept, later)
  else
    none

/-- A partly spliced text with the fixes that were taken and left out. -/
structure Splice where
  output : List Char
  applied : List Fix
  skipped : List Fix

/-- Splice fixes, ordered by start, into `rest`, the text from byte `cursor` on. -/
def splice (cursor : Nat) (rest : List Char) : List Fix → Splice
  | [] => { output := rest, applied := [], skipped := [] }
  | fix :: fixes =>
      match fix.cut? cursor rest with
      | some (kept, later) =>
          let result := splice fix.stop later fixes
          {
            output := kept ++ fix.text.toList ++ result.output
            applied := fix :: result.applied
            skipped := result.skipped
          }
      | none =>
          let result := splice cursor rest fixes
          { result with skipped := fix :: result.skipped }

/-- The fixes in order of their start; fixes that start together keep their order. -/
def sortByStart (fixes : List Fix) : List Fix :=
  fixes.mergeSort fun left right => left.start ≤ right.start

/-- Apply fixes to a source. -/
def apply (source : String) (fixes : List Fix) : FixOutcome :=
  let result := splice 0 source.toList (sortByStart fixes)
  {
    output := String.ofList result.output
    applied := result.applied
    skipped := result.skipped
  }

end Fix

end ZigLint
