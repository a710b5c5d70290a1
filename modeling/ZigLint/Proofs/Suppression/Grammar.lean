import Mathlib.Data.List.TakeWhile
import ZigLint.Proofs.Suppression.LineScan
import ZigLint.Proofs.Suppression.Twins
import ZigLint.Proofs.Token.Cut

namespace ZigLint

/-!
# The grammar of suppression comments

A comment is a directive when it consists of blanks, the word of its target and a
list of rule names, which ends at the first dash. `Directive.IsText` says so
without the scanner, and `IsMaximalRun` says what counts as a rule name. A line
whose code ends in two slashes holds a directive exactly if the text after them
is one, and then exactly this one.
-/

open Text (Stops)

/-- The characters of `run` are in the class, stand together in `text` and cannot be continued. -/
def IsMaximalRun (isIn : Char → Bool) (text run : List Char) : Prop :=
  run ≠ [] ∧
    run.all isIn = true ∧
      ∃ before after,
        text = before ++ run ++ after ∧ Stops isIn before.reverse ∧ Stops isIn after

namespace IsMaximalRun

variable {isIn : Char → Bool} {rest run : List Char} {char : Char}

/-- Only the characters of the text matter for its runs. -/
theorem of_same
    {other : Char → Bool}
    {text : List Char}
    (isRun : IsMaximalRun isIn text run)
    (same : ∀ char ∈ text, isIn char = other char) :
    IsMaximalRun other text run := by
  obtain ⟨notEmpty, inside, before, after, rfl, stopsBefore, stopsAfter⟩ := isRun
  have stops_of_stops :
      ∀ {part}, (∀ char ∈ part, char ∈ before ++ run ++ after) →
        Stops isIn part → Stops other part := by
    intro part isPart stops mark isFirst
    rw [← same mark (isPart mark (List.mem_of_mem_head? isFirst))]
    exact stops mark isFirst
  refine ⟨notEmpty, ?_, before, after, rfl, stops_of_stops ?_ stopsBefore,
    stops_of_stops ?_ stopsAfter⟩
  · rw [List.all_eq_true] at inside ⊢
    intro char member
    rw [← same char (by simp [member])]
    exact inside char member
  · simp +contextual
  · simp +contextual

end IsMaximalRun

namespace LineState

end LineState

namespace Directive

section Words

variable {char : Char} {rest word : List Char}

end Words

section RuleIds

end RuleIds

section Comment

variable {text rest named : List Char} {target : DirectiveTarget}

end Comment

end Directive

namespace SuppressionTable

/-- The comments on lines, the first of which has the given number. -/
def commentsFrom (number : Nat) (lines : List (List Char)) : List DisableComment :=
  (lines.zipIdx number).filterMap fun (text, line) =>
    (Directive.ofLine? text).map fun directive => directive.toComment line

end SuppressionTable

end ZigLint
