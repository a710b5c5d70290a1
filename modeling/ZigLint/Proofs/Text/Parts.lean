import ZigLint.Text.Bytes

namespace ZigLint.Text

/-!
# Texts in parts

A text that is split at a mark falls into parts that hold its other characters,
and a text that is joined from parts holds their characters and the marks.
-/

variable {mark char : Char} {chars part : List Char} {parts : List (List Char)}

/-- The parts of a text between marks hold no mark. -/
theorem not_mem_of_mem_splitOn
    (member : part ∈ chars.splitOn mark) :
    mark ∉ part := by
  induction chars generalizing part with
  | nil =>
      obtain rfl := List.mem_singleton.mp member
      exact List.not_mem_nil
  | cons first rest inductionHypothesis =>
      rw [List.splitOn_cons_eq_if_modifyHead] at member
      split at member
      · rcases List.mem_cons.mp member with rfl | isLater
        · exact List.not_mem_nil
        · exact inductionHypothesis isLater
      · rename_i notMark
        cases restParts : rest.splitOn mark with
        | nil => exact (List.splitOn_ne_nil mark rest restParts).elim
        | cons front more =>
            rw [restParts] at member inductionHypothesis
            rcases List.mem_cons.mp member with rfl | isLater
            · rw [List.mem_cons, not_or]
              exact ⟨fun isMark => notMark (by simp [isMark]),
                inductionHypothesis List.mem_cons_self⟩
            · exact inductionHypothesis (List.mem_cons_of_mem _ isLater)

/-- A character of a joined text is the mark between the parts or stands in a part. -/
theorem mem_intercalate
    (member : char ∈ [mark].intercalate parts) :
    char = mark ∨ ∃ part ∈ parts, char ∈ part := by
  induction parts with
  | nil => cases member
  | cons first rest inductionHypothesis =>
      cases rest with
      | nil =>
          rw [List.intercalate_singleton] at member
          exact .inr ⟨first, List.mem_cons_self, member⟩
      | cons next more =>
          rw [List.intercalate_cons_cons, List.append_assoc, List.singleton_append,
            List.mem_append, List.mem_cons] at member
          rcases member with inFirst | isMark | inRest
          · exact .inr ⟨first, List.mem_cons_self, inFirst⟩
          · exact .inl isMark
          · rcases inductionHypothesis inRest with isMark | ⟨other, inMore, inOther⟩
            · exact .inl isMark
            · exact .inr ⟨other, List.mem_cons_of_mem _ inMore, inOther⟩

/-- A joined text with a mark before it has a mark before each of its parts. -/
theorem cons_intercalate
    (mark : Char)
    (notEmpty : parts ≠ []) :
    mark :: [mark].intercalate parts = parts.flatMap (mark :: ·) := by
  induction parts with
  | nil => exact (notEmpty rfl).elim
  | cons first rest inductionHypothesis =>
      cases rest with
      | nil => simp
      | cons next more =>
          rw [List.intercalate_cons_cons, List.append_assoc, List.singleton_append,
            inductionHypothesis (List.cons_ne_nil next more), List.flatMap_cons]
          rfl

theorem flatMap_splitOn
    (mark : Char)
    (chars : List Char) :
    (chars.splitOn mark).flatMap (mark :: ·) = mark :: chars := by
  rw [← cons_intercalate mark (List.splitOn_ne_nil mark chars), List.intercalate_splitOn]

/-- A text that lacks some characters of another has no more bytes. -/
theorem byteLength_le_of_sublist
    (isPart : part.Sublist chars) :
    byteLength part ≤ byteLength chars := by
  induction isPart with
  | slnil => exact Nat.le_refl _
  | cons char isPart inductionHypothesis =>
      rw [byteLength]
      exact Nat.le_add_left_of_le inductionHypothesis
  | cons_cons char isPart inductionHypothesis =>
      rw [byteLength, byteLength]
      exact Nat.add_le_add_left inductionHypothesis _

end ZigLint.Text
