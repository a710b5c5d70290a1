import ZigLint.Proofs.Suppression.Twins

namespace ZigLint

/-!
# Renamed sources are twins

Where a token starts, the line scanner cannot be about to enter a comment that
the token belongs to: two slashes start a comment, which ends its line, and all
others stand in a literal, which ends with a quote or ends its line. So renaming
words keeps the suppression comments of a source.
-/

open Lexeme (IsWord isWordPart isWordStart)

namespace CommentGuard

variable {guard : CommentGuard}

theorem next_of_isEnd
    {char : Char}
    (isEnd : isEnd char = true)
    (guard : CommentGuard) :
    guard.next char = .free := by
  unfold next
  exact if_pos isEnd

theorem next_of_ne_slash
    {char : Char}
    (notBarred : guard ≠ .barred)
    (notSlash : char ≠ '/') :
    guard.next char = .free := by
  unfold next
  cases guard with
  | barred => exact (notBarred rfl).elim
  | free | slash => simp [notSlash]

/-- Without a slash a place that is not barred gets free. -/
theorem after_of_noSlash
    {first : Char}
    {rest : List Char}
    (notBarred : guard ≠ .barred)
    (noSlash : '/' ∉ first :: rest) :
    guard.after (first :: rest) = .free := by
  induction rest generalizing guard first with
  | nil => exact next_of_ne_slash notBarred fun isSlash => noSlash (isSlash ▸ List.mem_cons_self)
  | cons second more inductionHypothesis =>
      have freed : guard.next first = .free :=
        next_of_ne_slash notBarred fun isSlash => noSlash (isSlash ▸ List.mem_cons_self)
      have later : CommentGuard.free.after (second :: more) = .free :=
        inductionHypothesis nofun fun member => noSlash (List.mem_cons_of_mem _ member)
      rw [after, List.foldl_cons, freed]
      exact later

/-- A place behind a closing quote is free. -/
theorem after_quotedRun?
    {quote : Char}
    {chars : List Char}
    {run : Nat}
    (isEnd : isEnd quote = true)
    (found : Lexeme.quotedRun? quote chars = some run)
    (guard : CommentGuard) :
    guard.after (chars.take run) = .free := by
  fun_induction Lexeme.quotedRun? quote chars generalizing run guard with
  | case1 | case2 | case4 => cases found
  | case3 escaped rest inductionHypothesis =>
      obtain ⟨inner, innerFound, rfl⟩ := Option.map_eq_some_iff.mp found
      rw [Nat.add_comm, List.take_succ_cons, List.take_succ_cons]
      exact inductionHypothesis innerFound _
  | case5 =>
      cases found
      exact next_of_isEnd isEnd guard
  | case6 char rest _ _ _ _ inductionHypothesis =>
      obtain ⟨inner, innerFound, rfl⟩ := Option.map_eq_some_iff.mp found
      rw [Nat.add_comm, List.take_succ_cons]
      exact inductionHypothesis innerFound _

end CommentGuard

namespace Lexeme

variable {first : Char} {own tail : List Char} {kind? : Option TokenKind} {guard : CommentGuard}

/-- A number holds no slash. -/
theorem noSlash_numberRun
    (hex : Bool)
    (chars : List Char) :
    '/' ∉ chars.take (numberRun hex chars) := by
  have part_ne : ∀ {char : Char}, isWordPart char = true → '/' ≠ char :=
    fun isPart => (ne_of_isWordPart isPart (by decide)).symm
  fun_induction numberRun hex chars with
  | case1 | case3 | case6 => simp
  | case2 char isPart => simpa using part_ne isPart
  | case4 char next rest isExponent inductionHypothesis =>
      simp only [Bool.and_eq_true, isSign, Bool.or_eq_true, beq_iff_eq] at isExponent
      have notSign : '/' ≠ next := by rcases isExponent.2 with rfl | rfl <;> decide
      rw [Nat.add_comm, List.take_succ_cons, List.take_succ_cons]
      simp only [List.mem_cons, not_or]
      exact ⟨part_ne (isWordPart_of_isExponentMark isExponent.1), notSign, inductionHypothesis⟩
  | case5 char next rest notExponent isPart inductionHypothesis =>
      have notChar : '/' ≠ char := by
        simp only [Bool.or_eq_true, Bool.and_eq_true, beq_iff_eq] at isPart
        rcases isPart with isPart | ⟨rfl, -⟩
        · exact part_ne isPart
        · decide
      rw [Nat.add_comm, List.take_succ_cons]
      simp only [List.mem_cons, not_or]
      exact ⟨notChar, inductionHypothesis⟩

/-- No comment can start before the text, as far as the line scanner sees. -/
def IsClear (guard : CommentGuard) (chars : List Char) : Prop :=
  guard = .free ∨ (guard = .slash ∧ chars.head? ≠ some '/') ∨ Text.Stops (· != '\n') chars

/-- Before a character that is no line break a clear place is not barred. -/
theorem IsClear.ne_barred
    {chars : List Char}
    (isClear : IsClear guard (first :: chars))
    (notBreak : first ≠ '\n') :
    guard ≠ .barred := by
  rintro rfl
  rcases isClear with isFree | ⟨isSlash, -⟩ | stops
  · cases isFree
  · cases isSlash
  · exact notBreak (by simpa using stops first rfl)

/-- Behind a lexeme at a clear place is a clear place again. -/
theorem Starts.isClear
    (starts : Starts first own tail kind?)
    (isClear : IsClear guard (first :: (own ++ tail))) :
    IsClear (guard.after (first :: own)) tail := by
  have clear_of_noSlash :
      first ≠ '\n' → '/' ∉ first :: own → IsClear (guard.after (first :: own)) tail :=
    fun notBreak noSlash =>
      .inl (CommentGuard.after_of_noSlash (isClear.ne_barred notBreak) noSlash)
  have take_own : own = (own ++ tail).take own.length := List.take_left.symm
  cases starts with
  | blank isBlank ownEq =>
      subst ownEq
      by_cases isBreak : first = '\n'
      · subst isBreak
        have isEnd : CommentGuard.isEnd '\n' = true := rfl
        exact .inl (CommentGuard.next_of_isEnd isEnd guard)
      · refine clear_of_noSlash isBreak fun member => ?_
        obtain rfl := List.mem_singleton.mp member
        cases isBlank
  | comment _ _ stops | multilineString _ _ stops => exact .inr (.inr stops)
  | word startsWord inside _ =>
      have isWord : IsWord (first :: own) := ⟨first, own, rfl, startsWord, inside⟩
      exact clear_of_noSlash
        (ne_of_isWordPart (isWordPart_of_isWordStart startsWord) (by decide))
        (not_mem_of_isWord isWord (by decide))
  | builtin isAt isWord _ =>
      subst isAt
      refine clear_of_noSlash (by decide) fun member => ?_
      rcases List.mem_cons.mp member with isAt | inOwn
      · cases isAt
      · exact not_mem_of_isWord isWord (by decide) inOwn
  | number isDigit run =>
      have isPart := isWordPart_of_isDigit isDigit
      refine clear_of_noSlash (ne_of_isWordPart isPart (by decide)) fun member => ?_
      rcases List.mem_cons.mp member with isFirst | inOwn
      · exact ne_of_isWordPart isPart (by decide) isFirst.symm
      · rw [take_own, ← run] at inOwn
        exact noSlash_numberRun _ _ inOwn
  | quotedName body isAt ownEq run =>
      subst ownEq
      have closed := CommentGuard.after_quotedRun? rfl run ((guard.next first).next '"')
      rw [List.take_left] at closed
      exact .inl closed
  | string isQuote run | char isQuote run =>
      have closed := CommentGuard.after_quotedRun? rfl run (guard.next first)
      rw [List.take_left] at closed
      exact .inl closed
  | operator text kind notComment found textEq =>
      have slash_first :
          ∀ entry ∈ TokenKind.operators, '/' ∉ entry.1.toList.tail ∧ '\n' ∉ entry.1.toList := by
        decide
      have marks := slash_first _ (operator?_eq_some found).1
      simp only [textEq, List.tail_cons, List.mem_cons, not_or] at marks
      obtain ⟨noSlash, notBreak, -⟩ := marks
      by_cases isSlash : first = '/'
      · subst isSlash
        obtain rfl : guard = .free := by
          rcases isClear with isFree | ⟨-, notSlash⟩ | stops
          · exact isFree
          · exact (notSlash rfl).elim
          · cases stops '/' rfl
        cases own with
        | nil =>
            refine .inr (.inl ⟨rfl, fun isSlash => ?_⟩)
            rw [List.nil_append, isDoubled, isSlash] at notComment
            cases notComment
        | cons second more =>
            have freed : CommentGuard.slash.after (second :: more) = .free :=
              CommentGuard.after_of_noSlash (by decide) noSlash
            exact .inl freed
      · refine clear_of_noSlash (Ne.symm notBreak) fun member => ?_
        rcases List.mem_cons.mp member with isFirst | inOwn
        · exact isSlash isFirst.symm
        · exact noSlash inOwn

end Lexeme

namespace Piece.Renamed

variable
  {names : Nat → Option (List Char)}
  {index : Nat}
  {afterPoint : Bool}
  {guard : CommentGuard}
  {chars : List Char}
  {pieces renamed : List Piece}

/-- A text and its renamed pieces are twins. -/
theorem twin
    (isRenamed : Renamed names index afterPoint pieces renamed)
    (isCut : Cut chars pieces)
    (isClear : Lexeme.IsClear guard chars) :
    Twin guard chars (join renamed) := by
  induction isCut generalizing index afterPoint guard renamed with
  | nil =>
      cases isRenamed
      exact .nil
  | @cons first own tail kind? pieces starts laterCut inductionHypothesis =>
      cases isRenamed with
      | gap _ later | kept _ _ later =>
          rw [join_cons, ← List.cons_append]
          exact .append_left (inductionHypothesis later (starts.isClear isClear))
      | word _ _ isWord wasWord later =>
          have notBreak : first ≠ '\n' := by
            rintro rfl
            exact Lexeme.not_mem_of_isWord wasWord (by decide) List.mem_cons_self
          rw [join_cons, ← List.cons_append]
          exact .word (isClear.ne_barred notBreak) wasWord isWord
            (inductionHypothesis later (.inl rfl))

/-- Renaming keeps the suppression comments. -/
theorem suppressions_eq
    {source : String}
    (isRenamed : Renamed names index afterPoint pieces renamed)
    (isCut : Cut source.toList pieces) :
    SuppressionTable.ofSource (String.ofList (join renamed)) =
      SuppressionTable.ofSource source := by
  have isTwin := isRenamed.twin isCut (.inl rfl)
  rw [← String.toList_ofList (l := join renamed)] at isTwin
  exact SuppressionTable.ofSource_twin isTwin

end Piece.Renamed

end ZigLint
