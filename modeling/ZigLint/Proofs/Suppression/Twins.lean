import ZigLint.Proofs.Text.Lines
import ZigLint.Suppression

namespace ZigLint

/-!
# Suppression comments and words

The line scanner looks for comments without knowing tokens. Two texts are twins
when they differ only in words, none of which stands behind two slashes on its
line unless a quote stands between. Twins hold the same suppression directives:
the scanner reads every word alike, and a directive ends at the first quote.
-/

open Lexeme (IsWord isWordPart isWordStart)

/-- What stands before a place on its line, since the last quote. -/
inductive CommentGuard where
  /-- No slash right before the place, and no two slashes at all. -/
  | free
  /-- One slash right before the place. -/
  | slash
  /-- Two slashes. -/
  | barred
  deriving Repr, DecidableEq

namespace CommentGuard

/-- The characters behind which nothing of a line is read as part of a directive. -/
def isEnd (char : Char) : Bool :=
  char == '\n' || char == '"' || char == '\''

/-- The guard after one more character. -/
def next (guard : CommentGuard) (char : Char) : CommentGuard :=
  if isEnd char then
    .free
  else
    match guard with
    | .free => if char = '/' then .slash else .free
    | .slash => if char = '/' then .barred else .free
    | .barred => .barred

/-- The guard after more characters. -/
def after (guard : CommentGuard) (chars : List Char) : CommentGuard :=
  chars.foldl next guard

end CommentGuard

/-- The texts differ only in words at places that are not barred. -/
inductive Twin : (guard : CommentGuard) → (chars newChars : List Char) → Prop where
  | nil
      {guard : CommentGuard} :
      Twin guard [] []
  | char
      {guard : CommentGuard}
      {char : Char}
      {chars newChars : List Char} :
      Twin (guard.next char) chars newChars →
      Twin guard (char :: chars) (char :: newChars)
  | word
      {guard : CommentGuard}
      {word newWord chars newChars : List Char} :
      guard ≠ .barred →
      IsWord word →
      IsWord newWord →
      Twin .free chars newChars →
      Twin guard (word ++ chars) (newWord ++ newChars)

namespace Twin

variable {guard : CommentGuard} {chars newChars : List Char}

/-- The same characters may stand before twins. -/
theorem append_left
    {shared : List Char}
    (twin : Twin (guard.after shared) chars newChars) :
    Twin guard (shared ++ chars) (shared ++ newChars) := by
  induction shared generalizing guard with
  | nil => exact twin
  | cons char rest inductionHypothesis => exact .char (inductionHypothesis twin)

/-- A mark that is no letter stands at the front of both twins or of neither. -/
theorem head_eq_iff
    {mark : Char}
    (twin : Twin guard chars newChars)
    (notLetter : isWordStart mark = false) :
    chars.head? = some mark ↔ newChars.head? = some mark := by
  cases twin with
  | nil => exact Iff.rfl
  | char _ => exact Iff.rfl
  | word _ wasWord isWord _ =>
      obtain ⟨first, rest, rfl, startsWord, -⟩ := wasWord
      obtain ⟨newFirst, newRest, rfl, newStartsWord, -⟩ := isWord
      constructor
      · rintro ⟨⟩
        rw [notLetter] at startsWord
        cases startsWord
      · rintro ⟨⟩
        rw [notLetter] at newStartsWord
        cases newStartsWord

/-- Barred twins are equal up to the first quote or line break. -/
theorem eq_of_barred
    (twin : Twin .barred chars newChars) :
    chars = newChars ∨
      ∃ shared mark rest newRest,
        CommentGuard.isEnd mark = true ∧
          chars = shared ++ mark :: rest ∧ newChars = shared ++ mark :: newRest := by
  generalize guardEq : CommentGuard.barred = guard at twin
  induction twin with
  | nil => exact .inl rfl
  | @char _ char chars newChars later inductionHypothesis =>
      subst guardEq
      by_cases isEnd : CommentGuard.isEnd char = true
      · exact .inr ⟨[], char, chars, newChars, isEnd, rfl, rfl⟩
      · have barred : CommentGuard.barred = CommentGuard.barred.next char := by
          rw [CommentGuard.next, if_neg isEnd]
        rcases inductionHypothesis barred with rfl | ⟨shared, mark, rest, newRest, isMark, rfl, rfl⟩
        · exact .inl rfl
        · exact .inr ⟨char :: shared, mark, rest, newRest, isMark, rfl, rfl⟩
  | word notBarred _ _ _ _ => exact (notBarred guardEq.symm).elim

end Twin

section Ends

variable {isIn : Char → Bool} {mark : Char}

/-- A run that reaches no further than a mark outside of the class. -/
theorem takeWhile_append_mark
    (isOut : isIn mark = false)
    (shared rest : List Char) :
    (shared ++ mark :: rest).takeWhile isIn = shared.takeWhile isIn := by
  induction shared with
  | nil => simp [isOut]
  | cons char more inductionHypothesis =>
      cases inClass : isIn char <;> simp [inClass, inductionHypothesis]

theorem dropWhile_append_mark
    (isOut : isIn mark = false)
    (shared rest : List Char) :
    (shared ++ mark :: rest).dropWhile isIn = shared.dropWhile isIn ++ mark :: rest := by
  induction shared with
  | nil => simp [isOut]
  | cons char more inductionHypothesis =>
      cases inClass : isIn char <;> simp [inClass, inductionHypothesis]

theorem head?_append_mark
    (shared rest newRest : List Char) :
    (shared ++ mark :: rest).head? = (shared ++ mark :: newRest).head? := by
  cases shared <;> rfl

end Ends

namespace Directive

/-- A quote or line break is no part of a directive. -/
theorem isWordChar_of_isEnd
    {mark : Char}
    (isEnd : CommentGuard.isEnd mark = true) :
    isWordChar mark = false ∧ isSeparator mark = false := by
  simp only [CommentGuard.isEnd, Bool.or_eq_true, beq_iff_eq] at isEnd
  rcases isEnd with (rfl | rfl) | rfl <;> decide

/-- The rule names do not depend on what follows a quote or line break. -/
theorem ruleIds?_append_mark
    {mark : Char}
    (isEnd : CommentGuard.isEnd mark = true)
    (shared rest newRest : List Char) :
    ruleIds? (shared ++ mark :: rest) = ruleIds? (shared ++ mark :: newRest) := by
  obtain ⟨notWord, notSeparator⟩ := isWordChar_of_isEnd isEnd
  simp only [isWordChar, Bool.or_eq_false_iff, beq_eq_false_iff_ne] at notWord
  -- Before a dash the mark makes the comment an ordinary one; behind it nothing counts.
  by_cases hasDash : '-' ∈ shared
  · obtain ⟨front, back, rfl⟩ := List.append_of_mem hasDash
    simp only [ruleIds?, List.append_assoc, List.cons_append]
    rw [takeWhile_append_mark (by decide), takeWhile_append_mark (by decide)]
  · have refuses : ∀ after, ruleIds? (shared ++ mark :: after) = none := by
      intro after
      have inside : ∀ char ∈ shared, (char != '-') = true := by
        intro char member
        rw [bne_iff_ne]
        rintro rfl
        exact hasDash member
      rw [ruleIds?, List.takeWhile_append_of_pos inside,
        List.takeWhile_cons_of_pos (by simpa using notWord.2), if_neg]
      simp [notWord.1, notSeparator]
    rw [refuses, refuses]

/-- A directive does not depend on what follows a quote or line break. -/
theorem ofComment?_append_mark
    {mark : Char}
    (isEnd : CommentGuard.isEnd mark = true)
    (shared rest newRest : List Char) :
    ofComment? (shared ++ mark :: rest) = ofComment? (shared ++ mark :: newRest) := by
  obtain ⟨notWord, notSeparator⟩ := isWordChar_of_isEnd isEnd
  have notBlank : isBlank mark = false := by
    simp only [isSeparator, Bool.or_eq_false_iff] at notSeparator
    exact notSeparator.1
  simp only [ofComment?, dropWhile_append_mark notBlank, takeWhile_append_mark notWord,
    dropWhile_append_mark notWord, head?_append_mark _ rest newRest,
    ruleIds?_append_mark isEnd _ rest newRest]

end Directive

/-- Comments that are barred twins hold the same directive. -/
theorem Twin.ofComment?_eq
    {text newText : List Char}
    (twin : Twin .barred text newText) :
    Directive.ofComment? text = Directive.ofComment? newText := by
  rcases twin.eq_of_barred with rfl | ⟨shared, mark, rest, newRest, isEnd, rfl, rfl⟩
  · rfl
  · exact Directive.ofComment?_append_mark isEnd shared rest newRest

namespace LineState

/-- The state after a word: it ends an escape and separates slashes. -/
def afterWord : LineState → LineState
  | .code | .slash => .code
  | .comment => .comment
  | .ignored => .ignored
  | .inString | .stringEscape => .inString
  | .inChar | .charEscape => .inChar

theorem afterWord_ne_comment
    {state : LineState}
    (notComment : state ≠ .comment) :
    state.afterWord ≠ .comment := by
  cases state with
  | comment => exact (notComment rfl).elim
  | _ => nofun

theorem afterWord_ne_slash
    (state : LineState) :
    state.afterWord ≠ .slash := by
  cases state <;> nofun

/-- Every character of a word leads to the same state. -/
theorem step_of_isWordPart
    {char : Char}
    (isPart : isWordPart char = true)
    (state : LineState)
    (next? : Option Char) :
    state.step char next? = state.afterWord := by
  have notSlash : char ≠ '/' := Lexeme.ne_of_isWordPart isPart (by decide)
  have notQuote : char ≠ '"' := Lexeme.ne_of_isWordPart isPart (by decide)
  have notTick : char ≠ '\'' := Lexeme.ne_of_isWordPart isPart (by decide)
  have notBackslash : char ≠ '\\' := Lexeme.ne_of_isWordPart isPart (by decide)
  cases state <;> simp [step, afterWord, notSlash, notQuote, notTick, notBackslash]

/-- A scan passes over a word, whichever it is. -/
theorem commentText?_word
    {state : LineState}
    {word : List Char}
    (notComment : state ≠ .comment)
    (isWord : IsWord word)
    (rest : List Char) :
    state.commentText? (word ++ rest) = state.afterWord.commentText? rest := by
  have pass_char :
      ∀ {state : LineState} {char : Char} (rest : List Char), state ≠ .comment →
        isWordPart char = true →
          state.commentText? (char :: rest) = state.afterWord.commentText? rest := by
    intro state char rest notComment isPart
    rw [commentText?, step_of_isWordPart isPart]
    cases state with
    | comment => exact (notComment rfl).elim
    | _ => rfl
  obtain ⟨first, own, rfl, startsWord, inside⟩ := isWord
  rw [List.cons_append, pass_char _ notComment (Lexeme.isWordPart_of_isWordStart startsWord)]
  have afterOnce := afterWord_ne_comment notComment
  have afterTwice : state.afterWord.afterWord = state.afterWord := by
    cases state <;> rfl
  induction own with
  | nil => rfl
  | cons char more inductionHypothesis =>
      simp only [List.all_cons, Bool.and_eq_true] at inside
      rw [List.cons_append, pass_char _ afterOnce inside.1, afterTwice]
      exact inductionHypothesis inside.2

/-- A scan enters a comment at a second slash only. -/
theorem step_eq_comment
    {state : LineState}
    {char : Char}
    {next? : Option Char}
    (notComment : state ≠ .comment)
    (enters : state.step char next? = .comment) :
    state = .slash ∧ char = '/' := by
  cases state with
  | slash =>
      refine ⟨rfl, ?_⟩
      by_cases isSlash : char = '/'
      · exact isSlash
      · simp only [step, if_neg isSlash] at enters
        split at enters
        · cases enters
        · split at enters <;> cases enters
  | comment => exact (notComment rfl).elim
  | _ => grind [step]

/-- A scan notes a first slash in code only. -/
theorem step_eq_slash
    {state : LineState}
    {char : Char}
    {next? : Option Char}
    (enters : state.step char next? = .slash) :
    char = '/' := by
  cases state <;> grind [step]

end LineState

/-- Twins hold the same directive in their first comment. -/
theorem Twin.commentText?_eq
    {guard : CommentGuard}
    {state : LineState}
    {chars newChars : List Char}
    (twin : Twin guard chars newChars)
    (notComment : state ≠ .comment)
    (guarded : state = .slash → guard ≠ .free) :
    (state.commentText? chars).bind Directive.ofComment? =
      (state.commentText? newChars).bind Directive.ofComment? := by
  induction twin generalizing state with
  | nil => rfl
  | @char guard char chars newChars later inductionHypothesis =>
      have sameStep : state.step char chars.head? = state.step char newChars.head? := by
        have sameFront : chars.head? = some '\\' ↔ newChars.head? = some '\\' :=
          later.head_eq_iff (by decide)
        cases state <;> simp only [LineState.step, sameFront]
      rw [LineState.commentText?, LineState.commentText?, sameStep]
      cases entered : state.step char newChars.head? with
      | comment =>
          obtain ⟨rfl, rfl⟩ := LineState.step_eq_comment notComment entered
          have barred : guard.next '/' = .barred := by
            cases guard with
            | free => exact (guarded rfl rfl).elim
            | slash | barred => rfl
          rw [barred] at later
          exact later.ofComment?_eq
      | slash =>
          obtain rfl := LineState.step_eq_slash entered
          refine inductionHypothesis nofun fun _ => ?_
          cases guard <;> decide
      | _ => exact inductionHypothesis nofun nofun
  | word _ wasWord isWord _ inductionHypothesis =>
      rw [LineState.commentText?_word notComment wasWord,
        LineState.commentText?_word notComment isWord]
      exact inductionHypothesis (LineState.afterWord_ne_comment notComment)
        fun isSlash => (state.afterWord_ne_slash isSlash).elim

/-- Lines that are twins hold the same directive. -/
theorem Twin.ofLine?_eq
    {guard : CommentGuard}
    {line newLine : List Char}
    (twin : Twin guard line newLine) :
    Directive.ofLine? line = Directive.ofLine? newLine :=
  twin.commentText?_eq nofun nofun

/-- The first lines of twins are twins, and their other lines hold the same directives. -/
theorem Twin.exists_lines
    {guard : CommentGuard}
    {chars newChars : List Char}
    (twin : Twin guard chars newChars) :
    ∃ line newLine more newMore,
      Text.lines chars = line :: more ∧
        Text.lines newChars = newLine :: newMore ∧
          Twin guard line newLine ∧
            newMore.map Directive.ofLine? = more.map Directive.ofLine? := by
  induction twin with
  | nil => exact ⟨[], [], [], [], rfl, rfl, .nil, rfl⟩
  | @char guard char chars newChars later inductionHypothesis =>
      obtain ⟨line, newLine, more, newMore, linesEq, newLinesEq, lineTwin, sameMore⟩ :=
        inductionHypothesis
      by_cases isBreak : char = '\n'
      · subst isBreak
        refine ⟨[], [], line :: more, newLine :: newMore, ?_, ?_, .nil, ?_⟩
        · rw [Text.lines, if_pos rfl, linesEq]
        · rw [Text.lines, if_pos rfl, newLinesEq]
        · rw [List.map_cons, List.map_cons, lineTwin.ofLine?_eq, sameMore]
      · have noBreak : '\n' ∉ [char] := by simpa using Ne.symm isBreak
        exact ⟨char :: line, char :: newLine, more, newMore, Text.lines_append noBreak linesEq,
          Text.lines_append noBreak newLinesEq, .char lineTwin, sameMore⟩
  | @word guard word newWord chars newChars notBarred wasWord isWord later inductionHypothesis =>
      obtain ⟨line, newLine, more, newMore, linesEq, newLinesEq, lineTwin, sameMore⟩ :=
        inductionHypothesis
      exact ⟨word ++ line, newWord ++ newLine, more, newMore,
        Text.lines_append (Lexeme.not_mem_of_isWord wasWord (by decide)) linesEq,
        Text.lines_append (Lexeme.not_mem_of_isWord isWord (by decide)) newLinesEq,
        .word notBarred wasWord isWord lineTwin, sameMore⟩

/-- Sources that are twins have the same suppression comments. -/
theorem SuppressionTable.ofSource_twin
    {source newSource : String}
    (twin : Twin .free source.toList newSource.toList) :
    ofSource newSource = ofSource source := by
  obtain ⟨line, newLine, more, newMore, linesEq, newLinesEq, lineTwin, sameMore⟩ :=
    twin.exists_lines
  have sameDirectives :
      (Text.lines newSource.toList).map Directive.ofLine? =
        (Text.lines source.toList).map Directive.ofLine? := by
    rw [linesEq, newLinesEq, List.map_cons, List.map_cons, lineTwin.ofLine?_eq, sameMore]
  have comments_eq :
      ∀ source,
        (ofSource source).comments =
          (((Text.lines source.toList).map Directive.ofLine?).zipIdx 1).filterMap fun entry =>
            entry.1.map fun directive => directive.toComment entry.2 := by
    intro source
    rw [List.zipIdx_map, List.filterMap_map]
    rfl
  have sameComments : (ofSource newSource).comments = (ofSource source).comments := by
    rw [comments_eq, comments_eq, sameDirectives]
  exact congrArg SuppressionTable.mk sameComments

end ZigLint
