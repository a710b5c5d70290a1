import ZigLint.Proofs.Suppression.LineScan

namespace ZigLint

/-!
# Suppression comments and tokens

The line scanner looks for comments without knowing tokens. It finds the comments
that cutting a source into tokens skips, except on lines that it misreads: those
that start inside a literal with an escaped line break, and those on which a line
of a multi-line string directly follows a slash. Everywhere else the directives of
a source are those of its comments, in order.
-/

/-- The directive in the comment on a line, with that line. -/
def Directive.ofLineComment? (comment : Nat × List Char) : Option (Nat × Directive) :=
  (ofComment? comment.2).map (Prod.mk comment.1)

namespace Piece

/-- The comments among pieces that start on the given line: their lines and their texts. -/
def commentsFrom (line : Nat) : List Piece → List (Nat × List Char)
  | [] => []
  | piece :: rest =>
      let later := commentsFrom (line + piece.chars.count '\n') rest
      match piece.kind?, piece.chars with
      | none, '/' :: '/' :: text => (line, text) :: later
      | _, _ => later

/--
The lines that the line scanner misreads because of a piece on the given line.

`afterSlash` says that the piece right before it is a slash.
-/
def misread (piece : Piece) (line : Nat) (afterSlash : Bool) : List Nat :=
  match piece.kind? with
  | none => []
  | some .multilineStringLine => if afterSlash then [line] else []
  | some _ => List.range' (line + 1) (piece.chars.count '\n')

/-- The lines that the line scanner misreads, from the given line on. -/
def misreadFrom (line : Nat) (afterSlash : Bool) : List Piece → List Nat
  | [] => []
  | piece :: rest =>
      piece.misread line afterSlash ++
        misreadFrom (line + piece.chars.count '\n') (piece.kind? == some .slash) rest

/-- The directives in the comments among pieces, with their lines. -/
def directives (pieces : List Piece) : List (Nat × Directive) :=
  (commentsFrom 1 pieces).filterMap Directive.ofLineComment?

end Piece

namespace LineState

/-- The comments that a scan finds on lines, the first of which it enters in the given state. -/
def foundOn (state : LineState) (line : Nat) : List (List Char) → List (Nat × List Char)
  | [] => []
  | text :: more =>
      ((state.commentText? text).map (Prod.mk line)).toList ++ foundOn .code (line + 1) more

end LineState

namespace SuppressionTable

/-- The directives of a source, with the lines on which they stand. -/
def directives (source : String) : List (Nat × Directive) :=
  ((Text.lines source.toList).zipIdx 1).filterMap fun (text, line) =>
    (Directive.ofLine? text).map (Prod.mk line)

end SuppressionTable

section Scan

variable
  {keep : Nat → Bool}
  {line : Nat}
  {state : LineState}
  {text : List Char}
  {more : List (List Char)}

/-- What is found on a line that is left out does not matter. -/
theorem filter_foundOn_cons
    (leftOut : keep line = false) :
    (state.foundOn line (text :: more)).filter (fun entry => keep entry.1) =
      (LineState.code.foundOn (line + 1) more).filter fun entry => keep entry.1 := by
  rw [LineState.foundOn, List.filter_append]
  cases state.commentText? text with
  | none => rfl
  | some found => simp [leftOut]

theorem filter_foundOn_append
    {inner : List (List Char)}
    (leftOut : ∀ number ∈ List.range' line inner.length, keep number = false) :
    (LineState.code.foundOn line (inner ++ more)).filter (fun entry => keep entry.1) =
      (LineState.code.foundOn (line + inner.length) more).filter fun entry => keep entry.1 := by
  induction inner generalizing line with
  | nil => rfl
  | cons text inner inductionHypothesis =>
      rw [List.length_cons, List.range'_succ] at leftOut
      rw [List.cons_append, filter_foundOn_cons (leftOut line List.mem_cons_self),
        inductionHypothesis fun number member => leftOut number (List.mem_cons_of_mem _ member),
        List.length_cons, Nat.add_assoc, Nat.add_comm 1]

theorem foundOn_code_eq
    (line : Nat)
    (lines : List (List Char)) :
    LineState.code.foundOn line lines =
      (lines.zipIdx line).filterMap fun (text, number) =>
        (LineState.code.commentText? text).map (Prod.mk number) := by
  induction lines generalizing line with
  | nil => rfl
  | cons text more inductionHypothesis =>
      rw [LineState.foundOn, inductionHypothesis, List.zipIdx_cons]
      cases found : LineState.code.commentText? text with
      | none => rw [List.filterMap_cons_none (by simp [found])]; rfl
      | some comment => rw [List.filterMap_cons_some (by simp [found]; rfl)]; rfl

end Scan

namespace Piece

variable
  {first : Char}
  {own tail : List Char}
  {kind? : Option TokenKind}
  {pieces : List Piece}

/-- A piece that is no comment adds no comment. -/
theorem commentsFrom_cons
    (notComment : Lexeme.isDoubled '/' first (own ++ tail) = false)
    (line : Nat) :
    commentsFrom line ({ kind?, chars := first :: own } :: pieces) =
      commentsFrom (line + (first :: own).count '\n') pieces := by
  rw [commentsFrom]
  split
  · rename_i charsEq
    obtain ⟨rfl, rfl⟩ := List.cons_eq_cons.mp charsEq
    cases notComment
  · rfl

end Piece

section Run

variable
  {keep : Nat → Bool}
  {line : Nat}
  {afterSlash : Bool}
  {state : LineState}
  {first : Char}
  {own tail rest : List Char}
  {more : List (List Char)}
  {kind? : Option TokenKind}
  {pieces : List Piece}

/-- A lexeme on one line that is no comment lets a scan go on behind it. -/
theorem Lexeme.Starts.filter_foundOn_eq
    (starts : Starts first own tail kind?)
    (notComment : isDoubled '/' first (own ++ tail) = false)
    (noBreak : '\n' ∉ first :: own)
    (between : state.Between afterSlash (first :: (own ++ tail)))
    (leftOut :
      ∀ number ∈ Piece.misread { kind?, chars := first :: own } line afterSlash,
        keep number = false)
    (linesEq : Text.lines tail = rest :: more) :
    ∃ next : LineState,
      next.Between (kind? == some .slash) tail ∧
        (state.foundOn line (Text.lines (first :: (own ++ tail)))).filter
            (fun entry => keep entry.1) =
          (next.foundOn line (Text.lines tail)).filter fun entry => keep entry.1 := by
  have allLines : Text.lines (first :: (own ++ tail)) = (first :: (own ++ rest)) :: more :=
    Text.lines_append noBreak linesEq
  rw [allLines, linesEq]
  by_cases isMisread : kind? = some .multilineStringLine ∧ afterSlash = true
  · obtain ⟨rfl, rfl⟩ := isMisread
    have lineOut : keep line = false := leftOut line (List.mem_singleton.mpr rfl)
    exact ⟨.code, .inl rfl, by rw [filter_foundOn_cons lineOut, filter_foundOn_cons lineOut]⟩
  · have notMisread : kind? = some .multilineStringLine → afterSlash = false := by
      intro isLine
      exact Bool.eq_false_iff.mpr fun isAfterSlash => isMisread ⟨isLine, isAfterSlash⟩
    obtain ⟨next, nextBetween, textEq⟩ :=
      starts.passedBy notComment noBreak between notMisread linesEq
    rw [List.cons_append] at textEq
    exact ⟨next, nextBetween, by rw [LineState.foundOn, textEq, LineState.foundOn]⟩

/-- Behind a literal with line breaks a scan goes on in code, on the line after it. -/
theorem filter_foundOn_literal
    {kind : TokenKind}
    (notLine : kind ≠ .multilineStringLine)
    (hasBreak : '\n' ∈ first :: own)
    (noneFound : state.commentText? ((first :: own).takeWhile (· != '\n')) = none)
    (leftOut :
      ∀ number ∈ Piece.misread { kind? := some kind, chars := first :: own } line afterSlash,
        keep number = false) :
    (state.foundOn line (Text.lines (first :: (own ++ tail)))).filter (fun entry => keep entry.1) =
      (LineState.code.foundOn (line + (first :: own).count '\n') (Text.lines tail)).filter
        fun entry => keep entry.1 := by
  obtain ⟨rest, more, linesEq⟩ := Text.exists_first_line tail
  obtain ⟨inner, last, allLines, countEq⟩ := Text.lines_append_break hasBreak linesEq
  rw [List.cons_append] at allLines
  have insideOut :
      ∀ number ∈ List.range' (line + 1) ((first :: own).count '\n'), keep number = false := by
    intro number member
    refine leftOut number ?_
    unfold Piece.misread
    split
    · rename_i isNone
      cases isNone
    · rename_i isLine
      exact (notLine (Option.some.inj isLine)).elim
    · exact member
  have lastOut : keep (line + (first :: own).count '\n') = false := by
    refine insideOut _ (List.mem_range'_1.mpr ?_)
    omega
  have lengthEq : (inner ++ [last ++ rest]).length = (first :: own).count '\n' := by
    rw [List.length_append, List.length_singleton, countEq]
  have splitEq : inner ++ (last ++ rest) :: more = (inner ++ [last ++ rest]) ++ more := by
    rw [List.append_assoc, List.singleton_append]
  rw [allLines, LineState.foundOn, noneFound, linesEq, filter_foundOn_cons lastOut, splitEq]
  show (LineState.code.foundOn (line + 1) _).filter _ = _
  rw [filter_foundOn_append (lengthEq ▸ insideOut), lengthEq, Nat.add_right_comm]

/--
Apart from lines that are left out, a scan of the lines of a text finds the comments
among its pieces.

The state of the scan and what stands before the text are known for the first line
only; every other line is entered in code.
-/
theorem Cut.filter_foundOn_eq
    {chars : List Char}
    (isCut : Cut chars pieces)
    (between : state.Between afterSlash chars)
    (leftOut : ∀ number ∈ Piece.misreadFrom line afterSlash pieces, keep number = false) :
    (state.foundOn line (Text.lines chars)).filter (fun entry => keep entry.1) =
      (Piece.commentsFrom line pieces).filter fun entry => keep entry.1 := by
  induction isCut generalizing state line afterSlash with
  | nil => rfl
  | @cons first own tail kind? pieces starts laterCut inductionHypothesis =>
      have leftOutHere :
          ∀ number ∈ Piece.misread { kind?, chars := first :: own } line afterSlash,
            keep number = false :=
        fun number member => leftOut number (List.mem_append_left _ member)
      have leftOutLater := fun number member => leftOut number (List.mem_append_right _ member)
      obtain ⟨rest, more, linesEq⟩ := Text.exists_first_line tail
      cases doubled : Lexeme.isDoubled '/' first (own ++ tail) with
      | true =>
          obtain ⟨rfl, rfl, text, rfl, noBreak, stops⟩ := starts.comment_of_isDoubled doubled
          obtain rfl := between.eq_code
          obtain rfl := Lexeme.first_line_of_stops stops linesEq
          have noBreaks : '\n' ∉ '/' :: '/' :: text := by simpa using noBreak
          have countEq : ('/' :: '/' :: text).count '\n' = 0 := List.count_eq_zero.mpr noBreaks
          have allLines := Text.lines_append noBreaks linesEq
          rw [List.append_nil, List.cons_append, List.cons_append] at allLines
          have foundEq :
              LineState.code.foundOn line (('/' :: '/' :: text) :: more) =
                (line, text) :: LineState.code.foundOn line ([] :: more) := rfl
          have commentsEq :
              Piece.commentsFrom line ({ kind? := none, chars := '/' :: '/' :: text } :: pieces) =
                (line, text) :: Piece.commentsFrom line pieces := by
            rw [Piece.commentsFrom, countEq, Nat.add_zero]
            rfl
          rw [countEq, Nat.add_zero] at leftOutLater
          rw [List.cons_append, allLines, foundEq, commentsEq, List.filter_cons, List.filter_cons,
            ← linesEq, inductionHypothesis (.inl rfl) leftOutLater]
      | false =>
          rw [Piece.commentsFrom_cons doubled]
          by_cases hasBreak : '\n' ∈ first :: own
          · rcases starts.commentText?_of_break between.inCode hasBreak with
              ⟨rfl, rfl, rfl⟩ | ⟨⟨kind, rfl, notLine⟩, noneFound⟩
            · rw [List.nil_append, Text.lines, if_pos rfl, LineState.foundOn]
              exact inductionHypothesis (.inl rfl) leftOutLater
            · rw [filter_foundOn_literal notLine hasBreak noneFound leftOutHere]
              exact inductionHypothesis (.inl rfl) leftOutLater
          · obtain ⟨next, nextBetween, sameFound⟩ :=
              starts.filter_foundOn_eq doubled hasBreak between leftOutHere linesEq
            have countEq : (first :: own).count '\n' = 0 := List.count_eq_zero.mpr hasBreak
            rw [countEq, Nat.add_zero] at leftOutLater ⊢
            rw [sameFound]
            exact inductionHypothesis nextBetween leftOutLater

end Run

namespace SuppressionTable

variable {source : String} {pieces : List Piece}

/-- The table of a source lists its directives with the lines that they are about. -/
theorem comments_eq
    (source : String) :
    (ofSource source).comments =
      (directives source).map fun (line, directive) => directive.toComment line := by
  rw [ofSource, directives, List.map_filterMap]
  refine List.filterMap_congr fun entry _ => ?_
  rw [Option.map_map]
  rfl

theorem directives_eq
    (source : String) :
    directives source =
      (LineState.code.foundOn 1 (Text.lines source.toList)).filterMap
        Directive.ofLineComment? := by
  rw [directives, foundOn_code_eq, List.filterMap_filterMap]
  refine List.filterMap_congr ?_
  rintro ⟨text, line⟩ _
  show ((LineState.code.commentText? text).bind Directive.ofComment?).map (Prod.mk line) =
    ((LineState.code.commentText? text).map (Prod.mk line)).bind Directive.ofLineComment?
  cases LineState.code.commentText? text <;> rfl

/-- Lines can be left out before or after comments are read as directives. -/
theorem filter_directives
    (keep : Nat → Bool)
    (comments : List (Nat × List Char)) :
    (comments.filterMap Directive.ofLineComment?).filter (fun entry => keep entry.1) =
      (comments.filter fun entry => keep entry.1).filterMap Directive.ofLineComment? := by
  rw [List.filter_filterMap, List.filterMap_filter]
  refine List.filterMap_congr fun comment _ => ?_
  rw [Directive.ofLineComment?]
  cases Directive.ofComment? comment.2 with
  | none => simp
  | some directive => cases kept : keep comment.1 <;> simp [kept]

/-- Apart from lines that are left out, the directives of a source are those of its comments. -/
theorem filter_directives_eq
    (keep : Nat → Bool)
    (isCut : Cut source.toList pieces)
    (leftOut : ∀ number ∈ Piece.misreadFrom 1 false pieces, keep number = false) :
    (directives source).filter (fun entry => keep entry.1) =
      (Piece.directives pieces).filter fun entry => keep entry.1 := by
  rw [directives_eq, Piece.directives, filter_directives, filter_directives,
    isCut.filter_foundOn_eq (.inl rfl) leftOut]

/--
The line scanner and the cutting of a source into tokens agree on comments.

On every line that is not misread, a directive is recorded exactly if a comment
with that directive is skipped there; if no line is misread, the table holds the
directives of all comments that are skipped, in source order, and nothing else.
-/
theorem comments_of_scan
    {tokens : List Token}
    (scanned : Token.scan source = .ok tokens) :
    ∃ pieces,
      Cut source.toList pieces ∧
        tokens = Piece.tokensFrom 0 pieces ∧
          (directives source).filter (fun entry => entry.1 ∉ Piece.misreadFrom 1 false pieces) =
              (Piece.directives pieces).filter (fun entry =>
                entry.1 ∉ Piece.misreadFrom 1 false pieces) ∧
            (Piece.misreadFrom 1 false pieces = [] →
              (ofSource source).comments =
                (Piece.directives pieces).map fun (line, directive) =>
                  directive.toComment line) := by
  obtain ⟨pieces, isCut, tokensEq⟩ := Token.scan_eq_ok_iff.mp scanned
  refine ⟨pieces, isCut, tokensEq, ?_, fun noneMisread => ?_⟩
  · refine filter_directives_eq (· ∉ Piece.misreadFrom 1 false pieces) isCut ?_
    intro number member
    simpa using member
  · have sameDirectives := filter_directives_eq (fun _ => true) isCut (by rw [noneMisread]; nofun)
    rw [List.filter_true, List.filter_true] at sameDirectives
    rw [comments_eq, sameDirectives]

/-- Slashes in a string are no comment, and the comment behind the string is found. -/
theorem comments_of_scan_string :
    ∃ tokens pieces,
      Token.scan "\"//\"// zlinter-disable-next-line a" = .ok tokens ∧
        Cut "\"//\"// zlinter-disable-next-line a".toList pieces ∧
          Piece.misreadFrom 1 false pieces = [] ∧
            (ofSource "\"//\"// zlinter-disable-next-line a").comments =
                (Piece.directives pieces).map (fun (line, directive) =>
                  directive.toComment line) ∧
              (ofSource "\"//\"// zlinter-disable-next-line a").comments =
                [{ lineStart := 2, lineEnd := 2, ruleIds := ["a"] }] := by
  have isCut :
      Cut "\"//\"// zlinter-disable-next-line a".toList
        [
          { kind? := some .string, chars := "\"//\"".toList },
          { kind? := none, chars := "// zlinter-disable-next-line a".toList }
        ] := by
    decide +kernel
  have scanned := Token.scan_eq_ok_iff.mpr ⟨_, isCut, rfl⟩
  obtain ⟨pieces, alsoCut, -, -, sameComments⟩ := comments_of_scan scanned
  obtain rfl := isCut.unique alsoCut
  exact ⟨_, _, scanned, isCut, by decide +kernel, sameComments (by decide +kernel),
    by decide +kernel⟩

/--
A directive is recorded in a line of a multi-line string that directly follows a
slash, and none for a comment behind a string with an escaped line break.
-/
theorem comments_misread :
    (∃ pieces,
        Token.scan "a/\\\\// zlinter-disable-current-line" = .ok (Piece.tokensFrom 0 pieces) ∧
          Cut "a/\\\\// zlinter-disable-current-line".toList pieces ∧
            Piece.directives pieces = [] ∧
              (ofSource "a/\\\\// zlinter-disable-current-line").comments =
                [{ lineStart := 1, lineEnd := 1, ruleIds := [] }]) ∧
      ∃ pieces,
        Token.scan "\"a\\\n\"// zlinter-disable-current-line" =
            .ok (Piece.tokensFrom 0 pieces) ∧
          Cut "\"a\\\n\"// zlinter-disable-current-line".toList pieces ∧
            Piece.directives pieces = [(2, { target := .currentLine, ruleIds := [] })] ∧
              (ofSource "\"a\\\n\"// zlinter-disable-current-line").comments = [] := by
  have lineCut :
      Cut "a/\\\\// zlinter-disable-current-line".toList
        [
          { kind? := some .identifier, chars := ['a'] },
          { kind? := some .slash, chars := ['/'] },
          {
            kind? := some .multilineStringLine
            chars := "\\\\// zlinter-disable-current-line".toList
          }
        ] := by
    decide +kernel
  have stringCut :
      Cut "\"a\\\n\"// zlinter-disable-current-line".toList
        [
          { kind? := some .string, chars := "\"a\\\n\"".toList },
          { kind? := none, chars := "// zlinter-disable-current-line".toList }
        ] := by
    decide +kernel
  have lineScanned := Token.scan_eq_ok_iff.mpr ⟨_, lineCut, rfl⟩
  have stringScanned := Token.scan_eq_ok_iff.mpr ⟨_, stringCut, rfl⟩
  exact ⟨⟨_, lineScanned, lineCut, by decide +kernel, by decide +kernel⟩,
    ⟨_, stringScanned, stringCut, by decide +kernel, by decide +kernel⟩⟩

end SuppressionTable

end ZigLint
