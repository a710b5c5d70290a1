import ZigLint.Proofs.Token.Rename
import ZigLint.Proofs.Token.TextKind

namespace ZigLint

/-!
# Tokens on lines of their own

A line break ends every lexeme that it does not belong to: it continues no word and
no number, extends no operator and closes a line of a multi-line string. So a token
is recognised from its own text, and the texts of the tokens of a source, written
one to a line, are read as the same tokens again.
-/

namespace Lexeme

open Text (Stops)

variable {first : Char} {own tail : List Char} {kind : TokenKind}

/-- A text without the mark that stands before the mark stands in front of it. -/
theorem prefix_of_prefix_append_mark
    {mark : Char}
    {front later : List Char}
    (notIn : mark ∉ front)
    (isFront : front <+: own ++ mark :: later) :
    front <+: own := by
  rcases Nat.lt_or_ge own.length front.length with longer | shorter
  · have markFront : own ++ [mark] <+: own ++ mark :: later := ⟨later, by simp⟩
    have inFront : own ++ [mark] <+: front :=
      List.prefix_of_prefix_length_le markFront isFront (by simp; omega)
    exact absurd (inFront.subset (by simp)) notIn
  · exact List.prefix_of_prefix_length_le isFront (List.prefix_append own _) shorter

/-- An operator is found again right before a line break. -/
theorem operator?_before_break
    {text : String}
    (found : operator? (text.toList ++ tail) = some (text, kind))
    (later : List Char) :
    operator? (text.toList ++ '\n' :: later) = some (text, kind) := by
  have no_break : ∀ entry ∈ TokenKind.operators, '\n' ∉ entry.1.toList := by decide
  unfold operator? at found ⊢
  rw [List.find?_eq_some_iff_append] at found ⊢
  obtain ⟨-, before, after, tableEq, notBefore⟩ := found
  refine ⟨by simp, before, after, tableEq, fun entry isBefore => ?_⟩
  have inTable : entry ∈ TokenKind.operators := by
    rw [tableEq]
    exact List.mem_append_left _ isBefore
  have notFront := notBefore entry isBefore
  simp only [Bool.not_eq_true', Bool.eq_false_iff, ne_eq, List.isPrefixOf_iff_prefix]
    at notFront ⊢
  intro isFront
  apply notFront
  exact (prefix_of_prefix_append_mark (no_break entry inTable) isFront).trans
    (List.prefix_append _ _)

/-- A token is the same token right before a line break. -/
theorem Starts.before_break
    (starts : Starts first own tail (some kind))
    (later : List Char) :
    Starts first own ('\n' :: later) (some kind) := by
  have stops_line : Stops (· != '\n') ('\n' :: later) := by
    rintro _ ⟨⟩
    rfl
  have stops_word : Stops isWordPart ('\n' :: later) := by
    rintro _ ⟨⟩
    rfl
  cases starts with
  | multilineString doubled inside stops =>
      cases own with
      | nil =>
          obtain ⟨-, atHead⟩ : first = '\\' ∧ tail.head? = some '\\' := by
            simpa [isDoubled] using doubled
          exact absurd (stops '\\' atHead) (by decide)
      | cons next more => exact .multilineString doubled inside stops_line
  | word startsWord inside _ => exact .word startsWord inside stops_word
  | quotedName body isAt ownEq run => exact .quotedName body isAt ownEq (quotedRun?_append run)
  | builtin isAt isWord _ => exact .builtin isAt isWord stops_word
  | number isDigit run =>
      have number_ends (hex : Bool) : numberRun hex ('\n' :: later) = 0 :=
        numberRun_eq_zero_iff.mpr ⟨stops_word, by rintro _ _ ⟨⟩⟩
      cases own with
      | nil => exact .number isDigit (number_ends _)
      | cons next more =>
          exact .number isDigit
            (numberRun_append (fun _ => number_ends _) (fun _ signed => by cases signed) run)
  | string isQuote run => exact .string isQuote (quotedRun?_append run)
  | char isQuote run => exact .char isQuote (quotedRun?_append run)
  | operator text _ notComment found textEq =>
      refine .operator text kind ?_ ?_ textEq
      · cases own with
        | nil => simp [isDoubled]
        | cons next more => exact notComment
      · rw [← List.cons_append, ← textEq] at found ⊢
        exact operator?_before_break found later

end Lexeme

namespace Piece

/-- The blank that ends a line. -/
def lineBreak : Piece where
  kind? := none
  chars := ['\n']

/-- The tokens among pieces, each with a line break behind it. -/
def onLines : List Piece → List Piece
  | [] => []
  | piece :: rest =>
      match piece.kind? with
      | none => onLines rest
      | some _ => piece :: lineBreak :: onLines rest

variable {chars : List Char} {pieces : List Piece}

/-- Tokens on lines of their own are cut off there. -/
theorem cut_onLines
    (isCut : Cut chars pieces) :
    Cut (join (onLines pieces)) (onLines pieces) := by
  induction isCut with
  | nil => exact .nil
  | @cons first own tail kind? pieces starts _ inductionHypothesis =>
      cases kind? with
      | none => exact inductionHypothesis
      | some kind =>
          have breakEnds : Lexeme.Starts '\n' [] (join (onLines pieces)) none := .blank rfl rfl
          exact .cons (starts.before_break _) (.cons breakEnds inductionHypothesis)

/-- Only blanks and comments get lost on the way. -/
theorem texts_onLines
    (offset offset' : Nat)
    (pieces : List Piece) :
    (tokensFrom offset (onLines pieces)).map Token.text =
      (tokensFrom offset' pieces).map Token.text := by
  induction pieces generalizing offset offset' with
  | nil => rfl
  | cons piece rest inductionHypothesis =>
      rw [onLines, tokensFrom]
      cases isToken : piece.kind? with
      | none => exact inductionHypothesis _ _
      | some kind =>
          simp only [tokensFrom, isToken, lineBreak, List.map_cons, List.cons.injEq, true_and]
          exact inductionHypothesis _ _

end Piece

namespace Token

/-- The texts of the tokens, each on a line of its own; the end of file has no text. -/
def onLines (tokens : List Token) : String :=
  String.join ((tokens.filter (·.kind != .eof)).map fun token => token.text ++ "\n")

theorem onLines_cons
    {token : Token}
    (notEnd : token.kind ≠ .eof)
    (rest : List Token) :
    onLines (token :: rest) = token.text ++ "\n" ++ onLines rest := by
  simp [onLines, notEnd]

theorem toList_onLines
    {chars : List Char}
    {pieces : List Piece}
    (isCut : Cut chars pieces)
    (offset : Nat) :
    (onLines (Piece.tokensFrom offset pieces)).toList = Piece.join (Piece.onLines pieces) := by
  induction isCut generalizing offset with
  | nil => rfl
  | @cons first own tail kind? pieces starts _ inductionHypothesis =>
      rw [Piece.tokensFrom, Piece.onLines]
      cases kind? with
      | none => exact inductionHypothesis _
      | some kind =>
          rw [onLines_cons starts.kind_ne_eof, String.toList_append, inductionHypothesis]
          simp [Piece.join, Piece.lineBreak]

/--
The texts of the tokens of a source, one to a line, are read as the same tokens.

The new tokens have the kinds and the texts of the old ones, in the same order.
-/
theorem scan_onLines
    {source : String}
    {tokens : List Token}
    (scanned : scan source = .ok tokens) :
    ∃ again,
      scan (onLines tokens) = .ok again ∧ again.length = tokens.length ∧
        again.map kind = tokens.map kind ∧ again.map text = tokens.map text := by
  obtain ⟨pieces, isCut, rfl⟩ := scan_eq_ok_iff.mp scanned
  have cutAgain := Piece.cut_onLines isCut
  have sameTexts := Piece.texts_onLines 0 0 pieces
  have sameLength := congrArg List.length sameTexts
  rw [List.length_map, List.length_map] at sameLength
  refine ⟨Piece.tokensFrom 0 (Piece.onLines pieces), ?_, sameLength, ?_, sameTexts⟩
  · rw [scan_eq_ok_iff, toList_onLines isCut 0]
    exact ⟨_, cutAgain, rfl⟩
  · rw [kinds_tokensFrom cutAgain 0, kinds_tokensFrom isCut 0, sameTexts]

theorem scan_onLines_escaped_break :
    ∃ tokens again,
      scan "1e+5..0x1p-3+%=\"a\\\n\"// c\n\\\\z" = .ok tokens ∧
        onLines tokens = "1e+5\n..\n0x1p-3\n+%=\n\"a\\\n\"\n\\\\z\n" ∧
        scan (onLines tokens) = .ok again ∧ again.length = tokens.length ∧
        again.map kind = tokens.map kind ∧ again.map text = tokens.map text := by
  have isCut :
      Cut "1e+5..0x1p-3+%=\"a\\\n\"// c\n\\\\z".toList
        [
          { kind? := some .number, chars := "1e+5".toList },
          { kind? := some .dotDot, chars := "..".toList },
          { kind? := some .number, chars := "0x1p-3".toList },
          { kind? := some .compoundAssign, chars := "+%=".toList },
          { kind? := some .string, chars := "\"a\\\n\"".toList },
          { kind? := none, chars := "// c".toList },
          { kind? := none, chars := "\n".toList },
          { kind? := some .multilineStringLine, chars := "\\\\z".toList }
        ] := by
    decide +kernel
  have scanned := scan_eq_ok_iff.mpr ⟨_, isCut, rfl⟩
  obtain ⟨again, same⟩ := scan_onLines scanned
  exact ⟨_, again, scanned, by decide +kernel, same⟩

end Token

end ZigLint
