import ZigLint.Proofs.Fix.Splice
import ZigLint.Proofs.Token.TextKind

namespace ZigLint

/-!
# Tokens tile a source

The tokens of a source lie next to each other in the order of the source, and what
is between them is blanks and comments. Both follow from where the pieces of a
source stand: `Lexeme.StandsAt` says it for one piece, and every token and every
byte outside of the tokens belongs to such a piece. No token can be longer than it
is: the operators are listed so that the first match is the longest one, and a word
takes all letters and digits that follow.
-/

namespace TokenKind

/-- The kind of an operator or a punctuation mark. -/
def isPunctuation : TokenKind → Bool
  | .identifier | .builtin | .number | .string | .multilineStringLine | .char => false
  | .keyword _ | .eof => false
  | _ => true

theorem isPunctuation_of_mem_operators
    {entry : String × TokenKind}
    (member : entry ∈ operators) :
    entry.2.isPunctuation = true := by
  have each : ∀ entry ∈ operators, entry.2.isPunctuation = true := by decide
  exact each entry member

/-- No operator is the beginning of one that is listed later. -/
theorem operators_pairwise :
    operators.Pairwise fun earlier later => ¬ earlier.1.toList <+: later.1.toList := by
  decide +kernel

end TokenKind

namespace Lexeme

open Text (Stops)

/-- The first operator in the table that a text starts with is the longest one. -/
theorem length_le_of_operator?
    {chars : List Char}
    {text : String}
    {kind : TokenKind}
    {entry : String × TokenKind}
    (found : operator? chars = some (text, kind))
    (member : entry ∈ TokenKind.operators)
    (isFront : entry.1.toList <+: chars) :
    entry.1.length ≤ text.length := by
  obtain ⟨-, rest, charsEq⟩ := operator?_eq_some found
  have textFront : text.toList <+: chars := ⟨rest, charsEq.symm⟩
  obtain ⟨-, before, after, tableEq, notBefore⟩ := List.find?_eq_some_iff_append.mp found
  rw [← String.length_toList, ← String.length_toList]
  rw [tableEq] at member
  rcases List.mem_append.mp member with isBefore | isAfter
  · have notFront := notBefore entry isBefore
    simp only [Bool.not_eq_true', Bool.eq_false_iff, ne_eq, List.isPrefixOf_iff_prefix] at notFront
    exact absurd isFront notFront
  · rcases List.mem_cons.mp isAfter with rfl | isAfter
    · exact Nat.le_refl _
    · have ordered := TokenKind.operators_pairwise
      rw [tableEq] at ordered
      have notBeginning :=
        List.rel_of_pairwise_cons (List.pairwise_append.mp ordered).2.1 isAfter
      by_contra longer
      exact notBeginning
        (List.prefix_of_prefix_length_le textFront isFront (Nat.le_of_not_le longer))

/-- A piece of a text with the given kind and characters stands at byte `place`. -/
def StandsAt
    (chars : List Char)
    (place : Nat)
    (kind? : Option TokenKind)
    (piece : List Char) :
    Prop :=
  ∃ front first own tail,
    chars = front ++ (first :: own ++ tail) ∧ Text.byteLength front = place ∧
      piece = first :: own ∧ Starts first own tail kind?

section Stretches

variable
  {first : Char}
  {own tail : List Char}
  {kind : TokenKind}

/-- A punctuation mark is the longest operator at its place. -/
theorem Starts.longest_of_isPunctuation
    (starts : Starts first own tail (some kind))
    (isMark : kind.isPunctuation = true) :
    (String.ofList (first :: own), kind) ∈ TokenKind.operators ∧
      ∀ entry ∈ TokenKind.operators,
        entry.1.toList <+: first :: own ++ tail →
          entry.1.length ≤ (String.ofList (first :: own)).length := by
  cases starts with
  | operator text kind _ found textEq =>
      obtain rfl : String.ofList (first :: own) = text := by
        rw [← textEq, String.ofList_toList]
      refine ⟨(operator?_eq_some found).1, fun entry member isFront => ?_⟩
      exact length_le_of_operator? found member isFront
  | word =>
      unfold wordKind at isMark
      split at isMark <;> cases isMark
  | _ => cases isMark

/-- A name, a reserved word or a builtin ends where the letters and digits end. -/
theorem Starts.stops_of_isWord
    (starts : Starts first own tail (some kind))
    (isWord :
      kind = .builtin ∨ (∃ word, kind = .keyword word) ∨ (kind = .identifier ∧ first ≠ '@')) :
    Stops isWordPart tail := by
  cases starts with
  | word _ _ stops | builtin _ _ stops => exact stops
  | quotedName _ isAt _ _ => simp_all
  | operator text kind _ found _ =>
      have isMark := TokenKind.isPunctuation_of_mem_operators (operator?_eq_some found).1
      rcases isWord with rfl | ⟨word, rfl⟩ | ⟨rfl, -⟩ <;> cases isMark
  | multilineString | number | string | char => simp at isWord

/-- What stands between tokens is one blank, or two slashes and the rest of their line. -/
theorem Starts.blank_or_comment
    (starts : Starts first own tail none) :
    (isBlank first = true ∧ own = []) ∨
      ∃ text,
        first = '/' ∧ own = '/' :: text ∧ '\n' ∉ text ∧
          (tail = [] ∨ tail.head? = some '\n') := by
  cases starts with
  | blank isBlank ownEq => exact .inl ⟨isBlank, ownEq⟩
  | comment doubled inside stops =>
      obtain ⟨isSlash, slashFollows⟩ : first = '/' ∧ (own ++ tail).head? = some '/' := by
        simpa [isDoubled] using doubled
      have ends : tail = [] ∨ tail.head? = some '\n' := by
        cases tail with
        | nil => exact .inl rfl
        | cons char rest => exact .inr (by simpa using stops char rfl)
      cases own with
      | nil => exact absurd (stops '/' slashFollows) (by decide)
      | cons next text =>
          obtain rfl : next = '/' := by simpa using slashFollows
          refine .inr ⟨text, isSlash, rfl, ?_, ends⟩
          intro isBreak
          have notBreak := List.all_eq_true.mp inside '\n' (List.mem_cons_of_mem '/' isBreak)
          exact absurd notBreak (by decide)

end Stretches

/-- A piece stands in a text between two boundaries. -/
theorem StandsAt.boundaries
    {chars piece : List Char}
    {place : Nat}
    {kind? : Option TokenKind}
    (stands : StandsAt chars place kind? piece) :
    piece ≠ [] ∧ Text.isBoundary chars place = true ∧
      Text.isBoundary chars (place + Text.byteLength piece) = true ∧
      Text.slice? chars place (place + Text.byteLength piece) = some piece := by
  obtain ⟨front, first, own, tail, rfl, rfl, rfl, -⟩ := stands
  refine ⟨List.cons_ne_nil _ _, Text.isBoundary_append _ _, ?_, Text.slice?_append _ _ _⟩
  rw [← List.append_assoc, ← Text.byteLength_append]
  exact Text.isBoundary_append _ _

end Lexeme

open Lexeme (StandsAt)

section Pieces

variable
  {source chars front : List Char}
  {pieces : List Piece}

/-- Every token but the end of file stands in the text at its offset. -/
theorem Cut.standsAt_of_mem
    {token : Token}
    (isCut : Cut chars pieces)
    (sourceEq : source = front ++ chars)
    (member : token ∈ Piece.tokensFrom (Text.byteLength front) pieces)
    (notEnd : token.kind ≠ .eof) :
    StandsAt source token.offset (some token.kind) token.text.toList := by
  induction isCut generalizing front with
  | nil =>
      obtain rfl := List.mem_singleton.mp member
      exact absurd rfl notEnd
  | @cons first own tail kind? pieces starts _ inductionHypothesis =>
      have sourceLater : source = (front ++ (first :: own)) ++ tail := by
        rw [sourceEq, List.append_assoc, List.cons_append]
      rw [Piece.tokensFrom, ← Text.byteLength_append] at member
      cases kind? with
      | none => exact inductionHypothesis sourceLater member
      | some kind =>
          rcases List.mem_cons.mp member with rfl | isLater
          · exact ⟨front, first, own, tail, sourceEq, rfl, String.toList_ofList, starts⟩
          · exact inductionHypothesis sourceLater isLater

/-- Every byte of a text belongs to a token, or to a blank or comment apart from all tokens. -/
theorem Cut.token_or_gap
    {place : Nat}
    (isCut : Cut chars pieces)
    (sourceEq : source = front ++ chars)
    (reached : Text.byteLength front ≤ place)
    (inside : place < Text.byteLength source) :
    (∃ token ∈ Piece.tokensFrom (Text.byteLength front) pieces,
        token.span.start ≤ place ∧ place < token.span.stop) ∨
      ∃ start piece,
        StandsAt source start none piece ∧ Text.byteLength front ≤ start ∧ start ≤ place ∧
          place < start + Text.byteLength piece ∧
          ∀ token ∈ Piece.tokensFrom (Text.byteLength front) pieces,
            token.span.stop ≤ start ∨ start + Text.byteLength piece ≤ token.span.start := by
  induction isCut generalizing front with
  | nil =>
      rw [sourceEq, List.append_nil] at inside
      omega
  | @cons first own tail kind? pieces starts isCut inductionHypothesis =>
      have sourceLater : source = (front ++ (first :: own)) ++ tail := by
        rw [sourceEq, List.append_assoc, List.cons_append]
      have stopEq : Text.byteLength (front ++ (first :: own)) =
          Text.byteLength front + Text.byteLength (first :: own) :=
        Text.byteLength_append _ _
      rw [Piece.tokensFrom, ← stopEq]
      rcases Nat.lt_or_ge place (Text.byteLength (front ++ (first :: own))) with isHere | isLater
      · cases kind? with
        | none =>
            refine .inr ⟨Text.byteLength front, first :: own,
              ⟨front, first, own, tail, sourceEq, rfl, rfl, starts⟩, Nat.le_refl _, reached,
              by omega, fun token member => .inr ?_⟩
            have := Piece.offset_le_of_mem_tokensFrom member
            rw [← stopEq]
            exact this
        | some kind =>
            refine .inl ⟨_, List.mem_cons_self, reached, ?_⟩
            rw [Token.span, Text.utf8ByteSize_ofList, ← stopEq]
            exact isHere
      · rcases inductionHypothesis sourceLater isLater with
            ⟨token, member, inToken⟩ | ⟨start, piece, stands, startLe, inPiece, stopLt, apart⟩
        · cases kind? with
          | none => exact .inl ⟨token, member, inToken⟩
          | some kind => exact .inl ⟨token, List.mem_cons_of_mem _ member, inToken⟩
        · refine .inr ⟨start, piece, stands, by omega, inPiece, stopLt, ?_⟩
          cases kind? with
          | none => exact apart
          | some kind =>
              intro token member
              rcases List.mem_cons.mp member with rfl | isLater
              · refine .inl ?_
                rw [Token.span, Text.utf8ByteSize_ofList, ← stopEq]
                exact startLe
              · exact apart token isLater

end Pieces

namespace Text

/-- A space, a tab, a carriage return or a line break stands at byte `offset`. -/
def BlankAt (source : String) (offset : Nat) : Prop :=
  ∃ front blank back,
    source.toList = front ++ blank :: back ∧ byteLength front = offset ∧
      (blank = ' ' ∨ blank = '\t' ∨ blank = '\r' ∨ blank = '\n')

/-- The span is a line comment: two slashes and everything up to the end of their line. -/
def CommentAt (source : String) (span : Span) : Prop :=
  ∃ front text back,
    source.toList = front ++ ('/' :: '/' :: text ++ back) ∧ '\n' ∉ text ∧
      (back = [] ∨ back.head? = some '\n') ∧ span.start = byteLength front ∧
      span.stop = byteLength front + byteLength ('/' :: '/' :: text)

end Text

namespace Token

/-- A builtin, a reserved word or a name that is not quoted. -/
def IsWord (token : Token) : Prop :=
  token.kind = .builtin ∨ (∃ word, token.kind = .keyword word) ∨
    (token.kind = .identifier ∧ token.text.toList.head? ≠ some '@')

/-- The span of the token is a stretch of whole characters of the source: its text. -/
structure IsSlice (source : String) (token : Token) : Prop where
  notEmpty : token.span.start < token.span.stop
  inside : token.span.stop ≤ source.utf8ByteSize
  startsAtBoundary : Text.isBoundary source.toList token.span.start = true
  stopsAtBoundary : Text.isBoundary source.toList token.span.stop = true
  text_eq :
    Text.slice? source.toList token.span.start token.span.stop = some token.text.toList

/-- The token is an operator, and none that the source goes on with at its start is longer. -/
def IsLongestOperator (source : String) (token : Token) : Prop :=
  (token.text, token.kind) ∈ TokenKind.operators ∧
    ∀ front rest, Text.splitAtByte? token.span.start source.toList = some (front, rest) →
      ∀ entry ∈ TokenKind.operators, entry.1.toList <+: rest →
        entry.1.length ≤ token.text.length

/-- No letter, digit or underscore follows the token in the source. -/
def EndsWord (source : String) (token : Token) : Prop :=
  ∀ front rest, Text.splitAtByte? token.span.stop source.toList = some (front, rest) →
    ∀ char, rest.head? = some char → char.isAlphanum = false ∧ char ≠ '_'

/-- The tokens tile the source, with blanks and comments between them. -/
structure Tiles (source : String) (tokens : List Token) : Prop where
  /-- The end of file is the last token and no other one. -/
  ends :
    ∃ before last,
      tokens = before ++ [last] ∧ last.kind = .eof ∧
        last.span = { start := source.utf8ByteSize, stop := source.utf8ByteSize } ∧
        ∀ token ∈ before, token.kind ≠ .eof
  ordered : tokens.Pairwise fun earlier later => earlier.span.stop ≤ later.span.start
  slices : ∀ token ∈ tokens, token.kind ≠ .eof → token.IsSlice source
  /-- A byte of no token is a blank or in a comment, all of which is outside of the tokens. -/
  gaps :
    ∀ offset < source.utf8ByteSize,
      (∀ token ∈ tokens, ¬ (token.span.start ≤ offset ∧ offset < token.span.stop)) →
        Text.BlankAt source offset ∨
          ∃ span,
            Text.CommentAt source span ∧ span.start ≤ offset ∧ offset < span.stop ∧
              ∀ token ∈ tokens, token.span.stop ≤ span.start ∨ span.stop ≤ token.span.start
  operators :
    ∀ token ∈ tokens, token.kind.isPunctuation = true → token.IsLongestOperator source
  words : ∀ token ∈ tokens, token.IsWord → token.EndsWord source

section Standing

variable {source : String} {token : Token}

theorem isSlice_of_standsAt
    (stands : StandsAt source.toList token.offset (some token.kind) token.text.toList) :
    token.IsSlice source := by
  obtain ⟨notEmpty, startsAt, stopsAt, sliced⟩ := stands.boundaries
  rw [← Text.utf8ByteSize_eq] at stopsAt sliced
  refine ⟨?_, ?_, startsAt, stopsAt, sliced⟩
  · have positive := Text.byteLength_pos notEmpty
    rw [← Text.utf8ByteSize_eq] at positive
    exact Nat.lt_add_of_pos_right positive
  · rw [Text.utf8ByteSize_eq source]
    exact Text.le_byteLength_of_isBoundary stopsAt

theorem isLongestOperator_of_standsAt
    (stands : StandsAt source.toList token.offset (some token.kind) token.text.toList)
    (isMark : token.kind.isPunctuation = true) :
    token.IsLongestOperator source := by
  obtain ⟨front, first, own, tail, sourceEq, placeEq, textEq, starts⟩ := stands
  obtain ⟨inTable, isLongest⟩ := starts.longest_of_isPunctuation isMark
  rw [← textEq, String.ofList_toList] at inTable isLongest
  refine ⟨inTable, fun front' rest isSplit => ?_⟩
  rw [Token.span, ← placeEq, sourceEq, Text.splitAtByte?_append] at isSplit
  obtain ⟨rfl, rfl⟩ := Prod.mk.inj (Option.some.inj isSplit)
  rw [← textEq]
  exact isLongest

theorem endsWord_of_standsAt
    (stands : StandsAt source.toList token.offset (some token.kind) token.text.toList)
    (isWord : token.IsWord) :
    token.EndsWord source := by
  intro front rest isSplit char atHead
  obtain ⟨front', first, own, tail, sourceEq, placeEq, textEq, starts⟩ := stands
  have stopEq : Text.byteLength (front' ++ (first :: own)) = token.span.stop := by
    rw [Text.byteLength_append, placeEq, ← textEq, ← Text.utf8ByteSize_eq]
    rfl
  rw [sourceEq, ← stopEq, ← List.append_assoc, Text.splitAtByte?_append] at isSplit
  obtain ⟨rfl, rfl⟩ := Prod.mk.inj (Option.some.inj isSplit)
  have stops := starts.stops_of_isWord (by simpa [IsWord, textEq] using isWord) char atHead
  simpa [Lexeme.isWordPart] using stops

end Standing

/-- What stands in a source between two tokens is a blank or a comment. -/
theorem blankAt_or_commentAt
    {source : String}
    {start offset : Nat}
    {piece : List Char}
    (stands : StandsAt source.toList start none piece)
    (reached : start ≤ offset)
    (inside : offset < start + Text.byteLength piece) :
    Text.BlankAt source offset ∨
      Text.CommentAt source { start, stop := start + Text.byteLength piece } := by
  obtain ⟨front, first, own, tail, sourceEq, rfl, rfl, starts⟩ := stands
  rcases starts.blank_or_comment with
      ⟨isBlank, rfl⟩ | ⟨text, rfl, rfl, noBreak, ends⟩
  · have isOne : first = ' ' ∨ first = '\t' ∨ first = '\r' ∨ first = '\n' := by
      simpa [Lexeme.isBlank, or_assoc] using isBlank
    have oneByte : Text.byteLength [first] = 1 := by
      rcases isOne with rfl | rfl | rfl | rfl <;> rfl
    exact .inl ⟨front, first, tail, sourceEq, by omega, isOne⟩
  · exact .inr ⟨front, text, tail, sourceEq, noBreak, ends, rfl, rfl⟩

/-- The tokens of a source tile it. -/
theorem scan_tiles
    {source : String}
    {tokens : List Token}
    (scanned : scan source = .ok tokens) :
    Tiles source tokens := by
  obtain ⟨pieces, isCut, rfl⟩ := scan_eq_ok_iff.mp scanned
  have atStart : source.toList = [] ++ source.toList := rfl
  have stands (token : Token) (member : token ∈ Piece.tokensFrom 0 pieces)
      (notEnd : token.kind ≠ .eof) :
      StandsAt source.toList token.offset (some token.kind) token.text.toList :=
    isCut.standsAt_of_mem atStart member notEnd
  refine ⟨?_, Piece.tokensFrom_ordered 0 pieces, ?_, ?_, ?_, ?_⟩
  · obtain ⟨before, tokensEq, notEnd⟩ := isCut.exists_tokens_eq 0
    rw [Nat.zero_add, ← Text.utf8ByteSize_eq] at tokensEq
    exact ⟨before, _, tokensEq, rfl, rfl, notEnd⟩
  · intro token member notEnd
    exact isSlice_of_standsAt (stands token member notEnd)
  · intro offset inSource noToken
    rw [Text.utf8ByteSize_eq] at inSource
    rcases isCut.token_or_gap atStart (Nat.zero_le offset) inSource with
        ⟨token, member, inToken⟩ | ⟨start, piece, gap, -, reached, inside, apart⟩
    · exact absurd inToken (noToken token member)
    · rcases blankAt_or_commentAt gap reached inside with isBlank | isComment
      · exact .inl isBlank
      · exact .inr ⟨_, isComment, reached, inside, apart⟩
  · intro token member isMark
    have notEnd : token.kind ≠ .eof := by
      intro isEnd
      rw [isEnd] at isMark
      cases isMark
    exact isLongestOperator_of_standsAt (stands token member notEnd) isMark
  · intro token member isWord
    have notEnd : token.kind ≠ .eof := by
      intro isEnd
      simp [IsWord, isEnd] at isWord
    exact endsWord_of_standsAt (stands token member notEnd) isWord

theorem scan_tiles_escaped_character :
    ∃ tokens,
      scan "x<<|=@\"\\é\\\n\"\t// é\n@y...1" = .ok tokens ∧
        tokens.map span =
          [⟨0, 1⟩, ⟨1, 5⟩, ⟨5, 13⟩, ⟨20, 22⟩, ⟨22, 25⟩, ⟨25, 26⟩, ⟨26, 26⟩] ∧
        Tiles "x<<|=@\"\\é\\\n\"\t// é\n@y...1" tokens := by
  have isCut :
      Cut "x<<|=@\"\\é\\\n\"\t// é\n@y...1".toList
        [
          { kind? := some .identifier, chars := "x".toList },
          { kind? := some .compoundAssign, chars := "<<|=".toList },
          { kind? := some .identifier, chars := "@\"\\é\\\n\"".toList },
          { kind? := none, chars := "\t".toList },
          { kind? := none, chars := "// é".toList },
          { kind? := none, chars := "\n".toList },
          { kind? := some .builtin, chars := "@y".toList },
          { kind? := some .ellipsis, chars := "...".toList },
          { kind? := some .number, chars := "1".toList }
        ] := by
    decide +kernel
  have scanned := scan_eq_ok_iff.mpr ⟨_, isCut, rfl⟩
  exact ⟨_, scanned, by decide +kernel, scan_tiles scanned⟩

end Token

end ZigLint
