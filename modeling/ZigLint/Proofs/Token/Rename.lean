import Mathlib.Data.List.Find
import ZigLint.Proofs.Token.Cut

namespace ZigLint

/-!
# Renaming words in a source

A lexeme looks only a little beyond its own end, and what it sees there when a
word follows does not depend on which word it is. The one exception is a point
after a number: a word right after the point could become part of the number.
So words that do not follow a point can be replaced by other words, and the
pieces of the new text are the old ones with the words replaced.
-/

namespace Lexeme

open Text (Stops)

/-- The text starts with a letter or an underscore. -/
def StartsWord (chars : List Char) : Prop :=
  ∃ first rest, chars = first :: rest ∧ isWordStart first = true

/-- A point stands right after the text, given whether one stands right before it. -/
def endsInPoint (afterPoint : Bool) (chars : List Char) : Bool :=
  chars.foldl (fun _ char => char == '.') afterPoint

/--
The texts are equal, or they are equal up to a place that does not follow a
point and where each of them goes on with a word.
-/
inductive Resembles (afterPoint : Bool) : (left right : List Char) → Prop where
  | same
      {chars : List Char} :
      Resembles afterPoint chars chars
  | words
      {shared left right : List Char} :
      endsInPoint afterPoint shared = false →
      StartsWord left →
      StartsWord right →
      Resembles afterPoint (shared ++ left) (shared ++ right)

namespace Resembles

variable {afterPoint : Bool} {left right : List Char}

theorem append
    {chars : List Char}
    (resembles : Resembles (endsInPoint afterPoint chars) left right) :
    Resembles afterPoint (chars ++ left) (chars ++ right) := by
  cases resembles with
  | same => exact .same
  | @words shared left right notPoint leftStarts rightStarts =>
      rw [← List.append_assoc, ← List.append_assoc]
      refine .words ?_ leftStarts rightStarts
      rw [endsInPoint, List.foldl_append]
      exact notPoint

/-- Texts that resemble each other start alike, or both with a word. -/
theorem head
    (resembles : Resembles afterPoint left right) :
    left.head? = right.head? ∨ (StartsWord left ∧ StartsWord right) := by
  cases resembles with
  | same => exact .inl rfl
  | @words shared _ _ _ leftStarts rightStarts =>
      cases shared with
      | nil => exact .inr ⟨leftStarts, rightStarts⟩
      | cons first rest => exact .inl rfl

/-- A class that holds all letters stops at the one text where it stops at the other. -/
theorem stops
    {isIn : Char → Bool}
    (resembles : Resembles afterPoint left right)
    (holdsLetters : ∀ char, isWordStart char = true → isIn char = true)
    (leftStops : Stops isIn left) :
    Stops isIn right := by
  intro char atHead
  rcases resembles.head with sameHead | ⟨⟨first, rest, rfl, startsWord⟩, -⟩
  · exact leftStops char (sameHead.trans atHead)
  · have := leftStops first rfl
    rw [holdsLetters first startsWord] at this
    cases this

theorem head_eq
    (resembles : Resembles afterPoint left right)
    (leftStops : Stops isWordPart left) :
    left.head? = right.head? := by
  rcases resembles.head with sameHead | ⟨⟨first, rest, rfl, startsWord⟩, -⟩
  · exact sameHead
  · have := leftStops first rfl
    rw [isWordPart_of_isWordStart startsWord] at this
    cases this

/-- A mark that is no letter stands at the front of both texts or of neither. -/
theorem head_eq_iff
    {own : List Char}
    {mark : Char}
    (resembles : Resembles afterPoint left right)
    (notLetter : isWordStart mark = false) :
    (own ++ left).head? = some mark ↔ (own ++ right).head? = some mark := by
  cases own with
  | cons first rest => exact Iff.rfl
  | nil =>
      rcases resembles.head with
          sameHead | ⟨⟨first, rest, rfl, startsLeft⟩, ⟨first', rest', rfl, startsRight⟩⟩
      · rw [List.nil_append, List.nil_append, sameHead]
      · constructor
        · rintro ⟨⟩
          rw [notLetter] at startsLeft
          cases startsLeft
        · rintro ⟨⟩
          rw [notLetter] at startsRight
          cases startsRight

end Resembles

section Runs

variable {afterPoint : Bool} {left right : List Char}

theorem numberRun_cons
    (hex : Bool)
    (char : Char)
    (rest : List Char) :
    numberRun hex (char :: rest) =
      if isExponentMark hex char && rest.head?.any isSign then
        2 + numberRun hex rest.tail
      else if isWordPart char || (char == '.' && rest.head?.any isHexDigit) then
        1 + numberRun hex rest
      else
        0 := by
  cases rest <;> simp [numberRun]

theorem isWordPart_of_isExponentMark
    {hex : Bool}
    {char : Char}
    (isMark : isExponentMark hex char = true) :
    isWordPart char = true := by
  cases hex <;> simp only [isExponentMark, Bool.or_eq_true, beq_iff_eq, if_true,
    Bool.false_eq_true, if_false] at isMark <;> rcases isMark with rfl | rfl <;> decide

/-- A number ends before everything but a word and a point with a digit. -/
theorem numberRun_eq_zero_iff
    {hex : Bool}
    {chars : List Char} :
    numberRun hex chars = 0 ↔
      Stops isWordPart chars ∧
        ∀ next rest, chars = '.' :: next :: rest → isHexDigit next = false := by
  cases chars with
  | nil => simp [numberRun, Stops]
  | cons char rest =>
      rw [numberRun_cons]
      constructor
      · intro run
        split at run
        · omega
        · split at run
          · omega
          · rename_i notPart
            simp only [Bool.or_eq_true, not_or, Bool.and_eq_true, beq_iff_eq, not_and] at notPart
            refine ⟨?_, ?_⟩
            · rintro _ ⟨⟩
              simpa using notPart.1
            · rintro next after ⟨⟩
              simpa using notPart.2 rfl
      · rintro ⟨stops, noDigit⟩
        have notPart : isWordPart char = false := stops char rfl
        have notMark : isExponentMark hex char = false := by
          cases isMark : isExponentMark hex char with
          | false => rfl
          | true => rw [isWordPart_of_isExponentMark isMark] at notPart; cases notPart
        rw [notMark, notPart, Bool.false_and, Bool.false_or, if_neg (by decide), if_neg]
        rintro isPoint
        simp only [Bool.and_eq_true, beq_iff_eq] at isPoint
        obtain ⟨rfl, isDigit⟩ := isPoint
        cases rest with
        | nil => cases isDigit
        | cons next after =>
            have := noDigit next after rfl
            rw [List.head?_cons, Option.any_some, this] at isDigit
            cases isDigit

/-- A point before a digit that the one text starts with starts the other one, too. -/
theorem Resembles.point_digit
    {next : Char}
    {rest : List Char}
    (resembles : Resembles afterPoint left ('.' :: next :: rest)) :
    ∃ rest', left = '.' :: next :: rest' := by
  generalize rightEq : '.' :: next :: rest = right at resembles
  cases resembles with
  | same => exact ⟨rest, rightEq.symm⟩
  | @words shared left right notPoint _ rightStarts =>
      match shared with
      | [] =>
          obtain ⟨first, after, rfl, startsWord⟩ := rightStarts
          cases rightEq
          exact absurd startsWord (by decide)
      | [char] =>
          cases rightEq
          cases notPoint
      | char :: char' :: more =>
          cases rightEq
          exact ⟨more ++ left, rfl⟩

theorem isWordPart_of_isHexDigit
    {char : Char}
    (isDigit : isHexDigit char = true) :
    isWordPart char = true := by
  simp only [isHexDigit, Bool.or_eq_true, Bool.and_eq_true, decide_eq_true_eq] at isDigit
  rcases isDigit with (isDecimal | ⟨fromA, toF⟩) | ⟨fromA, toF⟩
  · exact isWordPart_of_isDigit isDecimal
  · have toF : char.toNat ≤ 102 := toF
    have isLower : char.isLower = true := Text.isLower_iff_toNat.mpr ⟨fromA, by omega⟩
    simp [isWordPart, Char.isAlphanum, Text.isAlpha_iff, isLower]
  · have toF : char.toNat ≤ 70 := toF
    have isUpper : char.isUpper = true := Text.isUpper_iff_toNat.mpr ⟨fromA, by omega⟩
    simp [isWordPart, Char.isAlphanum, Text.isAlpha_iff, isUpper]

/--
A number that ends before a text ends before another one.

The other text must not go on with the number, and it must not bring a sign that the
exponent mark at the end of the number could take.
-/
theorem numberRun_append
    {hex : Bool}
    {own : List Char}
    (endsToo : numberRun hex left = 0 → numberRun hex right = 0)
    (noNewSign :
      numberRun hex left = 0 → right.head?.any isSign = true → left.head?.any isSign = true)
    (run : numberRun hex (own ++ left) = own.length) :
    numberRun hex (own ++ right) = own.length := by
  match own with
  | [] => exact endsToo run
  | [char] =>
      simp only [List.cons_append, List.nil_append, numberRun_cons, List.length_singleton]
        at run ⊢
      split at run
      · omega
      · rename_i notSigned
        split at run
        · rename_i goesOn
          have leftEnds : numberRun hex left = 0 := by omega
          -- The number ends here, so a point at its end would have no digit after it.
          have isPart : isWordPart char = true := by
            rcases Bool.or_eq_true_iff.mp goesOn with isPart | isPoint
            · exact isPart
            · obtain ⟨digit, atHead, isDigit⟩ :=
                (Option.any_eq_true ..).mp (Bool.and_eq_true_iff.mp isPoint).2
              have stops := (numberRun_eq_zero_iff.mp leftEnds).1 digit atHead
              rw [isWordPart_of_isHexDigit isDigit] at stops
              cases stops
          rw [if_neg, isPart, Bool.true_or, if_pos rfl, endsToo leftEnds]
          intro signed
          simp only [Bool.and_eq_true] at notSigned signed
          exact notSigned ⟨signed.1, noNewSign leftEnds signed.2⟩
        · omega
  | char :: next :: more =>
      rw [List.cons_append, List.cons_append, numberRun, List.length_cons, List.length_cons]
        at run ⊢
      by_cases signed : (isExponentMark hex char && isSign next) = true
      · rw [if_pos signed] at run ⊢
        have rest_run : numberRun hex (more ++ left) = more.length := by omega
        have := numberRun_append endsToo noNewSign rest_run
        omega
      · rw [if_neg signed] at run ⊢
        by_cases goesOn : (isWordPart char || char == '.' && isHexDigit next) = true
        · rw [if_pos goesOn] at run ⊢
          have rest_run : numberRun hex ((next :: more) ++ left) = (next :: more).length := by
            rw [List.cons_append, List.length_cons]
            omega
          have := numberRun_append endsToo noNewSign rest_run
          rw [List.cons_append, List.length_cons] at this
          omega
        · rw [if_neg goesOn] at run
          omega
  termination_by own.length

/-- A number that ends before a text ends before a text that resembles it. -/
theorem numberRun_resembles
    {hex : Bool}
    {own : List Char}
    (resembles : Resembles afterPoint left right)
    (run : numberRun hex (own ++ left) = own.length) :
    numberRun hex (own ++ right) = own.length := by
  refine numberRun_append ?_ ?_ run
  · simp only [numberRun_eq_zero_iff]
    rintro ⟨stops, noDigit⟩
    refine ⟨resembles.stops (fun _ => isWordPart_of_isWordStart) stops, ?_⟩
    rintro next rest rfl
    obtain ⟨rest', rfl⟩ := resembles.point_digit
    exact noDigit next rest' rfl
  · intro leftEnds signFollows
    rwa [resembles.head_eq (numberRun_eq_zero_iff.mp leftEnds).1]

theorem quotedRun?_escape
    (quote escaped : Char)
    (rest : List Char) :
    quotedRun? quote ('\\' :: escaped :: rest) = (quotedRun? quote rest).map (2 + ·) := by
  rw [quotedRun?]

theorem quotedRun?_cons
    {quote char : Char}
    (notEscape : char ≠ '\\')
    (rest : List Char) :
    quotedRun? quote (char :: rest) =
      if char = '\n' then none
      else if char = quote then some 1
      else (quotedRun? quote rest).map (1 + ·) := by
  rw [quotedRun?]
  · rintro rfl
    exact (notEscape rfl).elim
  · rintro _ _ rfl
    exact (notEscape rfl).elim

theorem quotedRun?_ne_zero
    (quote : Char)
    (chars : List Char) :
    quotedRun? quote chars ≠ some 0 := by
  intro found
  cases chars with
  | nil => cases found
  | cons char rest =>
      by_cases isEscape : char = '\\'
      · subst isEscape
        cases rest with
        | nil => cases found
        | cons escaped after =>
            rw [quotedRun?_escape] at found
            obtain ⟨inner, -, innerEq⟩ := Option.map_eq_some_iff.mp found
            omega
      · rw [quotedRun?_cons isEscape] at found
        split at found
        · cases found
        · split at found
          · cases found
          · obtain ⟨inner, -, innerEq⟩ := Option.map_eq_some_iff.mp found
            omega

/-- One character that is no escape moves the closing quote by one place. -/
theorem quotedRun?_cons_append
    {quote char : Char}
    {own : List Char}
    (notEscape : char ≠ '\\')
    (run : quotedRun? quote (char :: (own ++ left)) = some (own.length + 1))
    (ownRun :
      quotedRun? quote (own ++ left) = some own.length →
        quotedRun? quote (own ++ right) = some own.length) :
    quotedRun? quote (char :: (own ++ right)) = some (own.length + 1) := by
  rw [quotedRun?_cons notEscape] at run ⊢
  split at run
  · cases run
  · rename_i notBreak
    rw [if_neg notBreak]
    split at run
    · rename_i isQuote
      rw [if_pos isQuote, run]
    · rename_i notQuote
      obtain ⟨inner, found, innerEq⟩ := Option.map_eq_some_iff.mp run
      obtain rfl : inner = own.length := by omega
      rw [if_neg notQuote, ownRun found, Option.map_some, innerEq]

/-- A quoted run does not depend on what follows its closing quote. -/
theorem quotedRun?_append
    {quote : Char}
    {own : List Char}
    (run : quotedRun? quote (own ++ left) = some own.length) :
    quotedRun? quote (own ++ right) = some own.length := by
  match own with
  | [] => exact (quotedRun?_ne_zero quote left run).elim
  | [char] =>
      by_cases isEscape : char = '\\'
      · subst isEscape
        cases left with
        | nil => cases run
        | cons escaped rest =>
            rw [List.cons_append, List.nil_append, quotedRun?_escape] at run
            obtain ⟨inner, -, innerEq⟩ := Option.map_eq_some_iff.mp run
            simp only [List.length_singleton] at innerEq
            omega
      · exact quotedRun?_cons_append isEscape run fun found =>
          (quotedRun?_ne_zero quote left found).elim
  | char :: next :: more =>
      by_cases isEscape : char = '\\'
      · subst isEscape
        simp only [List.cons_append, quotedRun?_escape, List.length_cons] at run ⊢
        obtain ⟨inner, found, innerEq⟩ := Option.map_eq_some_iff.mp run
        obtain rfl : inner = more.length := by omega
        rw [quotedRun?_append found, Option.map_some, innerEq]
      · exact quotedRun?_cons_append isEscape run quotedRun?_append
  termination_by own.length

end Runs

/-- A text without letters stands at the front of both texts or of neither. -/
theorem isPrefixOf_append_iff
    {text shared left right : List Char}
    (noLetters : text.all (fun char => !isWordStart char) = true)
    (leftStarts : StartsWord left)
    (rightStarts : StartsWord right) :
    text.isPrefixOf (shared ++ left) = text.isPrefixOf (shared ++ right) := by
  induction text generalizing shared with
  | nil => rfl
  | cons char rest inductionHypothesis =>
      simp only [List.all_cons, Bool.and_eq_true, Bool.not_eq_true'] at noLetters
      cases shared with
      | nil =>
          obtain ⟨first, after, rfl, startsLeft⟩ := leftStarts
          obtain ⟨first', after', rfl, startsRight⟩ := rightStarts
          have notFirst : char ≠ first := by rintro rfl; simp_all
          have notFirst' : char ≠ first' := by rintro rfl; simp_all
          simp [List.isPrefixOf, beq_eq_false_iff_ne.mpr notFirst,
            beq_eq_false_iff_ne.mpr notFirst']
      | cons first more =>
          simp only [List.cons_append, List.isPrefixOf]
          rw [inductionHypothesis noLetters.2]

/-- The operator before a text is the one before a text that resembles it. -/
theorem operator?_resembles
    {afterPoint : Bool}
    {chars left right : List Char}
    (resembles : Resembles afterPoint left right) :
    operator? (chars ++ left) = operator? (chars ++ right) := by
  cases resembles with
  | same => rfl
  | @words shared left right _ leftStarts rightStarts =>
      have operators_noLetters :
          ∀ entry ∈ TokenKind.operators,
            entry.1.toList.all (fun char => !isWordStart char) = true := by
        decide
      unfold operator?
      apply List.find?_congr
      intro entry member
      rw [← List.append_assoc, ← List.append_assoc]
      exact isPrefixOf_append_iff (operators_noLetters entry member) leftStarts rightStarts

theorem isDoubled_resembles
    {afterPoint : Bool}
    {mark first : Char}
    {own left right : List Char}
    (resembles : Resembles afterPoint left right)
    (notLetter : isWordStart mark = false) :
    isDoubled mark first (own ++ left) = isDoubled mark first (own ++ right) := by
  have sameFront : (own ++ left).head? = some mark ↔ (own ++ right).head? = some mark :=
    resembles.head_eq_iff notLetter
  rw [Bool.eq_iff_iff]
  simp only [isDoubled, Bool.and_eq_true, beq_iff_eq, sameFront]

/-- A lexeme before a text is a lexeme before a text that resembles it. -/
theorem Starts.resembles
    {afterPoint : Bool}
    {first : Char}
    {own left right : List Char}
    {kind? : Option TokenKind}
    (starts : Starts first own left kind?)
    (resembles : Resembles afterPoint left right) :
    Starts first own right kind? := by
  have stops_line : Stops (· != '\n') left → Stops (· != '\n') right := by
    refine resembles.stops fun char startsWord => ?_
    have : char ≠ '\n' := ne_of_isWordPart (isWordPart_of_isWordStart startsWord) (by decide)
    simpa using this
  have stops_word : Stops isWordPart left → Stops isWordPart right :=
    resembles.stops fun _ => isWordPart_of_isWordStart
  cases starts with
  | blank isBlank ownEq => exact .blank isBlank ownEq
  | comment doubled inside stops =>
      rw [isDoubled_resembles resembles (by decide)] at doubled
      exact .comment doubled inside (stops_line stops)
  | multilineString doubled inside stops =>
      rw [isDoubled_resembles resembles (by decide)] at doubled
      exact .multilineString doubled inside (stops_line stops)
  | word startsWord inside stops => exact .word startsWord inside (stops_word stops)
  | quotedName body isAt ownEq run => exact .quotedName body isAt ownEq (quotedRun?_append run)
  | builtin isAt isWord stops => exact .builtin isAt isWord (stops_word stops)
  | number isDigit run =>
      have sameHead : (own ++ left).head? = (own ++ right).head? := by
        cases own with
        | cons char more => rfl
        | nil => exact resembles.head_eq (numberRun_eq_zero_iff.mp run).1
      refine .number isDigit ?_
      rw [isHexMark, sameHead] at run
      exact numberRun_resembles resembles run
  | string isQuote run => exact .string isQuote (quotedRun?_append run)
  | char isQuote run => exact .char isQuote (quotedRun?_append run)
  | operator text kind notComment found textEq =>
      rw [isDoubled_resembles resembles (by decide)] at notComment
      refine .operator text kind notComment ?_ textEq
      rw [← List.cons_append] at found ⊢
      rw [← operator?_resembles resembles]
      exact found

/-- A lexeme that starts with a letter is a word. -/
theorem Starts.stops_of_isWordStart
    {first : Char}
    {own tail : List Char}
    {kind? : Option TokenKind}
    (starts : Starts first own tail kind?)
    (startsWord : isWordStart first = true) :
    Stops isWordPart tail := by
  have isPart := isWordPart_of_isWordStart startsWord
  cases starts with
  | word _ _ stops => exact stops
  | blank isBlank _ => rw [isBlank_of_isWordPart isPart] at isBlank; cases isBlank
  | comment doubled _ _ | multilineString doubled _ _ =>
      rw [isDoubled_of_ne (ne_of_isWordPart isPart (by decide))] at doubled
      cases doubled
  | quotedName _ isMark _ _ | builtin isMark _ _ | string isMark _ | char isMark _ =>
      subst isMark
      exact absurd startsWord (by decide)
  | number isDigit _ => rw [isWordStart_of_isDigit isDigit] at startsWord; cases startsWord
  | operator text kind _ found textEq =>
      obtain ⟨first', rest, firstEq, isStart⟩ := isOperatorStart_of_mem (operator?_eq_some found).1
      obtain ⟨rfl, rfl⟩ := List.cons_eq_cons.mp (firstEq.symm.trans textEq)
      simp [isOperatorStart, isPart] at isStart

end Lexeme

namespace Piece

open Lexeme (IsWord Resembles StartsWord endsInPoint)

/-- The piece of a word. -/
def ofWord (word : List Char) : Piece where
  kind? := some (Lexeme.wordKind (String.ofList word))
  chars := word

/--
The pieces are turned into others by replacing tokens with words.

`names` gives the words by token index, the first token has index `index`, and
`afterPoint` tells whether a point stands right before the pieces. Words take
the place of words only, and of none that follows a point.
-/
inductive Renamed (names : Nat → Option (List Char)) :
    (index : Nat) → (afterPoint : Bool) → (pieces renamed : List Piece) → Prop where
  | nil
      {index : Nat}
      {afterPoint : Bool} :
      names index = none →
      Renamed names index afterPoint [] []
  | gap
      {index : Nat}
      {afterPoint : Bool}
      {piece : Piece}
      {rest renamed : List Piece} :
      piece.kind? = none →
      Renamed names index (endsInPoint afterPoint piece.chars) rest renamed →
      Renamed names index afterPoint (piece :: rest) (piece :: renamed)
  | kept
      {index : Nat}
      {afterPoint : Bool}
      {piece : Piece}
      {kind : TokenKind}
      {rest renamed : List Piece} :
      piece.kind? = some kind →
      names index = none →
      Renamed names (index + 1) (endsInPoint afterPoint piece.chars) rest renamed →
      Renamed names index afterPoint (piece :: rest) (piece :: renamed)
  | word
      {index : Nat}
      {piece : Piece}
      {kind : TokenKind}
      {word : List Char}
      {rest renamed : List Piece} :
      piece.kind? = some kind →
      names index = some word →
      IsWord word →
      IsWord piece.chars →
      Renamed names (index + 1) (endsInPoint false piece.chars) rest renamed →
      Renamed names index false (piece :: rest) (ofWord word :: renamed)

theorem join_cons (piece : Piece) (rest : List Piece) :
    join (piece :: rest) = piece.chars ++ join rest :=
  List.flatMap_cons

theorem startsWord_of_isWord
    {word tail : List Char}
    (isWord : IsWord word) :
    StartsWord (word ++ tail) := by
  obtain ⟨first, rest, rfl, startsWord, -⟩ := isWord
  exact ⟨first, rest ++ tail, rfl, startsWord⟩

namespace Renamed

variable
  {names : Nat → Option (List Char)}
  {index : Nat}
  {afterPoint : Bool}
  {pieces renamed : List Piece}

/-- The new text resembles the old one. -/
theorem resembles
    (isRenamed : Renamed names index afterPoint pieces renamed) :
    Resembles afterPoint (join pieces) (join renamed) := by
  induction isRenamed with
  | nil => exact .same
  | gap _ _ inductionHypothesis | kept _ _ _ inductionHypothesis =>
      simp only [join_cons]
      exact inductionHypothesis.append
  | word _ _ isWord wasWord _ _ =>
      simp only [join_cons]
      have notPoint : endsInPoint false [] = false := rfl
      exact .words notPoint (startsWord_of_isWord wasWord) (startsWord_of_isWord isWord)

/-- The renamed pieces are the pieces of their own text. -/
theorem cut
    {chars : List Char}
    (isRenamed : Renamed names index afterPoint pieces renamed)
    (isCut : Cut chars pieces) :
    Cut (join renamed) renamed := by
  induction isCut generalizing index afterPoint renamed with
  | nil =>
      cases isRenamed
      exact .nil
  | @cons first own tail kind? pieces starts laterCut inductionHypothesis =>
      obtain rfl := laterCut.join_eq
      cases isRenamed with
      | gap _ later | kept _ _ later =>
          rw [join_cons]
          exact .cons (starts.resembles later.resembles) (inductionHypothesis later)
      | @word _ _ _ word _ renamed _ _ isWord wasWord later =>
          obtain ⟨newFirst, newRest, rfl, newStarts, newInside⟩ := isWord
          obtain ⟨_, _, firstEq, startsWord, -⟩ := wasWord
          obtain ⟨rfl, -⟩ := List.cons_eq_cons.mp firstEq
          have stops := later.resembles.stops (fun _ => Lexeme.isWordPart_of_isWordStart)
            (starts.stops_of_isWordStart startsWord)
          rw [join_cons]
          exact .cons (.word newStarts newInside stops) (inductionHypothesis later)

end Renamed

/-- The kind and text that a token has after renaming. -/
def renamedToken (token : Token) : (word? : Option (List Char)) → TokenKind × String
  | none => (token.kind, token.text)
  | some word => (Lexeme.wordKind (String.ofList word), String.ofList word)

/-- The tokens of renamed pieces are the old ones, with other words and at other offsets. -/
theorem Renamed.tokens_eq
    {names : Nat → Option (List Char)}
    {index : Nat}
    {afterPoint : Bool}
    {pieces renamed : List Piece}
    (isRenamed : Renamed names index afterPoint pieces renamed)
    (offset newOffset : Nat) :
    (tokensFrom newOffset renamed).map (fun token => (token.kind, token.text)) =
      ((tokensFrom offset pieces).zipIdx index).map
        fun (token, index) => renamedToken token (names index) := by
  induction isRenamed generalizing offset newOffset with
  | nil notNamed => simp [tokensFrom, renamedToken, notNamed, Token.endOfFile]
  | gap isGap _ inductionHypothesis =>
      simp only [tokensFrom, isGap]
      exact inductionHypothesis _ _
  | kept isToken notNamed _ inductionHypothesis =>
      simp only [tokensFrom, isToken, List.map_cons, List.zipIdx_cons, notNamed, renamedToken]
      exact congrArg _ (inductionHypothesis _ _)
  | word isToken named _ _ _ inductionHypothesis =>
      simp only [tokensFrom, isToken, ofWord, List.map_cons, List.zipIdx_cons, named, renamedToken]
      exact congrArg _ (inductionHypothesis _ _)

/-- A token of the renamed pieces has the kind and text that the renaming gives it. -/
theorem Renamed.getElem?_tokens
    {names : Nat → Option (List Char)}
    {afterPoint : Bool}
    {pieces renamed : List Piece}
    (isRenamed : Renamed names 0 afterPoint pieces renamed)
    (offset newOffset position : Nat) :
    ((tokensFrom newOffset renamed)[position]?).map (fun token => (token.kind, token.text)) =
      ((tokensFrom offset pieces)[position]?).map fun token =>
        renamedToken token (names position) := by
  have tokensEq := congrArg (·[position]?) (isRenamed.tokens_eq offset newOffset)
  simp only [List.getElem?_map, List.getElem?_zipIdx, Option.map_map, Nat.zero_add] at tokensEq
  exact tokensEq

end Piece

end ZigLint
