import ZigLint.Proofs.Text.Characters
import ZigLint.Token.Lexer

namespace ZigLint

/-!
# Pieces of a source

A source that can be cut into tokens is a sequence of pieces: tokens, blanks and
comments. `Lexeme.Starts` says for each class of lexeme which characters belong
to a piece and what may follow it, and `Cut` that a text is a sequence of such
pieces. `Token.scan` succeeds exactly on these texts, and its tokens are read
off the pieces.
-/

namespace Text

/-- The text is empty or starts with a character outside of the class. -/
def Stops (isIn : Char → Bool) (chars : List Char) : Prop :=
  ∀ char, chars.head? = some char → isIn char = false

variable {isIn : Char → Bool} {own tail : List Char}

theorem stops_dropWhile
    (chars : List Char) :
    Stops isIn (chars.dropWhile isIn) := by
  intro char atHead
  have := List.head?_dropWhile_not isIn chars
  rw [atHead] at this
  simpa using this

theorem takeWhile_append
    (inside : own.all isIn = true)
    (stops : Stops isIn tail) :
    (own ++ tail).takeWhile isIn = own := by
  rw [List.takeWhile_append_of_pos (List.all_eq_true.mp inside)]
  cases tail with
  | nil => simp
  | cons first rest => simp [stops first rfl]

theorem dropWhile_append
    (inside : own.all isIn = true)
    (stops : Stops isIn tail) :
    (own ++ tail).dropWhile isIn = tail := by
  rw [List.dropWhile_append_of_pos (List.all_eq_true.mp inside)]
  cases tail with
  | nil => rfl
  | cons first rest => simp [stops first rfl]

theorem byteLength_append
    (left right : List Char) :
    byteLength (left ++ right) = byteLength left + byteLength right := by
  induction left with
  | nil => simp [byteLength]
  | cons char rest inductionHypothesis =>
      rw [List.cons_append, byteLength, byteLength, inductionHypothesis, Nat.add_assoc]

end Text

namespace Lexeme

open Text (Stops)

/-- A word: a letter or underscore, then letters, digits and underscores. -/
def IsWord (chars : List Char) : Prop :=
  ∃ first rest,
    chars = first :: rest ∧ isWordStart first = true ∧ rest.all isWordPart = true

/--
The lexeme at the front of `first :: own ++ tail` is `first :: own`.

`kind?` is `none` for a blank or a comment.
-/
inductive Starts (first : Char) (own tail : List Char) : (kind? : Option TokenKind) → Prop where
  | blank :
      isBlank first = true →
      own = [] →
      Starts first own tail none
  | comment :
      isDoubled '/' first (own ++ tail) = true →
      own.all (· != '\n') = true →
      Stops (· != '\n') tail →
      Starts first own tail none
  | multilineString :
      isDoubled '\\' first (own ++ tail) = true →
      own.all (· != '\n') = true →
      Stops (· != '\n') tail →
      Starts first own tail (some .multilineStringLine)
  | word :
      isWordStart first = true →
      own.all isWordPart = true →
      Stops isWordPart tail →
      Starts first own tail (some (wordKind (String.ofList (first :: own))))
  | quotedName (body : List Char) :
      first = '@' →
      own = '"' :: body →
      quotedRun? '"' (body ++ tail) = some body.length →
      Starts first own tail (some .identifier)
  | builtin :
      first = '@' →
      IsWord own →
      Stops isWordPart tail →
      Starts first own tail (some .builtin)
  | number :
      first.isDigit = true →
      numberRun (isHexMark first (own ++ tail)) (own ++ tail) = own.length →
      Starts first own tail (some .number)
  | string :
      first = '"' →
      quotedRun? '"' (own ++ tail) = some own.length →
      Starts first own tail (some .string)
  | char :
      first = '\'' →
      quotedRun? '\'' (own ++ tail) = some own.length →
      Starts first own tail (some .char)
  | operator (text : String) (kind : TokenKind) :
      isDoubled '/' first (own ++ tail) = false →
      operator? (first :: (own ++ tail)) = some (text, kind) →
      text.toList = first :: own →
      Starts first own tail (some kind)

section Characters

variable {char : Char}

theorem isWordPart_of_isWordStart
    (starts : isWordStart char = true) :
    isWordPart char = true := by
  simp only [isWordStart, isWordPart, Char.isAlphanum, Bool.or_eq_true] at starts ⊢
  rcases starts with isLetter | isUnderscore
  · exact .inl (.inl isLetter)
  · exact .inr isUnderscore

theorem isWordPart_of_isDigit
    (isDigit : char.isDigit = true) :
    isWordPart char = true := by
  simp [isWordPart, Char.isAlphanum, isDigit]

theorem isBlank_of_isWordPart
    (isPart : isWordPart char = true) :
    isBlank char = false := by
  cases blank : isBlank char with
  | false => rfl
  | true =>
      simp only [isBlank, Bool.or_eq_true, beq_iff_eq] at blank
      rcases blank with ((rfl | rfl) | rfl) | rfl <;> exact absurd isPart (by decide)

theorem isWordStart_of_isDigit
    (isDigit : char.isDigit = true) :
    isWordStart char = false := by
  cases starts : isWordStart char with
  | false => rfl
  | true =>
      simp only [isWordStart, Bool.or_eq_true, Text.isAlpha_iff, Text.isUpper_iff_toNat,
        Text.isLower_iff_toNat, beq_iff_eq] at starts
      simp only [Char.isDigit_iff_toNat, Char.reduceToNat] at isDigit
      rcases starts with (isUpper | isLower) | rfl
      · omega
      · omega
      · exact absurd isDigit (by decide)

theorem ne_of_isWordPart
    {mark : Char}
    (isPart : isWordPart char = true)
    (isMark : isWordPart mark = false) :
    char ≠ mark := by
  rintro rfl
  rw [isMark] at isPart
  cases isPart

theorem isDoubled_of_ne
    {mark : Char}
    {rest : List Char}
    (notMark : char ≠ mark) :
    isDoubled mark char rest = false := by
  simp [isDoubled, notMark]

theorem not_mem_of_isWord
    {mark : Char}
    {word : List Char}
    (isWord : IsWord word)
    (isMark : isWordPart mark = false) :
    mark ∉ word := by
  intro member
  obtain ⟨first, rest, rfl, startsWord, inside⟩ := isWord
  rcases List.mem_cons.mp member with rfl | inRest
  · exact ne_of_isWordPart (isWordPart_of_isWordStart startsWord) isMark rfl
  · exact ne_of_isWordPart (List.all_eq_true.mp inside _ inRest) isMark rfl

/-- What the first character of an operator can be. -/
def isOperatorStart (char : Char) : Bool :=
  !isBlank char && !isWordPart char && char != '@' && char != '"' && char != '\'' && char != '\\'

theorem isOperatorStart_of_mem
    {entry : String × TokenKind}
    (member : entry ∈ TokenKind.operators) :
    ∃ first rest, entry.1.toList = first :: rest ∧ isOperatorStart first = true := by
  have each :
      ∀ entry ∈ TokenKind.operators, entry.1.toList.head?.any isOperatorStart = true := by
    decide
  have starts := each entry member
  cases chars : entry.1.toList with
  | nil => rw [chars] at starts; cases starts
  | cons first rest =>
      rw [chars] at starts
      exact ⟨first, rest, rfl, starts⟩

end Characters

/-- An operator that is found is a table entry at the front of the text. -/
theorem operator?_eq_some
    {chars : List Char}
    {text : String}
    {kind : TokenKind}
    (found : operator? chars = some (text, kind)) :
    (text, kind) ∈ TokenKind.operators ∧ ∃ tail, chars = text.toList ++ tail := by
  have isFront := List.find?_some found
  obtain ⟨tail, tailEq⟩ := List.isPrefixOf_iff_prefix.mp isFront
  exact ⟨List.mem_of_find?_eq_some found, tail, tailEq.symm⟩

section Runs

variable {own tail : List Char}

theorem lineRun_append
    (inside : own.all (· != '\n') = true)
    (stops : Stops (· != '\n') tail) :
    lineRun (own ++ tail) = own.length := by
  rw [lineRun, Text.takeWhile_append inside stops]

theorem wordRun_append
    (inside : own.all isWordPart = true)
    (stops : Stops isWordPart tail) :
    wordRun (own ++ tail) = own.length := by
  rw [wordRun, Text.takeWhile_append inside stops]

theorem exists_run
    (isIn : Char → Bool)
    (chars : List Char) :
    ∃ own tail,
      chars = own ++ tail ∧ own.length = (chars.takeWhile isIn).length ∧
        own.all isIn = true ∧ Stops isIn tail :=
  ⟨chars.takeWhile isIn, chars.dropWhile isIn, List.takeWhile_append_dropWhile.symm, rfl,
    List.all_takeWhile, Text.stops_dropWhile chars⟩

theorem numberRun_le (hex : Bool) (chars : List Char) : numberRun hex chars ≤ chars.length := by
  fun_induction numberRun hex chars with
  | case1 => exact Nat.le_refl 0
  | case2 char isPart => exact Nat.le_refl 1
  | case3 char notPart => exact Nat.zero_le 1
  | case4 char next rest isExponent inductionHypothesis =>
      simp only [List.length_cons]
      omega
  | case5 char next rest notExponent isPart inductionHypothesis =>
      simp only [List.length_cons] at inductionHypothesis ⊢
      omega
  | case6 => exact Nat.zero_le _

theorem quotedRun?_le
    {quote : Char}
    {chars : List Char}
    {run : Nat}
    (found : quotedRun? quote chars = some run) :
    run ≤ chars.length := by
  fun_induction quotedRun? quote chars generalizing run with
  | case1 | case2 => cases found
  | case3 escaped rest inductionHypothesis =>
      obtain ⟨inner, innerFound, rfl⟩ := Option.map_eq_some_iff.mp found
      have := inductionHypothesis innerFound
      simp only [List.length_cons]
      omega
  | case4 => cases found
  | case5 => cases found; simp
  | case6 char rest _ _ _ _ inductionHypothesis =>
      obtain ⟨inner, innerFound, rfl⟩ := Option.map_eq_some_iff.mp found
      have := inductionHypothesis innerFound
      simp only [List.length_cons]
      omega

theorem exists_split
    {run : Nat}
    {chars : List Char}
    (inside : run ≤ chars.length) :
    ∃ own tail, chars = own ++ tail ∧ own.length = run :=
  ⟨chars.take run, chars.drop run, (List.take_append_drop run chars).symm,
    List.length_take_of_le inside⟩

end Runs

variable {first : Char} {own tail rest : List Char}

theorem readQuoted_of_run
    {kind : TokenKind}
    {quoteAt run : Nat}
    {quote : Char}
    {chars : List Char}
    (found : quotedRun? quote chars = some run) :
    readQuoted kind quoteAt quote chars = .ok { kind := some kind, extra := quoteAt + run } := by
  simp [readQuoted, found]

/-- What starts a lexeme is read as that lexeme. -/
theorem read_of_starts
    {kind? : Option TokenKind}
    (starts : Starts first own tail kind?) :
    read first (own ++ tail) = .ok { kind := kind?, extra := own.length } := by
  unfold read
  cases starts with
  | blank isBlank ownEq =>
      subst ownEq
      rw [if_pos isBlank]
      rfl
  | comment doubled inside stops =>
      have isSlash : first = '/' := by simp_all [isDoubled]
      subst isSlash
      rw [if_neg (by decide), if_pos doubled, lineRun_append inside stops]
  | multilineString doubled inside stops =>
      have isBackslash : first = '\\' := by simp_all [isDoubled]
      subst isBackslash
      rw [if_neg (by decide), if_neg (by simp [isDoubled]), if_pos doubled,
        lineRun_append inside stops]
  | word startsWord inside stops =>
      have isPart := isWordPart_of_isWordStart startsWord
      have notSlash : first ≠ '/' := ne_of_isWordPart isPart (by decide)
      have notBackslash : first ≠ '\\' := ne_of_isWordPart isPart (by decide)
      simp only [isBlank_of_isWordPart isPart, isDoubled_of_ne notSlash,
        isDoubled_of_ne notBackslash, startsWord, wordRun_append inside stops, List.take_left' rfl,
        Bool.false_eq_true, if_false, if_true]
  | quotedName body isAt ownEq run =>
      subst isAt ownEq
      rw [if_neg (by decide), if_neg (by simp [isDoubled]), if_neg (by simp [isDoubled]),
        if_neg (by decide), if_pos (by decide)]
      rw [List.cons_append, readAtSign, if_pos (by decide), readQuoted_of_run run,
        List.length_cons, Nat.add_comm]
  | builtin isAt isWord stops =>
      obtain ⟨next, rest, rfl, startsWord, inside⟩ := isWord
      subst isAt
      have isPart := isWordPart_of_isWordStart startsWord
      have notQuote : next ≠ '"' := ne_of_isWordPart isPart (by decide)
      rw [if_neg (by decide), if_neg (by simp [isDoubled]), if_neg (by simp [isDoubled]),
        if_neg (by decide), if_pos (by decide)]
      rw [List.cons_append, readAtSign, if_neg (by simpa using notQuote), if_pos startsWord,
        ← List.cons_append, wordRun_append (by simp [isPart, inside]) stops]
  | number isDigit run =>
      have isPart := isWordPart_of_isDigit isDigit
      have notSlash : first ≠ '/' := ne_of_isWordPart isPart (by decide)
      have notBackslash : first ≠ '\\' := ne_of_isWordPart isPart (by decide)
      have notAt : first ≠ '@' := ne_of_isWordPart isPart (by decide)
      simp only [isBlank_of_isWordPart isPart, isDoubled_of_ne notSlash,
        isDoubled_of_ne notBackslash, isWordStart_of_isDigit isDigit, beq_eq_false_iff_ne.mpr notAt,
        isDigit, run, Bool.false_eq_true, if_false, if_true]
  | string isQuote run =>
      subst isQuote
      rw [if_neg (by decide), if_neg (by simp [isDoubled]), if_neg (by simp [isDoubled]),
        if_neg (by decide), if_neg (by decide), if_neg (by decide), if_pos (by decide),
        readQuoted_of_run run, Nat.zero_add]
  | char isQuote run =>
      subst isQuote
      rw [if_neg (by decide), if_neg (by simp [isDoubled]), if_neg (by simp [isDoubled]),
        if_neg (by decide), if_neg (by decide), if_neg (by decide), if_neg (by decide),
        if_pos (by decide), readQuoted_of_run run, Nat.zero_add]
  | operator text kind notComment found textEq =>
      obtain ⟨member, -⟩ := operator?_eq_some found
      obtain ⟨first', rest, firstEq, isStart⟩ := isOperatorStart_of_mem member
      obtain ⟨rfl, rfl⟩ := List.cons_eq_cons.mp (firstEq.symm.trans textEq)
      simp only [isOperatorStart, Bool.and_eq_true, Bool.not_eq_true', bne_iff_ne] at isStart
      obtain ⟨⟨⟨⟨⟨notBlank, notPart⟩, notAt⟩, notQuote⟩, notTick⟩, notBackslash⟩ := isStart
      have notWord : isWordStart first' = false := by
        cases starts : isWordStart first' with
        | false => rfl
        | true => rw [isWordPart_of_isWordStart starts] at notPart; cases notPart
      have notDigit : first'.isDigit = false := by
        cases starts : first'.isDigit with
        | false => rfl
        | true => rw [isWordPart_of_isDigit starts] at notPart; cases notPart
      have lengthEq : text.length - 1 = rest.length := by
        rw [← String.length_toList, textEq, List.length_cons, Nat.add_sub_cancel]
      simp only [notBlank, notComment, isDoubled_of_ne notBackslash, notWord, notDigit,
        beq_eq_false_iff_ne.mpr notAt, beq_eq_false_iff_ne.mpr notQuote,
        beq_eq_false_iff_ne.mpr notTick, readOperator, found, lengthEq, Bool.false_eq_true,
        if_false]

theorem run_of_readQuoted
    {kind : TokenKind}
    {quoteAt : Nat}
    {quote : Char}
    {chars : List Char}
    {lexeme : Lexeme}
    (answered : readQuoted kind quoteAt quote chars = .ok lexeme) :
    ∃ own tail,
      chars = own ++ tail ∧ quotedRun? quote (own ++ tail) = some own.length ∧
        lexeme = { kind := some kind, extra := quoteAt + own.length } := by
  unfold readQuoted at answered
  split at answered
  · rename_i run found
    cases answered
    obtain ⟨own, tail, rfl, rfl⟩ := exists_split (quotedRun?_le found)
    exact ⟨own, tail, rfl, found, rfl⟩
  · cases answered

/-- The front of a text that is read as a lexeme starts that lexeme. -/
theorem starts_of_read
    {lexeme : Lexeme}
    (answered : read first rest = .ok lexeme) :
    ∃ own tail,
      rest = own ++ tail ∧ own.length = lexeme.extra ∧ Starts first own tail lexeme.kind := by
  unfold read at answered
  split at answered
  next isBlank =>
      cases answered
      exact ⟨[], rest, rfl, rfl, .blank isBlank rfl⟩
  split at answered
  next doubled =>
      cases answered
      obtain ⟨own, tail, rfl, lengthEq, inside, stops⟩ := exists_run (· != '\n') rest
      exact ⟨own, tail, rfl, lengthEq, .comment doubled inside stops⟩
  next notComment =>
  split at answered
  next doubled =>
      cases answered
      obtain ⟨own, tail, rfl, lengthEq, inside, stops⟩ := exists_run (· != '\n') rest
      exact ⟨own, tail, rfl, lengthEq, .multilineString doubled inside stops⟩
  split at answered
  next startsWord =>
      cases answered
      obtain ⟨own, tail, rfl, lengthEq, inside, stops⟩ := exists_run isWordPart rest
      refine ⟨own, tail, rfl, lengthEq, ?_⟩
      simp only [wordRun_append inside stops, List.take_left' rfl]
      exact .word startsWord inside stops
  split at answered
  next isAt =>
      have isAt : first = '@' := by simpa using isAt
      cases rest with
      | nil => cases answered
      | cons next afterNext =>
          rw [readAtSign] at answered
          split at answered
          · rename_i isQuote
            have isQuote : next = '"' := by simpa using isQuote
            obtain ⟨body, tail, rfl, run, rfl⟩ := run_of_readQuoted answered
            refine ⟨'"' :: body, tail, by rw [isQuote]; rfl, Nat.add_comm _ _, ?_⟩
            exact .quotedName body isAt rfl run
          · split at answered
            · rename_i startsWord
              cases answered
              have isPart := isWordPart_of_isWordStart startsWord
              obtain ⟨own, tail, rfl, -, inside, stops⟩ := exists_run isWordPart afterNext
              refine ⟨next :: own, tail, rfl, ?_,
                .builtin isAt ⟨next, own, rfl, startsWord, inside⟩ stops⟩
              exact (wordRun_append (by simp [isPart, inside]) stops).symm
            · cases answered
  split at answered
  next isDigit =>
      cases answered
      obtain ⟨own, tail, restEq, lengthEq⟩ :=
        exists_split (numberRun_le (isHexMark first rest) rest)
      subst restEq
      exact ⟨own, tail, rfl, lengthEq, .number isDigit lengthEq.symm⟩
  split at answered
  next isQuote =>
      obtain ⟨own, tail, rfl, run, rfl⟩ := run_of_readQuoted answered
      exact ⟨own, tail, rfl, (Nat.zero_add _).symm, .string (by simpa using isQuote) run⟩
  split at answered
  next isQuote =>
      obtain ⟨own, tail, rfl, run, rfl⟩ := run_of_readQuoted answered
      exact ⟨own, tail, rfl, (Nat.zero_add _).symm, .char (by simpa using isQuote) run⟩
  unfold readOperator at answered
  split at answered
  · rename_i text kind found
    cases answered
    obtain ⟨member, tail, charsEq⟩ := operator?_eq_some found
    obtain ⟨first', own, textEq, -⟩ := isOperatorStart_of_mem member
    rw [textEq] at charsEq
    obtain ⟨rfl, rfl⟩ := List.cons_eq_cons.mp charsEq
    refine ⟨own, tail, rfl, ?_, .operator text kind (by simpa using notComment) found textEq⟩
    rw [← String.length_toList, textEq, List.length_cons, Nat.add_sub_cancel]
  · cases answered

end Lexeme

/-- A stretch of a source: a token of some kind, or a blank or comment without one. -/
structure Piece where
  kind? : Option TokenKind
  chars : List Char
  deriving Repr, DecidableEq

/-- The characters of a sequence of pieces. -/
def Piece.join (pieces : List Piece) : List Char :=
  pieces.flatMap Piece.chars

/-- The text is the sequence of the pieces, each cut off at the end of a lexeme. -/
inductive Cut : (chars : List Char) → (pieces : List Piece) → Prop where
  | nil : Cut [] []
  | cons
      {first : Char}
      {own tail : List Char}
      {kind? : Option TokenKind}
      {pieces : List Piece} :
      Lexeme.Starts first own tail kind? →
      Cut tail pieces →
      Cut (first :: (own ++ tail)) ({ kind?, chars := first :: own } :: pieces)

/-- The tokens of pieces, the first of which stands at byte `offset`. -/
def Piece.tokensFrom (offset : Nat) : List Piece → List Token
  | [] => [.endOfFile offset]
  | piece :: rest =>
      let later := tokensFrom (offset + Text.byteLength piece.chars) rest
      match piece.kind? with
      | none => later
      | some kind => { kind, text := String.ofList piece.chars, offset } :: later

theorem Piece.tokensFrom_ne_nil (offset : Nat) (pieces : List Piece) :
    tokensFrom offset pieces ≠ [] := by
  induction pieces generalizing offset with
  | nil => simp [tokensFrom]
  | cons piece rest inductionHypothesis =>
      rw [tokensFrom]
      cases piece.kind? with
      | none => exact inductionHypothesis _
      | some kind => simp

/-- A text is the sequence of the pieces it is cut into. -/
theorem Cut.join_eq
    {chars : List Char}
    {pieces : List Piece}
    (cut : Cut chars pieces) :
    Piece.join pieces = chars := by
  induction cut with
  | nil => rfl
  | cons _ _ inductionHypothesis =>
      rw [Piece.join, List.flatMap_cons, ← Piece.join, inductionHypothesis]
      rfl

/-- A text is cut into pieces in one way only. -/
theorem Cut.unique
    {chars : List Char}
    {pieces others : List Piece}
    (cut : Cut chars pieces)
    (otherCut : Cut chars others) :
    pieces = others := by
  induction cut generalizing others with
  | nil =>
      cases otherCut
      rfl
  | @cons first own tail kind? pieces starts _ inductionHypothesis =>
      generalize charsEq : first :: (own ++ tail) = chars at otherCut
      cases otherCut with
      | nil => cases charsEq
      | @cons _ otherOwn otherTail _ _ otherStarts laterCut =>
          obtain ⟨rfl, restEq⟩ := List.cons_eq_cons.mp charsEq
          have answered := Lexeme.read_of_starts starts
          rw [restEq, Lexeme.read_of_starts otherStarts] at answered
          obtain ⟨rfl, lengthEq⟩ := Lexeme.mk.inj (Except.ok.inj answered)
          obtain ⟨rfl, rfl⟩ := List.append_inj restEq lengthEq.symm
          rw [inductionHypothesis laterCut]

/-- Reading the text lexeme by lexeme gives the pieces. -/
def Piece.cutsTo : List Piece → List Char → Bool
  | [], chars => chars.isEmpty
  | _ :: _, [] => false
  | piece :: rest, first :: after =>
      match Lexeme.read first after with
      | .error _ => false
      | .ok lexeme =>
          piece == { kind? := lexeme.kind, chars := first :: after.take lexeme.extra } &&
            cutsTo rest (after.drop lexeme.extra)

theorem Piece.cutsTo_iff
    {chars : List Char}
    {pieces : List Piece} :
    cutsTo pieces chars = true ↔ Cut chars pieces := by
  constructor
  · intro cuts
    induction pieces generalizing chars with
    | nil =>
        obtain rfl : chars = [] := by simpa [cutsTo] using cuts
        exact .nil
    | cons piece rest inductionHypothesis =>
        cases chars with
        | nil => cases cuts
        | cons first after =>
            cases answered : Lexeme.read first after with
            | error fault => simp [cutsTo, answered] at cuts
            | ok lexeme =>
                obtain ⟨own, tail, rfl, lengthEq, starts⟩ := Lexeme.starts_of_read answered
                simp only [cutsTo, answered, Bool.and_eq_true, beq_iff_eq, List.take_left' lengthEq,
                  List.drop_left' lengthEq] at cuts
                obtain ⟨rfl, cutsLater⟩ := cuts
                exact .cons starts (inductionHypothesis cutsLater)
  · intro cut
    induction cut with
    | nil => rfl
    | cons starts _ inductionHypothesis =>
        simp only [cutsTo, Lexeme.read_of_starts starts, List.take_left' rfl, List.drop_left' rfl,
          inductionHypothesis, beq_self_eq_true, Bool.and_self]

instance (chars : List Char) (pieces : List Piece) : Decidable (Cut chars pieces) :=
  decidable_of_iff _ Piece.cutsTo_iff

namespace Token

theorem scanFrom_eq_ok_iff
    {offset : Nat}
    {chars : List Char}
    {tokens : List Token} :
    scanFrom offset chars = .ok tokens ↔
      ∃ pieces, Cut chars pieces ∧ tokens = Piece.tokensFrom offset pieces := by
  constructor
  · intro scanned
    fun_induction scanFrom offset chars generalizing tokens with
    | case1 offset =>
        cases scanned
        exact ⟨[], .nil, rfl⟩
    | case2 => cases scanned
    | case3 offset first rest lexeme answered chars =>
        rename_i inductionHypothesis
        obtain ⟨own, tail, rfl, lengthEq, starts⟩ := Lexeme.starts_of_read answered
        rw [List.drop_left' lengthEq] at scanned inductionHypothesis
        cases scannedLater : scanFrom (offset + Text.byteLength chars) tail with
        | error fault =>
            rw [scannedLater] at scanned
            cases scanned
        | ok later =>
            obtain ⟨pieces, cut, rfl⟩ := inductionHypothesis scannedLater
            refine ⟨_, .cons starts cut, ?_⟩
            have charsEq : chars = first :: own := by simp [chars, ← lengthEq]
            rw [scannedLater, charsEq] at scanned
            cases kindEq : lexeme.kind <;> rw [kindEq] at scanned <;> cases scanned <;> rfl
  · rintro ⟨pieces, cut, rfl⟩
    induction cut generalizing offset with
    | nil => rw [scanFrom]; rfl
    | @cons first own tail kind? pieces starts _ inductionHypothesis =>
        rw [scanFrom, Lexeme.read_of_starts starts]
        simp only [List.take_left' rfl, List.drop_left' rfl, inductionHypothesis]
        cases kind? <;> rfl

/-- A source can be cut into tokens exactly if it can be cut into pieces. -/
theorem scan_eq_ok_iff
    {source : String}
    {tokens : List Token} :
    scan source = .ok tokens ↔
      ∃ pieces, Cut source.toList pieces ∧ tokens = Piece.tokensFrom 0 pieces :=
  scanFrom_eq_ok_iff

end Token

end ZigLint
