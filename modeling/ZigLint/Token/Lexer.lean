import ZigLint.Text.Bytes
import ZigLint.Token.Basic

namespace ZigLint

/-!
# Cutting a source into tokens

`Token.scan` reads a source from left to right. At each step `Lexeme.read?`
looks at the first character and what follows it, and answers how many further
characters belong to the same lexeme; blanks and line comments are lexemes
without a kind and leave no token behind. The token list ends with one
end-of-file token at the length of the source.
-/

/-- A source that cannot be cut into tokens, with the byte offset of the fault. -/
structure TokenizeError where
  offset : Nat
  deriving Repr, DecidableEq

namespace TokenizeError

/-- The wording of the fault. -/
def message (error : TokenizeError) : String :=
  s!"unexpected character at byte {error.offset}"

end TokenizeError

/--
The lexeme at the front of a text.

`kind` is `none` for a blank or a comment, and `extra` is the number of
characters of the lexeme after its first one.
-/
structure Lexeme where
  kind : Option TokenKind
  extra : Nat
  deriving Repr, DecidableEq

namespace Lexeme

/-- The blanks between tokens. -/
def isBlank (char : Char) : Bool :=
  char == ' ' || char == '\t' || char == '\r' || char == '\n'

/-- Letters and the underscore, which start an identifier. -/
def isWordStart (char : Char) : Bool :=
  char.isAlpha || char == '_'

/-- Letters, digits and the underscore, which continue an identifier. -/
def isWordPart (char : Char) : Bool :=
  char.isAlphanum || char == '_'

/-- The digits of a hexadecimal number. -/
def isHexDigit (char : Char) : Bool :=
  char.isDigit || ('a' ≤ char && char ≤ 'f') || ('A' ≤ char && char ≤ 'F')

/-- The letter that may be followed by a signed exponent. -/
def isExponentMark (hex : Bool) (char : Char) : Bool :=
  if hex then char == 'p' || char == 'P' else char == 'e' || char == 'E'

/-- The sign of an exponent. -/
def isSign (char : Char) : Bool :=
  char == '+' || char == '-'

/-- Number of characters up to, but not including, the next line break. -/
def lineRun (chars : List Char) : Nat :=
  (chars.takeWhile (· != '\n')).length

/-- Number of leading characters that continue an identifier. -/
def wordRun (chars : List Char) : Nat :=
  (chars.takeWhile isWordPart).length

/--
Number of leading characters that continue a number.

A sign belongs to the number right after an exponent mark, and a point right
before a hexadecimal digit.
-/
def numberRun (hex : Bool) : List Char → Nat
  | [] => 0
  | [char] => if isWordPart char then 1 else 0
  | char :: next :: rest =>
      if isExponentMark hex char && isSign next then
        2 + numberRun hex rest
      else if isWordPart char || (char == '.' && isHexDigit next) then
        1 + numberRun hex (next :: rest)
      else
        0

/--
Number of characters after an opening quote up to and including the closing one.

A backslash takes the character after it along. The answer is `none` when a line
break or the end of the text comes first.
-/
def quotedRun? (quote : Char) : List Char → Option Nat
  | [] => none
  | ['\\'] => none
  | '\\' :: _ :: rest => (quotedRun? quote rest).map (2 + ·)
  | char :: rest =>
      if char = '\n' then
        none
      else if char = quote then
        some 1
      else
        (quotedRun? quote rest).map (1 + ·)

/-- The first operator that `chars` starts with. -/
def operator? (chars : List Char) : Option (String × TokenKind) :=
  TokenKind.operators.find? fun (text, _) => text.toList.isPrefixOf chars

/-- The kind of a word: a reserved word or an identifier. -/
def wordKind (text : String) : TokenKind :=
  match Keyword.ofText? text with
  | some word => .keyword word
  | none => .identifier

/-- A quoted lexeme, or the distance in bytes from the lexeme's start to its opening quote. -/
def readQuoted
    (kind : TokenKind)
    (quoteAt : Nat)
    (quote : Char)
    (afterQuote : List Char) :
    Except Nat Lexeme :=
  match quotedRun? quote afterQuote with
  | some run => .ok { kind := some kind, extra := quoteAt + run }
  | none => .error quoteAt

/-- The two equal characters that start a comment or a line of a multi-line string. -/
def isDoubled (mark first : Char) (rest : List Char) : Bool :=
  first == mark && rest.head? == some mark

/-- The mark of a hexadecimal number: a zero before an `x`. -/
def isHexMark (first : Char) (rest : List Char) : Bool :=
  first == '0' && (rest.head? == some 'x' || rest.head? == some 'X')

/-- The lexeme that starts with an at sign: a quoted name or the name of a builtin. -/
def readAtSign : (afterSign : List Char) → Except Nat Lexeme
  | [] => .error 0
  | next :: rest =>
      if next == '"' then
        readQuoted .identifier 1 '"' rest
      else if isWordStart next then
        .ok { kind := some .builtin, extra := wordRun (next :: rest) }
      else
        .error 0

/-- The operator that starts with `first`. -/
def readOperator (first : Char) (rest : List Char) : Except Nat Lexeme :=
  match operator? (first :: rest) with
  | some (text, kind) => .ok { kind := some kind, extra := text.length - 1 }
  | none => .error 0

/--
The lexeme that starts with `first` and goes on in `rest`.

A fault is reported as the number of bytes between the start of the lexeme and
the fault.
-/
def read (first : Char) (rest : List Char) : Except Nat Lexeme :=
  if isBlank first then
    .ok { kind := none, extra := 0 }
  else if isDoubled '/' first rest then
    .ok { kind := none, extra := lineRun rest }
  else if isDoubled '\\' first rest then
    .ok { kind := some .multilineStringLine, extra := lineRun rest }
  else if isWordStart first then
    let extra := wordRun rest
    .ok { kind := some (wordKind (String.ofList (first :: rest.take extra))), extra }
  else if first == '@' then
    readAtSign rest
  else if first.isDigit then
    .ok { kind := some .number, extra := numberRun (isHexMark first rest) rest }
  else if first == '"' then
    readQuoted .string 0 '"' rest
  else if first == '\'' then
    readQuoted .char 0 '\'' rest
  else
    readOperator first rest

end Lexeme

namespace Token

/-- The tokens of `chars`, whose first character stands at byte `offset`. -/
def scanFrom (offset : Nat) : List Char → Except TokenizeError (List Token)
  | [] => .ok [endOfFile offset]
  | first :: rest =>
      match Lexeme.read first rest with
      | .error distance => .error { offset := offset + distance }
      | .ok lexeme => do
          let chars := first :: rest.take lexeme.extra
          let later ← scanFrom (offset + Text.byteLength chars) (rest.drop lexeme.extra)
          match lexeme.kind with
          | none => return later
          | some kind => return { kind, text := String.ofList chars, offset } :: later
  termination_by chars => chars.length
  decreasing_by simp only [List.length_drop, List.length_cons]; omega

/-- The tokens of a source, closed by the end-of-file token. -/
def scan (source : String) : Except TokenizeError (List Token) :=
  scanFrom 0 source.toList

end Token

end ZigLint
