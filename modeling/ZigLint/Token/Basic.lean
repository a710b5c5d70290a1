import ZigLint.Text.Span
import ZigLint.Token.Kind

namespace ZigLint

/-!
# Tokens

A token is a kind, the text it was cut from and the byte offset at which that
text starts. Its span is computed from the two, so a token never disagrees with
its own text. `TokenIndex` addresses a token of one token list.
-/

/-- Position of a token in the token list of one source. -/
structure TokenIndex where
  val : Nat
  deriving Repr, DecidableEq, Inhabited

/-- One token of a source. -/
structure Token where
  kind : TokenKind
  text : String
  offset : Nat
  deriving Repr, DecidableEq, Inhabited

namespace Token

/-- Byte range of the token's text. -/
def span (token : Token) : Span where
  start := token.offset
  stop := token.offset + token.text.utf8ByteSize

/-- The token that closes every token list, at the end of a source of `length` bytes. -/
def endOfFile (length : Nat) : Token where
  kind := .eof
  text := ""
  offset := length

end Token

end ZigLint
