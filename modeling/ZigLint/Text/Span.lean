namespace ZigLint

/-!
# Byte spans

A `Span` is a half-open range of byte offsets into a UTF-8 source. Spans built
from the outside may be inverted; such a span is empty.
-/

/-- The half-open byte range from `start` up to, but not including, `stop`. -/
structure Span where
  start : Nat
  stop : Nat
  deriving Repr, DecidableEq, Inhabited

namespace Span

/-- Number of bytes in the span; zero when it is inverted. -/
def length (span : Span) : Nat :=
  span.stop - span.start

/-- A span that holds no byte. -/
def isEmpty (span : Span) : Bool :=
  span.length == 0

/-- Smallest span that covers both. -/
def cover (left right : Span) : Span where
  start := min left.start right.start
  stop := max left.stop right.stop

end Span

end ZigLint
