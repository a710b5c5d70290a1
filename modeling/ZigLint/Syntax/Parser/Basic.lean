import ZigLint.Syntax.Node

namespace ZigLint

/-!
# Reading a token list

A `Parser` walks over the kinds of a token list with a position that only moves
forward and never passes the end-of-file token. It fails with a `Mismatch`: the
position it had reached and what it expected there. Parsers see token kinds and
nothing else, so neither the layout of a source nor the spelling of its names
can influence the tree.

Repetition goes through `iterate`, which is total because a round that reads no
token is the last one.
-/

/-- What a parser expected at the position where it failed. -/
inductive Expectation where
  | token (kind : TokenKind)
  | declaration
  | expression
  | container
  | closingParenthesis
  | captureEnd
  | blockEnd
  | shallowerNesting
  | prongSeparator
  deriving Repr, DecidableEq

namespace Expectation

/-- The wording of what went wrong, without the token that was found. -/
def message : Expectation → String
  | .token kind => s!"expected {kind.name}"
  | .declaration => "expected declaration"
  | .expression => "expected expression"
  | .container => "expected container"
  | .closingParenthesis => "unbalanced parentheses"
  | .captureEnd => "unterminated capture"
  | .blockEnd => "unterminated block"
  | .shallowerNesting => "nesting too deep"
  | .prongSeparator => "expected ',' after switch prong"

end Expectation

/-- A failed parse: the token position reached and the expectation not met there. -/
structure Mismatch where
  position : TokenIndex
  expectation : Expectation
  deriving Repr, DecidableEq

/-- A computation that reads token kinds from left to right. -/
abbrev Parser := ReaderT (Array TokenKind) (StateT Nat (Except Mismatch))

namespace Parser

/-- The kind of the token `ahead` places after the current one; past the end, end of file. -/
def peek (ahead : Nat) : Parser TokenKind := do
  let kinds ← read
  let position ← get
  return kinds.getD (position + ahead) .eof

/-- The kind of the current token. -/
def current : Parser TokenKind :=
  peek 0

/-- The kind of the token before the current one; end of file at the very start. -/
def previous : Parser TokenKind := do
  let kinds ← read
  match ← get with
  | 0 => return .eof
  | before + 1 => return kinds.getD before .eof

/-- The index of the current token. -/
def here : Parser TokenIndex := do
  return ⟨← get⟩

/-- The current token is of the given kind. -/
def isAt (kind : TokenKind) : Parser Bool := do
  return (← current) == kind

/-- Read the current token, whatever it is; the end of file stays unread. -/
def advance : Parser TokenIndex := do
  let index ← here
  unless ← isAt .eof do
    modify (· + 1)
  return index

/-- Read the current token if it is of the given kind. -/
def accept? (kind : TokenKind) : Parser (Option TokenIndex) := do
  if ← isAt kind then
    return some (← advance)
  else
    return none

/-- Read the current token if it is of the given kind, and tell whether it was. -/
def accept (kind : TokenKind) : Parser Bool := do
  return (← accept? kind).isSome

/-- Fail at the current token. -/
def mismatch (expectation : Expectation) : Parser α := do
  throw { position := ← here, expectation }

/-- Read a token of the given kind or fail. -/
def expect (kind : TokenKind) : Parser TokenIndex := do
  match ← accept? kind with
  | some index => return index
  | none => mismatch (.token kind)

/-- Run `parser` after a token of the given kind, and not at all without one. -/
def after? (kind : TokenKind) (parser : Parser α) : Parser (Option α) := do
  if ← accept kind then
    return some (← parser)
  else
    return none

/-- Build a node that starts at `first` and ends with the last token read. -/
def finish
    (form : NodeForm)
    (main first : TokenIndex)
    (children : List (Role × Ast)) :
    Parser Ast := do
  let position ← get
  return .node { form, main, first, last := ⟨max (position - 1) first.val⟩ } children

/-- Build a node without children whose main token is its first one. -/
def finishLeaf (form : NodeForm) (main : TokenIndex) : Parser Ast :=
  finish form main main []

/--
Run `round` on `value` again and again until it answers `done`.

A round that reads no token ends the repetition, too.
-/
def iterate (round : α → Parser (ForInStep α)) (value : α) : Parser α :=
  fun kinds position =>
    match round value kinds position with
    | .error mismatch => .error mismatch
    | .ok (.done last, stop) => .ok (last, stop)
    | .ok (.yield next, stop) =>
        if position < stop ∧ stop ≤ kinds.size then
          iterate round next kinds stop
        else
          .ok (next, stop)
  termination_by kinds position => kinds.size - position

/-- Run `round` until it answers `done`, and join the lists it answers. -/
def collect (round : Parser (ForInStep (List α))) : Parser (List α) := do
  let lists ← iterate
    (fun lists => do
      match ← round with
      | .done last => return .done (last :: lists)
      | .yield more => return .yield (more :: lists))
    []
  return lists.reverse.flatten

/-- Run `round` until it answers `false`. -/
def repeatWhile (round : Parser Bool) : Parser Unit :=
  iterate
    (fun () => do
      if ← round then
        return .yield ()
      else
        return .done ())
    ()

/-- An optional child as a list of children. -/
def childIn (role : Role) (ast? : Option Ast) : List (Role × Ast) :=
  (ast?.map fun ast => (role, ast)).toList

/-- A list of children that all stand in one role. -/
def childrenIn (role : Role) (asts : List Ast) : List (Role × Ast) :=
  asts.map fun ast => (role, ast)

end Parser

end ZigLint
