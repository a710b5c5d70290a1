namespace ZigLint

/-!
# Token kinds

The reserved words and the kinds of token a source is cut into. A keyword is
known by its spelling; every other fixed spelling is an entry of `operators`.
-/

/-- The reserved words of the language. -/
inductive Keyword where
  | kwAlign
  | kwAllowZero
  | kwAnd
  | kwAnyFrame
  | kwAnyType
  | kwAddrSpace
  | kwAsm
  | kwBreak
  | kwCallConv
  | kwCatch
  | kwComptime
  | kwConst
  | kwContinue
  | kwDefer
  | kwElse
  | kwEnum
  | kwErrDefer
  | kwError
  | kwExport
  | kwExtern
  | kwFn
  | kwFor
  | kwIf
  | kwInline
  | kwLinkSection
  | kwNoAlias
  | kwNoInline
  | kwNoSuspend
  | kwOpaque
  | kwOr
  | kwOrElse
  | kwPacked
  | kwPub
  | kwReturn
  | kwStruct
  | kwSwitch
  | kwTest
  | kwThreadLocal
  | kwTry
  | kwUnion
  | kwUnreachable
  | kwUsingNamespace
  | kwVar
  | kwVolatile
  | kwWhile
  deriving Repr, DecidableEq, Inhabited

namespace Keyword

/-- Every reserved word, in the order of declaration. -/
def all : List Keyword :=
  [.kwAlign, .kwAllowZero, .kwAnd, .kwAnyFrame, .kwAnyType, .kwAddrSpace, .kwAsm, .kwBreak,
    .kwCallConv, .kwCatch, .kwComptime, .kwConst, .kwContinue, .kwDefer, .kwElse, .kwEnum,
    .kwErrDefer, .kwError, .kwExport, .kwExtern, .kwFn, .kwFor, .kwIf, .kwInline,
    .kwLinkSection, .kwNoAlias, .kwNoInline, .kwNoSuspend, .kwOpaque, .kwOr, .kwOrElse,
    .kwPacked, .kwPub, .kwReturn, .kwStruct, .kwSwitch, .kwTest, .kwThreadLocal, .kwTry,
    .kwUnion, .kwUnreachable, .kwUsingNamespace, .kwVar, .kwVolatile, .kwWhile]

/-- How the reserved word is written in a source. -/
def text : Keyword → String
  | .kwAlign => "align"
  | .kwAllowZero => "allowzero"
  | .kwAnd => "and"
  | .kwAnyFrame => "anyframe"
  | .kwAnyType => "anytype"
  | .kwAddrSpace => "addrspace"
  | .kwAsm => "asm"
  | .kwBreak => "break"
  | .kwCallConv => "callconv"
  | .kwCatch => "catch"
  | .kwComptime => "comptime"
  | .kwConst => "const"
  | .kwContinue => "continue"
  | .kwDefer => "defer"
  | .kwElse => "else"
  | .kwEnum => "enum"
  | .kwErrDefer => "errdefer"
  | .kwError => "error"
  | .kwExport => "export"
  | .kwExtern => "extern"
  | .kwFn => "fn"
  | .kwFor => "for"
  | .kwIf => "if"
  | .kwInline => "inline"
  | .kwLinkSection => "linksection"
  | .kwNoAlias => "noalias"
  | .kwNoInline => "noinline"
  | .kwNoSuspend => "nosuspend"
  | .kwOpaque => "opaque"
  | .kwOr => "or"
  | .kwOrElse => "orelse"
  | .kwPacked => "packed"
  | .kwPub => "pub"
  | .kwReturn => "return"
  | .kwStruct => "struct"
  | .kwSwitch => "switch"
  | .kwTest => "test"
  | .kwThreadLocal => "threadlocal"
  | .kwTry => "try"
  | .kwUnion => "union"
  | .kwUnreachable => "unreachable"
  | .kwUsingNamespace => "usingnamespace"
  | .kwVar => "var"
  | .kwVolatile => "volatile"
  | .kwWhile => "while"

/-- The name of the reserved word in token listings and parse errors. -/
def name : Keyword → String
  | .kwAlign => "Align"
  | .kwAllowZero => "AllowZero"
  | .kwAnd => "And"
  | .kwAnyFrame => "AnyFrame"
  | .kwAnyType => "AnyType"
  | .kwAddrSpace => "AddrSpace"
  | .kwAsm => "Asm"
  | .kwBreak => "Break"
  | .kwCallConv => "CallConv"
  | .kwCatch => "Catch"
  | .kwComptime => "Comptime"
  | .kwConst => "Const"
  | .kwContinue => "Continue"
  | .kwDefer => "Defer"
  | .kwElse => "Else"
  | .kwEnum => "Enum"
  | .kwErrDefer => "ErrDefer"
  | .kwError => "Error"
  | .kwExport => "Export"
  | .kwExtern => "Extern"
  | .kwFn => "Fn"
  | .kwFor => "For"
  | .kwIf => "If"
  | .kwInline => "Inline"
  | .kwLinkSection => "LinkSection"
  | .kwNoAlias => "NoAlias"
  | .kwNoInline => "NoInline"
  | .kwNoSuspend => "NoSuspend"
  | .kwOpaque => "Opaque"
  | .kwOr => "Or"
  | .kwOrElse => "OrElse"
  | .kwPacked => "Packed"
  | .kwPub => "Pub"
  | .kwReturn => "Return"
  | .kwStruct => "Struct"
  | .kwSwitch => "Switch"
  | .kwTest => "Test"
  | .kwThreadLocal => "ThreadLocal"
  | .kwTry => "Try"
  | .kwUnion => "Union"
  | .kwUnreachable => "Unreachable"
  | .kwUsingNamespace => "UsingNamespace"
  | .kwVar => "Var"
  | .kwVolatile => "Volatile"
  | .kwWhile => "While"

/-- The reserved word with the given spelling. -/
def ofText? (text : String) : Option Keyword :=
  all.find? fun keyword => keyword.text == text

end Keyword

/-- The kinds of token. -/
inductive TokenKind where
  | identifier
  | builtin
  | number
  | string
  | multilineStringLine
  | char
  | keyword (word : Keyword)
  | lParen
  | rParen
  | lBrace
  | rBrace
  | lBracket
  | rBracket
  | semicolon
  | comma
  | colon
  | dot
  | dotDot
  | ellipsis
  | dotStar
  | dotQuestion
  | equal
  | equalEqual
  | fatArrow
  | bang
  | bangEqual
  | lt
  | ltEq
  | shl
  | gt
  | gtEq
  | shr
  | plus
  | plusPlus
  | plusWrap
  | minus
  | minusWrap
  | arrow
  | star
  | starStar
  | starWrap
  | slash
  | percent
  | ampersand
  | pipe
  | pipePipe
  | caret
  | tilde
  | question
  | compoundAssign
  | eof
  deriving Repr, DecidableEq, Inhabited

namespace TokenKind

/-- The name of the kind in token listings and parse errors. -/
def name : TokenKind → String
  | .identifier => "Identifier"
  | .builtin => "Builtin"
  | .number => "Number"
  | .string => "String"
  | .multilineStringLine => "MultilineStringLine"
  | .char => "Char"
  | .keyword word => "Keyword(" ++ word.name ++ ")"
  | .lParen => "LParen"
  | .rParen => "RParen"
  | .lBrace => "LBrace"
  | .rBrace => "RBrace"
  | .lBracket => "LBracket"
  | .rBracket => "RBracket"
  | .semicolon => "Semicolon"
  | .comma => "Comma"
  | .colon => "Colon"
  | .dot => "Dot"
  | .dotDot => "DotDot"
  | .ellipsis => "Ellipsis"
  | .dotStar => "DotStar"
  | .dotQuestion => "DotQuestion"
  | .equal => "Equal"
  | .equalEqual => "EqualEqual"
  | .fatArrow => "FatArrow"
  | .bang => "Bang"
  | .bangEqual => "BangEqual"
  | .lt => "Lt"
  | .ltEq => "LtEq"
  | .shl => "Shl"
  | .gt => "Gt"
  | .gtEq => "GtEq"
  | .shr => "Shr"
  | .plus => "Plus"
  | .plusPlus => "PlusPlus"
  | .plusWrap => "PlusWrap"
  | .minus => "Minus"
  | .minusWrap => "MinusWrap"
  | .arrow => "Arrow"
  | .star => "Star"
  | .starStar => "StarStar"
  | .starWrap => "StarWrap"
  | .slash => "Slash"
  | .percent => "Percent"
  | .ampersand => "Ampersand"
  | .pipe => "Pipe"
  | .pipePipe => "PipePipe"
  | .caret => "Caret"
  | .tilde => "Tilde"
  | .question => "Question"
  | .compoundAssign => "CompoundAssign"
  | .eof => "Eof"

/--
Every operator and punctuation mark with its kind.

A longer spelling stands before each of its own beginnings, so the first entry
that matches is the longest one.
-/
def operators : List (String × TokenKind) :=
  [ ("<<=", .compoundAssign),
    (">>=", .compoundAssign),
    ("<<|=", .compoundAssign),
    ("...", .ellipsis),
    ("+%=", .compoundAssign),
    ("+|=", .compoundAssign),
    ("-%=", .compoundAssign),
    ("-|=", .compoundAssign),
    ("*%=", .compoundAssign),
    ("*|=", .compoundAssign),
    ("..", .dotDot),
    (".*", .dotStar),
    (".?", .dotQuestion),
    ("==", .equalEqual),
    ("=>", .fatArrow),
    ("!=", .bangEqual),
    ("<=", .ltEq),
    (">=", .gtEq),
    ("<<", .shl),
    (">>", .shr),
    ("++", .plusPlus),
    ("+%", .plusWrap),
    ("+|", .plusWrap),
    ("-%", .minusWrap),
    ("-|", .minusWrap),
    ("->", .arrow),
    ("**", .starStar),
    ("*%", .starWrap),
    ("*|", .starWrap),
    ("||", .pipePipe),
    ("+=", .compoundAssign),
    ("-=", .compoundAssign),
    ("*=", .compoundAssign),
    ("/=", .compoundAssign),
    ("%=", .compoundAssign),
    ("&=", .compoundAssign),
    ("|=", .compoundAssign),
    ("^=", .compoundAssign),
    ("(", .lParen),
    (")", .rParen),
    ("\x7b", .lBrace),
    ("\x7d", .rBrace),
    ("[", .lBracket),
    ("]", .rBracket),
    (";", .semicolon),
    (",", .comma),
    (":", .colon),
    (".", .dot),
    ("=", .equal),
    ("!", .bang),
    ("<", .lt),
    (">", .gt),
    ("+", .plus),
    ("-", .minus),
    ("*", .star),
    ("/", .slash),
    ("%", .percent),
    ("&", .ampersand),
    ("|", .pipe),
    ("^", .caret),
    ("~", .tilde),
    ("?", .question) ]

end TokenKind

end ZigLint
