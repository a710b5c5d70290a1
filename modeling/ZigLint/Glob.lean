namespace ZigLint

/-!
# Path patterns

Patterns that pick paths: `?` stands for any character, `*` for any characters,
`[...]` and `[!...]` for a character of a class or outside it, and `**`, alone
between separators, for any number of directories. Wildcards match separators
and leading dots like any other character.
-/

/-- A part of a character class: the characters from `first` to `last`. -/
structure CharRange where
  first : Char
  last : Char
  deriving Repr, DecidableEq

namespace CharRange

/-- The character lies in the range. -/
def contains (range : CharRange) (char : Char) : Bool :=
  range.first ≤ char && char ≤ range.last

/-- The ranges of a class: `a-z` is a range, any other character stands for itself. -/
def ofClass : List Char → List CharRange
  | first :: '-' :: last :: rest => ⟨first, last⟩ :: ofClass rest
  | char :: rest => ⟨char, char⟩ :: ofClass rest
  | [] => []

end CharRange

/-- One part of a pattern. -/
inductive GlobPart where
  /-- The character itself. -/
  | literal (char : Char)
  /-- Any one character. -/
  | anyChar
  /-- A character of a class, or outside it if `negated`. -/
  | charClass (negated : Bool) (ranges : List CharRange)
  /-- Any characters. -/
  | anyText
  /-- Any number of directories. -/
  | anyDirectories
  deriving Repr, DecidableEq

/-- A pattern as a list of its parts. -/
structure Glob where
  parts : List GlobPart
  deriving Repr, DecidableEq

namespace Glob

/-- The character that separates the names of a path. -/
def separator : Char := '/'

/-- Split a text at its first closing bracket, which is left out. -/
def splitBracket? : List Char → Option (List Char × List Char)
  | [] => none
  | ']' :: rest => some ([], rest)
  | char :: rest => (splitBracket? rest).map fun (inside, after) => (char :: inside, after)

theorem length_of_splitBracket? {text inside after : List Char}
    (split : splitBracket? text = some (inside, after)) : after.length < text.length := by
  fun_induction splitBracket? text generalizing inside after with
  | case1 => contradiction
  | case2 rest => simp_all
  | case3 char rest _ inductionHypothesis =>
      obtain ⟨⟨middle, later⟩, found, same⟩ := Option.map_eq_some_iff.mp split
      have shorter := inductionHypothesis found
      simp only [Prod.mk.injEq] at same
      simp only [List.length_cons, ← same.2]
      omega

/--
The parts of a pattern; `fresh` tells that a new path component starts here.

The first character of a class is part of it even if it is a closing bracket.
-/
def parseParts? (fresh : Bool) (text : List Char) : Option (List GlobPart) :=
  match text with
  | [] => some []
  | '*' :: '*' :: rest =>
      match rest with
      | [] => if fresh then some [.anyDirectories] else none
      | '/' :: rest => if fresh then (.anyDirectories :: ·) <$> parseParts? true rest else none
      | _ => none
  | '*' :: rest => (.anyText :: ·) <$> parseParts? false rest
  | '?' :: rest => (.anyChar :: ·) <$> parseParts? false rest
  | '[' :: '!' :: char :: rest =>
      match found : splitBracket? rest with
      | some (inside, after) =>
          have := length_of_splitBracket? found
          (.charClass true (CharRange.ofClass (char :: inside)) :: ·) <$> parseParts? false after
      | none => none
  | '[' :: char :: rest =>
      if char = '!' then
        none
      else
        match found : splitBracket? rest with
        | some (inside, after) =>
            have := length_of_splitBracket? found
            (.charClass false (CharRange.ofClass (char :: inside)) :: ·) <$> parseParts? false after
        | none => none
  | ['['] => none
  | char :: rest => (.literal char :: ·) <$> parseParts? (char == separator) rest
  termination_by text.length
  decreasing_by all_goals simp_all <;> omega

/-- The pattern that a text describes. -/
def parse? (text : String) : Option Glob :=
  (parseParts? true text.toList).map Glob.mk

/-- What can be left of a text after any characters have been taken off. -/
def remainders : List Char → List (List Char)
  | [] => [[]]
  | char :: rest => (char :: rest) :: remainders rest

/-- What can be left of a path after whole directories, or all of it, have been taken off. -/
def directoryRemainders (path : List Char) : List (List Char) :=
  path :: belowDirectories path
where
  /-- What follows each separator, and the empty rest. -/
  belowDirectories : List Char → List (List Char)
    | [] => [[]]
    | char :: rest =>
        if char = separator then rest :: belowDirectories rest else belowDirectories rest

/-- One character fits a part that stands for one character. -/
def GlobPart.admits (char : Char) : GlobPart → Bool
  | .literal expected => char = expected
  | .anyChar => true
  | .charClass negated ranges => (ranges.any fun range => range.contains char) != negated
  | .anyText | .anyDirectories => false

/-- How far a list of parts fits a text. -/
inductive Fit where
  /-- The parts match the whole text. -/
  | full
  /-- The parts do not match here, but what a wildcard before them leaves may match later on. -/
  | mismatch
  /-- The text ended too early, so that a shorter rest cannot match either. -/
  | exhausted
  deriving Repr, DecidableEq

/-- The first fit that is not a mismatch, among the fits of several texts. -/
def firstFit (fit : List Char → Fit) : List (List Char) → Fit
  | [] => .mismatch
  | text :: rest =>
      match fit text with
      | .mismatch => firstFit fit rest
      | decided => decided

/--
How far the parts fit the text.

A text that ends too early ends the search of all wildcards before it, which
keeps the number of attempts small.
-/
def fitParts : List GlobPart → List Char → Fit
  | [], [] => .full
  | [], _ :: _ => .mismatch
  | .anyText :: parts, text => firstFit (fitParts parts) (remainders text)
  | .anyDirectories :: parts, text => firstFit (fitParts parts) (directoryRemainders text)
  | _ :: _, [] => .exhausted
  | part :: parts, char :: rest =>
      if GlobPart.admits char part then fitParts parts rest else .mismatch

/-- The pattern matches the whole path. -/
def isMatch (glob : Glob) (path : String) : Bool :=
  fitParts glob.parts path.toList = .full

end Glob

end ZigLint
