namespace ZigLint

/-!
# Naming styles

A style can check a name and convert a name to itself. Leading underscores are
kept by both and never judged. Conversion cuts a name into words, at underscores
and where the case changes, and joins the words again in the case of the style.
Letters are those of ASCII.
-/

/-- The naming styles. -/
inductive NamingStyle where
  | off
  | snakeCase
  | titleCase
  | camelCase
  | screamingSnakeCase
  | lowerCase
  deriving Repr, DecidableEq, Inhabited

namespace NamingStyle

/-- Every style, in the order of declaration. -/
def all : List NamingStyle :=
  [.off, .snakeCase, .titleCase, .camelCase, .screamingSnakeCase, .lowerCase]

/-- How the style is written in options and messages. -/
def name : NamingStyle → String
  | .off => "off"
  | .snakeCase => "snake_case"
  | .titleCase => "TitleCase"
  | .camelCase => "camelCase"
  | .screamingSnakeCase => "SCREAMING_SNAKE_CASE"
  | .lowerCase => "lower_case"

/-- The style with the given name. -/
def ofName? (name : String) : Option NamingStyle :=
  all.find? fun style => style.name == name

/-- The name without its leading underscores follows the style. -/
def checkBody (style : NamingStyle) (body : List Char) : Bool :=
  match style with
  | .off => true
  | .snakeCase => body.all fun char => char.isLower || char.isDigit || char == '_'
  | .titleCase => body.head?.all Char.isUpper && !body.contains '_'
  | .camelCase => body.head?.all Char.isLower && !body.contains '_'
  | .screamingSnakeCase => body.all fun char => char.isUpper || char.isDigit || char == '_'
  | .lowerCase => body.all fun char => char.isLower || char.isDigit

/-- The name follows the style; leading underscores do not count. -/
def check (style : NamingStyle) (name : String) : Bool :=
  style.checkBody (name.toList.dropWhile (· == '_'))

end NamingStyle

namespace NameWord

/-- A new word starts at `char`, between `previous` and the character after it. -/
def startsAt (previous char : Char) (next? : Option Char) : Bool :=
  char.isUpper &&
    (previous.isLower || previous.isDigit || (previous.isUpper && next?.any Char.isLower))

/-- Cut a name without underscores where a new word starts. -/
def splitCase : List Char → List (List Char)
  | [] => []
  | [char] => [[char]]
  | previous :: char :: rest =>
      let words := splitCase (char :: rest)
      if startsAt previous char rest.head? then
        [previous] :: words
      else
        match words with
        | word :: more => (previous :: word) :: more
        | [] => [[previous]]

/-- The non-empty parts of a name between its underscores. -/
def splitUnderscores : List Char → List (List Char)
  | [] => []
  | [char] => if char = '_' then [] else [[char]]
  | char :: next :: rest =>
      let parts := splitUnderscores (next :: rest)
      if char = '_' then
        parts
      else if next = '_' then
        [char] :: parts
      else
        match parts with
        | part :: more => (char :: part) :: more
        | [] => [[char]]

/-- The words of a name. -/
def split (name : List Char) : List (List Char) :=
  (splitUnderscores name).flatMap splitCase

/-- The word in lower case. -/
def lower (word : List Char) : List Char :=
  word.map Char.toLower

/-- The word in upper case. -/
def upper (word : List Char) : List Char :=
  word.map Char.toUpper

/-- The word with its first letter in upper case and the others in lower case. -/
def capitalize : List Char → List Char
  | [] => []
  | first :: rest => first.toUpper :: lower rest

end NameWord

namespace NamingStyle

/-- Join words in the case of the style. -/
def joinWords (style : NamingStyle) (words : List (List Char)) : List Char :=
  match style with
  | .off => words.flatten
  | .snakeCase => ['_'].intercalate (words.map NameWord.lower)
  | .screamingSnakeCase => ['_'].intercalate (words.map NameWord.upper)
  | .lowerCase => (words.map NameWord.lower).flatten
  | .titleCase => (words.map NameWord.capitalize).flatten
  | .camelCase =>
      match words with
      | [] => []
      | first :: rest => NameWord.lower first ++ (rest.map NameWord.capitalize).flatten

/-- The name in the given style; leading underscores stay. -/
def convert (style : NamingStyle) (name : String) : String :=
  let chars := name.toList
  let words := NameWord.split chars
  if style = .off ∨ words.isEmpty then
    name
  else
    String.ofList (chars.takeWhile (· == '_') ++ style.joinWords words)

end NamingStyle

end ZigLint
