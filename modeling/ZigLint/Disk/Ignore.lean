import ZigLint.Disk.Basic
import ZigLint.Glob
import ZigLint.Text.Blank

namespace ZigLint

/-!
# Ignore files

Files named `.ignore` and `.gitignore` list what a walk over the disk leaves out
below their directory. A line is a pattern; `!` in front takes entries back in,
a slash at the end picks directories only, and a slash before the end ties the
pattern to the directory of the file.
-/

/-- A line of an ignore file. -/
structure IgnoreRule where
  /-- The rule takes entries back in. -/
  negated : Bool
  directoriesOnly : Bool
  /-- A pattern for each name of a path; `none` stands for any number of names. -/
  names : List (Option Glob)
  deriving Repr, DecidableEq

namespace IgnoreRule

/-- The names match the patterns one by one. -/
def matchesNames : List (Option Glob) → List String → Bool
  | [], names => names.isEmpty
  | none :: patterns, names =>
      (List.range (names.length + 1)).any fun count => matchesNames patterns (names.drop count)
  | some glob :: patterns, name :: names => glob.isMatch name && matchesNames patterns names
  | some _ :: _, [] => false

/-- The patterns between the slashes of a line. -/
def patterns? (line : List Char) : Option (List (Option Glob)) :=
  (line.splitOn '/').mapM fun part =>
    if part = ['*', '*'] then
      some none
    else
      (Glob.parse? (String.ofList part)).map some

/-- Remove a character from the front of a text, and tell whether it was there. -/
def takeFirst (char : Char) : List Char → Bool × List Char
  | [] => (false, [])
  | first :: rest => if first = char then (true, rest) else (false, first :: rest)

/-- The rule of a line; empty lines and comments have none. -/
def ofLine? (line : String) : Option IgnoreRule := do
  let line := Text.trimEnd line.toList
  if line = [] ∨ line.head? = some '#' then
    none
  else
    let (negated, line) := takeFirst '!' line
    let (_, line) := takeFirst '\\' line
    let (anchored, line) := takeFirst '/' line
    let (directoriesOnly, reversed) := takeFirst '/' line.reverse
    let line := reversed.reverse
    let patterns ← patterns? line
    let anywhere := !anchored && !line.contains '/'
    let inside := patterns.getLast? == some none
    return {
      negated
      directoriesOnly
      names := (if anywhere then [none] else []) ++ patterns
        ++ (if inside then (Glob.parse? "*").toList.map some else [])
    }

/-- The rule is about the entry with the given names below the directory of its file. -/
def isMatch (rule : IgnoreRule) (names : List String) (isDirectory : Bool) : Bool :=
  (!rule.directoriesOnly || isDirectory) && matchesNames rule.names names

end IgnoreRule

namespace Disk

/-- The rules in an ignore file of a directory. -/
def ignoreRules (disk : Disk) (directory : Place) (fileName : String) : List IgnoreRule :=
  match disk.entry? (directory ++ [fileName]) with
  | some (.file (.text text)) =>
      (text.toList.splitOn '\n').filterMap fun line => IgnoreRule.ofLine? (String.ofList line)
  | _ => []

/--
What the ignore files with one name say about an entry.

The nearest file that has a say decides, and in it the last rule that matches.
-/
def ignoreVerdict? (disk : Disk) (fileName : String) (place : Place) (isDirectory : Bool) :
    Option Bool :=
  place.directories.reverse.findSome? fun directory =>
    let names := place.drop directory.length
    let deciding := (disk.ignoreRules directory fileName).reverse.find? fun rule =>
      rule.isMatch names isDirectory
    deciding.map fun rule => !rule.negated

/-- A walk leaves the entry out. -/
def isIgnored (disk : Disk) (respectGitignore : Bool) (place : Place) (isDirectory : Bool) :
    Bool :=
  let gitignore? :=
    if respectGitignore then disk.ignoreVerdict? ".gitignore" place isDirectory else none
  ((disk.ignoreVerdict? ".ignore" place isDirectory).or gitignore?).getD false

/-- The names of all files below a directory that a walk from there finds. -/
def walk (disk : Disk) (respectGitignore : Bool) (directory : Place) : List (List String) :=
  disk.entries.filterMap fun (place, entry) =>
    match entry with
    | .directory => none
    | .file _ =>
        let names := place.drop directory.length
        let isSkipped (count : Nat) : Bool :=
          disk.isIgnored respectGitignore (directory ++ names.take (count + 1))
            (count + 1 < names.length)
        if directory.isPrefixOf place && !(List.range names.length).any isSkipped then
          some names
        else
          none

end Disk

end ZigLint
