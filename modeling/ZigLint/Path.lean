namespace ZigLint

/-!
# Paths

A path is a text of names with slashes between them. Two texts name the same
path when they have the same steps: empty names and inner dots do not count. The
directories above a path keep the text of the path.
-/

/-- One step of a path. -/
inductive PathStep where
  /-- To the top directory. -/
  | top
  /-- To where the path starts. -/
  | here
  /-- To the parent directory. -/
  | parent
  /-- To an entry of the directory. -/
  | name (text : String)
  deriving Repr, DecidableEq, Inhabited

namespace PathStep

/-- The step that a name stands for after the first one. -/
def ofName? (name : List Char) : Option PathStep :=
  if name = [] ∨ name = ['.'] then none
  else if name = ['.', '.'] then some .parent
  else some (.name (String.ofList name))

/-- Steps in increasing order of their sort. -/
def rank : PathStep → Nat
  | .top => 0
  | .here => 1
  | .parent => 2
  | .name _ => 3

/-- The text of a step inside a path. -/
def text : PathStep → String
  | .top => ""
  | .here => "."
  | .parent => ".."
  | .name text => text

/-- The order of steps: by sort, then by text. -/
def precedes (left right : PathStep) : Bool :=
  left.rank < right.rank || (left.rank == right.rank && left.text < right.text)

end PathStep

namespace Path

/-- The path starts at the top directory. -/
def isAbsolute (path : String) : Bool :=
  path.toList.head? == some '/'

/-- The steps of a path. -/
def steps (path : String) : List PathStep :=
  match path.toList.splitOn '/' with
  | [] => []
  | first :: rest =>
      let start : List PathStep :=
        if first = [] then
          if rest = [] then [] else [.top]
        else if first = ['.'] then
          [.here]
        else
          (PathStep.ofName? first).toList
      start ++ rest.filterMap PathStep.ofName?

/-- The path that leads from the directory `base` along `path`. -/
def join (base path : String) : String :=
  if isAbsolute path || base.isEmpty then path
  else if base.toList.getLast? = some '/' then base ++ path
  else base ++ "/" ++ path

/-- The start of a path, the top directory or a leading dot, and what follows it. -/
def splitStart : List Char → List Char × List Char
  | '/' :: rest => (['/'], rest)
  | ['.'] => (['.'], [])
  | '.' :: '/' :: rest => (['.'], '/' :: rest)
  | path => ([], path)

/-- A path, given backwards, without the empty names and dots at its end. -/
def dropIdle : (backwards : List Char) → List Char
  | '/' :: rest => dropIdle rest
  | ['.'] => []
  | '.' :: '/' :: rest => dropIdle rest
  | backwards => backwards

theorem length_dropIdle_le (backwards : List Char) :
    (dropIdle backwards).length ≤ backwards.length := by
  fun_induction dropIdle backwards with
  | case1 rest inductionHypothesis => exact Nat.le_succ_of_le inductionHypothesis
  | case2 => exact Nat.zero_le _
  | case3 rest inductionHypothesis =>
      exact Nat.le_succ_of_le (Nat.le_succ_of_le inductionHypothesis)
  | case4 => exact Nat.le_refl _

/--
The directories above a path, nearest first.

The path is given by its start and, backwards, by what follows it. Names are
taken off the end one by one, and what is left stays as it is written.
-/
def above (start backwards : List Char) : List String :=
  match found : dropIdle backwards with
  | [] => if start = ['.'] then [""] else []
  | char :: rest =>
      have whole : (char :: rest).length ≤ backwards.length := found ▸ length_dropIdle_le backwards
      let left := dropIdle (((char :: rest).dropWhile (· != '/')).drop 1)
      String.ofList (start ++ left.reverse) :: above start left
  termination_by backwards.length
  decreasing_by
    have part := length_dropIdle_le (((char :: rest).dropWhile (· != '/')).drop 1)
    have dropped := ((char :: rest).dropWhile_sublist (· != '/')).length_le
    simp only [List.length_cons, List.length_drop] at whole part dropped ⊢
    omega

/-- The path and all directories above it, nearest first. -/
def ancestors (path : String) : List String :=
  let (start, rest) := splitStart path.toList
  path :: above start rest.reverse

/-- The text after the last dot of the last name, unless the dot starts the name. -/
def extension? (path : String) : Option String :=
  match (steps path).getLast? with
  | some (.name name) =>
      let reversed := name.toList.reverse
      match reversed.dropWhile (· != '.') with
      | _ :: _ :: _ => some (String.ofList (reversed.takeWhile (· != '.')).reverse)
      | _ => none
  | _ => none

/-- The path can only name a directory. -/
def namesDirectory (path : String) : Bool :=
  match path.toList.reverse with
  | '/' :: _ | '.' :: '/' :: _ => true
  | _ => false

/-- The order of paths: step by step. -/
def precedes (left right : String) : Bool :=
  go (steps left) (steps right)
where
  /-- The order of lists of steps. -/
  go : List PathStep → List PathStep → Bool
    | [], [] => false
    | [], _ :: _ => true
    | _ :: _, [] => false
    | left :: lefts, right :: rights =>
        left.precedes right || (left = right && go lefts rights)

/-- Paths in order. -/
def sort (paths : List String) : List String :=
  paths.mergeSort fun left right => !precedes right left

end Path

end ZigLint
