import ZigLint.Path
import ZigLint.Text.Utf8

namespace ZigLint

/-!
# Disks

A disk holds files and directories under absolute paths. Following a path goes
from directory to directory, so it fails where a directory is missing or a file
stands in its place. Names and paths have a greatest length. All paths given to
a disk are absolute.
-/

/-- What a file holds. -/
inductive Content where
  | text (text : String)
  /-- Bytes that are not the encoding of a text. -/
  | binary (bytes : List UInt8)
  deriving Repr, DecidableEq

namespace Content

/-- The text of a file, if it is one. -/
def text? : Content → Option String
  | .text content => some content
  | .binary _ => none

/-- The content as a text to look at; what is no text is shown by replacement characters. -/
def shown : Content → String
  | .text content => content
  | .binary bytes => String.ofList (Text.Utf8.decode bytes)

end Content

/-- An entry of a disk. -/
inductive DiskEntry where
  | file (content : Content)
  | directory
  deriving Repr, DecidableEq

/-- Where an entry is: the names on the way from the top directory. -/
abbrev Place := List String

/-- Why an entry cannot be read or written. -/
inductive AccessFault where
  | notFound
  | notADirectory
  | isADirectory
  /-- A name or the whole path is too long. -/
  | nameTooLong
  /-- The path holds the character that ends a path. -/
  | endMark
  deriving Repr, DecidableEq

namespace AccessFault

/-- The wording of the fault. -/
def message : AccessFault → String
  | .notFound => "No such file or directory (os error 2)"
  | .notADirectory => "Not a directory (os error 20)"
  | .isADirectory => "Is a directory (os error 21)"
  | .nameTooLong => "File name too long (os error 36)"
  | .endMark => "file name contained an unexpected NUL byte"

end AccessFault

/-- A file system: all entries below the top directory, each at its place. -/
structure Disk where
  entries : List (Place × DiskEntry)
  deriving Repr

namespace Place

/-- The absolute path of a place. -/
def path (place : Place) : String :=
  "/" ++ "/".intercalate place

/-- The directories above a place, from the top directory down. -/
def directories (place : Place) : List Place :=
  (List.range place.length).map place.take

end Place

namespace Disk

/-- A disk without entries. -/
def empty : Disk where
  entries := []

/-- The entry at a place; the top directory is always there. -/
def entry? (disk : Disk) (place : Place) : Option DiskEntry :=
  if place = [] then
    some .directory
  else
    (disk.entries.find? fun (known, _) => known == place).map Prod.snd

/-- Set the entry at a place. -/
def put (disk : Disk) (place : Place) (entry : DiskEntry) : Disk where
  entries :=
    if (disk.entry? place).isSome then
      disk.entries.map fun known => if known.1 == place then (place, entry) else known
    else
      disk.entries ++ [(place, entry)]

/-- Remove the entry at a place and everything below it. -/
def erase (disk : Disk) (place : Place) : Disk where
  entries := disk.entries.filter fun (known, _) => !place.isPrefixOf known

/-- Number of bytes that a name may have. -/
def longestName : Nat := 255

/-- Number of bytes that a path may have. -/
def longestPath : Nat := 4095

/-- Check what can be told from the text of a path alone. -/
def checkPath (path : String) : Except AccessFault Unit :=
  if path.toList.any fun char => char.toNat == 0 then .error .endMark
  else if longestPath < path.utf8ByteSize then .error .nameTooLong
  else .ok ()

/-- Check the length of a name. -/
def checkName (name : String) : Except AccessFault Unit :=
  if longestName < name.utf8ByteSize then .error .nameTooLong else .ok ()

/-- Follow steps from a place; the entry they lead to need not exist. -/
def follow (disk : Disk) (place : Place) : List PathStep → Except AccessFault Place
  | [] => .ok place
  | .top :: rest => disk.follow [] rest
  | step :: rest =>
      match disk.entry? place with
      | none => .error .notFound
      | some (.file _) => .error .notADirectory
      | some .directory =>
          match step with
          | .name name => do
              checkName name
              disk.follow (place ++ [name]) rest
          | .parent => disk.follow place.dropLast rest
          | _ => disk.follow place rest

/-- The place that a path leads to; there need not be an entry. -/
def placeOf (disk : Disk) (path : String) : Except AccessFault Place := do
  checkPath path
  disk.follow [] (Path.steps path)

/-- The place and entry that a path names. -/
def locate (disk : Disk) (path : String) : Except AccessFault (Place × DiskEntry) := do
  let place ← disk.placeOf path
  match disk.entry? place with
  | none => throw .notFound
  | some .directory => return (place, .directory)
  | some (.file content) =>
      if Path.namesDirectory path then
        throw .notADirectory
      else
        return (place, .file content)

/-- The path names something. -/
def isPresent (disk : Disk) (path : String) : Bool :=
  (disk.locate path).isOk

/-- The path names a file. -/
def isFile (disk : Disk) (path : String) : Bool :=
  match disk.locate path with
  | .ok (_, .file _) => true
  | _ => false

/-- The path without detours, if it names something. -/
def canonical? (disk : Disk) (path : String) : Option String :=
  (disk.locate path).toOption.map fun (place, _) => place.path

/-- The content of a file. -/
def read (disk : Disk) (path : String) : Except AccessFault Content := do
  match ← disk.locate path with
  | (_, .file content) => return content
  | (_, .directory) => throw .isADirectory

/-- Set the content of a file, which is made if its directory exists. -/
def write (disk : Disk) (path : String) (content : Content) : Except AccessFault Disk := do
  let place ← disk.placeOf path
  match disk.entry? place with
  | some .directory => throw .isADirectory
  | _ =>
      if Path.namesDirectory path then
        throw .isADirectory
      else
        return disk.put place (.file content)

/-- Follow steps from a place, and make the directories that are missing on the way. -/
def makeAlong (disk : Disk) (place : Place) : List PathStep → Except AccessFault Disk
  | [] => .ok disk
  | .top :: rest => disk.makeAlong [] rest
  | .here :: rest => disk.makeAlong place rest
  | .parent :: rest => disk.makeAlong place.dropLast rest
  | .name name :: rest => do
      checkName name
      let next := place ++ [name]
      match disk.entry? next with
      | none => (disk.put next .directory).makeAlong next rest
      | some .directory => disk.makeAlong next rest
      | some (.file _) => throw .notADirectory

/-- Make a directory and all directories above it. -/
def makeDirectories (disk : Disk) (path : String) : Except AccessFault Disk := do
  checkPath path
  disk.makeAlong [] (Path.steps path)

end Disk

end ZigLint
