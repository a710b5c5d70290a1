import ZigLint.Config.Basic
import ZigLint.Disk.Basic

namespace ZigLint

/-!
# Finding the configuration

The configuration of a target is looked for in its directory and the directories
above. The search ends at the first directory that holds a configuration file,
or at the top of the project, the directory with `build.zig`, so a project never
takes its configuration from outside. A file given explicitly skips the search,
and the configuration of the user is the last resort.
-/

/-- Where a configuration comes from. -/
inductive ConfigSource where
  | explicit (path : String)
  | project (path : String)
  | user (path : String)
  | default
  deriving Repr, DecidableEq

/-- Why a configuration cannot be loaded. -/
inductive ConfigError where
  | unreadable (path : String)
  | malformed (path : String)
  deriving Repr, DecidableEq

namespace ConfigSource

/-- Names of configuration files, the preferred one first. -/
def fileNames : List String :=
  ["zlinter.toml", ".zlinter.toml"]

/-- The file that marks the top of a project. -/
def projectMarker : String := "build.zig"

/-- The name of the configuration file of a user. -/
def userFileName : String := "config.toml"

/-- The file of the configuration. -/
def path? : ConfigSource → Option String
  | .explicit path | .project path | .user path => some path
  | .default => none

/-- The configuration file in the first directory that holds one, up to the top of the project. -/
def nearest? (isFile : String → Bool) : (directories : List String) → Option String
  | [] => none
  | directory :: rest =>
      match (fileNames.map (Path.join directory)).find? isFile with
      | some path => some path
      | none =>
          if isFile (Path.join directory projectMarker) then none else nearest? isFile rest

/-- The configuration file of a user. -/
def userFile? (isFile : String → Bool) (directory? : Option String) : Option String :=
  (directory?.map fun directory => Path.join directory userFileName).filter isFile

/-- The source of a configuration, given the directories to search, nearest first. -/
def resolve
    (isFile : String → Bool)
    (directories : List String)
    (explicit? : Option String)
    (userDirectory? : Option String) :
    ConfigSource :=
  match explicit?, nearest? isFile directories, userFile? isFile userDirectory? with
  | some path, _, _ => .explicit path
  | none, some path, _ => .project path
  | none, none, some path => .user path
  | none, none, none => .default

end ConfigSource

namespace Disk

/--
The directories to search for the configuration of a target, nearest first.

A relative target that does not exist is searched for as it is written.
-/
def searchDirectories (disk : Disk) (workingDirectory target : String) : List String :=
  let target := (disk.canonical? (Path.join workingDirectory target)).getD target
  if disk.isFile (Path.join workingDirectory target) then
    (Path.ancestors target).drop 1
  else
    Path.ancestors target

/-- The source of the configuration of a target. -/
def configSource
    (disk : Disk)
    (workingDirectory target : String)
    (explicit? userDirectory? : Option String) :
    ConfigSource :=
  ConfigSource.resolve (fun path => disk.isFile (Path.join workingDirectory path))
    (disk.searchDirectories workingDirectory target) explicit? userDirectory?

/-- Load a configuration. -/
def loadConfig (disk : Disk) (workingDirectory : String) (source : ConfigSource) :
    Except ConfigError Config :=
  match source.path? with
  | none => .ok {}
  | some path =>
      match disk.read (Path.join workingDirectory path) with
      | .ok (.text text) =>
          match Config.parse? text with
          | some config => .ok config
          | none => .error (.malformed path)
      | _ => .error (.unreadable path)

end Disk

end ZigLint
