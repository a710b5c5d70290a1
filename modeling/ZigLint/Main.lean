import ZigLint.Command.Run

/-!
# The program

The part of the program that touches the world. It takes a snapshot of the files
that a command can see, runs the command on the snapshot, writes the files that
changed and prints what the command answers.
-/

namespace ZigLint.Program

/-- Files that matter in every directory above a target. -/
def landmarks : List String :=
  ConfigSource.fileNames ++ [ConfigSource.projectMarker, ".gitignore", ".ignore"]

/-- The place of an absolute path without detours. -/
def placeOf (path : String) : Place :=
  (Path.steps path).filterMap fun step =>
    match step with
    | .name name => some name
    | _ => none

/-- Add an entry and the directories above it. -/
def addEntry (disk : Disk) (path : String) (entry : DiskEntry) : Disk :=
  let place := placeOf path
  match disk.makeDirectories (Place.path place.dropLast) with
  | .ok disk => disk.put place entry
  | .error _ => disk

/-- The content of a file of the world. -/
def readContent (path : String) : IO Content := do
  let bytes ← IO.FS.readBinFile path
  match String.fromUTF8? bytes with
  | some text => return .text text
  | none => return .binary bytes.toList

/-- Add the file at a path of the world, if there is one. -/
def addFile (disk : Disk) (path : String) : IO Disk := do
  try
    return addEntry disk (← IO.FS.realPath path).toString (.file (← readContent path))
  catch _ =>
    return disk

/-- Add the file or the directory with all its files at a path of the world, if there is one. -/
partial def addTree (disk : Disk) (path : String) : IO Disk := do
  try
    let real ← IO.FS.realPath path
    if ← real.isDir then
      let mut disk := addEntry disk real.toString .directory
      for entry in ← real.readDir do
        let isLink := (← entry.path.symlinkMetadata).type matches .symlink
        if isLink then
          disk ← addFile disk entry.path.toString
        else
          disk ← addTree disk entry.path.toString
      return disk
    else
      addFile disk path
  catch _ =>
    return disk

/-- Add the files that matter in the directories above a target of the world. -/
def addLandmarks (disk : Disk) (target : String) : IO Disk := do
  let real ← try pure (← IO.FS.realPath target).toString catch _ => pure target
  let paths := (Path.ancestors real).flatMap fun directory => landmarks.map (Path.join directory)
  paths.foldlM addFile disk

/-- What a request can see of the world. -/
def snapshot (surroundings : Surroundings) (request : Request) : IO Disk := do
  let here := surroundings.workingDirectory
  let disk ← addFile (addEntry .empty here .directory) (Path.join here Command.configFileName)
  match request with
  | .run { config?, command := .check check } =>
      let target := Path.join here check.path
      let userFiles := surroundings.userDirectory?.toList.map fun directory =>
        Path.join directory ConfigSource.userFileName
      let files := (config?.toList ++ userFiles).map (Path.join here)
      addTree (← addLandmarks (← files.foldlM addFile disk) target) target
  | _ => return disk

/-- Write the files that differ between two disks to the world. -/
def writeChanges (before after : Disk) : IO Unit := do
  for (place, entry) in after.entries do
    if before.entry? place ≠ some entry then
      if let .file (.text text) := entry then
        IO.FS.writeFile place.path text

/-- Where the program has been started. -/
def surroundings : IO Surroundings := do
  let home? ← IO.getEnv "HOME"
  return {
    workingDirectory := (← IO.currentDir).toString
    userDirectory? := (← IO.getEnv "ZLINTER_CONFIG_DIR").or
      (home?.map fun home => Path.join home ".zlinter")
    config? := ← IO.getEnv "ZLINTER_CONFIG"
  }

end ZigLint.Program

open ZigLint in
/-- Run the program. -/
def main (arguments : List String) : IO UInt32 := do
  let surroundings ← Program.surroundings
  let request := Invocation.parse surroundings.config? arguments
  let before ← Program.snapshot surroundings request
  let (outcome, after) := Command.runProgram surroundings arguments before
  Program.writeChanges before after
  IO.print outcome.output
  if let some message := outcome.error? then
    IO.eprintln s!"Error: {message}"
  if request = .misuse then
    IO.eprint Command.usage
  return outcome.exitCode.toUInt32
