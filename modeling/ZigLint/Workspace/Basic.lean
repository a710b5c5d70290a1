import ZigLint.Disk.Basic
import ZigLint.Document

namespace ZigLint

/-!
# Workspaces

A workspace is a disk together with a cache of the syntax trees of its files.
Loading a file takes its tree from the cache and otherwise from the disk; a file
that is missing, is not text or does not parse has no tree, and only trees are
cached. Writing a file leaves the cache alone, so its tree has to be forgotten.
-/

/-- Syntax trees by the steps of their paths. -/
structure TreeCache where
  trees : List (List PathStep × SyntaxTree)

namespace TreeCache

/-- A cache without trees. -/
def empty : TreeCache where
  trees := []

/-- The tree of a path. -/
def get? (cache : TreeCache) (path : String) : Option SyntaxTree :=
  (cache.trees.find? fun (steps, _) => steps == Path.steps path).map Prod.snd

/-- The cache without the tree of a path. -/
def erase (cache : TreeCache) (path : String) : TreeCache where
  trees := cache.trees.filter fun (steps, _) => steps != Path.steps path

/-- The cache with a tree for a path. -/
def insert (cache : TreeCache) (path : String) (tree : SyntaxTree) : TreeCache where
  trees := (Path.steps path, tree) :: (cache.erase path).trees

/-- Number of trees. -/
def size (cache : TreeCache) : Nat :=
  cache.trees.length

end TreeCache

/-- A disk and the trees that were loaded from it. -/
structure Workspace where
  disk : Disk
  cache : TreeCache := .empty

/-- Why files cannot be analyzed. -/
inductive AnalysisError where
  /-- A file cannot be read. -/
  | unreadable (path : String) (fault : AccessFault)
  /-- The root of the analysis is missing. -/
  | noRoot (path : String) (fault : AccessFault)
  /-- A file cannot be written. -/
  | unwritable (path : String) (fault : AccessFault)
  deriving Repr, DecidableEq

namespace AnalysisError

/-- The wording of the error. -/
def message : AnalysisError → String
  | .unreadable path fault => s!"Failed to read {path}: {fault.message}"
  | .noRoot path fault => s!"Failed to walk directory: {path}: {fault.message}"
  | .unwritable _ fault => s!"IO error: {fault.message}"

end AnalysisError

/-- A computation on a workspace that may fail; what it did before it failed stays done. -/
abbrev WorkspaceM := ExceptT AnalysisError (StateM Workspace)

namespace Workspace

/-- The tree in the cache. -/
def lookUp (path : String) : WorkspaceM (Option SyntaxTree) := do
  return (← get).cache.get? path

/-- The tree of a source that is served for a path. -/
def remember (path : String) (tree : SyntaxTree) : WorkspaceM Unit :=
  modify fun workspace => { workspace with cache := workspace.cache.insert path tree }

/-- Serve a source for a path in place of its file; nothing changes if it does not parse. -/
def insertSource (path : String) (source : String) : WorkspaceM (Except ParseError Unit) := do
  match SyntaxTree.parse source with
  | .error error => return .error error
  | .ok tree =>
      remember path tree
      return .ok ()

/-- Drop the tree of a path from the cache. -/
def forget (path : String) : WorkspaceM Unit :=
  modify fun workspace => { workspace with cache := workspace.cache.erase path }

/-- Read and parse a file, and put its tree into the cache. -/
def fetch (path : String) : WorkspaceM (Option SyntaxTree) := do
  match (← get).disk.read path with
  | .error .notFound => return none
  | .error fault => throw (.unreadable path fault)
  | .ok content =>
      match content.text?.map SyntaxTree.parse with
      | some (.ok tree) =>
          remember path tree
          return some tree
      | _ => return none

/-- Replace the content of a file. -/
def writeFile (path : String) (text : String) : WorkspaceM Unit := do
  let workspace ← get
  match workspace.disk.write path (.text text) with
  | .ok disk => set { workspace with disk }
  | .error fault => throw (.unwritable path fault)

/-- The tree of a file. -/
def load (path : String) : WorkspaceM (Option SyntaxTree) := do
  match ← lookUp path with
  | some tree => return some tree
  | none => fetch path

/-- The document of a file. -/
def openDocument (path : String) : WorkspaceM (Option Document) := do
  return (← load path).map (Document.ofTree path)

end Workspace

end ZigLint
