import ZigLint.Proofs.Disk.Way
import ZigLint.Workspace.Analysis

namespace ZigLint

/-!
# Work on one file

What an analyzer does with a file is local to its path: the answer depends on the
cached tree of the path and on the entries along its way, and nothing changes but
the tree of the path and the file at its place. The rule holds for each access to
the cache and to the disk, and it is closed under doing one thing after another.
-/

/-- The tree of the text that a file holds, if it is a text and parses. -/
def Content.tree? (content : Content) : Option SyntaxTree :=
  content.text?.bind fun text => (SyntaxTree.parse text).toOption

/-- What loading a file gives when it has no tree in the cache. -/
def Disk.load (disk : Disk) (path : String) : Except AnalysisError (Option SyntaxTree) :=
  match disk.read path with
  | .ok content => .ok content.tree?
  | .error .notFound => .ok none
  | .error fault => .error (.unreadable path fault)

namespace TreeCache

variable
  {cache : TreeCache}
  {path other : String}
  {tree : SyntaxTree}

theorem get?_congr
    (sameSteps : Path.steps other = Path.steps path) :
    cache.get? other = cache.get? path := by
  rw [get?, get?, sameSteps]

theorem get?_erase_of_ne
    (notPath : Path.steps other ≠ Path.steps path) :
    (cache.erase path).get? other = cache.get? other := by
  rw [get?, get?, erase, List.find?_filter]
  congr 2
  funext known
  by_cases isOther : known.1 = Path.steps other <;> simp [isOther, notPath]

@[simp]
theorem get?_erase_self :
    (cache.erase path).get? path = none := by
  simp [get?, erase, List.find?_filter]

@[simp]
theorem get?_insert_self :
    (cache.insert path tree).get? path = some tree := by
  simp [get?, insert]

theorem get?_insert_of_ne
    (notPath : Path.steps other ≠ Path.steps path) :
    (cache.insert path tree).get? other = cache.get? other := by
  have notThere : (Path.steps path == Path.steps other) = false := by
    simpa using notPath.symm
  rw [get?, insert, List.find?_cons_of_neg (by simpa using notThere)]
  exact get?_erase_of_ne notPath

end TreeCache

namespace Workspace

variable
  {workspace first second third final : Workspace}
  {path other : String}
  {paths : List String}

/-! Running computations. -/

/-- The answer of a computation and the workspace that it leaves. -/
def run (workspace : Workspace) (computation : WorkspaceM α) :
    Except AnalysisError α × Workspace :=
  StateT.run (ExceptT.run computation) workspace

@[simp]
theorem run_pure
    (value : α) :
    workspace.run (pure value) = (.ok value, workspace) :=
  rfl

/-- A computation that fails leaves the rest out. -/
theorem run_bind
    (computation : WorkspaceM α)
    (next : α → WorkspaceM β) :
    workspace.run (computation >>= next) =
      match workspace.run computation with
      | (.ok value, after) => after.run (next value)
      | (.error error, after) => (.error error, after) := by
  unfold run ExceptT.run StateT.run
  simp only [bind, ExceptT.bind, ExceptT.mk, StateT.bind, ExceptT.bindCont]
  cases computation workspace with
  | mk answer after => cases answer <;> rfl

/-- A computation that succeeds has succeeded in its parts. -/
theorem run_bind_eq_ok_iff
    {computation : WorkspaceM α}
    {next : α → WorkspaceM β}
    {result : β} :
    workspace.run (computation >>= next) = (.ok result, final) ↔
      ∃ value after,
        workspace.run computation = (.ok value, after) ∧
          after.run (next value) = (.ok result, final) := by
  rw [run_bind]
  rcases workspace.run computation with ⟨_ | value, after⟩ <;> simp [and_assoc]

@[simp]
theorem run_lookUp :
    workspace.run (lookUp path) = (.ok (workspace.cache.get? path), workspace) :=
  rfl

@[simp]
theorem run_forget :
    workspace.run (forget path) =
      (.ok (), { workspace with cache := workspace.cache.erase path }) :=
  rfl

/-- The workspace with the tree that was loaded for a path in its cache. -/
def keep (workspace : Workspace) (path : String) :
    Except AnalysisError (Option SyntaxTree) → Workspace
  | .ok (some tree) => { workspace with cache := workspace.cache.insert path tree }
  | _ => workspace

theorem run_fetch :
    workspace.run (fetch path) =
      (workspace.disk.load path, workspace.keep path (workspace.disk.load path)) := by
  rw [fetch, run_bind, Disk.load]
  change Workspace.run workspace _ = _
  cases workspace.disk.read path with
  | error fault => cases fault <;> rfl
  | ok content =>
      cases content with
      | binary bytes => rfl
      | text text =>
          simp only [Content.tree?, Content.text?, Option.map_some, Option.bind_some]
          cases SyntaxTree.parse text <;> rfl

theorem run_load :
    workspace.run (load path) =
      match workspace.cache.get? path with
      | some tree => (.ok (some tree), workspace)
      | none => (workspace.disk.load path, workspace.keep path (workspace.disk.load path)) := by
  rw [load, run_bind, run_lookUp]
  cases workspace.cache.get? path with
  | some tree => rfl
  | none => exact run_fetch

theorem run_writeFile
    (text : String) :
    workspace.run (writeFile path text) =
      match workspace.disk.target path with
      | .ok place =>
          (.ok (), { workspace with disk := workspace.disk.put place (.file (.text text)) })
      | .error fault => (.error (.unwritable path fault), workspace) := by
  rw [writeFile, run_bind]
  change Workspace.run workspace _ = _
  rw [Disk.write_eq_map_target]
  cases workspace.disk.target path with
  | ok place => rfl
  | error fault => rfl

/-! Locality. -/

/-- Two workspaces agree on everything that work on a path can depend on. -/
structure AgreeAt (path : String) (first second : Workspace) : Prop where
  tree : second.cache.get? path = first.cache.get? path
  entries : ∀ place ∈ Path.way path, second.disk.entry? place = first.disk.entry? place

/-- A workspace differs from another one at the trees and files of some paths at most. -/
structure SameOutside (paths : List String) (first second : Workspace) : Prop where
  trees :
    ∀ other, (∀ path ∈ paths, Path.steps other ≠ Path.steps path) →
      second.cache.get? other = first.cache.get? other
  entries :
    ∀ place, (∀ path ∈ paths, place ≠ Path.place path) →
      second.disk.entry? place = first.disk.entry? place
  directories :
    ∀ place, second.disk.entry? place = some .directory ↔
      first.disk.entry? place = some .directory

namespace AgreeAt

theorem refl
    (path : String)
    (workspace : Workspace) :
    AgreeAt path workspace workspace :=
  ⟨rfl, fun _ _ => rfl⟩

theorem symm
    (agree : AgreeAt path first second) :
    AgreeAt path second first :=
  ⟨agree.tree.symm, fun place onWay => (agree.entries place onWay).symm⟩

theorem trans
    (agree : AgreeAt path first second)
    (agreeNext : AgreeAt path second third) :
    AgreeAt path first third :=
  ⟨agreeNext.tree.trans agree.tree,
    fun place onWay => (agreeNext.entries place onWay).trans (agree.entries place onWay)⟩

end AgreeAt

namespace SameOutside

theorem refl
    (paths : List String)
    (workspace : Workspace) :
    SameOutside paths workspace workspace :=
  ⟨fun _ _ => rfl, fun _ _ => rfl, fun _ => .rfl⟩

theorem trans
    (same : SameOutside paths first second)
    (sameNext : SameOutside paths second third) :
    SameOutside paths first third where
  trees other outside := (sameNext.trees other outside).trans (same.trees other outside)
  entries place outside := (sameNext.entries place outside).trans (same.entries place outside)
  directories place := (sameNext.directories place).trans (same.directories place)

theorem mono
    {fewer : List String}
    (same : SameOutside fewer first second)
    (more : fewer ⊆ paths) :
    SameOutside paths first second where
  trees other outside := same.trees other fun path isPath => outside path (more isPath)
  entries place outside := same.entries place fun path isPath => outside path (more isPath)
  directories := same.directories

/-- Work on some paths leaves alone a path that is apart from them. -/
theorem agreeAt
    (same : SameOutside paths first second)
    (apart : ∀ other ∈ paths, Path.Apart other path) :
    AgreeAt path first second := by
  constructor
  · apply same.trees
    intro other isOther sameSteps
    apply (apart other isOther).here
    rw [← Path.place_congr sameSteps]
    exact Path.place_mem_way path
  · intro place onWay
    apply same.entries
    rintro other isOther rfl
    exact (apart other isOther).here onWay

end SameOutside

/-- Two runs give the same answer and leave workspaces that agree at a path. -/
structure Alike (path : String) (first second : Except AnalysisError α × Workspace) : Prop where
  answer : second.1 = first.1
  agree : AgreeAt path first.2 second.2

theorem Alike.trans
    {first second third : Except AnalysisError α × Workspace}
    (alike : Alike path first second)
    (alikeNext : Alike path second third) :
    Alike path first third :=
  ⟨alikeNext.answer.trans alike.answer, alike.agree.trans alikeNext.agree⟩

/-- A computation depends on one path and changes nothing but what belongs to it. -/
structure LocalTo (path : String) (computation : WorkspaceM α) : Prop where
  alike :
    ∀ {first second}, AgreeAt path first second →
      Alike path (first.run computation) (second.run computation)
  outside : ∀ workspace, SameOutside [path] workspace (workspace.run computation).2

theorem keep_agreeAt
    (agree : AgreeAt path first second)
    (loaded : Except AnalysisError (Option SyntaxTree)) :
    AgreeAt path (first.keep path loaded) (second.keep path loaded) := by
  rcases loaded with _ | _ | tree
  · exact agree
  · exact agree
  · exact ⟨by simp [keep], agree.entries⟩

theorem keep_sameOutside
    (loaded : Except AnalysisError (Option SyntaxTree)) :
    SameOutside [path] workspace (workspace.keep path loaded) := by
  rcases loaded with _ | _ | tree
  · exact .refl ..
  · exact .refl ..
  · refine ⟨?_, fun _ _ => rfl, fun _ => .rfl⟩
    intro other outside
    exact TreeCache.get?_insert_of_ne (outside path List.mem_cons_self)

theorem put_agreeAt
    (agree : AgreeAt path first second)
    (entry : DiskEntry) :
    AgreeAt path { first with disk := first.disk.put (Path.place path) entry }
      { second with disk := second.disk.put (Path.place path) entry } := by
  refine ⟨agree.tree, ?_⟩
  intro place onWay
  by_cases isTop : place = []
  · rw [isTop]
    rfl
  by_cases isTarget : place = Path.place path
  · subst isTarget
    exact (Disk.entry?_put_self isTop).trans (Disk.entry?_put_self isTop).symm
  · calc
      _ = second.disk.entry? place := Disk.entry?_put_of_ne isTarget
      _ = first.disk.entry? place := agree.entries place onWay
      _ = _ := (Disk.entry?_put_of_ne isTarget).symm

theorem put_sameOutside
    {content : Content}
    (noDirectory : workspace.disk.entry? (Path.place path) ≠ some .directory) :
    SameOutside [path] workspace
      { workspace with disk := workspace.disk.put (Path.place path) (.file content) } where
  trees _ _ := rfl
  entries _ outside := Disk.entry?_put_of_ne (outside path List.mem_cons_self)
  directories _ := Disk.entry?_put_file_eq_directory_iff noDirectory

namespace LocalTo

theorem pure
    (value : α) :
    LocalTo path (Pure.pure value) where
  alike agree := ⟨rfl, agree⟩
  outside workspace := .refl [path] workspace

theorem bind
    {computation : WorkspaceM α}
    {next : α → WorkspaceM β}
    (localFirst : LocalTo path computation)
    (localNext : ∀ value, LocalTo path (next value)) :
    LocalTo path (computation >>= next) := by
  constructor
  · intro first second agree
    have alikeFirst := localFirst.alike agree
    rw [run_bind, run_bind]
    cases ranFirst : first.run computation with
    | mk answer after =>
        cases ranSecond : second.run computation with
        | mk answer' after' =>
            rw [ranFirst, ranSecond] at alikeFirst
            obtain rfl : answer' = answer := alikeFirst.answer
            cases answer' with
            | error error => exact ⟨rfl, alikeFirst.agree⟩
            | ok value => exact (localNext value).alike alikeFirst.agree
  · intro workspace
    have outsideFirst := localFirst.outside workspace
    rw [run_bind]
    cases ran : workspace.run computation with
    | mk answer after =>
        rw [ran] at outsideFirst
        cases answer with
        | error error => exact outsideFirst
        | ok value => exact outsideFirst.trans ((localNext value).outside after)

theorem lookUp :
    LocalTo path (lookUp path) where
  alike agree := ⟨congrArg Except.ok agree.tree, agree⟩
  outside workspace := .refl [path] workspace

theorem forget :
    LocalTo path (forget path) where
  alike agree := ⟨rfl, by simp, agree.entries⟩
  outside workspace := by
    refine ⟨?_, fun _ _ => rfl, fun _ => .rfl⟩
    intro other outside
    exact TreeCache.get?_erase_of_ne (outside path List.mem_cons_self)

theorem remember
    (tree : SyntaxTree) :
    LocalTo path (remember path tree) where
  alike agree := ⟨rfl, keep_agreeAt agree (.ok (some tree))⟩
  outside _ := keep_sameOutside (.ok (some tree))

theorem insertSource
    (source : String) :
    LocalTo path (insertSource path source) := by
  rw [Workspace.insertSource]
  cases SyntaxTree.parse source with
  | error error => exact .pure _
  | ok tree =>
      apply (remember tree).bind
      intro _
      exact .pure _

theorem fetch :
    LocalTo path (fetch path) := by
  constructor
  · intro first second agree
    have sameLoad : second.disk.load path = first.disk.load path := by
      rw [Disk.load, Disk.load, Disk.read_congr agree.entries]
    rw [run_fetch, run_fetch, sameLoad]
    exact ⟨rfl, keep_agreeAt agree _⟩
  · intro workspace
    rw [run_fetch]
    exact keep_sameOutside _

theorem writeFile
    (text : String) :
    LocalTo path (writeFile path text) := by
  constructor
  · intro first second agree
    rw [run_writeFile, run_writeFile, Disk.target_congr agree.entries]
    cases found : first.disk.target path with
    | error fault => exact ⟨rfl, agree⟩
    | ok place =>
        obtain rfl := Disk.eq_of_target_eq_ok found
        exact ⟨rfl, put_agreeAt agree _⟩
  · intro workspace
    rw [run_writeFile]
    cases found : workspace.disk.target path with
    | error fault => exact .refl [path] workspace
    | ok place =>
        obtain rfl := Disk.eq_of_target_eq_ok found
        exact put_sameOutside (Disk.target_eq_ok_iff.mp found).2.2

theorem load :
    LocalTo path (load path) := by
  apply lookUp.bind
  intro cached
  cases cached with
  | some tree => exact .pure (some tree)
  | none => exact fetch

end LocalTo

end Workspace

end ZigLint
