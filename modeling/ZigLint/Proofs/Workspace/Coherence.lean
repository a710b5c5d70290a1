import ZigLint.Proofs.Workspace.Job

namespace ZigLint

/-!
# Coherence of the cache

A path is coherent if its cached tree is the tree of the file on the disk. A job on
a coherent path works on that tree, as if there were no cache, and leaves the path
coherent: loading puts the tree of the file into the cache, and a file that was
rewritten has its tree forgotten.
-/

/-- The tree of the file that a path names, if the file holds a text that parses. -/
def Disk.tree? (disk : Disk) (path : String) : Option SyntaxTree :=
  (disk.content? (Path.steps path)).bind Content.tree?

namespace Disk

variable {disk : Disk} {path : String}

/-- What is loaded from the disk is the tree of the file, however its path is spelled. -/
theorem eq_tree?_of_load_eq_ok
    {found : Option SyntaxTree}
    (loaded : disk.load path = .ok found) :
    found = disk.tree? path := by
  rw [load] at loaded
  rw [tree?]
  split at loaded
  · rename_i content present
    rw [(read_eq_ok_iff.mp present).2]
    exact (Except.ok.inj loaded).symm
  · rename_i missing
    rw [content?_eq_none_of_notFound missing]
    exact (Except.ok.inj loaded).symm
  · cases loaded

theorem load_of_read_text
    {text : String}
    (found : disk.read path = .ok (.text text)) :
    disk.load path = .ok (SyntaxTree.parse text).toOption := by
  rw [load, found]
  rfl

/-- A file with a tree is loaded from the disk if its path can name a file. -/
theorem load_of_tree?
    {tree : SyntaxTree}
    (canName : Path.canNameFile path = true)
    (onDisk : disk.tree? path = some tree) :
    disk.load path = .ok (some tree) := by
  obtain ⟨content, present, hasTree⟩ := Option.bind_eq_some_iff.mp onDisk
  rw [load, read_eq_ok_iff.mpr ⟨canName, present⟩, ← hasTree]

end Disk

namespace Workspace

variable
  {workspace after : Workspace}
  {path other : String}

/-- The cached tree of a path, if there is one, is the tree of its file. -/
def Coherent (path : String) (workspace : Workspace) : Prop :=
  ∀ tree, workspace.cache.get? path = some tree → workspace.disk.tree? path = some tree

/--
A computation works on the tree of the file that is on the disk.

Loading goes through the text of a path: a text that cannot name a file, as one that
ends with a slash, is refused by the disk while the cache takes it for its path.
What is answered is about the tree of the file in any case.
-/
structure WorksOn (workspace : Workspace) (path : String) (work : SyntaxTree → α)
    (computation : WorkspaceM (Option α)) : Prop where
  exact :
    Path.canNameFile path = true →
      (workspace.run computation).1 = (workspace.disk.load path).map (Option.map work)
  sound :
    ∀ answer, (workspace.run computation).1 = .ok answer →
      answer = (workspace.disk.tree? path).map work

theorem Coherent.congr
    (sameSteps : Path.steps other = Path.steps path) :
    workspace.Coherent other ↔ workspace.Coherent path := by
  rw [Coherent, Coherent, TreeCache.get?_congr sameSteps, Disk.tree?, Disk.tree?, sameSteps]

theorem Coherent.of_same
    (coherent : workspace.Coherent path)
    (sameTree : after.cache.get? path = workspace.cache.get? path)
    (sameContent :
      after.disk.content? (Path.steps path) = workspace.disk.content? (Path.steps path)) :
    after.Coherent path := by
  rw [Coherent, sameTree, Disk.tree?, sameContent]
  exact coherent

theorem coherent_of_get?_eq_none
    (notCached : workspace.cache.get? path = none) :
    workspace.Coherent path := by
  intro tree cached
  rw [notCached] at cached
  cases cached

/-! Loading a coherent file. -/

theorem keep_disk
    (loaded : Except AnalysisError (Option SyntaxTree)) :
    (workspace.keep path loaded).disk = workspace.disk := by
  rcases loaded with _ | _ | tree <;> rfl

theorem run_load_disk :
    (workspace.run (load path)).2.disk = workspace.disk := by
  rw [run_load]
  cases workspace.cache.get? path with
  | some tree => rfl
  | none => exact keep_disk _

theorem Coherent.load
    (coherent : workspace.Coherent path) :
    (workspace.run (load path)).2.Coherent path := by
  rw [run_load]
  cases cached : workspace.cache.get? path with
  | some tree => exact coherent
  | none =>
      rcases loaded : workspace.disk.load path with _ | _ | tree
      · exact coherent
      · exact coherent
      · intro kept isKept
        obtain rfl : tree = kept := by simpa [keep] using isKept
        exact (Disk.eq_tree?_of_load_eq_ok loaded).symm

theorem Coherent.eq_tree?_of_load
    {found : Option SyntaxTree}
    (coherent : workspace.Coherent path)
    (loaded : (workspace.run (Workspace.load path)).1 = .ok found) :
    found = workspace.disk.tree? path := by
  rw [run_load] at loaded
  cases cached : workspace.cache.get? path with
  | some tree =>
      rw [cached] at loaded
      rw [coherent tree cached]
      exact (Except.ok.inj loaded).symm
  | none =>
      rw [cached] at loaded
      exact Disk.eq_tree?_of_load_eq_ok loaded

theorem Coherent.load_eq
    (coherent : workspace.Coherent path)
    (canName : Path.canNameFile path = true) :
    (workspace.run (Workspace.load path)).1 = workspace.disk.load path := by
  rw [run_load]
  cases cached : workspace.cache.get? path with
  | some tree => exact (Disk.load_of_tree? canName (coherent tree cached)).symm
  | none => rfl

end Workspace

namespace Job

open Workspace

variable
  {job : Job α}
  {workspace after : Workspace}
  {tree? : Option SyntaxTree}
  {answer : Option α}

theorem run_finish
    (tree : SyntaxTree) :
    workspace.run (job.finish (some tree)) =
      match job.rewrite? (job.work tree) with
      | none => (.ok (some (job.work tree)), workspace)
      | some text =>
          match workspace.disk.target job.path with
          | .error fault => (.error (.unwritable job.path fault), workspace)
          | .ok place =>
              (.ok (some (job.work tree)), {
                disk := workspace.disk.put place (.file (.text text))
                cache := workspace.cache.erase job.path }) := by
  rw [finish]
  cases job.rewrite? (job.work tree) with
  | none => rfl
  | some text =>
      simp only [run_bind, run_writeFile]
      cases workspace.disk.target job.path <;> rfl

theorem eq_of_finish_eq_ok
    (finished : (workspace.run (job.finish tree?)).1 = .ok answer) :
    answer = tree?.map job.work := by
  cases tree? with
  | none => exact (Except.ok.inj finished).symm
  | some tree =>
      rw [run_finish] at finished
      split at finished
      · exact (Except.ok.inj finished).symm
      · split at finished
        · cases finished
        · exact (Except.ok.inj finished).symm

theorem finish_coherent
    (coherent : workspace.Coherent job.path) :
    (workspace.run (job.finish tree?)).2.Coherent job.path := by
  cases tree? with
  | none => exact coherent
  | some tree =>
      rw [run_finish]
      split
      · exact coherent
      · split
        · exact coherent
        · exact coherent_of_get?_eq_none TreeCache.get?_erase_self

/-- A job leaves a coherent path coherent: what it writes, it forgets. -/
theorem process_coherent
    (coherent : workspace.Coherent job.path) :
    (workspace.run job.process).2.Coherent job.path := by
  have coherentLoaded := coherent.load
  rw [process, run_bind]
  split
  · rename_i ran
    rw [ran] at coherentLoaded
    exact finish_coherent coherentLoaded
  · rename_i ran
    rwa [ran] at coherentLoaded

/-- A file whose tree is on the disk can be written if its path can name a file. -/
theorem finish_eq_ok
    (canName : Path.canNameFile job.path = true)
    (onDisk : tree? = workspace.disk.tree? job.path) :
    (workspace.run (job.finish tree?)).1 = .ok (tree?.map job.work) := by
  cases tree? with
  | none => rfl
  | some tree =>
      obtain ⟨content, present, -⟩ := Option.bind_eq_some_iff.mp onDisk.symm
      rw [run_finish, Disk.target_of_content? canName present]
      split <;> rfl

theorem process_worksOn
    (job : Job α)
    (coherent : workspace.Coherent job.path) :
    workspace.WorksOn job.path job.work job.process := by
  constructor
  · intro canName
    rw [← coherent.load_eq canName, process, run_bind]
    split
    · rename_i tree? loaded ran
      have sameDisk : loaded.disk = workspace.disk :=
        (congrArg (fun run => run.2.disk) ran).symm.trans run_load_disk
      rw [ran]
      apply finish_eq_ok canName
      rw [sameDisk]
      exact coherent.eq_tree?_of_load (congrArg Prod.fst ran)
    · rename_i ran
      rw [ran]
      rfl
  · intro answer answered
    rw [process, run_bind] at answered
    split at answered
    · rename_i ran
      rw [← coherent.eq_tree?_of_load (congrArg Prod.fst ran)]
      exact eq_of_finish_eq_ok answered
    · cases answered

theorem process_disk
    (rewritesNothing : ∀ answer, job.rewrite? answer = none) :
    (workspace.run job.process).2.disk = workspace.disk := by
  have sameDisk : (workspace.run (load job.path)).2.disk = workspace.disk := run_load_disk
  rw [process, run_bind]
  split
  · rename_i tree? loaded ran
    rw [ran] at sameDisk
    cases tree? with
    | none => exact sameDisk
    | some tree => rwa [run_finish, rewritesNothing]
  · rename_i ran
    rwa [ran] at sameDisk

/-- A file that a job rewrites holds the new text, and its old tree is forgotten. -/
theorem process_rewrites
    {given : α}
    {text : String}
    (processed : workspace.run job.process = (.ok (some given), after))
    (rewritten : job.rewrite? given = some text) :
    after.disk.read job.path = .ok (.text text) ∧ after.cache.get? job.path = none := by
  obtain ⟨tree?, loaded, -, finished⟩ := run_bind_eq_ok_iff.mp processed
  obtain ⟨tree, rfl, rfl⟩ :=
    Option.map_eq_some_iff.mp (eq_of_finish_eq_ok (congrArg Prod.fst finished)).symm
  rw [run_finish, rewritten] at finished
  cases found : loaded.disk.target job.path with
  | error fault =>
      rw [found] at finished
      cases finished
  | ok place =>
      rw [found] at finished
      cases finished
      refine ⟨Disk.read_eq_ok_iff.mpr ⟨?_, Disk.content?_put_target found⟩, ?_⟩
      · exact (Disk.target_eq_ok_iff.mp found).1
      · exact TreeCache.get?_erase_self

end Job

end ZigLint
