import Mathlib.Data.List.Induction
import ZigLint.Proofs.Workspace.Coherence

namespace ZigLint

/-!
# Operations on a workspace

Files are loaded, analyzed and fixed while others write to the disk, and sources
are inserted and trees invalidated in between. Only two things make the cache wrong
about a path: a source that is inserted for it, and a change of its file from the
outside that is not followed by an invalidation. In a run without them every use of
the path works on the file as it is on the disk.
-/

/-- One step in the life of a workspace. -/
inductive Operation where
  /-- Somebody else changes the disk. -/
  | edit (change : Disk → Disk)
  | load (path : String)
  | insertSource (path source : String)
  | invalidate (path : String)
  | analyzeFile (analyzer : Analyzer) (path : String)
  | fixFile (analyzer : Analyzer) (path : String)

namespace Operation

/-- The workspace after an operation, whether it succeeds or fails. -/
def perform (workspace : Workspace) : Operation → Workspace
  | edit change => { workspace with disk := change workspace.disk }
  | load path => (workspace.run (Workspace.load path)).2
  | insertSource path source => (workspace.run (Workspace.insertSource path source)).2
  | invalidate path => (workspace.run (Workspace.forget path)).2
  | analyzeFile analyzer path => (workspace.run (analyzer.analyzeFile path)).2
  | fixFile analyzer path => (workspace.run (analyzer.fixFile path)).2

/-- The workspace after some operations that start with an empty cache. -/
def performAll (start : Disk) (operations : List Operation) : Workspace :=
  operations.foldl perform { disk := start }

/-- The path that an operation is about. -/
def path? : Operation → Option String
  | edit _ => none
  | load path | insertSource path _ | invalidate path => some path
  | analyzeFile _ path | fixFile _ path => some path

/-- The operation loads, analyzes or fixes the file of a path, in whatever spelling. -/
def Uses (path : String) : Operation → Prop
  | load other | analyzeFile _ other | fixFile _ other => Path.steps other = Path.steps path
  | _ => False

/--
The operation may change the file of a path behind its back.

A fix that goes another way to the same place, as along a parent directory, counts
as a change from the outside: it forgets the tree of its own path only.
-/
def Disturbs (path : String) : Operation → Prop
  | edit _ => True
  | fixFile _ other =>
      Path.steps other ≠ Path.steps path ∧ Path.place other = Path.place path
  | _ => False

variable
  {operation : Operation}
  {workspace : Workspace}
  {path other : String}

/-- Loading, analyzing and fixing a file are jobs on it. -/
theorem Uses.exists_job
    (uses : operation.Uses path) :
    ∃ (answers : Type) (job : Job answers), Path.steps job.path = Path.steps path ∧
      ∀ workspace, operation.perform workspace = (workspace.run job.process).2 := by
  cases operation with
  | edit | insertSource | invalidate => exact uses.elim
  | load other =>
      refine ⟨_, .ofLoad other, uses, fun workspace => ?_⟩
      rw [Job.process_ofLoad]
      rfl
  | analyzeFile analyzer other =>
      refine ⟨_, analyzer.analysisJob other, uses, fun workspace => ?_⟩
      rw [Analyzer.process_analysisJob]
      rfl
  | fixFile analyzer other =>
      refine ⟨_, analyzer.fixJob other, uses, fun workspace => ?_⟩
      rw [Analyzer.process_fixJob]
      rfl

/-- An operation changes nothing but the tree and the file of its path. -/
theorem perform_sameOutside
    (isPath : operation.path? = some other) :
    Workspace.SameOutside [other] workspace (operation.perform workspace) := by
  cases operation with
  | edit => cases isPath
  | load =>
      cases isPath
      exact Workspace.LocalTo.load.outside workspace
  | insertSource _ source =>
      cases isPath
      exact (Workspace.LocalTo.insertSource source).outside workspace
  | invalidate =>
      cases isPath
      exact Workspace.LocalTo.forget.outside workspace
  | analyzeFile analyzer =>
      cases isPath
      rw [perform, ← Analyzer.process_analysisJob]
      exact (analyzer.analysisJob other).process_localTo.outside workspace
  | fixFile analyzer =>
      cases isPath
      rw [perform, ← Analyzer.process_fixJob]
      exact (analyzer.fixJob other).process_localTo.outside workspace

/-- An operation on another path leaves the cached tree of a path alone. -/
theorem perform_get?_of_ne
    (elsewhere : ∀ other, operation.path? = some other → Path.steps other ≠ Path.steps path) :
    (operation.perform workspace).cache.get? path = workspace.cache.get? path := by
  cases isPath : operation.path? with
  | none =>
      cases operation with
      | edit => rfl
      | load | insertSource | invalidate | analyzeFile | fixFile => cases isPath
  | some other =>
      apply (perform_sameOutside isPath).trees path
      intro known isOther
      obtain rfl := List.mem_singleton.mp isOther
      exact (elsewhere known isPath).symm

/-- A file is changed by a use of its path or by an operation that disturbs it, and by no other. -/
theorem perform_content?
    (notUsed : ¬ operation.Uses path)
    (notDisturbed : ¬ operation.Disturbs path) :
    (operation.perform workspace).disk.content? (Path.steps path) =
      workspace.disk.content? (Path.steps path) := by
  cases operation with
  | edit => exact absurd trivial notDisturbed
  | load other => rw [perform, Workspace.run_load_disk]
  | insertSource other source =>
      rw [perform, Workspace.insertSource]
      cases SyntaxTree.parse source <;> rfl
  | invalidate other => rfl
  | analyzeFile analyzer other =>
      rw [perform, ← Analyzer.process_analysisJob, Job.process_disk fun _ => rfl]
  | fixFile analyzer other =>
      have otherPlace : Path.place other ≠ Path.place path :=
        fun samePlace => notDisturbed ⟨notUsed, samePlace⟩
      have same :
          Workspace.SameOutside [other] workspace (perform workspace (fixFile analyzer other)) :=
        perform_sameOutside rfl
      apply Disk.content?_congr same.directories
      apply same.entries
      intro known isOther
      obtain rfl := List.mem_singleton.mp isOther
      exact otherPlace.symm

/-- A source that does not parse changes nothing. -/
theorem perform_insertSource_of_error
    {source : String}
    {error : ParseError}
    (malformed : SyntaxTree.parse source = .error error) :
    perform workspace (insertSource other source) = workspace := by
  rw [perform, Workspace.insertSource, malformed]
  rfl

/-- A load that gives no tree changes nothing. -/
theorem perform_load_of_no_tree
    (noTree : ∀ tree, (workspace.run (Workspace.load other)).1 ≠ .ok (some tree)) :
    perform workspace (load other) = workspace := by
  rw [perform]
  rw [Workspace.run_load] at noTree ⊢
  cases cached : workspace.cache.get? other with
  | some tree => rfl
  | none =>
      rw [cached] at noTree
      rcases loaded : workspace.disk.load other with _ | _ | tree
      · rfl
      · rfl
      · exact absurd loaded (noTree tree)

/-- What an operation has to respect for a path to stay coherent. -/
theorem perform_coherent
    (coherent : workspace.Coherent path)
    (notServed :
      ∀ other source, operation = insertSource other source →
        Path.steps other = Path.steps path → ∃ error, SyntaxTree.parse source = .error error)
    (undisturbed :
      operation.Disturbs path →
        (operation.perform workspace).disk.content? (Path.steps path) =
          workspace.disk.content? (Path.steps path)) :
    (operation.perform workspace).Coherent path := by
  by_cases uses : operation.Uses path
  · obtain ⟨_, job, sameSteps, performed⟩ := uses.exists_job
    rw [performed, ← Workspace.Coherent.congr sameSteps]
    exact job.process_coherent ((Workspace.Coherent.congr sameSteps).mpr coherent)
  have sameContent :
      (operation.perform workspace).disk.content? (Path.steps path) =
        workspace.disk.content? (Path.steps path) := by
    by_cases disturbs : operation.Disturbs path
    · exact undisturbed disturbs
    · exact perform_content? uses disturbs
  by_cases elsewhere : ∀ other, operation.path? = some other → Path.steps other ≠ Path.steps path
  · exact coherent.of_same (perform_get?_of_ne elsewhere) sameContent
  push Not at elsewhere
  obtain ⟨other, isPath, sameSteps⟩ := elsewhere
  -- Only insertions and invalidations are left.
  cases operation with
  | edit => cases isPath
  | load | analyzeFile | fixFile =>
      cases isPath
      exact absurd sameSteps uses
  | insertSource known source =>
      cases isPath
      obtain ⟨error, malformed⟩ := notServed other source rfl sameSteps
      rwa [perform_insertSource_of_error malformed]
  | invalidate known =>
      cases isPath
      rw [← Workspace.Coherent.congr sameSteps]
      exact Workspace.coherent_of_get?_eq_none TreeCache.get?_erase_self

/-- The operation disturbs a path and changes its file. -/
def Alters (path : String) (workspace : Workspace) (operation : Operation) : Prop :=
  operation.Disturbs path ∧
    (operation.perform workspace).disk.content? (Path.steps path) ≠
      workspace.disk.content? (Path.steps path)

/--
The cache is told about everything that happens to a path behind its back.

No source is inserted for the path, and a change of its file is followed by an
invalidation before the file is loaded, analyzed or fixed again.
-/
structure Tended (path : String) (start : Disk) (operations : List Operation) : Prop where
  notServed :
    ∀ other source, insertSource other source ∈ operations →
      Path.steps other = Path.steps path → ∃ error, SyntaxTree.parse source = .error error
  invalidated :
    ∀ before change between use after,
      operations = before ++ change :: (between ++ use :: after) →
      change.Alters path (performAll start before) →
      use.Uses path →
      ∃ other, invalidate other ∈ between ∧ Path.steps other = Path.steps path

/-- The file of a path was changed, and its tree was not invalidated since. -/
def Stale (path : String) (start : Disk) (operations : List Operation) : Prop :=
  ∃ before change between,
    operations = before ++ change :: between ∧
      change.Alters path (performAll start before) ∧
      ∀ other, invalidate other ∈ between → Path.steps other ≠ Path.steps path

variable
  {start : Disk}
  {operations before after : List Operation}

theorem performAll_concat :
    performAll start (operations ++ [operation]) =
      operation.perform (performAll start operations) := by
  rw [performAll, List.foldl_append]
  rfl

theorem Stale.concat
    (stale : Stale path start operations)
    (notInvalidated :
      ∀ other, operation = invalidate other → Path.steps other ≠ Path.steps path) :
    Stale path start (operations ++ [operation]) := by
  obtain ⟨before, change, between, rfl, alters, noneBetween⟩ := stale
  refine ⟨before, change, between ++ [operation], by simp, alters, ?_⟩
  intro other member
  rcases List.mem_append.mp member with inBetween | isLast
  · exact noneBetween other inBetween
  · exact notInvalidated other (List.mem_singleton.mp isLast).symm

/-- After each operation the cache is right about a path or waits for an invalidation. -/
theorem coherent_or_stale
    (notServed :
      ∀ other source, insertSource other source ∈ operations →
        Path.steps other = Path.steps path → ∃ error, SyntaxTree.parse source = .error error) :
    (performAll start operations).Coherent path ∨ Stale path start operations := by
  induction operations using List.reverseRecOn with
  | nil => exact .inl (Workspace.coherent_of_get?_eq_none rfl)
  | append_singleton operations operation inductionHypothesis =>
      have notServedBefore := fun other source inserted =>
        notServed other source (List.mem_append_left [operation] inserted)
      rcases inductionHypothesis notServedBefore with coherent | stale
      · by_cases alters : operation.Alters path (performAll start operations)
        · exact .inr ⟨operations, operation, [], rfl, alters, nofun⟩
        · left
          rw [performAll_concat]
          apply perform_coherent coherent
          · rintro other source rfl
            exact notServed other source List.mem_concat_self
          · intro disturbs
            by_contra changed
            exact alters ⟨disturbs, changed⟩
      · by_cases invalidates :
            ∃ other, operation = invalidate other ∧ Path.steps other = Path.steps path
        · obtain ⟨other, rfl, sameSteps⟩ := invalidates
          left
          rw [performAll_concat, ← Workspace.Coherent.congr sameSteps]
          exact Workspace.coherent_of_get?_eq_none TreeCache.get?_erase_self
        · right
          apply stale.concat
          exact fun other isInvalidate sameSteps => invalidates ⟨other, isInvalidate, sameSteps⟩

/-- In a run that is tended, the cache is right about a path whenever the path is used. -/
theorem Tended.coherent
    {use : Operation}
    (tended : Tended path start (before ++ use :: after))
    (uses : use.Uses path) :
    (performAll start before).Coherent path := by
  have notServed := fun other source inserted =>
    tended.notServed other source (List.mem_append_left (use :: after) inserted)
  rcases coherent_or_stale notServed with coherent | stale
  · exact coherent
  · obtain ⟨earlier, change, between, rfl, alters, noneBetween⟩ := stale
    obtain ⟨other, inBetween, sameSteps⟩ :=
      tended.invalidated earlier change between use after (by simp) alters uses
    exact absurd sameSteps (noneBetween other inBetween)

/--
Every use of a path works on the file as it is on the disk.

The run starts with an empty cache, and its operations are about any paths. At a use
of a path that is tended, whatever is loaded, analyzed or fixed is the tree of the file
at that moment, and no tree if the file is missing, is not text or does not parse. A
fix that changes the file is seen by the next use. An operation on another path, a
source that does not parse and a load without a tree leave the cached tree as it is.
-/
theorem uses_current_file
    {use : Operation}
    (tended : Tended path start operations)
    (split : operations = before ++ use :: after)
    (uses : use.Uses path) :
    ((performAll start before).WorksOn path id (Workspace.load path) ∧
      ∀ analyzer : Analyzer,
        (performAll start before).WorksOn path
          (fun tree => analyzer.lint (.ofTree path tree)) (analyzer.analyzeFile path) ∧
        (performAll start before).WorksOn path
          (fun tree => analyzer.fixDocument (.ofTree path tree)) (analyzer.fixFile path) ∧
        ∀ outcome fixed,
          (performAll start before).run (analyzer.fixFile path) = (.ok (some outcome), fixed) →
          outcome.applied ≠ [] →
            fixed.disk.read path = .ok (.text outcome.output) ∧
              (fixed.run (Workspace.load path)).1 =
                .ok (SyntaxTree.parse outcome.output).toOption) ∧
      (∀ workspace operation,
        (∀ other, path? operation = some other → Path.steps other ≠ Path.steps path) →
          (perform workspace operation).cache.get? path = workspace.cache.get? path) ∧
      (∀ workspace other source error, SyntaxTree.parse source = .error error →
        perform workspace (insertSource other source) = workspace) ∧
      (∀ workspace other,
        (∀ tree, (workspace.run (Workspace.load other)).1 ≠ .ok (some tree)) →
          perform workspace (load other) = workspace) := by
  subst split
  have coherent := tended.coherent uses
  refine ⟨⟨?_, fun analyzer => ⟨?_, ?_, ?_⟩⟩, ?_, ?_, ?_⟩
  · rw [← Job.process_ofLoad]
    exact (Job.ofLoad path).process_worksOn coherent
  · rw [← Analyzer.process_analysisJob]
    exact (analyzer.analysisJob path).process_worksOn coherent
  · rw [← Analyzer.process_fixJob]
    exact (analyzer.fixJob path).process_worksOn coherent
  · intro outcome fixed ran applied
    rw [← Analyzer.process_fixJob] at ran
    have rewritten : (analyzer.fixJob path).rewrite? outcome = some outcome.output := by
      simp [Analyzer.fixJob, applied]
    obtain ⟨written, forgotten⟩ := Job.process_rewrites ran rewritten
    refine ⟨written, ?_⟩
    rw [Workspace.run_load, show fixed.cache.get? path = none from forgotten]
    exact Disk.load_of_read_text written
  · exact fun _ _ => perform_get?_of_ne
  · exact fun _ _ _ _ => perform_insertSource_of_error
  · exact fun _ _ => perform_load_of_no_tree

/-- A file is saved while its tree is cached, then invalidated and fixed. -/
theorem uses_current_file_saved :
    ∃ (start : Disk) (change : Disk → Disk) (analyzer : Analyzer),
      Analyzer.build "/" { rules := Rule.builtin } = .ok analyzer ∧
        Tended "/a.zig" start
          [load "/a.zig", edit change, invalidate "/a.zig", fixFile analyzer "/a.zig",
            load "/a.zig"] ∧
          ((performAll start
              [load "/a.zig", edit change, invalidate "/a.zig", fixFile analyzer "/a.zig"]).run
              (Workspace.load "/a.zig")).1.map (Option.map SyntaxTree.source) =
            .ok (some "const MyT = struct { b: u8 };") := by
  let start : Disk := ⟨[(["a.zig"], .file (.text "const a = 1;"))]⟩
  let change (disk : Disk) : Disk :=
    disk.put ["a.zig"] (.file (.text "const my_t = struct { b: u8 };"))
  have tended (analyzer : Analyzer) :
      Tended "/a.zig" start
        ([load "/a.zig", edit change, invalidate "/a.zig", fixFile analyzer "/a.zig"] ++
          [load "/a.zig"]) := by
    constructor
    · intro other source inserted
      simp at inserted
    · intro before altering between use after split alters uses
      -- The second operation is the only one that disturbs the path.
      rcases before with _ | ⟨_, _ | ⟨_, _ | ⟨_, _ | ⟨_, _ | ⟨_, before⟩⟩⟩⟩⟩ <;>
        simp only [List.cons_append, List.nil_append, List.cons.injEq] at split
      · obtain ⟨rfl, -⟩ := split
        exact alters.1.elim
      · rcases between with _ | ⟨_, between⟩ <;>
          simp only [List.cons_append, List.nil_append, List.cons.injEq] at split
        · obtain ⟨-, -, rfl, -⟩ := split
          exact uses.elim
        · obtain ⟨-, -, rfl, -⟩ := split
          exact ⟨"/a.zig", List.mem_cons_self, rfl⟩
      · obtain ⟨-, -, rfl, -⟩ := split
        exact alters.1.elim
      · obtain ⟨-, -, -, rfl, -⟩ := split
        exact absurd rfl alters.1.1
      · obtain ⟨-, -, -, -, rfl, -⟩ := split
        exact alters.1.elim
      · simp at split
  have onDisk :
      ((Analyzer.build "/" { rules := Rule.builtin }).toOption.map fun analyzer =>
        ((performAll start
          [load "/a.zig", edit change, invalidate "/a.zig",
            fixFile analyzer "/a.zig"]).disk.load "/a.zig").map
          (Option.map SyntaxTree.source)) =
        some (.ok (some "const MyT = struct { b: u8 };")) := by
    decide +kernel
  cases built : Analyzer.build "/" { rules := Rule.builtin } with
  | error error =>
      rw [built] at onDisk
      cases onDisk
  | ok analyzer =>
      rw [built] at onDisk
      refine ⟨start, change, analyzer, rfl, tended analyzer, ?_⟩
      rw [(uses_current_file (tended analyzer) rfl rfl).1.1.exact (by decide +kernel),
        Option.map_id, Except.map_id]
      exact Option.some.inj onDisk

end Operation

end ZigLint
