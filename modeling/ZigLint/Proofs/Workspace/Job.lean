import ZigLint.Proofs.Workspace.Locality

namespace ZigLint

/-!
# Jobs

What is done with a file is a job: its tree is loaded, some work is done on the
tree, and the file is rewritten if the work asks for it. Loading, analyzing and
fixing a file are jobs. A job can be taken step by step, and each step is one
access to the cache or to the disk.
-/

/-- Work on the tree of one file, and the text that replaces the file if the work asks for it. -/
structure Job (α : Type) where
  path : String
  work : SyntaxTree → α
  rewrite? : α → Option String

namespace Job

/--
Work on the tree that was loaded; a file without a tree has no answer.

What the work asks for is written, and the tree of a file that was written is forgotten.
-/
def finish (job : Job α) : Option SyntaxTree → WorkspaceM (Option α)
  | none => return none
  | some tree =>
      match job.rewrite? (job.work tree) with
      | none => return some (job.work tree)
      | some text => do
          Workspace.writeFile job.path text
          Workspace.forget job.path
          return some (job.work tree)

/-- Load the tree of the file and work on it. -/
def process (job : Job α) : WorkspaceM (Option α) := do
  job.finish (← Workspace.load job.path)

theorem finish_localTo
    (job : Job α)
    (tree? : Option SyntaxTree) :
    Workspace.LocalTo job.path (job.finish tree?) := by
  cases tree? with
  | none => exact .pure none
  | some tree =>
      rw [finish]
      cases job.rewrite? (job.work tree) with
      | none => exact .pure (some (job.work tree))
      | some text =>
          apply (Workspace.LocalTo.writeFile text).bind
          intro _
          exact Workspace.LocalTo.forget.bind fun _ => .pure _

theorem process_localTo
    (job : Job α) :
    Workspace.LocalTo job.path job.process :=
  Workspace.LocalTo.load.bind job.finish_localTo

/-- Loading a tree for its own sake. -/
def ofLoad (path : String) : Job SyntaxTree where
  path
  work := id
  rewrite? _ := none

theorem process_ofLoad
    (path : String) :
    (ofLoad path).process = Workspace.load path := by
  refine Eq.trans (bind_congr ?_) (bind_pure _)
  intro tree?
  cases tree? <;> rfl

end Job

namespace Analyzer

variable {analyzer : Analyzer} {path : String}

/-- The analysis of one file. -/
def analysisJob (analyzer : Analyzer) (path : String) : Job LintResult where
  path
  work tree := analyzer.lint (.ofTree path tree)
  rewrite? _ := none

/-- The fixes for one file. -/
def fixJob (analyzer : Analyzer) (path : String) : Job FixOutcome where
  path
  work tree := analyzer.fixDocument (.ofTree path tree)
  rewrite? outcome := if outcome.applied.isEmpty then none else some outcome.output

theorem process_analysisJob :
    (analyzer.analysisJob path).process = analyzer.analyzeFile path := by
  rw [analyzeFile, Workspace.openDocument, bind_assoc]
  apply bind_congr
  intro tree?
  rw [pure_bind]
  cases tree? <;> rfl

theorem process_fixJob :
    (analyzer.fixJob path).process = analyzer.fixFile path := by
  rw [fixFile, Workspace.openDocument, bind_assoc]
  apply bind_congr
  intro tree?
  rw [pure_bind]
  cases tree? with
  | none => rfl
  | some tree =>
      simp only [Option.map_some, Job.finish, fixJob]
      cases (analyzer.fixDocument (.ofTree path tree)).applied.isEmpty <;> rfl

end Analyzer

/-- What a job does next, or its answer. -/
inductive Stage (α : Type) where
  | lookUp
  | fetch
  | write (text : String) (answer : α)
  | forget (answer : α)
  | done (answer : Option α)

/-- Number of steps that are left at most. -/
def Stage.stepsLeft : Stage α → Nat
  | .lookUp => 4
  | .fetch => 3
  | .write _ _ => 2
  | .forget _ => 1
  | .done _ => 0

namespace Job

/-- What a job does once it knows whether the file has a tree. -/
def stageOf (job : Job α) : Option SyntaxTree → Stage α
  | none => .done none
  | some tree =>
      match job.rewrite? (job.work tree) with
      | none => .done (some (job.work tree))
      | some text => .write text (job.work tree)

/-- One step of a job: one access to the cache or to the disk. -/
def step (job : Job α) : Stage α → WorkspaceM (Stage α)
  | .lookUp => do
      match ← Workspace.lookUp job.path with
      | none => return .fetch
      | some tree => return job.stageOf (some tree)
  | .fetch => do
      return job.stageOf (← Workspace.fetch job.path)
  | .write text answer => do
      Workspace.writeFile job.path text
      return .forget answer
  | .forget answer => do
      Workspace.forget job.path
      return .done (some answer)
  | .done answer => return .done answer

/-- All that is left of a job. -/
def rest (job : Job α) : Stage α → WorkspaceM (Option α)
  | .lookUp => job.process
  | .fetch => do
      job.finish (← Workspace.fetch job.path)
  | .write text answer => do
      Workspace.writeFile job.path text
      Workspace.forget job.path
      return some answer
  | .forget answer => do
      Workspace.forget job.path
      return some answer
  | .done answer => return answer

theorem rest_stageOf
    (job : Job α)
    (tree? : Option SyntaxTree) :
    job.rest (job.stageOf tree?) = job.finish tree? := by
  cases tree? with
  | none => rfl
  | some tree =>
      rw [stageOf, finish]
      cases job.rewrite? (job.work tree) <;> rfl

/-- What is left of a job is its next step and what is left then. -/
theorem rest_eq_step_bind
    (job : Job α)
    (stage : Stage α) :
    job.rest stage = job.step stage >>= job.rest := by
  cases stage with
  | lookUp =>
      rw [rest, process, Workspace.load, step, bind_assoc, bind_assoc]
      apply bind_congr
      intro cached
      cases cached with
      | none => rfl
      | some tree => rw [pure_bind, pure_bind, rest_stageOf]
  | fetch =>
      rw [rest, step, bind_assoc]
      apply bind_congr
      intro tree?
      rw [pure_bind, rest_stageOf]
  | write text answer =>
      rw [rest, step, bind_assoc]
      rfl
  | forget answer =>
      rw [rest, step, bind_assoc]
      rfl
  | done answer => rfl

theorem stepsLeft_stageOf_le
    (job : Job α)
    (tree? : Option SyntaxTree) :
    (job.stageOf tree?).stepsLeft ≤ 2 := by
  cases tree? with
  | none => exact Nat.zero_le 2
  | some tree =>
      rw [stageOf]
      cases job.rewrite? (job.work tree) with
      | none => exact Nat.zero_le 2
      | some text => exact Nat.le_refl 2

/-- Every step brings a job nearer to its answer. -/
theorem stepsLeft_step_le
    {job : Job α}
    {stage next : Stage α}
    {workspace after : Workspace}
    (ran : workspace.run (job.step stage) = (.ok next, after)) :
    next.stepsLeft ≤ stage.stepsLeft - 1 := by
  cases stage with
  | lookUp =>
      obtain ⟨cached, between, -, ran⟩ := Workspace.run_bind_eq_ok_iff.mp ran
      cases cached with
      | none =>
          cases ran
          exact Nat.le_refl 3
      | some tree =>
          cases ran
          exact Nat.le_succ_of_le (job.stepsLeft_stageOf_le (some tree))
  | fetch =>
      obtain ⟨tree?, between, -, ran⟩ := Workspace.run_bind_eq_ok_iff.mp ran
      cases ran
      exact job.stepsLeft_stageOf_le tree?
  | write text answer =>
      obtain ⟨_, between, -, ran⟩ := Workspace.run_bind_eq_ok_iff.mp ran
      cases ran
      exact Nat.le_refl 1
  | forget answer =>
      cases ran
      exact Nat.le_refl 0
  | done answer =>
      cases ran
      exact Nat.le_refl 0

theorem step_localTo
    (job : Job α)
    (stage : Stage α) :
    Workspace.LocalTo job.path (job.step stage) := by
  cases stage with
  | lookUp =>
      apply Workspace.LocalTo.lookUp.bind
      intro cached
      cases cached <;> exact .pure _
  | fetch => exact Workspace.LocalTo.fetch.bind fun _ => .pure _
  | write text answer => exact (Workspace.LocalTo.writeFile text).bind fun _ => .pure _
  | forget answer => exact Workspace.LocalTo.forget.bind fun _ => .pure _
  | done answer => exact .pure _

theorem rest_localTo
    (job : Job α)
    (stage : Stage α) :
    Workspace.LocalTo job.path (job.rest stage) := by
  cases stage with
  | lookUp => exact job.process_localTo
  | fetch => exact Workspace.LocalTo.fetch.bind job.finish_localTo
  | write text answer =>
      apply (Workspace.LocalTo.writeFile text).bind
      intro _
      exact Workspace.LocalTo.forget.bind fun _ => .pure _
  | forget answer => exact Workspace.LocalTo.forget.bind fun _ => .pure _
  | done answer => exact .pure answer

end Job

end ZigLint
