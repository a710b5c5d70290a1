import ZigLint.Proofs.Workspace.Job

namespace ZigLint

/-!
# Interleaved work on files

Files are processed by workers that share one disk and one cache. A worker takes
its job step by step, and the steps of the workers can come in any order. Each
step is local to the path of its worker, so it commutes with what the others do
as long as their paths name different files: every worker ends as if it were
alone, and so does the whole run, whatever the schedule.
-/

/-- A job and how far it is. -/
structure Worker (α : Type) where
  job : Job α
  stage : Stage α

namespace Worker

/-- A worker that starts its job. -/
def start (job : Job α) : Worker α where
  job
  stage := .lookUp

/-- The answer of a worker that is done. -/
def answer? (worker : Worker α) : Option (Option α) :=
  match worker.stage with
  | .done answer => some answer
  | _ => none

theorem answer?_eq_some_iff
    {worker : Worker α}
    {answer : Option α} :
    worker.answer? = some answer ↔ worker.stage = .done answer := by
  rw [answer?]
  cases worker.stage <;> simp

end Worker

namespace Workspace

/-- One worker takes a step; there is no next state if the worker is unknown or the step fails. -/
def turn (workspace : Workspace) (workers : List (Worker α)) (index : Nat) :
    Option (List (Worker α) × Workspace) :=
  match workers[index]? with
  | none => none
  | some worker =>
      match workspace.run (worker.job.step worker.stage) with
      | (.ok stage, after) => some (workers.set index { worker with stage }, after)
      | (.error _, _) => none

/--
The workers take turns by a schedule.

The answers come in the order of the workers. There is no outcome if a step fails or
if a worker is not done at the end.
-/
def interleave (workspace : Workspace) (workers : List (Worker α)) :
    (schedule : List Nat) → Option (List (Option α) × Workspace)
  | [] => (workers.mapM Worker.answer?).map fun answers => (answers, workspace)
  | index :: schedule => do
      let (workers, workspace) ← workspace.turn workers index
      interleave workspace workers schedule

variable
  {workspace start final after now : Workspace}
  {workers nextWorkers : List (Worker α)}
  {jobs : List (Job α)}
  {answers : List (Option α)}
  {path : String}

/-- Two workspaces have the same trees and the same entries. -/
structure Same (first second : Workspace) : Prop where
  trees : ∀ path, second.cache.get? path = first.cache.get? path
  entries : ∀ place, second.disk.entry? place = first.disk.entry? place

/-- What a turn does: one worker goes to its next stage, and the others stay where they are. -/
theorem turn_eq_some
    {index : Nat}
    (turned : workspace.turn workers index = some (nextWorkers, after)) :
    ∃ before worker stage others,
      workers = before ++ worker :: others ∧
        nextWorkers = before ++ { worker with stage } :: others ∧
        workspace.run (worker.job.step worker.stage) = (.ok stage, after) := by
  rw [turn] at turned
  split at turned
  · cases turned
  · rename_i worker found
    split at turned
    · rename_i stage _ ran
      cases turned
      obtain ⟨inRange, isWorker⟩ := List.getElem?_eq_some_iff.mp found
      refine ⟨workers.take index, worker, stage, workers.drop (index + 1), ?_, ?_, ran⟩
      · rw [← isWorker, List.getElem_cons_drop, List.take_append_drop]
      · rw [List.set_eq_take_append_cons_drop, if_pos inRange]
    · cases turned

/-- Every worker is where it would be if it were alone, and nothing else has changed. -/
structure Underway (start : Workspace) (workers : List (Worker α)) (now : Workspace) : Prop where
  alike :
    ∀ worker ∈ workers,
      Alike worker.job.path (start.run worker.job.process)
        (now.run (worker.job.rest worker.stage))
  outside : SameOutside ((workers.map Worker.job).map Job.path) start now

theorem underway_start :
    Underway start (jobs.map Worker.start) start where
  alike := by
    intro worker isWorker
    obtain ⟨job, -, rfl⟩ := List.mem_map.mp isWorker
    exact ⟨rfl, .refl ..⟩
  outside := .refl ..

/-- A turn leaves every worker where it would be if it were alone. -/
theorem Underway.turn
    {index : Nat}
    (underway : Underway start workers now)
    (apart : ((workers.map Worker.job).map Job.path).Pairwise Path.Apart)
    (turned : now.turn workers index = some (nextWorkers, after)) :
    Underway start nextWorkers after ∧
      nextWorkers.map Worker.job = workers.map Worker.job := by
  obtain ⟨before, worker, stage, others, rfl, rfl, ran⟩ := turn_eq_some turned
  have stepOutside : SameOutside [worker.job.path] now after := by
    have outside := (worker.job.step_localTo worker.stage).outside now
    rwa [ran] at outside
  have apartFrom : ∀ other ∈ before ++ others, Path.Apart worker.job.path other.job.path := by
    simp only [List.map_append, List.map_cons] at apart
    have moved := (List.pairwise_middle Path.Apart.symm).mp apart
    intro other isOther
    apply (List.pairwise_cons.mp moved).1
    rw [← List.map_append, ← List.map_append]
    exact List.mem_map_of_mem (List.mem_map_of_mem isOther)
  have othersAlike :
      ∀ other ∈ before ++ others,
        Alike other.job.path (start.run other.job.process)
          (after.run (other.job.rest other.stage)) := by
    intro other isOther
    have agree : AgreeAt other.job.path now after :=
      stepOutside.agreeAt (by simpa using apartFrom other isOther)
    have isWorker : other ∈ before ++ worker :: others :=
      ((List.sublist_cons_self worker others).append_left before).subset isOther
    have alike := underway.alike other isWorker
    exact alike.trans ((other.job.rest_localTo other.stage).alike agree)
  have sameJobs :
      (before ++ { worker with stage } :: others).map Worker.job =
        (before ++ worker :: others).map Worker.job := by
    simp
  refine ⟨⟨?_, ?_⟩, sameJobs⟩
  · intro other isOther
    rcases List.mem_append.mp isOther with isBefore | isRest
    · exact othersAlike other (List.mem_append_left others isBefore)
    rcases List.mem_cons.mp isRest with rfl | isAfter
    · -- The worker that took the turn has the step behind it.
      have alike := underway.alike worker (by simp)
      rwa [Job.rest_eq_step_bind, run_bind, ran] at alike
    · exact othersAlike other (List.mem_append_right before isAfter)
  · rw [sameJobs]
    refine underway.outside.trans (stepOutside.mono ?_)
    simp

/-- Every job has the answer that it has alone, and all that is changed is what the jobs change. -/
structure Resolved (start : Workspace) (jobs : List (Job α)) (answers : List (Option α))
    (final : Workspace) : Prop where
  answers : jobs.map (fun job => (start.run job.process).1) = answers.map Except.ok
  agree : ∀ job ∈ jobs, AgreeAt job.path (start.run job.process).2 final
  outside : SameOutside (jobs.map Job.path) start final

/-- The answers of workers that are done are what the workers hold, in their order. -/
theorem map_eq_of_allDone
    {result : Worker α → β}
    {wrap : Option α → β}
    (given :
      ∀ worker ∈ workers, ∀ answer, worker.stage = .done answer → result worker = wrap answer)
    (allDone : workers.mapM Worker.answer? = some answers) :
    workers.map result = answers.map wrap := by
  induction workers generalizing answers with
  | nil =>
      cases allDone
      rfl
  | cons worker others inductionHypothesis =>
      rw [List.mapM_cons] at allDone
      obtain ⟨answer, isAnswer, allDone⟩ := Option.bind_eq_some_iff.mp allDone
      obtain ⟨otherAnswers, othersDone, isAnswers⟩ := Option.bind_eq_some_iff.mp allDone
      cases isAnswers
      have isDone : worker.stage = .done answer := Worker.answer?_eq_some_iff.mp isAnswer
      have givenOthers := fun other isOther => given other (List.mem_cons_of_mem worker isOther)
      rw [List.map_cons, List.map_cons, given worker List.mem_cons_self answer isDone,
        inductionHypothesis givenOthers othersDone]

theorem Underway.resolved
    (underway : Underway start workers final)
    (allDone : workers.mapM Worker.answer? = some answers) :
    Resolved start (workers.map Worker.job) answers final := by
  have stages : workers.map Worker.stage = answers.map Stage.done :=
    map_eq_of_allDone (fun _ _ _ isDone => isDone) allDone
  refine ⟨?_, ?_, underway.outside⟩
  · rw [List.map_map]
    refine map_eq_of_allDone ?_ allDone
    intro worker isWorker answer isDone
    have alike := underway.alike worker isWorker
    rw [isDone] at alike
    exact alike.answer.symm
  · intro job isJob
    obtain ⟨worker, isWorker, rfl⟩ := List.mem_map.mp isJob
    have isStage : worker.stage ∈ answers.map Stage.done :=
      stages ▸ List.mem_map_of_mem isWorker
    obtain ⟨answer, -, isDone⟩ := List.mem_map.mp isStage
    have alike := underway.alike worker isWorker
    rw [← isDone] at alike
    exact alike.agree

theorem Underway.interleave
    {schedule : List Nat}
    (underway : Underway start workers now)
    (apart : ((workers.map Worker.job).map Job.path).Pairwise Path.Apart)
    (ran : now.interleave workers schedule = some (answers, final)) :
    Resolved start (workers.map Worker.job) answers final := by
  induction schedule generalizing now workers with
  | nil =>
      obtain ⟨_, allDone, isOutcome⟩ := Option.map_eq_some_iff.mp ran
      cases isOutcome
      exact underway.resolved allDone
  | cons index schedule inductionHypothesis =>
      obtain ⟨⟨nextWorkers, after⟩, turned, ran⟩ := Option.bind_eq_some_iff.mp ran
      obtain ⟨underwayAfter, sameJobs⟩ := underway.turn apart turned
      rw [← sameJobs]
      exact inductionHypothesis underwayAfter (sameJobs ▸ apart) ran

/-- Whatever the schedule, all jobs are done as if each one were alone. -/
theorem interleave_resolved
    {schedule : List Nat}
    (apart : (jobs.map Job.path).Pairwise Path.Apart)
    (ran : start.interleave (jobs.map Worker.start) schedule = some (answers, final)) :
    Resolved start jobs answers final := by
  have sameJobs : (jobs.map Worker.start).map Worker.job = jobs := by
    rw [List.map_map]
    exact List.map_id jobs
  have resolved := underway_start.interleave (sameJobs.symm ▸ apart) ran
  rwa [sameJobs] at resolved

section OneAfterTheOther

variable
  {job other : Job α}
  {others : List (Job α)}
  {answer : Option α}

theorem process_sameOutside
    (ran : start.run job.process = (.ok answer, after)) :
    SameOutside [job.path] start after := by
  have outside := job.process_localTo.outside start
  rwa [ran] at outside

/-- A job does the same after another one that is apart from it. -/
theorem process_alike_after
    (ran : start.run job.process = (.ok answer, after))
    (apart : Path.Apart job.path other.path) :
    Alike other.path (start.run other.process) (after.run other.process) := by
  apply other.process_localTo.alike
  apply (process_sameOutside ran).agreeAt
  simpa using apart

theorem Resolved.cons
    (ran : start.run job.process = (.ok answer, after))
    (apart : ∀ other ∈ others, Path.Apart job.path other.path)
    (resolved : Resolved after others answers final) :
    Resolved start (job :: others) (answer :: answers) final := by
  have alike := fun other isOther => process_alike_after ran (apart other isOther)
  refine ⟨?_, ?_, ?_⟩
  · rw [List.map_cons, List.map_cons, ran, ← resolved.answers]
    exact congrArg _ (List.map_congr_left fun other isOther => (alike other isOther).answer.symm)
  · intro known isKnown
    rcases List.mem_cons.mp isKnown with rfl | isOther
    · rw [ran]
      apply resolved.outside.agreeAt
      intro path isPath
      obtain ⟨other, isOther, rfl⟩ := List.mem_map.mp isPath
      exact (apart other isOther).symm
    · exact (alike known isOther).agree.trans (resolved.agree known isOther)
  · exact ((process_sameOutside ran).mono (by simp)).trans (resolved.outside.mono (by simp))

/-- One job after the other is done as if each one were alone. -/
theorem mapM_resolved
    (apart : (jobs.map Job.path).Pairwise Path.Apart)
    (allAnswer : jobs.map (fun job => (start.run job.process).1) = answers.map Except.ok) :
    ∃ final, start.run (jobs.mapM Job.process) = (.ok answers, final) ∧
      Resolved start jobs answers final := by
  induction jobs generalizing start answers with
  | nil =>
      obtain rfl : answers = [] := by simpa using allAnswer.symm
      exact ⟨start, rfl, rfl, nofun, .refl ..⟩
  | cons job others inductionHypothesis =>
      cases answers with
      | nil => cases allAnswer
      | cons answer otherAnswers =>
          obtain ⟨answered, othersAnswer⟩ := List.cons.inj allAnswer
          obtain ⟨after, ran⟩ : ∃ after, start.run job.process = (.ok answer, after) :=
            ⟨_, Prod.ext answered rfl⟩
          obtain ⟨apartFrom, apartOthers⟩ := List.pairwise_cons.mp apart
          have apartJob : ∀ other ∈ others, Path.Apart job.path other.path :=
            fun other isOther => apartFrom other.path (List.mem_map_of_mem isOther)
          have othersAnswerAfter :
              others.map (fun other => (after.run other.process).1) =
                otherAnswers.map Except.ok := by
            rw [← othersAnswer]
            apply List.map_congr_left
            exact fun other isOther => (process_alike_after ran (apartJob other isOther)).answer
          obtain ⟨final, ranOthers, resolved⟩ :=
            inductionHypothesis apartOthers othersAnswerAfter
          refine ⟨final, ?_, resolved.cons ran apartJob⟩
          rw [List.mapM_cons, run_bind, ran]
          simp only [run_bind, ranOthers, run_pure]

end OneAfterTheOther

/-- The outcome is fixed by what the jobs do alone. -/
theorem Resolved.same
    {last : Workspace}
    (resolved : Resolved start jobs answers final)
    (resolvedLast : Resolved start jobs answers last) :
    Same final last := by
  have agree : ∀ job ∈ jobs, AgreeAt job.path final last := fun job isJob =>
    (resolved.agree job isJob).symm.trans (resolvedLast.agree job isJob)
  constructor
  · intro path
    by_cases ofJob : ∃ job ∈ jobs, Path.steps path = Path.steps job.path
    · obtain ⟨job, isJob, sameSteps⟩ := ofJob
      rw [TreeCache.get?_congr sameSteps, TreeCache.get?_congr sameSteps]
      exact (agree job isJob).tree
    · have outside : ∀ other ∈ jobs.map Job.path, Path.steps path ≠ Path.steps other := by
        intro other isOther sameSteps
        obtain ⟨job, isJob, rfl⟩ := List.mem_map.mp isOther
        exact ofJob ⟨job, isJob, sameSteps⟩
      exact (resolvedLast.outside.trees path outside).trans
        (resolved.outside.trees path outside).symm
  · intro place
    by_cases ofJob : ∃ job ∈ jobs, place = Path.place job.path
    · obtain ⟨job, isJob, rfl⟩ := ofJob
      exact (agree job isJob).entries _ (Path.place_mem_way job.path)
    · have outside : ∀ other ∈ jobs.map Job.path, place ≠ Path.place other := by
        intro other isOther samePlace
        obtain ⟨job, isJob, rfl⟩ := List.mem_map.mp isOther
        exact ofJob ⟨job, isJob, samePlace⟩
      exact (resolvedLast.outside.entries place outside).trans
        (resolved.outside.entries place outside).symm

/-- Whatever the schedule, the outcome is the one of doing the jobs one after the other. -/
theorem interleave_same
    {schedule : List Nat}
    (apart : (jobs.map Job.path).Pairwise Path.Apart)
    (ran : start.interleave (jobs.map Worker.start) schedule = some (answers, final)) :
    ∃ last, start.run (jobs.mapM Job.process) = (.ok answers, last) ∧ Same final last := by
  have resolved := interleave_resolved apart ran
  obtain ⟨last, ranInOrder, resolvedLast⟩ := mapM_resolved apart resolved.answers
  exact ⟨last, ranInOrder, resolved.same resolvedLast⟩

/-- The schedule in which each of some workers is done before the next one starts. -/
def oneByOne (first : Nat) : (count : Nat) → List Nat
  | 0 => []
  | count + 1 => List.replicate 4 first ++ oneByOne (first + 1) count

theorem turn_of_run
    {before others : List (Worker α)}
    {worker : Worker α}
    {stage : Stage α}
    (ran : now.run (worker.job.step worker.stage) = (.ok stage, after)) :
    now.turn (before ++ worker :: others) before.length =
      some (before ++ { worker with stage } :: others, after) := by
  simp [turn, ran]

/-- A worker that takes all its steps in a row does all that is left of its job. -/
theorem interleave_replicate
    {before others : List (Worker α)}
    {job : Job α}
    {stage : Stage α}
    {answer : Option α}
    {count : Nat}
    (enough : stage.stepsLeft ≤ count)
    (ran : now.run (job.rest stage) = (.ok answer, after))
    (schedule : List Nat) :
    now.interleave (before ++ { job, stage } :: others)
        (List.replicate count before.length ++ schedule) =
      after.interleave (before ++ { job, stage := .done answer } :: others) schedule := by
  induction count generalizing now stage with
  | zero =>
      cases stage with
      | done given =>
          cases ran
          rfl
      | lookUp | fetch | write | forget => cases enough
  | succ count inductionHypothesis =>
      rw [Job.rest_eq_step_bind] at ran
      obtain ⟨next, between, ranStep, ranRest⟩ := run_bind_eq_ok_iff.mp ran
      have turned :
          now.turn (before ++ { job, stage } :: others) before.length =
            some (before ++ { job, stage := next } :: others, between) :=
        turn_of_run ranStep
      have enoughNext : next.stepsLeft ≤ count := by
        have fewer := Job.stepsLeft_step_le ranStep
        omega
      rw [List.replicate_succ, List.cons_append, interleave, turned]
      exact inductionHypothesis enoughNext ranRest

/-- One file after the other is one of the schedules. -/
theorem interleave_oneByOne
    {before : List (Worker α)}
    {earlier : List (Option α)}
    (ran : start.run (jobs.mapM Job.process) = (.ok answers, final))
    (doneBefore : before.mapM Worker.answer? = some earlier) :
    start.interleave (before ++ jobs.map Worker.start) (oneByOne before.length jobs.length) =
      some (earlier ++ answers, final) := by
  induction jobs generalizing start before earlier answers with
  | nil =>
      cases ran
      simp [interleave, oneByOne, doneBefore]
  | cons job others inductionHypothesis =>
      rw [List.mapM_cons] at ran
      obtain ⟨answer, after, ranJob, ran⟩ := run_bind_eq_ok_iff.mp ran
      obtain ⟨otherAnswers, last, ranOthers, isOutcome⟩ := run_bind_eq_ok_iff.mp ran
      cases isOutcome
      have doneWithJob :
          (before ++ [Worker.mk job (.done answer)]).mapM Worker.answer? =
            some (earlier ++ [answer]) := by
        simp [doneBefore, Worker.answer?]
      have ranRest := inductionHypothesis ranOthers doneWithJob
      rw [List.length_append, List.append_assoc, List.append_assoc] at ranRest
      rw [List.map_cons, List.length_cons, oneByOne, Worker.start,
        interleave_replicate (Nat.le_refl 4) ranJob]
      exact ranRest

end Workspace

namespace Job

open Workspace

variable
  {jobs : List (Job α)}
  {summarize : List α → σ}
  {start final : Workspace}
  {summary : σ}

/-- Do some jobs, one after the other, and sum up their answers. -/
def doEach (summarize : List α → σ) (jobs : List (Job α)) : WorkspaceM σ := do
  let answers ← jobs.mapM process
  return summarize (answers.filterMap fun answer => answer)

/-- Do some jobs with one worker for each, by a schedule, and sum up their answers. -/
def doInterleaved (summarize : List α → σ) (jobs : List (Job α)) (schedule : List Nat)
    (start : Workspace) : Option (σ × Workspace) := do
  let (answers, final) ← start.interleave (jobs.map Worker.start) schedule
  return (summarize (answers.filterMap fun answer => answer), final)

theorem doEach_of_doInterleaved
    {schedule : List Nat}
    (apart : (jobs.map path).Pairwise Path.Apart)
    (ran : doInterleaved summarize jobs schedule start = some (summary, final)) :
    ∃ last, start.run (doEach summarize jobs) = (.ok summary, last) ∧ Same final last := by
  obtain ⟨⟨answers, _⟩, ranWorkers, isSummary⟩ := Option.bind_eq_some_iff.mp ran
  cases isSummary
  obtain ⟨last, ranInOrder, same⟩ := interleave_same apart ranWorkers
  refine ⟨last, ?_, same⟩
  rw [doEach, run_bind, ranInOrder]
  rfl

theorem exists_schedule_of_doEach
    (ran : start.run (doEach summarize jobs) = (.ok summary, final)) :
    ∃ schedule, doInterleaved summarize jobs schedule start = some (summary, final) := by
  obtain ⟨answers, last, ranJobs, isSummary⟩ := run_bind_eq_ok_iff.mp ran
  cases isSummary
  have ranWorkers :
      start.interleave (jobs.map Worker.start) (oneByOne 0 jobs.length) =
        some (answers, final) :=
    interleave_oneByOne ranJobs List.mapM_nil
  refine ⟨oneByOne 0 jobs.length, ?_⟩
  rw [doInterleaved, ranWorkers]
  rfl

end Job

namespace Analyzer

open Workspace

variable {analyzer : Analyzer} {paths : List String}

/-- Analyze some files, one after the other. -/
def analyzeEach (analyzer : Analyzer) (paths : List String) : WorkspaceM AnalysisReport := do
  let results ← paths.mapM analyzer.analyzeFile
  return reportOf (results.filterMap fun result => result)

/-- Apply the fixes for some files to the disk, one after the other. -/
def fixEach (analyzer : Analyzer) (paths : List String) : WorkspaceM FixSummary := do
  let outcomes ← paths.mapM analyzer.fixFile
  return .ofOutcomes (outcomes.filterMap fun outcome => outcome)

/-- Analyze some files with one worker for each, by a schedule. -/
def analyzeInterleaved (analyzer : Analyzer) (paths : List String) :
    (schedule : List Nat) → (start : Workspace) → Option (AnalysisReport × Workspace) :=
  Job.doInterleaved reportOf (paths.map analyzer.analysisJob)

/-- Apply the fixes for some files to the disk with one worker for each, by a schedule. -/
def fixInterleaved (analyzer : Analyzer) (paths : List String) :
    (schedule : List Nat) → (start : Workspace) → Option (FixSummary × Workspace) :=
  Job.doInterleaved .ofOutcomes (paths.map analyzer.fixJob)

theorem mapM_process
    {job : String → Job α}
    {computation : String → WorkspaceM (Option α)}
    (isProcess : ∀ path, (job path).process = computation path) :
    (paths.map job).mapM Job.process = paths.mapM computation := by
  induction paths with
  | nil => rfl
  | cons path others inductionHypothesis =>
      rw [List.map_cons, List.mapM_cons, List.mapM_cons, isProcess, inductionHypothesis]

theorem doEach_analysisJob :
    Job.doEach reportOf (paths.map analyzer.analysisJob) = analyzer.analyzeEach paths := by
  rw [Job.doEach, mapM_process fun _ => process_analysisJob]
  rfl

theorem doEach_fixJob :
    Job.doEach FixSummary.ofOutcomes (paths.map analyzer.fixJob) = analyzer.fixEach paths := by
  rw [Job.doEach, mapM_process fun _ => process_fixJob]
  rfl

/--
The schedule of the workers does not matter.

The workers share the disk and the cache, and their paths can name different files.
Every schedule that gets through without a fault ends with the same disk and cache,
the same totals and the same report as one file after the other, in the order of the
list. Doing one file after the other is such a schedule, if no fault comes up.
-/
theorem schedule_irrelevant
    {start : Workspace}
    (apart : paths.Pairwise Path.Apart) :
    (analyzer.fixAll = analyzer.sources >>= analyzer.fixEach ∧
      (∀ schedule summary final,
        analyzer.fixInterleaved paths schedule start = some (summary, final) →
          ∃ last, start.run (analyzer.fixEach paths) = (.ok summary, last) ∧ Same final last) ∧
      ∀ summary last, start.run (analyzer.fixEach paths) = (.ok summary, last) →
        ∃ schedule, analyzer.fixInterleaved paths schedule start = some (summary, last)) ∧
    (analyzer.analyze = analyzer.sources >>= analyzer.analyzeEach ∧
      (∀ schedule report final,
        analyzer.analyzeInterleaved paths schedule start = some (report, final) →
          ∃ last, start.run (analyzer.analyzeEach paths) = (.ok report, last) ∧
            Same final last) ∧
      ∀ report last, start.run (analyzer.analyzeEach paths) = (.ok report, last) →
        ∃ schedule, analyzer.analyzeInterleaved paths schedule start = some (report, last)) := by
  have apartFixes : ((paths.map analyzer.fixJob).map Job.path).Pairwise Path.Apart := by
    simpa [Function.comp_def, fixJob] using apart
  have apartAnalyses : ((paths.map analyzer.analysisJob).map Job.path).Pairwise Path.Apart := by
    simpa [Function.comp_def, analysisJob] using apart
  rw [← doEach_fixJob, ← doEach_analysisJob]
  refine ⟨⟨rfl, ?_, ?_⟩, rfl, ?_, ?_⟩
  · exact fun _ _ _ => Job.doEach_of_doInterleaved apartFixes
  · exact fun _ _ => Job.exists_schedule_of_doEach
  · exact fun _ _ _ => Job.doEach_of_doInterleaved apartAnalyses
  · exact fun _ _ => Job.exists_schedule_of_doEach

/-- Two files with a name each that breaks its style. -/
def twoFiles : Workspace where
  disk.entries := [
    (["a.zig"], .file (.text "const my_t = struct { b: u8 };")),
    (["b.zig"], .file (.text "const A_b = 1;"))]

/-- Two workers read, write and forget by turns, and the files are fixed as if one by one. -/
theorem schedule_irrelevant_two_files :
    ∃ analyzer final last,
      build "/" { rules := Rule.builtin } = .ok analyzer ∧
        ["/a.zig", "/b.zig"].Pairwise Path.Apart ∧
          analyzer.fixInterleaved ["/a.zig", "/b.zig"] [0, 1, 0, 1, 1, 0, 0, 1] twoFiles =
              some ({ filesFixed := 2, applied := 2, skipped := 0 }, final) ∧
            twoFiles.run (analyzer.fixEach ["/a.zig", "/b.zig"]) =
                (.ok { filesFixed := 2, applied := 2, skipped := 0 }, last) ∧
              Same final last := by
  have facts :
      ((build "/" { rules := Rule.builtin }).toOption.bind fun analyzer =>
        (analyzer.fixInterleaved ["/a.zig", "/b.zig"] [0, 1, 0, 1, 1, 0, 0, 1] twoFiles).map
          Prod.fst) =
        some { filesFixed := 2, applied := 2, skipped := 0 } := by
    decide +kernel
  cases built : build "/" { rules := Rule.builtin } with
  | error error =>
      rw [built] at facts
      cases facts
  | ok analyzer =>
      rw [built] at facts
      obtain ⟨⟨_, final⟩, ran, rfl⟩ := Option.map_eq_some_iff.mp facts
      have apart : ["/a.zig", "/b.zig"].Pairwise Path.Apart := by
        apply List.pairwise_pair.mpr
        have isFirst :
            twoFiles.disk.content? (Path.steps "/a.zig") =
              some (.text "const my_t = struct { b: u8 };") := by
          decide +kernel
        have isSecond :
            twoFiles.disk.content? (Path.steps "/b.zig") = some (.text "const A_b = 1;") := by
          decide +kernel
        exact Disk.apart_of_content? isFirst isSecond (by decide +kernel)
      obtain ⟨last, ranInOrder, same⟩ := (schedule_irrelevant apart).1.2.1 _ _ final ran
      exact ⟨analyzer, final, last, rfl, apart, ran, ranInOrder, same⟩

end Analyzer

end ZigLint
