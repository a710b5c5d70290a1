import ZigLint.Disk.Basic

namespace ZigLint

/-!
# The way of a path

The place that a path leads to can be read off the path alone. The disk only
says whether the path gets there: the places that it passes have to be
directories. So what is read from a path or written to it depends on the entries
along its way, and a file that is written somewhere else neither blocks a way nor
opens one.
-/

namespace PathStep

/-- The place to which a step leads. -/
def goFrom (place : Place) : PathStep → Place
  | top => []
  | here => place
  | parent => place.dropLast
  | name text => place ++ [text]

/-- Check the name of a step. -/
def check : PathStep → Except AccessFault Unit
  | name text => Disk.checkName text
  | _ => .ok ()

end PathStep

namespace Path

/-- The places that steps pass, and the place to which they lead. -/
def wayFrom (place : Place) : List PathStep → List Place
  | [] => [place]
  | .top :: rest => wayFrom [] rest
  | step :: rest => place :: wayFrom (step.goFrom place) rest

/-- The places that a path passes, and the place to which it leads. -/
def way (path : String) : List Place :=
  wayFrom [] (steps path)

/-- The place to which a path leads. -/
def place (path : String) : Place :=
  (steps path).foldl PathStep.goFrom []

/-- The text can be the path of a file: a disk accepts it, and it does not end like a directory. -/
def canNameFile (path : String) : Bool :=
  (Disk.checkPath path).isOk && !namesDirectory path

/-- Two paths can name two files of a disk: neither one leads to a place on the way of the other. -/
structure Apart (path other : String) : Prop where
  here : place path ∉ way other
  there : place other ∉ way path

theorem Apart.symm
    {path other : String}
    (apart : Apart path other) :
    Apart other path :=
  ⟨apart.there, apart.here⟩

theorem foldl_mem_wayFrom
    (place : Place)
    (steps : List PathStep) :
    steps.foldl PathStep.goFrom place ∈ wayFrom place steps := by
  fun_induction wayFrom place steps with
  | case1 place => exact List.mem_singleton_self place
  | case2 place rest inductionHypothesis => exact inductionHypothesis
  | case3 place step rest notTop inductionHypothesis =>
      exact List.mem_cons_of_mem _ inductionHypothesis

theorem place_mem_way
    (path : String) :
    place path ∈ way path :=
  foldl_mem_wayFrom [] (steps path)

theorem place_congr
    {path other : String}
    (sameSteps : steps other = steps path) :
    place other = place path :=
  congrArg (List.foldl PathStep.goFrom []) sameSteps

end Path

namespace Disk

variable
  {disk other : Disk}
  {place passed final : Place}
  {steps : List PathStep}
  {path : String}
  {content : Content}
  {entry : DiskEntry}

/-! An entry that is put on a disk is found at its place, and all others stay. -/

theorem entry?_eq_find?
    (notTop : place ≠ []) :
    disk.entry? place = (disk.entries.find? fun known => known.1 == place).map Prod.snd :=
  if_neg notTop

theorem find?_replace
    (entries : List (Place × DiskEntry)) :
    (entries.map fun known => if known.1 == place then (place, entry) else known).find?
        (fun known => known.1 == passed) =
      (entries.find? fun known => known.1 == passed).map
        fun known => if known.1 == place then (place, entry) else known := by
  rw [List.find?_map]
  congr 2
  funext known
  by_cases atPlace : known.1 = place <;> simp [Function.comp, atPlace]

theorem entry?_put_self
    (notTop : place ≠ []) :
    Disk.entry? (disk.put place entry) place = some entry := by
  have foundAt : disk.entry? place = _ := entry?_eq_find? notTop
  rw [entry?_eq_find? notTop, put, foundAt]
  cases found : disk.entries.find? fun known => known.1 == place with
  | none => simp [List.find?_append, found]
  | some known =>
      have atPlace : known.1 = place := by simpa using List.find?_some found
      simp only [Option.map_some, Option.isSome_some, if_true]
      rw [find?_replace, found]
      simp [atPlace]

theorem entry?_put_of_ne
    (notPlace : passed ≠ place) :
    Disk.entry? (disk.put place entry) passed = disk.entry? passed := by
  by_cases isTop : passed = []
  · rw [isTop]
    rfl
  rw [entry?_eq_find? isTop, entry?_eq_find? isTop, put]
  split
  · simp only
    rw [find?_replace]
    cases found : disk.entries.find? fun known => known.1 == passed with
    | none => rfl
    | some known =>
        have atPassed : known.1 = passed := by simpa using List.find?_some found
        simp [atPassed, notPlace]
  · simp [List.find?_append, notPlace.symm]

/-- A file that is put where no directory is leaves all directories as they are. -/
theorem entry?_put_file_eq_directory_iff
    (noDirectory : disk.entry? place ≠ some .directory) :
    Disk.entry? (disk.put place (.file content)) passed = some .directory ↔
      disk.entry? passed = some .directory := by
  by_cases samePlace : passed = place
  · have notTop : place ≠ [] := by
      rintro rfl
      exact noDirectory rfl
    rw [samePlace, entry?_put_self notTop]
    simp [noDirectory]
  · rw [entry?_put_of_ne samePlace]

/-! Following steps passes directories. -/

/-- A place can be passed if it is a directory. -/
def pass (disk : Disk) (place : Place) : Except AccessFault Unit :=
  match disk.entry? place with
  | none => .error .notFound
  | some (.file _) => .error .notADirectory
  | some .directory => .ok ()

theorem pass_eq_ok_iff :
    disk.pass place = .ok () ↔ disk.entry? place = some .directory := by
  rw [pass]
  rcases disk.entry? place with _ | _ | _ <;> simp

theorem follow_cons
    {step : PathStep}
    (notTop : step ≠ .top)
    (rest : List PathStep) :
    disk.follow place (step :: rest) = (do
      disk.pass place
      step.check
      disk.follow (step.goFrom place) rest) := by
  cases step with
  | top => exact absurd rfl notTop
  | here | parent | name text =>
      simp only [pass, follow]
      rcases disk.entry? place with _ | _ | _ <;> rfl

theorem follow_cons_eq_ok_iff
    {step : PathStep}
    (notTop : step ≠ .top)
    (rest : List PathStep) :
    disk.follow place (step :: rest) = .ok final ↔
      disk.entry? place = some .directory ∧
        step.check = .ok () ∧ disk.follow (step.goFrom place) rest = .ok final := by
  rw [follow_cons notTop, ← pass_eq_ok_iff]
  cases disk.pass place with
  | error fault => simp [bind, Except.bind]
  | ok _ =>
      cases step.check with
      | error fault => simp [bind, Except.bind]
      | ok _ => simp [bind, Except.bind]

/-- Following steps looks at the entries along the way only. -/
theorem follow_congr
    (same : ∀ passed ∈ Path.wayFrom place steps, other.entry? passed = disk.entry? passed) :
    other.follow place steps = disk.follow place steps := by
  fun_induction Path.wayFrom place steps with
  | case1 place => rfl
  | case2 place rest inductionHypothesis => exact inductionHypothesis same
  | case3 place step rest notTop inductionHypothesis =>
      have sameHere := same place List.mem_cons_self
      have sameRest := inductionHypothesis fun passed inRest =>
        same passed (List.mem_cons_of_mem _ inRest)
      rw [follow_cons notTop, follow_cons notTop, sameRest, pass, pass, sameHere]

/-- Steps that can be followed lead where they say. -/
theorem eq_of_follow_eq_ok
    (followed : disk.follow place steps = .ok final) :
    final = steps.foldl PathStep.goFrom place := by
  fun_induction Path.wayFrom place steps with
  | case1 place => exact (Except.ok.inj followed).symm
  | case2 place rest inductionHypothesis => exact inductionHypothesis followed
  | case3 place step rest notTop inductionHypothesis =>
      exact inductionHypothesis ((follow_cons_eq_ok_iff notTop rest).mp followed).2.2

/-- Steps can still be followed as long as no directory is lost. -/
theorem follow_eq_ok_of_directories
    (kept : ∀ passed, disk.entry? passed = some .directory → other.entry? passed = some .directory)
    (followed : disk.follow place steps = .ok final) :
    other.follow place steps = .ok final := by
  fun_induction Path.wayFrom place steps with
  | case1 place => exact followed
  | case2 place rest inductionHypothesis => exact inductionHypothesis followed
  | case3 place step rest notTop inductionHypothesis =>
      rw [follow_cons_eq_ok_iff notTop] at followed ⊢
      obtain ⟨isDirectory, named, followed⟩ := followed
      exact ⟨kept place isDirectory, named, inductionHypothesis followed⟩

/-- What is passed on a way that can be followed is a directory. -/
theorem eq_or_directory_of_mem_wayFrom
    (followed : disk.follow place steps = .ok final)
    (onWay : passed ∈ Path.wayFrom place steps) :
    passed = final ∨ disk.entry? passed = some .directory := by
  fun_induction Path.wayFrom place steps with
  | case1 place =>
      left
      rw [List.mem_singleton.mp onWay, Except.ok.inj followed]
  | case2 place rest inductionHypothesis => exact inductionHypothesis followed onWay
  | case3 place step rest notTop inductionHypothesis =>
      obtain ⟨isDirectory, -, followed⟩ := (follow_cons_eq_ok_iff notTop rest).mp followed
      rcases List.mem_cons.mp onWay with rfl | inRest
      · exact .inr isDirectory
      · exact inductionHypothesis followed inRest

/-! What is read. -/

/-- The content of the file to which steps lead. -/
def content? (disk : Disk) (steps : List PathStep) : Option Content :=
  match disk.follow [] steps with
  | .error _ => none
  | .ok place =>
      match disk.entry? place with
      | some (.file content) => some content
      | _ => none

theorem content?_eq_some_iff :
    disk.content? steps = some content ↔
      disk.follow [] steps = .ok (steps.foldl PathStep.goFrom []) ∧
        disk.entry? (steps.foldl PathStep.goFrom []) = some (.file content) := by
  rw [content?]
  cases followed : disk.follow [] steps with
  | error fault => simp
  | ok place =>
      rw [← eq_of_follow_eq_ok followed]
      rcases found : disk.entry? place with _ | _ | _ <;> simp [found]

/-- The content of a file depends on the directories of the disk and on the file itself. -/
theorem content?_congr
    (sameDirectories :
      ∀ passed, other.entry? passed = some .directory ↔ disk.entry? passed = some .directory)
    (sameEntry :
      other.entry? (steps.foldl PathStep.goFrom []) =
        disk.entry? (steps.foldl PathStep.goFrom [])) :
    other.content? steps = disk.content? steps := by
  apply Option.ext
  intro content
  rw [content?_eq_some_iff, content?_eq_some_iff, sameEntry]
  apply and_congr_left
  intro _
  exact ⟨follow_eq_ok_of_directories fun passed => (sameDirectories passed).mp,
    follow_eq_ok_of_directories fun passed => (sameDirectories passed).mpr⟩

theorem place_not_mem_way
    {first second : String}
    {firstContent secondContent : Content}
    (isFirst : disk.content? (Path.steps first) = some firstContent)
    (isSecond : disk.content? (Path.steps second) = some secondContent)
    (different : Path.place first ≠ Path.place second) :
    Path.place first ∉ Path.way second := by
  intro onWay
  have firstIsFile := (content?_eq_some_iff.mp isFirst).2
  have followed := (content?_eq_some_iff.mp isSecond).1
  rcases eq_or_directory_of_mem_wayFrom followed onWay with samePlace | isDirectory
  · exact different samePlace
  · cases firstIsFile.symm.trans isDirectory

/-- Paths that name different files of some disk are apart. -/
theorem apart_of_content?
    {first second : String}
    {firstContent secondContent : Content}
    (isFirst : disk.content? (Path.steps first) = some firstContent)
    (isSecond : disk.content? (Path.steps second) = some secondContent)
    (different : Path.place first ≠ Path.place second) :
    Path.Apart first second :=
  ⟨place_not_mem_way isFirst isSecond different,
    place_not_mem_way isSecond isFirst different.symm⟩

theorem placeOf_congr
    (same : ∀ passed ∈ Path.way path, other.entry? passed = disk.entry? passed) :
    other.placeOf path = disk.placeOf path := by
  rw [placeOf, placeOf, follow_congr same]

theorem placeOf_eq_ok_iff :
    disk.placeOf path = .ok place ↔
      (checkPath path).isOk = true ∧ disk.follow [] (Path.steps path) = .ok place := by
  rw [placeOf]
  cases checkPath path with
  | error fault => simp [bind, Except.bind, Except.isOk, Except.toBool]
  | ok _ => simp [bind, Except.bind, Except.isOk, Except.toBool]

theorem eq_of_placeOf_eq_ok
    (placed : disk.placeOf path = .ok place) :
    place = Path.place path :=
  eq_of_follow_eq_ok (placeOf_eq_ok_iff.mp placed).2

theorem read_eq_ok_iff :
    disk.read path = .ok content ↔
      Path.canNameFile path = true ∧ disk.content? (Path.steps path) = some content := by
  rw [Path.canNameFile, read, locate, placeOf, content?]
  cases checkPath path with
  | error fault => simp [bind, Except.bind, Except.isOk, Except.toBool]
  | ok _ =>
      cases disk.follow [] (Path.steps path) with
      | error fault => simp [bind, Except.bind]
      | ok place =>
          cases Path.namesDirectory path <;>
            rcases found : disk.entry? place with _ | _ | _ <;>
            simp [bind, Except.bind, found, pure, Except.pure, Except.isOk, Except.toBool,
              throw, throwThe, MonadExceptOf.throw]

/-- A file that is there is not missing, however its path is spelled. -/
theorem content?_eq_none_of_notFound
    (missing : disk.read path = .error .notFound) :
    disk.content? (Path.steps path) = none := by
  apply Option.eq_none_iff_forall_ne_some.mpr
  intro content present
  obtain ⟨followed, isFile⟩ := content?_eq_some_iff.mp present
  rw [read, locate, placeOf, followed, checkPath] at missing
  split at missing
  · cases missing
  · split at missing
    · cases missing
    · simp only [bind, Except.bind, isFile] at missing
      by_cases named : Path.namesDirectory path = true
      · rw [if_pos named] at missing
        cases missing
      · rw [if_neg named] at missing
        cases missing

/-- Reading looks at the entries along the way only. -/
theorem read_congr
    (same : ∀ passed ∈ Path.way path, other.entry? passed = disk.entry? passed) :
    other.read path = disk.read path := by
  rw [read, read, locate, locate, placeOf_congr same]
  cases placed : disk.placeOf path with
  | error fault => rfl
  | ok place =>
      have sameEntry := same place (eq_of_placeOf_eq_ok placed ▸ Path.place_mem_way path)
      simp [bind, Except.bind, sameEntry]

/-! What is written. -/

/-- The place to which a file can be written. -/
def target (disk : Disk) (path : String) : Except AccessFault Place := do
  let place ← disk.placeOf path
  match disk.entry? place with
  | some .directory => throw .isADirectory
  | _ => if Path.namesDirectory path then throw .isADirectory else return place

theorem write_eq_map_target :
    disk.write path content =
      (disk.target path).map fun place => disk.put place (.file content) := by
  rw [write, target]
  cases disk.placeOf path with
  | error fault => rfl
  | ok place =>
      rcases found : disk.entry? place with _ | _ | _ <;>
        cases Path.namesDirectory path <;>
        simp [bind, Except.bind, found, pure, Except.pure, Except.map,
          throw, throwThe, MonadExceptOf.throw]

theorem target_congr
    (same : ∀ passed ∈ Path.way path, other.entry? passed = disk.entry? passed) :
    other.target path = disk.target path := by
  rw [target, target, placeOf_congr same]
  cases placed : disk.placeOf path with
  | error fault => rfl
  | ok place =>
      have sameEntry := same place (eq_of_placeOf_eq_ok placed ▸ Path.place_mem_way path)
      simp [bind, Except.bind, sameEntry]

theorem target_eq_ok_iff :
    disk.target path = .ok place ↔
      Path.canNameFile path = true ∧ disk.follow [] (Path.steps path) = .ok place ∧
        disk.entry? place ≠ some .directory := by
  rw [target, Path.canNameFile, placeOf]
  cases checkPath path with
  | error fault => simp [bind, Except.bind, Except.isOk, Except.toBool]
  | ok _ =>
      cases disk.follow [] (Path.steps path) with
      | error fault => simp [bind, Except.bind]
      | ok final =>
          by_cases isFinal : final = place
          · subst isFinal
            cases Path.namesDirectory path <;>
              rcases found : disk.entry? final with _ | _ | _ <;>
              simp [bind, Except.bind, found, pure, Except.pure, Except.isOk, Except.toBool,
                throw, throwThe, MonadExceptOf.throw]
          · cases Path.namesDirectory path <;>
              rcases found : disk.entry? final with _ | _ | _ <;>
              simp [bind, Except.bind, found, pure, Except.pure, isFinal,
                throw, throwThe, MonadExceptOf.throw]

theorem eq_of_target_eq_ok
    (found : disk.target path = .ok place) :
    place = Path.place path :=
  eq_of_follow_eq_ok (target_eq_ok_iff.mp found).2.1

/-- A file that is there can be written. -/
theorem target_of_content?
    (canName : Path.canNameFile path = true)
    (present : disk.content? (Path.steps path) = some content) :
    disk.target path = .ok (Path.place path) := by
  obtain ⟨followed, isFile⟩ := content?_eq_some_iff.mp present
  refine target_eq_ok_iff.mpr ⟨canName, followed, ?_⟩
  rw [Path.place, isFile]
  simp

/-- A file that was written holds what was written. -/
theorem content?_put_target
    (found : disk.target path = .ok place) :
    (disk.put place (.file content)).content? (Path.steps path) = some content := by
  obtain ⟨-, followed, noDirectory⟩ := target_eq_ok_iff.mp found
  have isPlace := eq_of_follow_eq_ok followed
  have notTop : place ≠ [] := by
    rintro rfl
    exact noDirectory rfl
  rw [content?_eq_some_iff, ← isPlace]
  refine ⟨follow_eq_ok_of_directories ?_ followed, entry?_put_self notTop⟩
  exact fun passed => (entry?_put_file_eq_directory_iff noDirectory).mpr

end Disk

end ZigLint
