import Mathlib.Data.List.Induction
import ZigLint.Config.Search
import ZigLint.Proofs.Disk.Canonical

namespace ZigLint

/-!
# The search for a configuration

The search goes from directory to directory, upwards from the target. It answers
with the configuration file of the first directory that has one, if it did not
pass the top of the project before. So it is the nearest configuration of the
project that is used, and never one from outside.
-/

/-- A source is chosen for the file that was found in the project and that of the user. -/
def ConfigSource.IsChosen (nearest? userFile? : Option String) : ConfigSource → Prop
  | .explicit _ => False
  | .project file => nearest? = some file
  | .user file => nearest? = none ∧ userFile? = some file
  | .default => nearest? = none ∧ userFile? = none

namespace Disk

variable
  {disk : Disk}
  {start directory : Place}
  {entry : DiskEntry}
  {name file : String}
  {isFile : String → Bool}

/-- A directory holds a file with a name. -/
def holds (disk : Disk) (directory : Place) (name : String) : Bool :=
  disk.isFile (Place.path (directory ++ [name]))

/-- The configuration file of a directory has this name; the hidden one is the second choice. -/
structure IsConfigOf (disk : Disk) (directory : Place) (name : String) : Prop where
  isHeld : disk.holds directory name = true
  isPreferred :
    name = "zlinter.toml" ∨
      name = ".zlinter.toml" ∧ disk.holds directory "zlinter.toml" = false

/-- A directory neither has a configuration file nor is the top of a project. -/
def IsPassed (disk : Disk) (directory : Place) : Prop :=
  ∀ name ∈ ["zlinter.toml", ".zlinter.toml", "build.zig"], disk.holds directory name = false

/-- The configuration file that is nearest to the start of a search. -/
structure IsNearestConfig (disk : Disk) (start directory : Place) (name : String) : Prop where
  isAbove : directory <+: start
  isConfig : disk.IsConfigOf directory name
  isNearest :
    ∀ nearer : Place, nearer <+: start → directory.length < nearer.length → disk.IsPassed nearer

/-- The directory in which the search for the configuration of an entry starts. -/
def searchStart (place : Place) : DiskEntry → Place
  | .file _ => place.dropLast
  | .directory => place

/-- The source of a configuration is what a search from a directory upwards has to answer. -/
structure IsSearchAnswer
    (disk : Disk)
    (workingDirectory : String)
    (start : Place)
    (userDirectory? : Option String)
    (source : ConfigSource) :
    Prop where
  project_iff :
    ∀ file,
      source = .project file ↔
        ∃ directory name,
          disk.IsNearestConfig start directory name ∧ file = Place.path (directory ++ [name])
  staysInside :
    ∀ top outside name,
      top <+: start → disk.holds top "build.zig" = true →
      outside <+: top → outside ≠ top →
      name ∈ ["zlinter.toml", ".zlinter.toml"] →
      source ≠ .project (Place.path (outside ++ [name]))
  user_iff :
    ∀ file,
      source = .user file ↔
        (∀ directory name, ¬disk.IsNearestConfig start directory name) ∧
          ∃ userDirectory, userDirectory? = some userDirectory ∧
            file = Path.join userDirectory "config.toml" ∧
              disk.isFile (Path.join workingDirectory file) = true
  default_iff :
    source = .default ↔
      (∀ directory name, ¬disk.IsNearestConfig start directory name) ∧
        ∀ userDirectory, userDirectory? = some userDirectory →
          disk.isFile
            (Path.join workingDirectory (Path.join userDirectory "config.toml")) = false

/-! One directory of the search. -/

theorem isConfigOf_iff :
    disk.IsConfigOf directory name ↔
      ConfigSource.fileNames.find? (disk.holds directory) = some name := by
  rw [ConfigSource.fileNames, List.find?_cons, List.find?_singleton]
  constructor
  · rintro ⟨isHeld, rfl | ⟨rfl, noPlain⟩⟩
    · simp [isHeld]
    · simp [isHeld, noPlain]
  · intro found
    cases plain : disk.holds directory "zlinter.toml" with
    | true =>
        rw [plain] at found
        cases found
        exact ⟨plain, .inl rfl⟩
    | false =>
        cases hidden : disk.holds directory ".zlinter.toml" with
        | true =>
            simp only [plain, hidden, if_true] at found
            cases found
            exact ⟨hidden, .inr ⟨rfl, plain⟩⟩
        | false => simp [plain, hidden] at found

theorem isPassed_iff :
    disk.IsPassed directory ↔
      ConfigSource.fileNames.find? (disk.holds directory) = none ∧
        disk.holds directory ConfigSource.projectMarker = false := by
  simp [IsPassed, ConfigSource.fileNames, ConfigSource.projectMarker, and_assoc]

/-- The search ends in a directory with a configuration file, or it passes the directory. -/
theorem nearest?_cons_eq_some_iff
    {rest : List String}
    (sameFiles : ∀ place : Place, isFile place.path = disk.isFile place.path)
    (areNames : ∀ name ∈ directory, Path.IsName name) :
    ConfigSource.nearest? isFile (directory.path :: rest) = some file ↔
      (∃ name, disk.IsConfigOf directory name ∧ file = Place.path (directory ++ [name])) ∨
        disk.IsPassed directory ∧ ConfigSource.nearest? isFile rest = some file := by
  have areRelative : ∀ name ∈ ConfigSource.fileNames, Path.isAbsolute name = false := by decide
  have pathsEq :
      ConfigSource.fileNames.map (Path.join directory.path) =
        ConfigSource.fileNames.map fun name => Place.path (directory ++ [name]) :=
    List.map_congr_left fun name member => Place.join_path areNames (areRelative name member)
  have holdsEq : (isFile ∘ fun name => Place.path (directory ++ [name])) = disk.holds directory :=
    funext fun name => sameFiles _
  have markerEq :
      isFile (Path.join directory.path ConfigSource.projectMarker) =
        disk.holds directory ConfigSource.projectMarker := by
    rw [Place.join_path areNames (by decide), sameFiles, holds]
  rw [ConfigSource.nearest?, pathsEq, List.find?_map, holdsEq, markerEq, isPassed_iff]
  simp only [isConfigOf_iff]
  cases ConfigSource.fileNames.find? (disk.holds directory) with
  | some name =>
      constructor
      · rintro ⟨⟩
        exact .inl ⟨name, rfl, rfl⟩
      · rintro (⟨_, ⟨⟩, rfl⟩ | ⟨⟨⟨⟩, _⟩, _⟩)
        rfl
  | none => cases disk.holds directory ConfigSource.projectMarker <;> simp

/-! The whole search. -/

/-- A search that starts below a directory passes the directory below, or ends there. -/
theorem isNearestConfig_concat_iff
    {last : String} :
    disk.IsNearestConfig (start ++ [last]) directory name ↔
      directory = start ++ [last] ∧ disk.IsConfigOf directory name ∨
        disk.IsPassed (start ++ [last]) ∧ disk.IsNearestConfig start directory name := by
  constructor
  · rintro ⟨isAbove, isConfig, isNearest⟩
    rcases List.prefix_concat_iff.mp isAbove with isStart | isAbove
    · exact .inl ⟨isStart, isConfig⟩
    · refine .inr ⟨isNearest _ List.prefix_rfl ?_, isAbove, isConfig, fun nearer isFront => ?_⟩
      · have lengthLe := isAbove.length_le
        rw [List.length_append, List.length_singleton]
        omega
      · exact isNearest nearer (isFront.trans (List.prefix_append start [last]))
  · rintro (⟨rfl, isConfig⟩ | ⟨isPassed, isAbove, isConfig, isNearest⟩)
    · refine ⟨List.prefix_rfl, isConfig, fun nearer isFront longer => ?_⟩
      exact (Nat.not_lt.mpr isFront.length_le longer).elim
    · refine ⟨isAbove.trans (List.prefix_append start [last]), isConfig, ?_⟩
      intro nearer isFront longer
      rcases List.prefix_concat_iff.mp isFront with rfl | isFront
      · exact isPassed
      · exact isNearest nearer isFront longer

theorem isNearestConfig_nil_iff :
    disk.IsNearestConfig [] directory name ↔ directory = [] ∧ disk.IsConfigOf directory name := by
  constructor
  · rintro ⟨isAbove, isConfig, -⟩
    exact ⟨List.prefix_nil.mp isAbove, isConfig⟩
  · rintro ⟨rfl, isConfig⟩
    refine ⟨List.prefix_rfl, isConfig, fun nearer isFront longer => ?_⟩
    exact (Nat.not_lt.mpr isFront.length_le longer).elim

/-- The search along the directories above a place finds the nearest configuration file. -/
theorem nearest?_ancestors_eq_some_iff
    (sameFiles : ∀ place : Place, isFile place.path = disk.isFile place.path)
    (areNames : ∀ name ∈ start, Path.IsName name) :
    ConfigSource.nearest? isFile (Path.ancestors start.path) = some file ↔
      ∃ directory name,
        disk.IsNearestConfig start directory name ∧ file = Place.path (directory ++ [name]) := by
  induction start using List.reverseRecOn with
  | nil =>
      rw [Place.ancestors_path_nil, nearest?_cons_eq_some_iff sameFiles areNames]
      constructor
      · rintro (⟨name, isConfig, fileEq⟩ | ⟨-, ⟨⟩⟩)
        exact ⟨[], name, isNearestConfig_nil_iff.mpr ⟨rfl, isConfig⟩, fileEq⟩
      · rintro ⟨directory, name, isNearest, fileEq⟩
        obtain ⟨rfl, isConfig⟩ := isNearestConfig_nil_iff.mp isNearest
        exact .inl ⟨name, isConfig, fileEq⟩
  | append_singleton front last inductionHypothesis =>
      have frontNames : ∀ name ∈ front, Path.IsName name :=
        fun name member => areNames name (List.mem_append_left _ member)
      rw [Place.ancestors_path_concat areNames, nearest?_cons_eq_some_iff sameFiles areNames,
        inductionHypothesis frontNames]
      constructor
      · rintro (⟨name, isConfig, fileEq⟩ | ⟨isPassed, directory, name, isNearest, fileEq⟩)
        · exact ⟨_, name, isNearestConfig_concat_iff.mpr (.inl ⟨rfl, isConfig⟩), fileEq⟩
        · exact ⟨directory, name, isNearestConfig_concat_iff.mpr (.inr ⟨isPassed, isNearest⟩),
            fileEq⟩
      · rintro ⟨directory, name, isNearest, fileEq⟩
        rcases isNearestConfig_concat_iff.mp isNearest with ⟨rfl, isConfig⟩ | ⟨isPassed, isNearest⟩
        · exact .inl ⟨name, isConfig, fileEq⟩
        · exact .inr ⟨isPassed, directory, name, isNearest, fileEq⟩

/-- The nearest configuration file is not outside the project. -/
theorem IsNearestConfig.isInside
    {top : Place}
    (isNearest : disk.IsNearestConfig start directory name)
    (isTop : top <+: start)
    (holdsMarker : disk.holds top "build.zig" = true) :
    top <+: directory := by
  refine List.prefix_of_prefix_length_le isTop isNearest.isAbove (Nat.le_of_not_lt fun shorter => ?_)
  have noMarker := isNearest.isNearest top isTop shorter "build.zig" (by simp)
  rw [holdsMarker] at noMarker
  cases noMarker

/-- Configuration files with the same path are in the same directory. -/
theorem eq_of_configPath_eq
    {other : Place}
    {otherName : String}
    (areNames : ∀ name ∈ directory, Path.IsName name)
    (otherNames : ∀ name ∈ other, Path.IsName name)
    (isConfig : name ∈ ConfigSource.fileNames)
    (otherIsConfig : otherName ∈ ConfigSource.fileNames)
    (samePath : Place.path (directory ++ [name]) = Place.path (other ++ [otherName])) :
    directory = other := by
  have configNames : ∀ name ∈ ConfigSource.fileNames, Path.IsName name := by decide
  have samePlace : directory ++ [name] = other ++ [otherName] :=
    Place.path_injective
      (List.forall_mem_append.mpr
        ⟨areNames, List.forall_mem_singleton.mpr (configNames name isConfig)⟩)
      (List.forall_mem_append.mpr
        ⟨otherNames, List.forall_mem_singleton.mpr (configNames otherName otherIsConfig)⟩)
      samePath
  exact (List.append_inj' samePlace rfl).1

/-! The directories that are searched. -/

theorem isFile_of_locate
    {path : String}
    {place : Place}
    (located : disk.locate path = .ok (place, entry)) :
    disk.isFile path = (entry != .directory) := by
  rw [Disk.isFile, located]
  cases entry <;> rfl

/-- The search starts at a directory, or at the directory of a file, and goes to the top. -/
theorem searchDirectories_of_locate
    {workingDirectory target : String}
    {place : Place}
    (isAbsolute : Path.isAbsolute workingDirectory = true)
    (located : disk.locate (Path.join workingDirectory target) = .ok (place, entry)) :
    disk.searchDirectories workingDirectory target =
      Path.ancestors (searchStart place entry).path := by
  have joinedIsAbsolute := Path.isAbsolute_join target isAbsolute
  have canonicalEq :
      disk.canonical? (Path.join workingDirectory target) = some place.path := by
    rw [canonical?, located]
    rfl
  have locatedAgain := locate_place_path joinedIsAbsolute located
  rw [searchDirectories, canonicalEq, Option.getD_some,
    Path.join_of_isAbsolute workingDirectory place.isAbsolute_path, isFile_of_locate locatedAgain]
  cases entry with
  | directory => rfl
  | file content =>
      have areNames := isName_of_locate joinedIsAbsolute located
      rcases List.eq_nil_or_concat place with rfl | ⟨init, last, rfl⟩
      · cases (locate_eq_ok_iff.mp located).2.1
      · rw [List.concat_eq_append] at areNames ⊢
        rw [Place.ancestors_path_concat areNames, searchStart, List.dropLast_concat]
        rfl

theorem mem_of_mem_searchStart
    {place : Place}
    (member : name ∈ searchStart place entry) :
    name ∈ place := by
  cases entry with
  | directory => exact member
  | file content => exact (List.dropLast_sublist place).subset member

/-! The answer. -/

/-- Without a configuration in the project, that of the user is taken if it exists. -/
theorem userFile?_eq_some_iff
    {userDirectory? : Option String} :
    ConfigSource.userFile? isFile userDirectory? = some file ↔
      ∃ userDirectory, userDirectory? = some userDirectory ∧
        file = Path.join userDirectory "config.toml" ∧ isFile file = true := by
  rw [ConfigSource.userFile?, Option.filter_eq_some_iff, Option.map_eq_some_iff]
  constructor
  · rintro ⟨⟨userDirectory, isGiven, rfl⟩, isHeld⟩
    exact ⟨userDirectory, isGiven, rfl, isHeld⟩
  · rintro ⟨userDirectory, isGiven, rfl, isHeld⟩
    exact ⟨⟨userDirectory, isGiven, rfl⟩, isHeld⟩

theorem userFile?_eq_none_iff
    {userDirectory? : Option String} :
    ConfigSource.userFile? isFile userDirectory? = none ↔
      ∀ userDirectory, userDirectory? = some userDirectory →
        isFile (Path.join userDirectory "config.toml") = false := by
  simp [ConfigSource.userFile?, ConfigSource.userFileName]

/-- The project goes before the user, and the defaults come last. -/
theorem resolve_eq_iff
    {directories : List String}
    {userDirectory? : Option String}
    {source : ConfigSource} :
    ConfigSource.resolve isFile directories none userDirectory? = source ↔
      source.IsChosen (ConfigSource.nearest? isFile directories)
        (ConfigSource.userFile? isFile userDirectory?) := by
  rw [ConfigSource.resolve.eq_def]
  cases ConfigSource.nearest? isFile directories <;>
    cases ConfigSource.userFile? isFile userDirectory? <;>
    cases source <;>
    simp [ConfigSource.IsChosen]

/--
A file given explicitly is the answer. Otherwise the search for the configuration of an entry
answers with the nearest configuration file of its project, else with that of the user.
-/
theorem configSource_isSearchAnswer
    (disk : Disk)
    (workingDirectory target : String)
    (userDirectory? : Option String) :
    (∀ path,
      disk.configSource workingDirectory target (some path) userDirectory? = .explicit path) ∧
      ∀ place entry,
        Path.isAbsolute workingDirectory = true →
        disk.locate (Path.join workingDirectory target) = .ok (place, entry) →
        disk.IsSearchAnswer workingDirectory (searchStart place entry) userDirectory?
          (disk.configSource workingDirectory target none userDirectory?) := by
  refine ⟨fun path => rfl, fun place entry isAbsolute located => ?_⟩
  have placeNames := isName_of_locate (Path.isAbsolute_join target isAbsolute) located
  have startNames : ∀ name ∈ searchStart place entry, Path.IsName name :=
    fun name member => placeNames name (mem_of_mem_searchStart member)
  have sameFiles :
      ∀ place : Place,
        disk.isFile (Path.join workingDirectory place.path) = disk.isFile place.path :=
    fun place => by rw [Path.join_of_isAbsolute workingDirectory place.isAbsolute_path]
  have nearest_iff :
      ∀ file,
        ConfigSource.nearest? (fun path => disk.isFile (Path.join workingDirectory path))
            (Path.ancestors (searchStart place entry).path) = some file ↔
          ∃ directory name,
            disk.IsNearestConfig (searchStart place entry) directory name ∧
              file = Place.path (directory ++ [name]) :=
    fun file => nearest?_ancestors_eq_some_iff sameFiles startNames
  have nearest_none_iff :
      ConfigSource.nearest? (fun path => disk.isFile (Path.join workingDirectory path))
          (Path.ancestors (searchStart place entry).path) = none ↔
        ∀ directory name, ¬disk.IsNearestConfig (searchStart place entry) directory name := by
    simp only [Option.eq_none_iff_forall_ne_some, ne_eq, nearest_iff]
    exact ⟨fun none directory name isNearest => none _ ⟨directory, name, isNearest, rfl⟩,
      fun none file ⟨directory, name, isNearest, _⟩ => none directory name isNearest⟩
  rw [configSource, searchDirectories_of_locate isAbsolute located]
  refine ⟨fun file => ?_, fun top outside name isTop holdsMarker isOutside notTop named => ?_,
    fun file => ?_, ?_⟩
  · rw [resolve_eq_iff, ConfigSource.IsChosen, nearest_iff]
  · rw [ne_eq, resolve_eq_iff, ConfigSource.IsChosen, nearest_iff]
    rintro ⟨directory, found, isNearest, samePath⟩
    have isInside := isNearest.isInside isTop holdsMarker
    have outsideNames : ∀ name ∈ outside, Path.IsName name :=
      fun name member => startNames name ((isOutside.trans isTop).subset member)
    have directoryNames : ∀ name ∈ directory, Path.IsName name :=
      fun name member => startNames name (isNearest.isAbove.subset member)
    obtain rfl := eq_of_configPath_eq outsideNames directoryNames named
      (List.mem_of_find?_eq_some (isConfigOf_iff.mp isNearest.isConfig)) samePath
    exact notTop (isOutside.eq_of_length_le isInside.length_le)
  · rw [resolve_eq_iff, ConfigSource.IsChosen, nearest_none_iff, userFile?_eq_some_iff]
  · rw [resolve_eq_iff, ConfigSource.IsChosen, nearest_none_iff, userFile?_eq_none_iff]

/-- A project below a directory with a configuration of its own. -/
def nestedProject : Disk where
  entries :=
    [(["home"], .directory),
      (["home", "zlinter.toml"], .file (.text "")),
      (["home", "config.toml"], .file (.text "")),
      (["home", "project"], .directory),
      (["home", "project", "build.zig"], .file (.text "")),
      (["home", "project", "src"], .directory),
      (["home", "project", "src", "main.zig"], .file (.text ""))]

theorem configSource_isSearchAnswer_nested :
    Path.isAbsolute "/home/project" = true ∧
      nestedProject.locate (Path.join "/home/project" "src/main.zig") =
          .ok (["home", "project", "src", "main.zig"], .file (.text "")) ∧
        nestedProject.IsSearchAnswer "/home/project" ["home", "project", "src"] (some "/home")
            (nestedProject.configSource "/home/project" "src/main.zig" none (some "/home")) ∧
          nestedProject.holds ["home"] "zlinter.toml" = true ∧
            nestedProject.configSource "/home/project" "src/main.zig" none (some "/home") ≠
              .project "/home/zlinter.toml" := by
  have isAbsolute : Path.isAbsolute "/home/project" = true := by decide
  have located :
      nestedProject.locate (Path.join "/home/project" "src/main.zig") =
        .ok (["home", "project", "src", "main.zig"], .file (.text "")) := by
    rfl
  have answer :=
    (configSource_isSearchAnswer nestedProject "/home/project" "src/main.zig" (some "/home")).2
      _ _ isAbsolute located
  refine ⟨isAbsolute, located, answer, by decide +kernel, ?_⟩
  exact answer.staysInside ["home", "project"] ["home"] "zlinter.toml"
    (by decide) (by decide +kernel) (by decide) (by decide) (by decide)

example :
    nestedProject.configSource "/home/project" "src/main.zig" none (some "/home") =
      .user "/home/config.toml" := by
  decide +kernel

end Disk

end ZigLint
