import Mathlib.Data.List.Flatten
import ZigLint.Proofs.Disk.Way
import ZigLint.Proofs.Text.Boundaries
import ZigLint.Proofs.Text.Parts

namespace ZigLint

/-!
# Canonical paths

The path of a place lists the names on the way from the top directory. It is
read back as these names, the directories above it are the paths of the places
above, and where a path leads to an entry, the path of its place leads to the
same entry.
-/

namespace Path

/-- The text can be the name of an entry. -/
structure IsName (name : String) : Prop where
  notEmpty : name.toList ≠ []
  notHere : name.toList ≠ ['.']
  notParent : name.toList ≠ ['.', '.']
  noSlash : '/' ∉ name.toList

variable {name path : String} {place : Place}

instance : DecidablePred IsName := fun name =>
  decidable_of_iff
    (name.toList ≠ [] ∧ name.toList ≠ ['.'] ∧ name.toList ≠ ['.', '.'] ∧ '/' ∉ name.toList)
    ⟨fun ⟨notEmpty, notHere, notParent, noSlash⟩ => ⟨notEmpty, notHere, notParent, noSlash⟩,
      fun isName => ⟨isName.notEmpty, isName.notHere, isName.notParent, isName.noSlash⟩⟩

theorem ofName?_of_isName
    (isName : IsName name) :
    PathStep.ofName? name.toList = some (.name name) := by
  rw [PathStep.ofName?, if_neg (not_or.mpr ⟨isName.notEmpty, isName.notHere⟩),
    if_neg isName.notParent, String.ofList_toList]

theorem of_ofName?_eq_some
    {part : List Char}
    (found : PathStep.ofName? part = some (.name name)) :
    part = name.toList ∧ part ≠ [] ∧ part ≠ ['.'] ∧ part ≠ ['.', '.'] := by
  unfold PathStep.ofName? at found
  split at found
  · cases found
  · rename_i notIdle
    split at found
    · cases found
    · rename_i notParent
      cases found
      rw [not_or] at notIdle
      exact ⟨String.toList_ofList.symm, notIdle.1, notIdle.2, notParent⟩

theorem exists_of_isAbsolute
    (isAbsolute : Path.isAbsolute path = true) :
    ∃ rest, path.toList = '/' :: rest := by
  rw [Path.isAbsolute, beq_iff_eq, List.head?_eq_some_iff] at isAbsolute
  exact isAbsolute

theorem isEmpty_eq_false
    {rest : List Char}
    (pathEq : path.toList = '/' :: rest) :
    path.isEmpty = false := by
  refine Bool.eq_false_iff.mpr fun isEmpty => ?_
  rw [String.isEmpty_iff.mp isEmpty] at pathEq
  cases pathEq

theorem join_of_isAbsolute
    (base : String)
    (isAbsolute : Path.isAbsolute path = true) :
    Path.join base path = path := by
  rw [Path.join, isAbsolute, Bool.true_or, if_pos rfl]

/-- A path from an absolute one is absolute. -/
theorem isAbsolute_join
    {base : String}
    (path : String)
    (isAbsolute : Path.isAbsolute base = true) :
    Path.isAbsolute (Path.join base path) = true := by
  obtain ⟨rest, baseEq⟩ := exists_of_isAbsolute isAbsolute
  rw [Path.join, isEmpty_eq_false baseEq, Bool.or_false]
  split
  · assumption
  · split <;> simp [Path.isAbsolute, String.toList_append, baseEq]

/-- An absolute path leads from the top directory along the names between its slashes. -/
theorem steps_of_toList
    {rest : List Char}
    (pathEq : path.toList = '/' :: rest) :
    steps path = .top :: (rest.splitOn '/').filterMap PathStep.ofName? := by
  have partsEq : path.toList.splitOn '/' = [] :: rest.splitOn '/' := by
    rw [pathEq, List.splitOn_cons_eq_if_modifyHead, if_pos (by simp)]
  rw [steps, partsEq]
  simp only [if_true, if_neg (List.splitOn_ne_nil '/' rest)]
  rfl

/-- Something is dropped at the end of a path that can only name a directory. -/
theorem length_dropIdle_lt
    (isDirectory : namesDirectory path = true) :
    (dropIdle path.toList.reverse).length < path.toList.reverse.length := by
  rw [namesDirectory] at isDirectory
  split at isDirectory
  · rename_i rest backwards
    have notLonger := length_dropIdle_le rest
    rw [backwards, dropIdle, List.length_cons]
    omega
  · rename_i rest backwards
    have notLonger := length_dropIdle_le rest
    rw [backwards, dropIdle, List.length_cons, List.length_cons]
    omega
  · cases isDirectory

theorem isName_of_mem_steps
    {rest : List Char}
    (pathEq : path.toList = '/' :: rest)
    (member : .name name ∈ steps path) :
    IsName name := by
  rw [steps_of_toList pathEq] at member
  rcases List.mem_cons.mp member with isTop | inRest
  · cases isTop
  · obtain ⟨part, isPart, found⟩ := List.mem_filterMap.mp inRest
    obtain ⟨rfl, notEmpty, notHere, notParent⟩ := of_ofName?_eq_some found
    exact ⟨notEmpty, notHere, notParent, Text.not_mem_of_mem_splitOn isPart⟩

end Path

namespace Place

variable {place : Place} {name : String}

/-- The names of a place, with a slash between each two of them. -/
def text (place : Place) : List Char :=
  ['/'].intercalate (place.map String.toList)

/-- The names of a place, with a slash before each of them. -/
def spelled (place : Place) : List Char :=
  place.flatMap fun name => '/' :: name.toList

theorem toList_path
    (place : Place) :
    place.path.toList = '/' :: place.text := by
  rw [path, String.toList_append, String.toList_intercalate]
  rfl

theorem text_concat
    (place : Place)
    (name : String) :
    text (place ++ [name]) =
      if place = [] then name.toList else place.text ++ '/' :: name.toList := by
  induction place with
  | nil => simp [text]
  | cons first rest inductionHypothesis =>
      cases rest with
      | nil => simp [text]
      | cons second more =>
          rw [if_neg (List.cons_ne_nil _ _)] at inductionHypothesis ⊢
          simp only [text, List.cons_append, List.map_cons, List.intercalate_cons_cons,
            List.append_assoc] at inductionHypothesis ⊢
          rw [inductionHypothesis]

theorem splitOn_text
    (areNames : ∀ name ∈ place, Path.IsName name)
    (notTop : place ≠ []) :
    place.text.splitOn '/' = place.map String.toList := by
  refine List.splitOn_intercalate '/' (fun part isPart => ?_) (by simpa using notTop)
  obtain ⟨name, isName, rfl⟩ := List.mem_map.mp isPart
  exact (areNames name isName).noSlash

/-- The path of a place has a slash before each name, that of the top directory is a slash. -/
theorem toList_path_eq_spelled
    (notTop : place ≠ []) :
    place.path.toList = place.spelled := by
  rw [toList_path, text, Text.cons_intercalate '/' (by simpa using notTop), List.flatMap_map]
  rfl

theorem filterMap_ofName?
    (areNames : ∀ name ∈ place, Path.IsName name) :
    (place.map String.toList).filterMap PathStep.ofName? = place.map PathStep.name := by
  induction place with
  | nil => rfl
  | cons first rest inductionHypothesis =>
      have isFirst := Path.ofName?_of_isName (areNames first List.mem_cons_self)
      rw [List.map_cons, List.filterMap_cons_some isFirst, List.map_cons,
        inductionHypothesis fun name member => areNames name (List.mem_cons_of_mem _ member)]

/-- The path of a place leads along the names of the place. -/
theorem steps_path
    (areNames : ∀ name ∈ place, Path.IsName name) :
    Path.steps place.path = .top :: place.map PathStep.name := by
  rw [Path.steps_of_toList place.toList_path]
  by_cases isTop : place = []
  · subst isTop
    rfl
  · rw [splitOn_text areNames isTop, filterMap_ofName? areNames]

/-- Different places have different paths. -/
theorem path_injective
    {other : Place}
    (areNames : ∀ name ∈ place, Path.IsName name)
    (otherNames : ∀ name ∈ other, Path.IsName name)
    (samePath : place.path = other.path) :
    place = other := by
  have sameSteps := steps_path areNames
  rw [samePath, steps_path otherNames, List.cons_inj_right] at sameSteps
  exact ((List.map_inj_right fun _ _ => PathStep.name.inj).mp sameSteps).symm

/-! The directories above the path of a place. -/

theorem reverse_text_concat
    (place : Place)
    (last : String) :
    (text (place ++ [last])).reverse =
      last.toList.reverse ++ if place = [] then [] else '/' :: place.text.reverse := by
  rw [text_concat]
  split <;> simp

/-- Nothing is dropped behind a name. -/
theorem dropIdle_name
    (isName : Path.IsName name)
    (before : List Char) :
    Path.dropIdle (name.toList.reverse ++ before) = name.toList.reverse ++ before := by
  obtain ⟨notEmpty, notHere, -, noSlash⟩ := isName
  rw [← List.mem_reverse] at noSlash
  rw [← List.reverse_ne_nil_iff] at notEmpty
  have notHere : name.toList.reverse ≠ ['.'] := fun isHere =>
    notHere (List.reverse_eq_iff.mp isHere)
  cases backwards : name.toList.reverse with
  | nil => exact (notEmpty backwards).elim
  | cons last others =>
      rw [backwards] at notHere noSlash
      rw [Path.dropIdle.eq_def]
      cases others <;> split <;> simp_all

theorem dropIdle_reverse_text
    (areNames : ∀ name ∈ place, Path.IsName name) :
    Path.dropIdle place.text.reverse = place.text.reverse := by
  rcases List.eq_nil_or_concat place with rfl | ⟨init, last, rfl⟩
  · rfl
  · rw [List.concat_eq_append, reverse_text_concat]
    exact dropIdle_name (areNames last (by simp)) _

/-- The directory right above a place comes first among those above its path. -/
theorem above_concat
    {last : String}
    (areNames : ∀ name ∈ place ++ [last], Path.IsName name) :
    Path.above ['/'] (text (place ++ [last])).reverse =
      place.path :: Path.above ['/'] place.text.reverse := by
  have isLast : Path.IsName last := areNames last (by simp)
  have placeNames : ∀ name ∈ place, Path.IsName name :=
    fun name member => areNames name (List.mem_append_left _ member)
  have notSlash : ∀ char ∈ last.toList.reverse, (char != '/') = true := by
    intro char member
    rw [bne_iff_ne]
    rintro rfl
    exact isLast.noSlash (List.mem_reverse.mp member)
  have leftEq :
      Path.dropIdle (((text (place ++ [last])).reverse.dropWhile (· != '/')).drop 1) =
        place.text.reverse := by
    rw [reverse_text_concat, List.dropWhile_append_of_pos notSlash]
    split
    · rename_i isTop
      subst isTop
      rfl
    · exact dropIdle_reverse_text placeNames
  have pathEq : String.ofList (['/'] ++ place.text.reverse.reverse) = place.path := by
    rw [List.reverse_reverse, List.singleton_append, ← toList_path, String.ofList_toList]
  rw [Path.above.eq_def]
  split
  · rename_i nothing
    rw [dropIdle_reverse_text areNames, reverse_text_concat, List.append_eq_nil_iff,
      List.reverse_eq_nil_iff] at nothing
    exact (isLast.notEmpty nothing.1).elim
  · rename_i char rest found
    rw [dropIdle_reverse_text areNames] at found
    rw [found] at leftEq
    simp only [leftEq, pathEq]

theorem ancestors_path
    (place : Place) :
    Path.ancestors place.path = place.path :: Path.above ['/'] place.text.reverse := by
  rw [Path.ancestors, toList_path]
  rfl

/-- The directories above an entry are its directory and those above this one. -/
theorem ancestors_path_concat
    {last : String}
    (areNames : ∀ name ∈ place ++ [last], Path.IsName name) :
    Path.ancestors (path (place ++ [last])) =
      path (place ++ [last]) :: Path.ancestors place.path := by
  rw [ancestors_path (place ++ [last]), above_concat areNames, ancestors_path place]

theorem ancestors_path_nil : Path.ancestors (path []) = [path []] := by
  have nothing : Path.above ['/'] (text []).reverse = [] := by
    rw [Path.above.eq_def]
    rfl
  rw [ancestors_path, nothing]

/-! The two ends of the path of a place. -/

theorem isAbsolute_path
    (place : Place) :
    Path.isAbsolute place.path = true := by
  rw [Path.isAbsolute, toList_path]
  rfl

/-- A path that ends in a name can be that of a file. -/
theorem namesDirectory_path_concat
    {last : String}
    (isLast : Path.IsName last) :
    Path.namesDirectory (path (place ++ [last])) = false := by
  have kept :
      Path.dropIdle (path (place ++ [last])).toList.reverse =
        (path (place ++ [last])).toList.reverse := by
    rw [toList_path, List.reverse_cons, reverse_text_concat, List.append_assoc]
    exact dropIdle_name isLast _
  refine Bool.eq_false_iff.mpr fun isDirectory => ?_
  have shorter := Path.length_dropIdle_lt isDirectory
  rw [kept] at shorter
  exact Nat.lt_irrefl _ shorter

/-- The path along a name from a place is that of the entry with this name. -/
theorem join_path
    {last : String}
    (areNames : ∀ name ∈ place, Path.IsName name)
    (isRelative : Path.isAbsolute last = false) :
    Path.join place.path last = path (place ++ [last]) := by
  rw [Path.join, isRelative, Path.isEmpty_eq_false place.toList_path]
  simp only [Bool.or_self, Bool.false_eq_true, if_false]
  rw [← String.toList_inj, toList_path (place ++ [last]), text_concat]
  rcases List.eq_nil_or_concat place with rfl | ⟨init, name, rfl⟩
  · have endsInSlash : ('/' :: text []).getLast? = some '/' := rfl
    rw [toList_path, if_pos endsInSlash, String.toList_append, toList_path]
    rfl
  · have endsInName : (path (init ++ [name])).toList.getLast? ≠ some '/' := by
      have isName : Path.IsName name := areNames name (by simp)
      rw [← List.head?_reverse, toList_path, List.reverse_cons, reverse_text_concat,
        List.append_assoc]
      cases backwards : name.toList.reverse with
      | nil => exact (isName.notEmpty (List.reverse_eq_nil_iff.mp backwards)).elim
      | cons char others =>
          rintro ⟨⟩
          exact isName.noSlash (List.mem_reverse.mp (backwards ▸ List.mem_cons_self))
    rw [List.concat_eq_append, if_neg endsInName, if_neg (by simp), String.toList_append,
      String.toList_append, toList_path]
    simp

end Place

namespace Path

variable {path name : String} {place : Place}

/-- The names of the place to which steps lead are those of the steps and of where they start. -/
theorem mem_foldl_goFrom
    {steps : List PathStep}
    (member : name ∈ steps.foldl PathStep.goFrom place) :
    name ∈ place ∨ .name name ∈ steps := by
  induction steps generalizing place with
  | nil => exact .inl member
  | cons step rest inductionHypothesis =>
      rcases inductionHypothesis member with inPlace | inRest
      · cases step with
        | top => cases inPlace
        | here => exact .inl inPlace
        | parent => exact .inl ((List.dropLast_sublist place).subset inPlace)
        | name text =>
            rcases List.mem_append.mp inPlace with inPlace | isText
            · exact .inl inPlace
            · obtain rfl := List.mem_singleton.mp isText
              exact .inr List.mem_cons_self
      · exact .inr (List.mem_cons_of_mem _ inRest)

/-- The name of a step, with a slash before it. -/
def spelledStep : PathStep → List Char
  | .name text => '/' :: text.toList
  | _ => []

/-- A step adds its own name to those of a place at most. -/
theorem spelled_goFrom_sublist
    (place : Place)
    (step : PathStep) :
    (Place.spelled (step.goFrom place)).Sublist (place.spelled ++ spelledStep step) := by
  cases step with
  | top => exact List.nil_sublist _
  | here => exact List.sublist_append_left _ _
  | parent => exact ((List.dropLast_sublist place).flatMap _).trans (List.sublist_append_left _ _)
  | name text => simp [PathStep.goFrom, Place.spelled, spelledStep]

theorem spelled_foldl_goFrom_sublist
    (place : Place)
    (steps : List PathStep) :
    (Place.spelled (steps.foldl PathStep.goFrom place)).Sublist
      (place.spelled ++ steps.flatMap spelledStep) := by
  induction steps generalizing place with
  | nil => exact List.sublist_append_left _ _
  | cons step rest inductionHypothesis =>
      have stepPart := (spelled_goFrom_sublist place step).append_right (rest.flatMap spelledStep)
      rw [List.foldl_cons, List.flatMap_cons, ← List.append_assoc]
      exact (inductionHypothesis (step.goFrom place)).trans stepPart

theorem flatMap_spelledStep_sublist
    (parts : List (List Char)) :
    ((parts.filterMap PathStep.ofName?).flatMap spelledStep).Sublist
      (parts.flatMap ('/' :: ·)) := by
  induction parts with
  | nil => exact List.nil_sublist _
  | cons part rest inductionHypothesis =>
      rw [List.filterMap_cons, List.flatMap_cons]
      cases found : PathStep.ofName? part with
      | none => exact List.sublist_append_of_sublist_right inductionHypothesis
      | some step =>
          have stepPart : (spelledStep step).Sublist ('/' :: part) := by
            cases step with
            | name text => exact (of_ofName?_eq_some found).1 ▸ List.Sublist.refl _
            | top | here | parent => exact List.nil_sublist _
          exact stepPart.append inductionHypothesis

/-- An absolute path spells the path of the place to which it leads, with detours. -/
theorem toList_path_place_sublist
    {rest : List Char}
    (pathEq : path.toList = '/' :: rest) :
    (Path.place path).path.toList.Sublist path.toList := by
  by_cases isTop : Path.place path = []
  · rw [isTop, pathEq]
    exact (List.nil_sublist rest).cons_cons '/'
  · have placePart := spelled_foldl_goFrom_sublist (PathStep.goFrom [] .top)
      ((rest.splitOn '/').filterMap PathStep.ofName?)
    have stepsPart := flatMap_spelledStep_sublist (rest.splitOn '/')
    rw [Text.flatMap_splitOn, ← pathEq] at stepsPart
    rw [Place.toList_path_eq_spelled isTop, Path.place, steps_of_toList pathEq, List.foldl_cons]
    exact placePart.trans stepsPart

end Path

namespace Disk

variable
  {disk : Disk}
  {place final : Place}
  {entry : DiskEntry}
  {steps : List PathStep}
  {path : String}

/-- The way to a place is open: it passes directories only, and the names are not too long. -/
structure Reaches (disk : Disk) (place : Place) : Prop where
  isDirectory :
    ∀ front : Place, front <+: place → front ≠ place → disk.entry? front = some .directory
  isShort : ∀ name ∈ place, checkName name = .ok ()

theorem Reaches.dropLast
    (reaches : disk.Reaches place) :
    disk.Reaches place.dropLast := by
  refine ⟨fun front isFront notSame => ?_, fun name member => ?_⟩
  · refine reaches.isDirectory front (isFront.trans (List.dropLast_prefix place)) ?_
    rintro rfl
    exact notSame ((List.dropLast_prefix front).eq_of_length_le isFront.length_le).symm
  · exact reaches.isShort name ((List.dropLast_sublist place).subset member)

/-- The way goes on into a directory. -/
theorem Reaches.concat
    {last : String}
    (reaches : disk.Reaches place)
    (isDirectory : disk.entry? place = some .directory)
    (isShort : checkName last = .ok ()) :
    disk.Reaches (place ++ [last]) := by
  refine ⟨fun front isFront notSame => ?_, fun name member => ?_⟩
  · rcases List.prefix_concat_iff.mp isFront with isWhole | isFront
    · exact (notSame isWhole).elim
    · by_cases isPlace : front = place
      · exact isPlace ▸ isDirectory
      · exact reaches.isDirectory front isFront isPlace
  · rcases List.mem_append.mp member with inPlace | isLast
    · exact reaches.isShort name inPlace
    · exact List.mem_singleton.mp isLast ▸ isShort

theorem reaches_nil : disk.Reaches [] :=
  ⟨fun _ isFront notSame => (notSame (List.prefix_nil.mp isFront)).elim, nofun⟩

/-- Following steps ends at a place that the disk reaches. -/
theorem Reaches.of_follow
    (reaches : disk.Reaches place)
    (followed : disk.follow place steps = .ok final) :
    disk.Reaches final := by
  fun_induction Path.wayFrom place steps with
  | case1 place =>
      cases followed
      exact reaches
  | case2 place rest inductionHypothesis => exact inductionHypothesis reaches_nil followed
  | case3 place step rest notTop inductionHypothesis =>
      obtain ⟨isDirectory, named, followed⟩ := (follow_cons_eq_ok_iff notTop rest).mp followed
      refine inductionHypothesis ?_ followed
      cases step with
      | top => exact reaches_nil
      | here => exact reaches
      | parent => exact reaches.dropLast
      | name text => exact reaches.concat isDirectory named

/-- The names of a place that the disk reaches can be followed. -/
theorem Reaches.follow_names
    {rest : List String}
    (reaches : disk.Reaches (place ++ rest)) :
    disk.follow place (rest.map .name) = .ok (place ++ rest) := by
  induction rest generalizing place with
  | nil => rw [List.append_nil]; rfl
  | cons name rest inductionHypothesis =>
      have laterEq := @inductionHypothesis (place ++ [name]) (by simpa using reaches)
      rw [List.append_assoc, List.singleton_append] at laterEq
      have notTop : PathStep.name name ≠ .top := nofun
      rw [List.map_cons, follow_cons_eq_ok_iff notTop]
      refine ⟨reaches.isDirectory place (List.prefix_append _ _) (by simp), ?_, laterEq⟩
      exact reaches.isShort name (by simp)

/-- An accepted path has no end mark inside, and is not too long. -/
theorem checkPath_isOk_iff :
    (checkPath path).isOk = true ↔
      (∀ char ∈ path.toList, char.toNat ≠ 0) ∧ path.utf8ByteSize ≤ longestPath := by
  rw [checkPath]
  by_cases hasEndMark : (path.toList.any fun char => char.toNat == 0) = true
  · rw [if_pos hasEndMark]
    obtain ⟨char, member, isEndMark⟩ := List.any_eq_true.mp hasEndMark
    have hasCodeZero : char.toNat = 0 := by simpa using isEndMark
    exact ⟨fun isOk => Bool.noConfusion isOk,
      fun accepted => (accepted.1 char member hasCodeZero).elim⟩
  · rw [if_neg hasEndMark]
    split <;> simp_all [Except.isOk, Except.toBool]

theorem locate_eq_ok_iff :
    disk.locate path = .ok (place, entry) ↔
      disk.placeOf path = .ok place ∧
        disk.entry? place = some entry ∧
          (entry = .directory ∨ Path.namesDirectory path = false) := by
  rw [locate]
  cases disk.placeOf path with
  | error fault => simp [bind, Except.bind]
  | ok final =>
      by_cases isFinal : final = place
      · subst isFinal
        cases Path.namesDirectory path <;>
          rcases found : disk.entry? final with _ | _ | _ <;>
          simp [bind, Except.bind, found, pure, Except.pure, throw, throwThe, MonadExceptOf.throw]
        all_goals
          rintro rfl
          simp
      · cases Path.namesDirectory path <;>
          rcases found : disk.entry? final with _ | _ | _ <;>
          simp [bind, Except.bind, found, pure, Except.pure, isFinal,
            throw, throwThe, MonadExceptOf.throw]

theorem isName_of_locate
    (isAbsolute : Path.isAbsolute path = true)
    (located : disk.locate path = .ok (place, entry)) :
    ∀ name ∈ place, Path.IsName name := by
  intro name member
  obtain ⟨rest, pathEq⟩ := Path.exists_of_isAbsolute isAbsolute
  rw [eq_of_placeOf_eq_ok (locate_eq_ok_iff.mp located).1] at member
  rcases Path.mem_foldl_goFrom member with atTop | onWay
  · cases atTop
  · exact Path.isName_of_mem_steps pathEq onWay

/-- A disk accepts the path of the place that a path names. -/
theorem checkPath_place_path
    (isAbsolute : Path.isAbsolute path = true)
    (located : disk.locate path = .ok (place, entry)) :
    (checkPath place.path).isOk = true := by
  obtain ⟨rest, pathEq⟩ := Path.exists_of_isAbsolute isAbsolute
  obtain ⟨placed, -⟩ := locate_eq_ok_iff.mp located
  obtain ⟨accepted, -⟩ := placeOf_eq_ok_iff.mp placed
  obtain ⟨noEndMark, isShort⟩ := checkPath_isOk_iff.mp accepted
  have isPart := Path.toList_path_place_sublist pathEq
  rw [← eq_of_placeOf_eq_ok placed] at isPart
  have notLonger := Text.byteLength_le_of_sublist isPart
  rw [← Text.utf8ByteSize_eq, ← Text.utf8ByteSize_eq] at notLonger
  exact checkPath_isOk_iff.mpr
    ⟨fun char member => noEndMark char (isPart.subset member), Nat.le_trans notLonger isShort⟩

/-- The path of the place that a path names leads to the same entry. -/
theorem locate_place_path
    (isAbsolute : Path.isAbsolute path = true)
    (located : disk.locate path = .ok (place, entry)) :
    disk.locate place.path = .ok (place, entry) := by
  have areNames := isName_of_locate isAbsolute located
  have accepted := checkPath_place_path isAbsolute located
  obtain ⟨placed, found, isEntry⟩ := locate_eq_ok_iff.mp located
  have reaches := reaches_nil.of_follow (placeOf_eq_ok_iff.mp placed).2
  rw [locate_eq_ok_iff, placeOf_eq_ok_iff, Place.steps_path areNames, accepted]
  have followed : disk.follow [] (place.map .name) = .ok place := reaches.follow_names
  refine ⟨⟨rfl, followed⟩, found, ?_⟩
  rcases List.eq_nil_or_concat place with rfl | ⟨init, last, rfl⟩
  · exact .inl (Option.some.inj found).symm
  · rw [List.concat_eq_append] at areNames ⊢
    exact .inr (Place.namesDirectory_path_concat (areNames last (by simp)))

end Disk

end ZigLint
