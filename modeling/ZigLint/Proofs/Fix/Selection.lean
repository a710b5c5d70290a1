import ZigLint.Proofs.Fix.Splice

namespace ZigLint

/-!
# Which fixes are taken

The same fix may be given twice, so fixes are told apart by their numbers in the
list. The numbers settle the ties of the sort, and the fixes are gone through in a
strict order: by start, then by number. A fix is taken if its range is one of whole
characters and it does not start before the end of the one taken last. So a fix that
is left out is invalid, or a fix that was taken before it is in its way.
-/

namespace Fix

/-- The range of the fix is one of whole characters of the source. -/
structure IsValid (source : String) (fix : Fix) : Prop where
  ordered : fix.start ≤ fix.stop
  inside : fix.stop ≤ source.utf8ByteSize
  startsAtBoundary : Text.isBoundary source.toList fix.start = true
  stopsAtBoundary : Text.isBoundary source.toList fix.stop = true

instance (source : String) (fix : Fix) : Decidable (fix.IsValid source) :=
  decidable_of_iff
    (fix.start ≤ fix.stop ∧ fix.stop ≤ source.utf8ByteSize ∧
      Text.isBoundary source.toList fix.start = true ∧
      Text.isBoundary source.toList fix.stop = true)
    ⟨fun ⟨ordered, inside, startsAt, stopsAt⟩ => ⟨ordered, inside, startsAt, stopsAt⟩,
      fun ⟨ordered, inside, startsAt, stopsAt⟩ => ⟨ordered, inside, startsAt, stopsAt⟩⟩

section Ranges

variable {source : String} {fix : Fix} {cursor : Nat} {front rest : List Char}

/-- The fix replaces the part of a source between two others. -/
theorem IsValid.of_parts
    {kept old later : List Char}
    (sourceEq : source.toList = kept ++ (old ++ later))
    (startEq : fix.start = Text.byteLength kept)
    (stopEq : fix.stop = fix.start + Text.byteLength old) :
    fix.IsValid source := by
  have stopLength : Text.byteLength (kept ++ old) = fix.stop := by
    rw [Text.byteLength_append, stopEq, startEq]
  have stopsAt : Text.isBoundary source.toList fix.stop = true := by
    rw [sourceEq, ← List.append_assoc, ← stopLength]
    exact Text.isBoundary_append _ _
  refine ⟨by omega, ?_, ?_, stopsAt⟩
  · rw [Text.utf8ByteSize_eq]
    exact Text.le_byteLength_of_isBoundary stopsAt
  · rw [sourceEq, startEq]
    exact Text.isBoundary_append _ _

/-- A valid fix that does not start before the cursor replaces a part of the text after it. -/
theorem IsValid.exists_parts
    (valid : fix.IsValid source)
    (sourceEq : source.toList = front ++ rest)
    (cursorLe : Text.byteLength front ≤ fix.start) :
    ∃ kept old later,
      rest = kept ++ (old ++ later) ∧ fix.start = Text.byteLength front + Text.byteLength kept ∧
        fix.stop = fix.start + Text.byteLength old := by
  obtain ⟨toStart, fromStart, startParts, startEq⟩ :=
    Text.isBoundary_iff.mp valid.startsAtBoundary
  obtain ⟨toStop, fromStop, stopParts, stopEq⟩ := Text.isBoundary_iff.mp valid.stopsAtBoundary
  obtain ⟨kept, rfl, restEq⟩ :=
    Text.exists_between (sourceEq.symm.trans startParts) (by omega)
  have stopsLater : Text.byteLength (front ++ kept) ≤ Text.byteLength toStop := by
    rw [startEq, stopEq]
    exact valid.ordered
  obtain ⟨old, rfl, fromStartEq⟩ :=
    Text.exists_between (startParts.symm.trans stopParts) stopsLater
  refine ⟨kept, old, fromStop, ?_, ?_, ?_⟩
  · rw [restEq, fromStartEq]
  · rw [← startEq, Text.byteLength_append]
  · rw [← stopEq, ← startEq, Text.byteLength_append]

/-- What is cut out of the text after the cursor is the range of the fix. -/
theorem exists_old_of_cut?
    {kept later : List Char}
    (found : fix.cut? cursor rest = some (kept, later)) :
    ∃ old,
      rest = kept ++ (old ++ later) ∧ fix.start = cursor + Text.byteLength kept ∧
        fix.stop = fix.start + Text.byteLength old := by
  unfold cut? at found
  split at found
  · rename_i ordered
    simp only [Option.bind_eq_bind, Option.bind_eq_some_iff, Option.pure_def, Option.some.injEq,
      Prod.exists, Prod.mk.injEq] at found
    obtain ⟨_, after, foundStart, old, _, foundStop, rfl, rfl⟩ := found
    obtain ⟨rfl, keptLength⟩ := Text.splitAtByte?_eq_some_iff.mp foundStart
    obtain ⟨rfl, oldLength⟩ := Text.splitAtByte?_eq_some_iff.mp foundStop
    exact ⟨old, rfl, by omega, by omega⟩
  · cases found

/-- The text up to the end of a fix stands before what follows the fix. -/
theorem split_after_parts
    {kept old later : List Char}
    (sourceEq : source.toList = front ++ (kept ++ (old ++ later)))
    (cursorEq : Text.byteLength front = cursor)
    (startEq : fix.start = cursor + Text.byteLength kept)
    (stopEq : fix.stop = fix.start + Text.byteLength old) :
    source.toList = (front ++ (kept ++ old)) ++ later ∧
      Text.byteLength (front ++ (kept ++ old)) = fix.stop := by
  constructor
  · rw [sourceEq]
    simp only [List.append_assoc]
  · simp only [Text.byteLength_append]
    omega

/-- A fix can be cut out exactly if it is valid and does not start before the cursor. -/
theorem cut?_isSome_iff
    (sourceEq : source.toList = front ++ rest)
    (cursorEq : Text.byteLength front = cursor) :
    (fix.cut? cursor rest).isSome = true ↔ cursor ≤ fix.start ∧ fix.IsValid source := by
  constructor
  · intro isCut
    obtain ⟨⟨kept, later⟩, found⟩ := Option.isSome_iff_exists.mp isCut
    obtain ⟨old, rfl, startEq, stopEq⟩ := exists_old_of_cut? found
    refine ⟨by omega, ?_⟩
    rw [← List.append_assoc] at sourceEq
    refine .of_parts sourceEq ?_ stopEq
    rw [Text.byteLength_append]
    omega
  · rintro ⟨cursorLe, valid⟩
    subst cursorEq
    obtain ⟨kept, old, later, rfl, startEq, stopEq⟩ := valid.exists_parts sourceEq cursorLe
    rw [cut?_append startEq stopEq]
    rfl

end Ranges

/-- One numbered fix comes before another: by its start, and at the same start by its number. -/
def Precedes (earlier later : Fix × Nat) : Prop :=
  earlier.1.start < later.1.start ∨
    (earlier.1.start = later.1.start ∧ earlier.2 < later.2)

/-- The fixes with their numbers, in the order in which they are gone through. -/
def numberedByStart (fixes : List Fix) : List (Fix × Nat) :=
  fixes.zipIdx.mergeSort (List.zipIdxLE fun left right => left.start ≤ right.start)

theorem map_fst_numberedByStart
    (fixes : List Fix) :
    (numberedByStart fixes).map Prod.fst = sortByStart fixes :=
  List.mergeSort_zipIdx

theorem numberedByStart_perm
    (fixes : List Fix) :
    (numberedByStart fixes).Perm fixes.zipIdx :=
  List.mergeSort_perm _ _

/-- The order of the fixes is strict, since the numbers settle the ties. -/
theorem numberedByStart_pairwise
    (fixes : List Fix) :
    (numberedByStart fixes).Pairwise Precedes := by
  have sorted :
      (numberedByStart fixes).Pairwise fun left right =>
        List.zipIdxLE (fun left right : Fix => decide (left.start ≤ right.start)) left right =
          true :=
    List.pairwise_mergeSort (List.zipIdxLE_trans fun _ _ _ => by simpa using Nat.le_trans)
      (List.zipIdxLE_total fun _ _ => by simpa using Nat.le_total _ _) fixes.zipIdx
  have numbersNodup : ((numberedByStart fixes).map Prod.snd).Nodup := by
    rw [((numberedByStart_perm fixes).map Prod.snd).nodup_iff, List.zipIdx_map_snd]
    exact List.nodup_range'
  have numbersDiffer : (numberedByStart fixes).Pairwise fun left right => left.2 ≠ right.2 :=
    List.pairwise_map.mp numbersNodup
  refine (sorted.and numbersDiffer).imp ?_
  rintro ⟨left, leftNumber⟩ ⟨right, rightNumber⟩ ⟨isBefore, numbersNe⟩
  simp only [List.zipIdxLE, decide_eq_true_eq] at isBefore
  rcases Nat.lt_trichotomy left.start right.start with starts | starts | starts
  · exact .inl starts
  · have numbersLe : leftNumber ≤ rightNumber := by simpa [starts] using isBefore
    exact .inr ⟨starts, Nat.lt_of_le_of_ne numbersLe numbersNe⟩
  · simp [Nat.not_le.mpr starts] at isBefore

theorem Precedes.start_le
    {earlier later : Fix × Nat}
    (precedes : Precedes earlier later) :
    earlier.1.start ≤ later.1.start := by
  rcases precedes with starts | ⟨starts, -⟩
  · exact Nat.le_of_lt starts
  · exact Nat.le_of_eq starts

theorem Precedes.asymm
    {earlier later : Fix × Nat}
    (precedes : Precedes earlier later) :
    ¬ Precedes later earlier := by
  simp only [Precedes] at *
  omega

/--
Going through numbered fixes in order, those that are valid and do not start before
`cursor`, the end of the fix taken last, are taken and the others are left.
-/
inductive Sifts (source : String) :
    (cursor : Nat) → (order taken left : List (Fix × Nat)) → Prop where
  | done
      {cursor : Nat} :
      Sifts source cursor [] [] []
  | take
      {cursor : Nat}
      {item : Fix × Nat}
      {order taken left : List (Fix × Nat)} :
      cursor ≤ item.1.start →
      item.1.IsValid source →
      Sifts source item.1.stop order taken left →
      Sifts source cursor (item :: order) (item :: taken) left
  | leave
      {cursor : Nat}
      {item : Fix × Nat}
      {order taken left : List (Fix × Nat)} :
      ¬ (cursor ≤ item.1.start ∧ item.1.IsValid source) →
      Sifts source cursor order taken left →
      Sifts source cursor (item :: order) taken (item :: left)

/-- Splicing sifts the fixes. -/
theorem exists_sifts
    {source : String}
    {cursor : Nat}
    {front rest : List Char}
    (order : List (Fix × Nat))
    (sourceEq : source.toList = front ++ rest)
    (cursorEq : Text.byteLength front = cursor) :
    ∃ taken left,
      Sifts source cursor order taken left ∧
        (splice cursor rest (order.map Prod.fst)).applied = taken.map Prod.fst ∧
        (splice cursor rest (order.map Prod.fst)).skipped = left.map Prod.fst := by
  induction order generalizing cursor front rest with
  | nil => exact ⟨[], [], .done, rfl, rfl⟩
  | cons item order inductionHypothesis =>
      have isCut_iff : (item.1.cut? cursor rest).isSome = true ↔
          cursor ≤ item.1.start ∧ item.1.IsValid source :=
        cut?_isSome_iff sourceEq cursorEq
      rw [List.map_cons, splice]
      cases found : item.1.cut? cursor rest with
      | none =>
          obtain ⟨taken, left, sifts, appliedEq, skippedEq⟩ := inductionHypothesis sourceEq cursorEq
          rw [found] at isCut_iff
          have notTaken : ¬ (cursor ≤ item.1.start ∧ item.1.IsValid source) :=
            fun fits => Bool.noConfusion (isCut_iff.mpr fits)
          refine ⟨taken, item :: left, .leave notTaken sifts, appliedEq, ?_⟩
          rw [List.map_cons, ← skippedEq]
      | some parts =>
          obtain ⟨kept, later⟩ := parts
          obtain ⟨old, rfl, startEq, stopEq⟩ := exists_old_of_cut? found
          obtain ⟨sourceLater, stopLength⟩ := split_after_parts sourceEq cursorEq startEq stopEq
          obtain ⟨taken, left, sifts, appliedEq, skippedEq⟩ :=
            inductionHypothesis sourceLater stopLength
          rw [found] at isCut_iff
          obtain ⟨cursorLe, valid⟩ := isCut_iff.mp rfl
          refine ⟨item :: taken, left, .take cursorLe valid sifts, ?_, skippedEq⟩
          rw [List.map_cons, ← appliedEq]

namespace Sifts

variable
  {source : String}
  {cursor : Nat}
  {item : Fix × Nat}
  {order taken left : List (Fix × Nat)}

theorem perm
    (sifts : Sifts source cursor order taken left) :
    (taken ++ left).Perm order := by
  induction sifts with
  | done => exact .nil
  | take _ _ _ inductionHypothesis => exact inductionHypothesis.cons _
  | leave _ _ inductionHypothesis => exact List.perm_middle.trans (inductionHypothesis.cons _)

theorem taken_sublist
    (sifts : Sifts source cursor order taken left) :
    taken.Sublist order := by
  induction sifts with
  | done => exact .slnil
  | take _ _ _ inductionHypothesis => exact inductionHypothesis.cons_cons _
  | leave _ _ inductionHypothesis => exact inductionHypothesis.cons _

theorem left_sublist
    (sifts : Sifts source cursor order taken left) :
    left.Sublist order := by
  induction sifts with
  | done => exact .slnil
  | take _ _ _ inductionHypothesis => exact inductionHypothesis.cons _
  | leave _ _ inductionHypothesis => exact inductionHypothesis.cons_cons _

/-- A fix that is taken is valid and starts at or after the end of every one taken before it. -/
theorem of_mem_taken
    (sifts : Sifts source cursor order taken left)
    (ordered : order.Pairwise Precedes)
    (member : item ∈ taken) :
    item.1.IsValid source ∧ cursor ≤ item.1.start ∧
      ∀ earlier ∈ taken, Precedes earlier item → earlier.1.stop ≤ item.1.start := by
  induction sifts with
  | done => cases member
  | @take cursor first order taken left cursorLe valid sifts inductionHypothesis =>
      obtain ⟨firstPrecedes, orderedLater⟩ := List.pairwise_cons.mp ordered
      rcases List.mem_cons.mp member with rfl | isLater
      · refine ⟨valid, cursorLe, fun earlier isTaken precedes => ?_⟩
        rcases List.mem_cons.mp isTaken with rfl | takenLater
        · exact absurd precedes precedes.asymm
        · have inOrder := sifts.taken_sublist.subset takenLater
          exact absurd precedes (firstPrecedes earlier inOrder).asymm
      · obtain ⟨itemValid, stopLe, afterEarlier⟩ := inductionHypothesis orderedLater isLater
        have := valid.ordered
        refine ⟨itemValid, by omega, fun earlier isTaken precedes => ?_⟩
        rcases List.mem_cons.mp isTaken with rfl | takenLater
        · exact stopLe
        · exact afterEarlier earlier takenLater precedes
  | leave _ _ inductionHypothesis =>
      exact inductionHypothesis (List.pairwise_cons.mp ordered).2 member

/-- A fix that is left is invalid, or starts before the end of one taken before it. -/
theorem of_mem_left
    (sifts : Sifts source cursor order taken left)
    (ordered : order.Pairwise Precedes)
    (member : item ∈ left) :
    ¬ item.1.IsValid source ∨ item.1.start < cursor ∨
      ∃ earlier ∈ taken, Precedes earlier item ∧ item.1.start < earlier.1.stop := by
  induction sifts with
  | done => cases member
  | @take cursor first order taken left _ _ sifts inductionHypothesis =>
      obtain ⟨firstPrecedes, orderedLater⟩ := List.pairwise_cons.mp ordered
      rcases inductionHypothesis orderedLater member with
          invalid | beforeStop | ⟨earlier, isTaken, inTheWay⟩
      · exact .inl invalid
      · have precedes := firstPrecedes item (sifts.left_sublist.subset member)
        exact .inr (.inr ⟨first, List.mem_cons_self, precedes, beforeStop⟩)
      · exact .inr (.inr ⟨earlier, List.mem_cons_of_mem first isTaken, inTheWay⟩)
  | leave notTaken _ inductionHypothesis =>
      rcases List.mem_cons.mp member with rfl | isLater
      · rcases Decidable.not_and_iff_or_not.mp notTaken with beforeCursor | invalid
        · exact .inr (.inl (Nat.lt_of_not_le beforeCursor))
        · exact .inl invalid
      · exact inductionHypothesis (List.pairwise_cons.mp ordered).2 isLater

/-- The fixes that are taken follow each other. -/
theorem taken_apart
    (sifts : Sifts source cursor order taken left)
    (ordered : order.Pairwise Precedes) :
    taken.Pairwise fun earlier later => earlier.1.stop ≤ later.1.start := by
  refine (ordered.sublist sifts.taken_sublist).imp_of_mem fun isEarlier isLater precedes => ?_
  exact (sifts.of_mem_taken ordered isLater).2.2 _ isEarlier precedes

/-- A fix is left exactly if it is invalid or starts before the end of one taken before it. -/
theorem mem_left_iff
    (sifts : Sifts source 0 order taken left)
    (ordered : order.Pairwise Precedes)
    (member : item ∈ order) :
    item ∈ left ↔
      ¬ item.1.IsValid source ∨
        ∃ earlier ∈ taken, Precedes earlier item ∧ item.1.start < earlier.1.stop := by
  constructor
  · intro isLeft
    rcases sifts.of_mem_left ordered isLeft with invalid | beforeStart | inTheWay
    · exact .inl invalid
    · exact absurd beforeStart (Nat.not_lt_zero _)
    · exact .inr inTheWay
  · intro reason
    rcases List.mem_append.mp (sifts.perm.mem_iff.mpr member) with isTaken | isLeft
    · obtain ⟨valid, -, afterEarlier⟩ := sifts.of_mem_taken ordered isTaken
      rcases reason with invalid | ⟨earlier, earlierTaken, precedes, beforeStop⟩
      · exact absurd valid invalid
      · have := afterEarlier earlier earlierTaken precedes
        omega
    · exact isLeft

end Sifts

/-- Applying fixes sifts them in the order of their starts and numbers. -/
theorem exists_sifts_apply
    (source : String)
    (fixes : List Fix) :
    ∃ taken left,
      Sifts source 0 (numberedByStart fixes) taken left ∧
        (apply source fixes).applied = taken.map Prod.fst ∧
        (apply source fixes).skipped = left.map Prod.fst := by
  have atStart : source.toList = [] ++ source.toList := rfl
  rw [apply, ← map_fst_numberedByStart]
  exact exists_sifts (numberedByStart fixes) atStart rfl

section Overlaps

variable {earlier later : Fix}

/-- A fix with one in its way shares a byte with that one or inserts a text at its start. -/
theorem overlaps_or_inserts
    (ordered : later.start ≤ later.stop)
    (startLe : earlier.start ≤ later.start)
    (inTheWay : later.start < earlier.stop) :
    later.overlaps earlier = true ∨
      (later.start = later.stop ∧ later.start = earlier.start) := by
  simp only [overlaps, Bool.and_eq_true, decide_eq_true_eq]
  omega

theorem not_overlaps_of_stop_le
    (stopLe : earlier.stop ≤ later.start) :
    earlier.overlaps later = false ∧ later.overlaps earlier = false := by
  simp only [overlaps, Bool.and_eq_false_iff, decide_eq_false_iff_not]
  omega

end Overlaps

/--
Every fix that is skipped is skipped for a reason.

The fixes are numbered in the order in which they are given. A numbered fix is left
out exactly if it is invalid or starts before the end of a fix that is taken before
it; unless it is inverted, it then shares a byte with that fix or inserts a text
right at its start.
-/
theorem apply_skipped_iff
    (source : String)
    (fixes : List Fix) :
    ∃ taken left : List (Fix × Nat),
      (taken ++ left).Perm fixes.zipIdx ∧
        taken.Pairwise Precedes ∧
        left.Pairwise Precedes ∧
        (apply source fixes).applied = taken.map Prod.fst ∧
        (apply source fixes).skipped = left.map Prod.fst ∧
        (∀ item ∈ fixes.zipIdx,
          (item ∈ left ↔
            ¬ item.1.IsValid source ∨
              ∃ earlier ∈ taken, Precedes earlier item ∧ item.1.start < earlier.1.stop)) ∧
        (∀ item ∈ left, item.1.start ≤ item.1.stop →
          ∀ earlier ∈ taken, Precedes earlier item → item.1.start < earlier.1.stop →
            item.1.overlaps earlier.1 = true ∨
              (item.1.start = item.1.stop ∧ item.1.start = earlier.1.start)) ∧
        ((apply source fixes).applied.Pairwise fun one other =>
          one.overlaps other = false ∧ other.overlaps one = false) ∧
        ((∃ fix ∈ fixes, fix.IsValid source) → (apply source fixes).applied ≠ []) := by
  obtain ⟨taken, left, sifts, appliedEq, skippedEq⟩ := exists_sifts_apply source fixes
  have ordered := numberedByStart_pairwise fixes
  have perm := numberedByStart_perm fixes
  refine ⟨taken, left, sifts.perm.trans perm, ordered.sublist sifts.taken_sublist,
    ordered.sublist sifts.left_sublist, appliedEq, skippedEq, ?_, ?_, ?_, ?_⟩
  · intro item member
    exact sifts.mem_left_iff ordered (perm.mem_iff.mpr member)
  · intro item _ inOrder earlier _ precedes inTheWay
    exact overlaps_or_inserts inOrder precedes.start_le inTheWay
  · rw [appliedEq, List.pairwise_map]
    exact (sifts.taken_apart ordered).imp not_overlaps_of_stop_le
  · rintro ⟨fix, member, valid⟩ nothingApplied
    obtain rfl : taken = [] := by simpa [appliedEq] using nothingApplied
    obtain ⟨number, numbered⟩ := List.getElem?_of_mem member
    have inOrder : (fix, number) ∈ numberedByStart fixes :=
      perm.mem_iff.mpr (List.mk_mem_zipIdx_iff_getElem?.mpr numbered)
    -- Nothing is taken, so the valid fix is left, and nothing can be in its way.
    have isLeft : (fix, number) ∈ left := sifts.perm.mem_iff.mpr inOrder
    rcases (sifts.mem_left_iff ordered inOrder).mp isLeft with invalid | ⟨_, isTaken, _⟩
    · exact invalid valid
    · cases isTaken

end Fix

end ZigLint
