import ZigLint.Proofs.Token.Cut

namespace ZigLint.Text

/-!
# Character boundaries

A byte offset is a character boundary of a text exactly if some front of the text
has that many bytes. Two ways to cut a text are therefore told apart by their
lengths: fronts with the same number of bytes are equal, and a shorter front is
the beginning of a longer one.
-/

theorem utf8ByteSize_ofList
    (chars : List Char) :
    (String.ofList chars).utf8ByteSize = byteLength chars := by
  induction chars with
  | nil => rfl
  | cons char rest inductionHypothesis =>
      rw [byteLength, ← inductionHypothesis, String.ofList_cons, String.utf8ByteSize_append,
        String.utf8ByteSize_singleton]

theorem utf8ByteSize_eq
    (text : String) :
    text.utf8ByteSize = byteLength text.toList := by
  rw [← utf8ByteSize_ofList, String.ofList_toList]

theorem byteLength_pos
    {chars : List Char}
    (notEmpty : chars ≠ []) :
    0 < byteLength chars := by
  cases chars with
  | nil => exact (notEmpty rfl).elim
  | cons char rest =>
      have := char.utf8Size_pos
      rw [byteLength]
      omega

/-- Cutting a text after as many bytes as its front has cuts off that front. -/
theorem splitAtByte?_append
    (front back : List Char) :
    splitAtByte? (byteLength front) (front ++ back) = some (front, back) := by
  induction front with
  | nil => cases back <;> rfl
  | cons char rest inductionHypothesis =>
      have positive := char.utf8Size_pos
      rw [List.cons_append, splitAtByte?, byteLength, if_neg (by omega), if_neg (by omega),
        Nat.add_sub_cancel_left, inductionHypothesis]
      rfl

/-- The two parts of a text that is cut make up the text, and the first has the length asked for. -/
theorem splitAtByte?_eq_some_iff
    {offset : Nat}
    {chars front back : List Char} :
    splitAtByte? offset chars = some (front, back) ↔
      chars = front ++ back ∧ byteLength front = offset := by
  constructor
  · intro found
    fun_induction splitAtByte? offset chars generalizing front with
    | case1 =>
        cases found
        exact ⟨rfl, rfl⟩
    | case2 => cases found
    | case3 =>
        cases found
        exact ⟨rfl, rfl⟩
    | case4 => cases found
    | case5 offset char rest notZero notInside inductionHypothesis =>
        obtain ⟨⟨before, after⟩, foundLater, pairEq⟩ := Option.map_eq_some_iff.mp found
        cases pairEq
        obtain ⟨rfl, lengthEq⟩ := inductionHypothesis foundLater
        refine ⟨rfl, ?_⟩
        rw [byteLength]
        omega
  · rintro ⟨rfl, rfl⟩
    exact splitAtByte?_append front back

theorem isBoundary_iff
    {chars : List Char}
    {offset : Nat} :
    isBoundary chars offset = true ↔
      ∃ front back, chars = front ++ back ∧ byteLength front = offset := by
  rw [isBoundary, Option.isSome_iff_exists]
  constructor
  · rintro ⟨⟨front, back⟩, found⟩
    exact ⟨front, back, splitAtByte?_eq_some_iff.mp found⟩
  · rintro ⟨front, back, parts⟩
    exact ⟨(front, back), splitAtByte?_eq_some_iff.mpr parts⟩

theorem isBoundary_append
    (front back : List Char) :
    isBoundary (front ++ back) (byteLength front) = true :=
  isBoundary_iff.mpr ⟨front, back, rfl, rfl⟩

theorem le_byteLength_of_isBoundary
    {chars : List Char}
    {offset : Nat}
    (atBoundary : isBoundary chars offset = true) :
    offset ≤ byteLength chars := by
  obtain ⟨front, back, rfl, rfl⟩ := isBoundary_iff.mp atBoundary
  rw [byteLength_append]
  exact Nat.le_add_right _ _

/-- Of two fronts of a text, the one with fewer bytes is the beginning of the other. -/
theorem exists_between
    {front rest front' rest' : List Char}
    (sameText : front ++ rest = front' ++ rest')
    (shorter : byteLength front ≤ byteLength front') :
    ∃ between, front' = front ++ between ∧ rest = between ++ rest' := by
  rcases List.append_eq_append_iff.mp sameText with ⟨between, frontEq, restEq⟩ | ⟨excess, rfl, rfl⟩
  · exact ⟨between, frontEq, restEq⟩
  · cases excess with
    | nil => exact ⟨[], by simp⟩
    | cons char more =>
        have positive := byteLength_pos (List.cons_ne_nil char more)
        rw [byteLength_append] at shorter
        omega

/-- The bytes between a front and a back are the middle of a text. -/
theorem slice?_append
    (front middle back : List Char) :
    slice? (front ++ (middle ++ back)) (byteLength front) (byteLength front + byteLength middle) =
      some middle := by
  rw [slice?, splitAtByte?_append, Option.bind_eq_bind, Option.bind_some]
  simp only [Nat.le_add_right, if_true, Nat.add_sub_cancel_left, splitAtByte?_append,
    Option.bind_some, Option.pure_def]

end ZigLint.Text
