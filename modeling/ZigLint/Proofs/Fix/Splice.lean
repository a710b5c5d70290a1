import Mathlib.Data.List.Nodup
import ZigLint.Fix
import ZigLint.Proofs.Text.Boundaries
import ZigLint.Proofs.Token.Rename

namespace ZigLint

/-!
# Applying renamings

The fixes that rename tokens of a source replace whole pieces, one after the
other. Spliced into the text they are all taken, and the outcome is the text of
the renamed pieces; given in any order they are first sorted into this one.
-/

namespace Fix

/--
The spans of the fixes, in order, are replaced in a text by the texts of the
fixes, and all else stays as it is.

The text starts at byte `cursor`, and every span is one of whole characters.
-/
inductive Replaces :
    (cursor : Nat) → (fixes : List Fix) → (chars output : List Char) → Prop where
  | done
      {cursor : Nat}
      {chars : List Char} :
      Replaces cursor [] chars chars
  | fix
      {cursor : Nat}
      {fix : Fix}
      {fixes : List Fix}
      {kept old rest output : List Char} :
      fix.start = cursor + Text.byteLength kept →
      fix.stop = fix.start + Text.byteLength old →
      Replaces fix.stop fixes rest output →
      Replaces cursor (fix :: fixes) (kept ++ (old ++ rest)) (kept ++ (fix.text.toList ++ output))

theorem cut?_append
    {cursor : Nat}
    {fix : Fix}
    {kept old rest : List Char}
    (startEq : fix.start = cursor + Text.byteLength kept)
    (stopEq : fix.stop = fix.start + Text.byteLength old) :
    fix.cut? cursor (kept ++ (old ++ rest)) = some (kept, rest) := by
  have keptEq : fix.start - cursor = Text.byteLength kept := by omega
  have oldEq : fix.stop - fix.start = Text.byteLength old := by omega
  rw [cut?, if_pos ⟨by omega, by omega⟩]
  simp only [keptEq, oldEq, Text.splitAtByte?_append, Option.bind_eq_bind, Option.bind_some,
    Option.pure_def]

/-- Splicing fixes that replace spans of whole characters, in order, takes all of them. -/
theorem Replaces.splice_eq
    {cursor : Nat}
    {fixes : List Fix}
    {chars output : List Char}
    (replaces : Replaces cursor fixes chars output) :
    splice cursor chars fixes = { output, applied := fixes, skipped := [] } := by
  induction replaces with
  | done => rfl
  | fix startEq stopEq _ inductionHypothesis =>
      rw [splice, cut?_append startEq stopEq]
      simp only [inductionHypothesis, List.append_assoc]

end Fix

namespace Piece

variable
  {names : Nat → Option (List Char)}
  {index offset : Nat}
  {afterPoint : Bool}
  {pieces renamed : List Piece}

/-- The fixes that replace the tokens with a new name, in order. -/
def fixesFrom (names : Nat → Option (List Char)) (index offset : Nat) : List Piece → List Fix
  | [] => []
  | piece :: rest =>
      let next := offset + Text.byteLength piece.chars
      match piece.kind?, names index with
      | none, _ => fixesFrom names index next rest
      | some _, none => fixesFrom names (index + 1) next rest
      | some _, some word =>
          { start := offset, stop := next, text := String.ofList word } ::
            fixesFrom names (index + 1) next rest

/-- Fixing the pieces replaces the text of the renamed tokens and nothing else. -/
theorem Renamed.replaces
    {cursor : Nat}
    {kept : List Char}
    (isRenamed : Renamed names index afterPoint pieces renamed)
    (offsetEq : cursor + Text.byteLength kept = offset) :
    Fix.Replaces cursor (fixesFrom names index offset pieces) (kept ++ join pieces)
      (kept ++ join renamed) := by
  induction isRenamed generalizing cursor kept offset with
  | nil => exact .done
  | @gap _ _ piece _ _ isGap _ inductionHypothesis =>
      have nextEq : cursor + Text.byteLength (kept ++ piece.chars) =
          offset + Text.byteLength piece.chars := by
        rw [Text.byteLength_append]
        omega
      simp only [join_cons, fixesFrom, isGap, ← List.append_assoc]
      exact inductionHypothesis nextEq
  | @kept _ _ piece _ _ _ isToken notNamed _ inductionHypothesis =>
      have nextEq : cursor + Text.byteLength (kept ++ piece.chars) =
          offset + Text.byteLength piece.chars := by
        rw [Text.byteLength_append]
        omega
      simp only [join_cons, fixesFrom, isToken, notNamed, ← List.append_assoc]
      exact inductionHypothesis nextEq
  | @word index piece _ word rest renamed isToken named _ _ _ inductionHypothesis =>
      have nextEq : offset + Text.byteLength piece.chars + Text.byteLength [] =
          offset + Text.byteLength piece.chars :=
        Nat.add_zero _
      have replaced := inductionHypothesis nextEq
      rw [List.nil_append, List.nil_append] at replaced
      let fix : Fix :=
        {
          start := offset
          stop := offset + Text.byteLength piece.chars
          text := String.ofList word
        }
      have replacedHere : Fix.Replaces cursor (fix :: fixesFrom names (index + 1) fix.stop rest)
          (kept ++ (piece.chars ++ join rest)) (kept ++ (fix.text.toList ++ join renamed)) :=
        .fix offsetEq.symm rfl replaced
      rw [String.toList_ofList] at replacedHere
      simp only [join_cons, fixesFrom, isToken, named, ofWord]
      exact replacedHere

theorem Renamed.replaces_all
    (isRenamed : Renamed names 0 afterPoint pieces renamed) :
    Fix.Replaces 0 (fixesFrom names 0 0 pieces) (join pieces) (join renamed) := by
  have atStart : 0 + Text.byteLength [] = 0 := rfl
  exact isRenamed.replaces atStart

theorem byteLength_pos_of_isWord
    {word : List Char}
    (isWord : Lexeme.IsWord word) :
    0 < Text.byteLength word := by
  obtain ⟨first, rest, rfl, -⟩ := isWord
  exact Text.byteLength_pos (List.cons_ne_nil first rest)

/-- Each fix stands among the pieces and replaces some character. -/
theorem Renamed.fix_bounds
    {fix : Fix}
    (isRenamed : Renamed names index afterPoint pieces renamed)
    (member : fix ∈ fixesFrom names index offset pieces) :
    offset ≤ fix.start ∧ fix.start < fix.stop := by
  induction isRenamed generalizing offset with
  | nil => cases member
  | gap isGap _ inductionHypothesis =>
      simp only [fixesFrom, isGap] at member
      have := inductionHypothesis member
      omega
  | kept isToken notNamed _ inductionHypothesis =>
      simp only [fixesFrom, isToken, notNamed] at member
      have := inductionHypothesis member
      omega
  | word isToken named _ wasWord _ inductionHypothesis =>
      simp only [fixesFrom, isToken, named] at member
      have positive := byteLength_pos_of_isWord wasWord
      rcases List.mem_cons.mp member with rfl | isLater
      · exact ⟨Nat.le_refl _, Nat.lt_add_of_pos_right positive⟩
      · have := inductionHypothesis isLater
        omega

/-- The fixes follow each other. -/
theorem Renamed.fixes_ordered
    (isRenamed : Renamed names index afterPoint pieces renamed) :
    (fixesFrom names index offset pieces).Pairwise fun earlier later =>
      earlier.stop ≤ later.start := by
  induction isRenamed generalizing offset with
  | nil => exact .nil
  | gap isGap _ inductionHypothesis =>
      simp only [fixesFrom, isGap]
      exact inductionHypothesis
  | kept isToken notNamed _ inductionHypothesis =>
      simp only [fixesFrom, isToken, notNamed]
      exact inductionHypothesis
  | word isToken named _ _ later inductionHypothesis =>
      simp only [fixesFrom, isToken, named]
      exact .cons (fun fix isLater => (later.fix_bounds isLater).1) inductionHypothesis

theorem offset_le_of_mem_tokensFrom
    {token : Token}
    (member : token ∈ tokensFrom offset pieces) :
    offset ≤ token.offset := by
  induction pieces generalizing offset with
  | nil =>
      obtain rfl := List.mem_singleton.mp member
      exact Nat.le_refl offset
  | cons piece rest inductionHypothesis =>
      rw [tokensFrom] at member
      cases kindEq : piece.kind? with
      | none =>
          rw [kindEq] at member
          exact Nat.le_of_add_right_le (inductionHypothesis member)
      | some kind =>
          rw [kindEq] at member
          rcases List.mem_cons.mp member with rfl | isLater
          · exact Nat.le_refl offset
          · exact Nat.le_of_add_right_le (inductionHypothesis isLater)

/-- The text of a token stands among the pieces at the offset of the token. -/
theorem exists_split_of_mem_tokensFrom
    {token : Token}
    (member : token ∈ tokensFrom offset pieces) :
    ∃ front back,
      join pieces = front ++ (token.text.toList ++ back) ∧
        token.offset = offset + Text.byteLength front := by
  induction pieces generalizing offset with
  | nil =>
      obtain rfl := List.mem_singleton.mp member
      exact ⟨[], [], rfl, rfl⟩
  | cons piece rest inductionHypothesis =>
      have later_split :
          token ∈ tokensFrom (offset + Text.byteLength piece.chars) rest →
            ∃ front back,
              join (piece :: rest) = front ++ (token.text.toList ++ back) ∧
                token.offset = offset + Text.byteLength front := by
        intro isLater
        obtain ⟨front, back, restEq, offsetEq⟩ := inductionHypothesis isLater
        refine ⟨piece.chars ++ front, back, ?_, ?_⟩
        · rw [join_cons, restEq, List.append_assoc]
        · rw [offsetEq, Text.byteLength_append, Nat.add_assoc]
      rw [tokensFrom] at member
      cases kindEq : piece.kind? with
      | none =>
          rw [kindEq] at member
          exact later_split member
      | some kind =>
          rw [kindEq] at member
          rcases List.mem_cons.mp member with rfl | isLater
          · exact ⟨[], join rest, by rw [String.toList_ofList, join_cons]; rfl, rfl⟩
          · exact later_split isLater

/-- The tokens follow each other. -/
theorem tokensFrom_ordered
    (offset : Nat)
    (pieces : List Piece) :
    (tokensFrom offset pieces).Pairwise fun earlier later =>
      earlier.span.stop ≤ later.span.start := by
  induction pieces generalizing offset with
  | nil => exact List.pairwise_singleton _ _
  | cons piece rest inductionHypothesis =>
      rw [tokensFrom]
      cases piece.kind? with
      | none => exact inductionHypothesis _
      | some kind =>
          refine .cons (fun token isLater => ?_) (inductionHypothesis _)
          have afterPiece := offset_le_of_mem_tokensFrom isLater
          rwa [← Text.utf8ByteSize_ofList] at afterPiece

/-- The fix that gives a token a new name. -/
def renamingFix (token : Token) (word : List Char) : Fix where
  start := token.span.start
  stop := token.span.stop
  text := String.ofList word

theorem exists_getElem?_cons
    {first : α}
    {rest : List α}
    {holds : Nat → α → Prop} :
    (∃ position item, (first :: rest)[position]? = some item ∧ holds position item) ↔
      holds 0 first ∨ ∃ position item, rest[position]? = some item ∧ holds (position + 1) item := by
  constructor
  · rintro ⟨position, item, found, holdsThere⟩
    cases position with
    | zero =>
        obtain rfl := Option.some.inj found
        exact .inl holdsThere
    | succ before => exact .inr ⟨before, item, found, holdsThere⟩
  · rintro (holdsFirst | ⟨position, item, found, holdsThere⟩)
    · exact ⟨0, first, rfl, holdsFirst⟩
    · exact ⟨position + 1, item, found, holdsThere⟩

/-- The fixes replace the tokens that have a new name. -/
theorem Renamed.mem_fixesFrom
    {fix : Fix}
    (isRenamed : Renamed names index afterPoint pieces renamed) :
    fix ∈ fixesFrom names index offset pieces ↔
      ∃ position token,
        (tokensFrom offset pieces)[position]? = some token ∧
          ∃ word, names (index + position) = some word ∧ fix = renamingFix token word := by
  induction isRenamed generalizing offset with
  | nil notNamed =>
      simp only [fixesFrom, tokensFrom, exists_getElem?_cons, Nat.add_zero, notNamed]
      simp
  | gap isGap _ inductionHypothesis =>
      simp only [fixesFrom, tokensFrom, isGap]
      exact inductionHypothesis
  | kept isToken notNamed _ inductionHypothesis =>
      simp only [fixesFrom, tokensFrom, isToken, notNamed, exists_getElem?_cons,
        inductionHypothesis, Nat.add_zero, Nat.add_right_comm, Nat.add_assoc]
      simp
  | @word _ piece _ word _ _ isToken named _ _ _ inductionHypothesis =>
      have stopEq : offset + Text.byteLength piece.chars =
          offset + (String.ofList piece.chars).utf8ByteSize := by
        rw [Text.utf8ByteSize_ofList]
      simp only [fixesFrom, tokensFrom, isToken, named, exists_getElem?_cons, List.mem_cons,
        inductionHypothesis]
      refine or_congr ?_ ?_
      · simp [named, renamingFix, Token.span, stopEq]
      · simp only [Nat.add_assoc, Nat.add_comm 1]

/-- Fixes in any order are sorted into the order of the tokens that they rename. -/
theorem Renamed.sortByStart_eq
    {fixes : List Fix}
    (isRenamed : Renamed names index afterPoint pieces renamed)
    (perm : fixes.Perm (fixesFrom names index offset pieces)) :
    Fix.sortByStart fixes = fixesFrom names index offset pieces := by
  have startsOrdered :
      (fixesFrom names index offset pieces).Pairwise fun earlier later =>
        earlier.start < later.start := by
    refine isRenamed.fixes_ordered.imp_of_mem fun isEarlier _ stopLe => ?_
    exact Nat.lt_of_lt_of_le (isRenamed.fix_bounds isEarlier).2 stopLe
  have startsNodup : ((fixesFrom names index offset pieces).map Fix.start).Nodup :=
    List.pairwise_map.mpr (startsOrdered.imp Nat.ne_of_lt)
  have sortedPerm : (Fix.sortByStart fixes).Perm (fixesFrom names index offset pieces) :=
    (List.mergeSort_perm _ _).trans perm
  have sortedOrdered :
      (Fix.sortByStart fixes).Pairwise fun earlier later => earlier.start ≤ later.start := by
    have sorted :
        (fixes.mergeSort fun left right => left.start ≤ right.start).Pairwise fun left right =>
          decide (left.start ≤ right.start) = true :=
      List.pairwise_mergeSort (fun _ _ _ => by simpa using Nat.le_trans)
        (fun _ _ => by simpa using Nat.le_total _ _) fixes
    simpa [Fix.sortByStart] using sorted
  refine List.Perm.eq_of_pairwise ?_ sortedOrdered (startsOrdered.imp Nat.le_of_lt) sortedPerm
  intro first second isFirst isSecond firstLe secondLe
  exact List.inj_on_of_nodup_map startsNodup (sortedPerm.subset isFirst) isSecond
    (Nat.le_antisymm firstLe secondLe)

/-- Renaming fixes in any order are all applied and give the text of the renamed pieces. -/
theorem Renamed.apply_eq
    {source : String}
    {fixes : List Fix}
    (isRenamed : Renamed names 0 afterPoint pieces renamed)
    (sourceEq : source.toList = join pieces)
    (perm : fixes.Perm (fixesFrom names 0 0 pieces)) :
    Fix.apply source fixes =
      {
        output := String.ofList (join renamed)
        applied := fixesFrom names 0 0 pieces
        skipped := []
      } := by
  have replaces := isRenamed.replaces_all
  rw [Fix.apply, isRenamed.sortByStart_eq perm, sourceEq, replaces.splice_eq]

end Piece

end ZigLint
