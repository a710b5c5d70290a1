import ZigLint.Proofs.Parser.PrimaryNesting
import ZigLint.Proofs.Syntax.Laminar
import ZigLint.Proofs.Token.TextKind

namespace ZigLint

/-!
# Sources with a tree are bracketed

The parser has read every token of a source when it succeeds, and the walk over
the tokens ends with it in code and with nothing open. So brackets are balanced
once the stretches that the parser passes over are left out, and all of them are
if those stretches are balanced themselves, which the parser does not check.
-/

open Brackets

/-- The end of file is the last token and no other one. -/
theorem Cut.exists_kinds_eq
    {chars : List Char}
    {pieces : List Piece}
    (isCut : Cut chars pieces)
    (offset : Nat) :
    ∃ front : List TokenKind,
      (Piece.tokensFrom offset pieces).map Token.kind = front ++ [.eof] ∧ .eof ∉ front := by
  obtain ⟨before, tokensEq, notEnd⟩ := isCut.exists_tokens_eq offset
  refine ⟨before.map Token.kind, ?_, ?_⟩
  · rw [tokensEq, List.map_append]
    rfl
  · intro isEnd
    obtain ⟨token, isBefore, kindEq⟩ := List.mem_map.mp isEnd
    exact notEnd token isBefore kindEq

namespace Parser

variable {kinds : Array TokenKind} {position : Nat}

/-- Past the last token the walk has gone along all of them. -/
theorem Reaches.along?_eq
    {opened : List Opened}
    {mode : Mode}
    (reaches : Reaches kinds position opened mode)
    (past : kinds.size ≤ position) :
    ∃ walk, Walk.along? kinds.toList = some walk ∧ walk.opened = opened ∧ walk.mode = mode := by
  obtain ⟨walk, walked, facts⟩ := reaches
  rw [walkTo?, List.take_of_length_le (by simpa using past)] at walked
  exact ⟨walk, walked, facts⟩

/-- Where the end of file is ahead, one more token is all that is left. -/
theorem Stands.along?_eq
    {opened : List Opened}
    {front : List TokenKind}
    (stands : Stands kinds position opened)
    (atEnd : kindAt kinds position = .eof)
    (kinds_eq : kinds.toList = front ++ [.eof])
    (notIn : .eof ∉ front) :
    ∃ walk, Walk.along? kinds.toList = some walk ∧ walk.opened = opened ∧
      ∃ cue, walk.mode = .code cue := by
  have size_eq : kinds.size = front.length + 1 := by
    rw [← Array.length_toList, kinds_eq, List.length_append, List.length_singleton]
  have notBefore : front.length ≤ position := by
    apply Nat.le_of_not_lt
    intro before
    have found : kinds[position]? = some front[position] := by
      rw [← Array.getElem?_toList, kinds_eq, List.getElem?_append_left before,
        List.getElem?_eq_getElem before]
    rw [kindAt, Array.getD_eq_getD_getElem?, found] at atEnd
    exact notIn (atEnd ▸ List.getElem_mem before)
  by_cases isLast : position < kinds.size
  · have reaches := stands.plain isLast (by rw [atEnd]; rfl) (by rw [atEnd]; rfl)
    obtain ⟨walk, walked, opened_eq, mode_eq⟩ := reaches.along?_eq (by omega)
    exact ⟨walk, walked, opened_eq, _, mode_eq⟩
  · obtain ⟨cue, reaches, -⟩ := stands
    obtain ⟨walk, walked, opened_eq, mode_eq⟩ := reaches.along?_eq (Nat.le_of_not_lt isLast)
    exact ⟨walk, walked, opened_eq, cue, mode_eq⟩

/-- It is enough that every `inline` is followed by a loop. -/
theorem inlineLoops_of_forall
    (followed :
      ∀ position < kinds.size,
        kindAt kinds position = .keyword .kwInline →
          kindAt kinds (position + 1) = .keyword .kwWhile ∨
            kindAt kinds (position + 1) = .keyword .kwFor) :
    InlineLoops kinds := by
  rintro position opened - ⟨-, -, atInline, -⟩
  exact followed (position + 2) (lt_size_of_kindAt_ne_eof (by rw [atInline]; decide)) atInline

end Parser

/--
The brackets of a source as a walk over its tokens finds them: balanced in the
code, and balanced altogether if they are in every stretch that is passed over.
-/
structure Bracketed (kinds : List TokenKind) (walk : Walk) : Prop where
  walked : Walk.along? kinds = some walk
  complete : kinds.Perm (walk.taken ++ walk.passed.flatMap Stretch.kinds)
  code : IsBalanced walk.taken
  stretches : ∀ stretch ∈ walk.passed, stretch.IsProper
  balanced : (∀ stretch ∈ walk.passed, IsBalanced stretch.kinds) → IsBalanced kinds

namespace SyntaxTree

variable {source : String} {tree : SyntaxTree}

/--
A source with a tree is bracketed.

The walk finds the stretches that are passed over by the tokens before them: the
arguments of a modifier and of an `enum` that is a tag, a capture after `else`,
`catch`, `defer`, an arrow or the head of an `if` or a loop, and the token after
`test`. Everywhere else every closing bracket closes the innermost open one, and
none is left open.
-/
theorem parse_bracketed
    (parsed : parse source = .ok tree)
    (loops : Parser.InlineLoops tree.kinds) :
    ∃ walk, Bracketed tree.kinds.toList walk := by
  obtain ⟨tokens, members, stop, scanned, read, rfl⟩ := parse_eq_ok_iff.mp parsed
  obtain ⟨pieces, isCut, rfl⟩ := Token.scan_eq_ok_iff.mp scanned
  obtain ⟨front, kinds_eq, notIn⟩ := isCut.exists_kinds_eq 0
  obtain ⟨stands, atEnd⟩ := Parser.file_keeps loops members stop read
  obtain ⟨walk, walked, opened_eq, cue, mode_eq⟩ :=
    stands.along?_eq atEnd (by simpa [kinds] using kinds_eq) notIn
  have tracks := Walk.tracks_of_along? walked mode_eq
  refine ⟨walk, walked, tracks.complete, ?_, tracks.proper, fun passedBalanced => ?_⟩
  · rw [IsBalanced, tracks.taken, opened_eq]
    rfl
  · rw [IsBalanced, tracks.balanced passedBalanced, opened_eq]
    rfl

-- A parenthesis behind a labelled `inline` is read as the keyword of a loop, and stays open.
example :
    (parse "fn f() void { a: inline ( (b) c; }").toOption.map
        (fun tree => (Walk.along? tree.kinds.toList).isSome) =
      some false := by
  decide +kernel

/-- A labelled loop with a capture that holds parentheses is bracketed. -/
theorem parse_bracketed_labelled_loop :
    ∃ tree,
      parse "fn f() align(4) void { a: inline while (b) |(c)| d[0](); }" = .ok tree ∧
        Parser.InlineLoops tree.kinds ∧ ∃ walk, Bracketed tree.kinds.toList walk := by
  have facts :
      (parse "fn f() align(4) void { a: inline while (b) |(c)| d[0](); }").toOption.map
          (fun tree => decide (∀ position < tree.kinds.size,
            Parser.kindAt tree.kinds position = .keyword .kwInline →
              Parser.kindAt tree.kinds (position + 1) = .keyword .kwWhile ∨
                Parser.kindAt tree.kinds (position + 1) = .keyword .kwFor)) =
        some true := by
    decide +kernel
  obtain ⟨tree, hasTree, followed⟩ := Option.map_eq_some_iff.mp facts
  have parsed := eq_ok_of_toOption hasTree
  have loops := Parser.inlineLoops_of_forall (of_decide_eq_true followed)
  exact ⟨tree, parsed, loops, parse_bracketed parsed loops⟩

theorem exists_unbalanced
    (facts :
      (parse source).toOption.map (fun tree => decide (IsBalanced tree.kinds.toList)) =
        some false) :
    ∃ tree, parse source = .ok tree ∧ ¬ IsBalanced tree.kinds.toList := by
  obtain ⟨tree, hasTree, unbalanced⟩ := Option.map_eq_some_iff.mp facts
  exact ⟨tree, eq_ok_of_toOption hasTree, of_decide_eq_false unbalanced⟩

/-- The name of a test, the arguments of a modifier and a capture may hold any brackets. -/
theorem parse_unbalanced :
    (∃ tree, parse "test ( {}" = .ok tree ∧ ¬ IsBalanced tree.kinds.toList) ∧
      (∃ tree, parse "const a: u8 align(\x7b) = 1;" = .ok tree ∧
        ¬ IsBalanced tree.kinds.toList) ∧
        ∃ tree, parse "fn f() void { if (a) |(| b; }" = .ok tree ∧
          ¬ IsBalanced tree.kinds.toList := by
  refine ⟨exists_unbalanced ?_, exists_unbalanced ?_, exists_unbalanced ?_⟩ <;> decide +kernel

end SyntaxTree

end ZigLint
