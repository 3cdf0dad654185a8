import CommentStrip.Proofs.Python.Characters
import CommentStrip.Python.Literal

/-! Where a move in a replacement field looks further than its first character. -/
namespace CommentStrip.Python

theorem fieldQuote {c : Char} (quote : isQuote c = true) (depth start offset : Nat)
    (rest : List Char) : fieldMove depth start offset c rest =
      .ok (.enter (openLiteral .plain offset c rest).1 (.field depth start)
        (openLiteral .plain offset c rest).2) := by
  simp only [isQuote, Bool.or_eq_true, beq_iff_eq] at quote
  rcases quote with rfl | rfl <;> rfl

theorem fieldWord {c : Char} (name : isNameChar c = true) (depth start offset : Nat)
    (rest : List Char) : fieldMove depth start offset c rest =
      match rest.drop (rest.takeWhile isNameChar).length with
      | quote :: behind =>
        let word := c :: rest.takeWhile isNameChar
        let opened := openLiteral (.ofWord word) offset quote behind
        if isQuote quote && isStringPrefix word then
          .ok (.enter (word.length + opened.1) (.field depth start) opened.2)
        else .ok (.stay (word.length - 1) (.field depth start))
      | [] => .ok (.stay (rest.takeWhile isNameChar).length (.field depth start)) := by
  obtain ⟨-, -, hash, -, quote, opening, closing⟩ := nameApart name
  have brace : c ≠ '}' := nameOther name rfl
  have colon : c ≠ ':' := nameOther name rfl
  simp only [fieldMove]
  cases h : rest.drop (rest.takeWhile isNameChar).length <;>
    simp [name, hash, quote, opening, closing, brace, colon, h]

end CommentStrip.Python
