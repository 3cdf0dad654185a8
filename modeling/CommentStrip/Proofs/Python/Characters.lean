import CommentStrip.Python.Token

/-! The classes of characters that begin the kinds of tokens exclude each other. -/
namespace CommentStrip.Python
open Unicode Text

theorem nameOther {c d : Char} (name : isNameChar c = true) (other : isNameChar d = false) :
    c ≠ d := by
  intro same
  subst same
  rw [name] at other
  contradiction

theorem nameApart {c : Char} (name : isNameChar c = true) :
    isBlank c = false ∧ isBreak c = false ∧ c ≠ '#' ∧ c ≠ '\\' ∧ isQuote c = false ∧
      isOpening c = false ∧ isClosing c = false := by
  have marks : ∀ d ∈ [' ', '\t', '\x0c', '\n', '\r', '#', '\\', '\'', '"', '(', '[', '{', ')',
      ']', '}'], c ≠ d := by
    intro d member
    have others : [' ', '\t', '\x0c', '\n', '\r', '#', '\\', '\'', '"', '(', '[', '{', ')', ']',
      '}'].all (!isNameChar ·) = true := rfl
    exact nameOther name (by simpa using List.all_eq_true.mp others d member)
  simp only [List.forall_mem_cons] at marks
  simp [isBlank, isBreak, isQuote, isOpening, isClosing, marks]

theorem breakIff {c : Char} : isBreak c = true ↔ c = '\n' ∨ c = '\r' := by
  simp [isBreak]

theorem breakNotBlank {c : Char} (lineBreak : isBreak c = true) : isBlank c = false := by
  rcases breakIff.mp lineBreak with rfl | rfl <;> rfl

theorem breakNotName {c : Char} (lineBreak : isBreak c = true) : isNameChar c = false := by
  rcases breakIff.mp lineBreak with rfl | rfl <;> rfl

theorem breakNotQuote {c : Char} (lineBreak : isBreak c = true) : isQuote c = false := by
  rcases breakIff.mp lineBreak with rfl | rfl <;> rfl

theorem blankWhite {c : Char} (blank : isBlank c = true) : isWhite c = true := by
  simp only [isBlank, Bool.or_eq_true, beq_iff_eq] at blank
  rcases blank with (rfl | rfl) | rfl <;> rfl

theorem digitName {c : Char} (digit : c.isDigit = true) : isNameChar c = true := by
  simp [isNameChar, Char.isAlphanum, digit]

end CommentStrip.Python
