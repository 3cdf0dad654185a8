import CommentStrip.Text.Basic

/-! A text from which something was taken. What is left is no longer than the text, and shows
whether anything was taken at all. -/
namespace CommentStrip.Text

structure Removal (text out : List Char) (removed : Nat) : Prop where
  shorter : out.length ≤ text.length
  same : out = text ↔ removed = 0

namespace Removal

theorem kept (text : List Char) : Removal text text 0 := ⟨Nat.le_refl _, by simp⟩

theorem taken {text out : List Char} (shorter : out.length ≤ text.length) (changed : out ≠ text)
    (n : Nat) : Removal text out (n + 1) := ⟨shorter, by simp [changed]⟩

theorem less {text out : List Char} (shorter : out.length < text.length) (n : Nat) :
    Removal text out (n + 1) := by
  refine .taken (Nat.le_of_lt shorter) ?_ n
  intro whole
  rw [whole] at shorter
  exact Nat.lt_irrefl _ shorter

/- Neither part can make up for what is missing in the other. -/
theorem append {a b x y : List Char} {m n : Nat} (front : Removal a b m) (back : Removal x y n) :
    Removal (a ++ x) (b ++ y) (m + n) := by
  have shorter := front.shorter
  have shorterToo := back.shorter
  constructor
  · simp only [List.length_append]
    omega
  · rw [Nat.add_eq_zero_iff, ← front.same, ← back.same]
    constructor
    · intro whole
      have long := congrArg List.length whole
      simp only [List.length_append] at long
      exact List.append_inj whole (by omega)
    · intro parts
      rw [parts.1, parts.2]

end Removal

def Visible (text : List Char) : Prop :=
  ∃ c rest, text = c :: rest ∧ isBreak c = false ∧ c ≠ ' '

theorem blankRemoval {text : List Char} (visible : Visible text) : Removal text (blank text) 1 := by
  refine .taken (Nat.le_of_eq (blankLength text)) ?_ 0
  obtain ⟨c, rest, rfl, inLine, other⟩ := visible
  intro same
  simp only [blank, List.map_cons, inLine, List.cons.injEq] at same
  exact other same.1.symm

theorem collapseRemoval {text : List Char} (visible : Visible text) :
    Removal text (collapse text) 1 := by
  refine .less ?_ 0
  obtain ⟨c, rest, rfl, inLine, -⟩ := visible
  have short := List.length_filter_le isBreak rest
  rw [collapse, List.filter_cons_of_neg (by simp [inLine]), List.length_cons]
  omega

end CommentStrip.Text
