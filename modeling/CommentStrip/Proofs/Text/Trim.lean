import CommentStrip.Text.Basic

/-! Taking the white space off the end of a text. -/
namespace CommentStrip.Text
open Unicode

theorem breakWhite {c : Char} (lineBreak : isBreak c = true) : isWhite c = true := by
  simp only [isBreak, Bool.or_eq_true, beq_iff_eq] at lineBreak
  rcases lineBreak with rfl | rfl <;> decide

theorem dropEndBehind {p : Char → Bool} (text : List Char) {back : List Char}
    (each : ∀ c ∈ back, p c = true) : dropEndWhile p (text ++ back) = dropEndWhile p text := by
  have backwards : ∀ c ∈ back.reverse, p c = true := by simpa using each
  rw [dropEndWhile, List.reverse_append, List.dropWhile_append_of_pos backwards]
  rfl

theorem dropEndSplit (p : Char → Bool) (text : List Char) :
    ∃ back, text = dropEndWhile p text ++ back ∧ ∀ c ∈ back, p c = true := by
  refine ⟨(text.reverse.takeWhile p).reverse, ?_, ?_⟩
  · rw [dropEndWhile, ← List.reverse_append, List.takeWhile_append_dropWhile,
      List.reverse_reverse]
  · intro c member
    exact List.all_eq_true.mp List.all_takeWhile c (List.mem_reverse.mp member)

theorem dropEndLast {p : Char → Bool} {text : List Char} {c : Char}
    (last : (dropEndWhile p text).getLast? = some c) : p c = false := by
  rw [dropEndWhile, List.getLast?_reverse] at last
  have stops := List.head?_dropWhile_not p text.reverse
  rw [last] at stops
  simpa using stops

theorem trimEndSplit (text : List Char) :
    ∃ white, text = trimEnd text ++ white ∧ ∀ c ∈ white, isWhite c = true :=
  dropEndSplit isWhite text

theorem trimEndLast {text : List Char} {c : Char} (last : (trimEnd text).getLast? = some c) :
    isWhite c = false := dropEndLast last

theorem trimEndAppend (a b : List Char) :
    trimEnd (a ++ b) = trimEnd a ∨ trimEnd (a ++ b) = a ++ trimEnd b := by
  simp only [trimEnd, dropEndWhile, List.reverse_append, List.dropWhile_append]
  split
  · exact .inl rfl
  · exact .inr (by simp)

theorem trimEndCons (c : Char) (text : List Char) :
    trimEnd (c :: text) =
      if isWhite c = true ∧ trimEnd text = [] then [] else c :: trimEnd text := by
  simp only [trimEnd, dropEndWhile, List.reverse_cons, List.dropWhile_append,
    List.reverse_eq_nil_iff, List.isEmpty_iff]
  by_cases blank : text.reverse.dropWhile isWhite = []
  · cases white : isWhite c <;> simp [blank, white]
  · simp [blank]

theorem trimEndNone {text : List Char} : trimEnd text = [] ↔ text.all isWhite = true := by
  induction text with
  | nil => simp [trimEnd, dropEndWhile]
  | cons c text ih =>
    rw [trimEndCons, List.all_cons, Bool.and_eq_true, ← ih]
    split
    · rename_i blank
      exact iff_of_true rfl blank
    · rename_i other
      exact iff_of_false (List.cons_ne_nil _ _) other

theorem trimEndWhite {base white : List Char}
    (solid : ∀ c, base.getLast? = some c → isWhite c = false)
    (each : ∀ c ∈ white, isWhite c = true) : trimEnd (base ++ white) = base := by
  have backwards : ∀ c ∈ white.reverse, isWhite c = true := by simpa using each
  rw [trimEnd, dropEndWhile, List.reverse_append, List.dropWhile_append_of_pos backwards]
  cases same : base.reverse with
  | nil => simp [List.reverse_eq_nil_iff.mp same]
  | cons c rest =>
    have last : base.getLast? = some c := by
      rw [← List.head?_reverse, same]
      rfl
    rw [List.dropWhile_cons_of_neg (by simp [solid c last]), ← same, List.reverse_reverse]

theorem trimEndSolid {text : List Char} {c : Char} (last : text.getLast? = some c)
    (solid : isWhite c = false) : trimEnd text = text := by
  have ends : ∀ d, text.getLast? = some d → isWhite d = false := by
    intro d lastToo
    rw [last] at lastToo
    cases lastToo
    exact solid
  simpa using trimEndWhite ends (List.forall_mem_nil _)

end CommentStrip.Text
