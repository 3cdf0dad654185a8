import CommentStrip.Proofs.Python.Spaceless

/-! Closing what is open at a place of a literal, move by move. White space that a context stays
open over is nothing to it, and a context that is open over one line break is open over each. -/
namespace CommentStrip.Python
open Unicode Text

def Closes (stack : List Context) (text : List Char) (n : Nat) : Prop :=
  closeAll 0 stack text = .ok n

theorem closesAnywhere {offset : Nat} {stack : List Context} {text : List Char} {n : Nat}
    (closed : closeAll offset stack text = .ok n) {other : List Context} (alike : Alike stack other)
    (offset' : Nat) : closeAll offset' other text = .ok n := by
  have within := closeAllWithin closed
  have same := closeAllInside closed (List.take_append_drop n text).symm
    (by rw [List.length_take]; omega) alike offset' (text.drop n)
  rwa [List.take_append_drop] at same

section
variable {context : Context} {below : List Context} {c : Char} {rest : List Char} {move : Move}
  {n : Nat}

theorem closesStep (moved : context.move 0 c rest = .ok move)
    (later : Closes (move.apply below) (rest.drop move.more) n) :
    Closes (context :: below) (c :: rest) (n + (move.more + 1)) :=
  closeAllStep moved (closesAnywhere later rfl _)

theorem closesPassed {front back : List Char} (moved : context.move 0 c (front ++ back) = .ok move)
    (long : move.more = front.length) (later : Closes (move.apply below) back n) :
    Closes (context :: below) (c :: (front ++ back)) ((c :: front).length + n) := by
  have step := closesStep moved (n := n) (by rwa [long, List.drop_left])
  have count : (c :: front).length + n = n + (move.more + 1) := by
    rw [List.length_cons]
    omega
  rwa [count]

theorem closesMove (closes : Closes (context :: below) (c :: rest) n) :
    ∃ move m, context.move 0 c rest = .ok move ∧
      Closes (move.apply below) (rest.drop move.more) m ∧ n = m + (move.more + 1) := by
  simp only [Closes, closeAll] at closes
  split at closes
  · cases closes
  · rename_i move moved
    split at closes
    · cases closes
    · rename_i m later
      cases closes
      exact ⟨move, m, moved, closesAnywhere later rfl 0, rfl⟩

theorem closesFilled : ¬ Closes (context :: below) [] n := by simp [Closes, closeAll]

end

def Context.Quoted : Context → Prop
  | .body quote _ _ _ => isQuote quote = true
  | _ => True

def StaysOver (context : Context) (c : Char) : Prop :=
  ∀ rest, context.move 0 c rest = .ok (.stay 0 context)

theorem bodyStays {quote : Char} {triple : Bool} {affix : Affix} {start : Nat} {c : Char}
    (quoted : isQuote quote = true) (white : isWhite c = true)
    (onLine : isBreak c = true → triple = true) : StaysOver (.body quote triple affix start) c := by
  intro rest
  have sameLine : ¬ (isBreak c && !triple) = true := by
    intro ends
    rw [Bool.and_eq_true] at ends
    rw [onLine ends.1] at ends
    exact absurd ends.2 Bool.false_ne_true
  have escape : c ≠ '\\' := whiteOther white (by decide)
  have brace : c ≠ '{' := whiteOther white (by decide)
  have closing : c ≠ quote := whiteOther white (quoteSolid quoted)
  simp [Context.move, bodyMove, sameLine, escape, brace, closing]

theorem fieldStays {depth start : Nat} {c : Char} (white : isWhite c = true)
    (noName : isNameChar c = false) : StaysOver (.field depth start) c := by
  intro rest
  have marks : ∀ d ∈ ['(', '[', '{', ')', ']', '}', ':', '#', '\'', '"'], c ≠ d := by
    intro d member
    have solid : ['(', '[', '{', ')', ']', '}', ':', '#', '\'', '"'].all (!isWhite ·) = true := by
      decide
    exact whiteOther white (by simpa using List.all_eq_true.mp solid d member)
  simp only [List.forall_mem_cons] at marks
  simp [Context.move, fieldMove, isOpening, isClosing, isQuote, noName, marks]

theorem specStays {start : Nat} {c : Char} (white : isWhite c = true)
    (onLine : isBreak c = false) : StaysOver (.spec start) c := by
  intro rest
  have opening : c ≠ '{' := whiteOther white (by decide)
  have closing : c ≠ '}' := whiteOther white (by decide)
  simp [Context.move, specMove, onLine, opening, closing]

theorem breakStays {context : Context} (quoted : context.Quoted) {c : Char}
    (lineBreak : isBreak c = true) {rest : List Char} {move : Move}
    (moved : context.move 0 c rest = .ok move) :
    ∀ b, isBreak b = true → StaysOver context b := by
  intro b another
  cases context with
  | body quote triple affix start =>
    refine bodyStays quoted (breakWhite another) fun _ => ?_
    cases triple with
    | true => rfl
    | false => simp [Context.move, bodyMove, lineBreak] at moved
  | field depth start => exact fieldStays (breakWhite another) (breakNotName another)
  | spec start => simp [Context.move, specMove, lineBreak] at moved

theorem closesOver {context : Context} {below : List Context} {ahead rest : List Char} {n : Nat}
    (stays : ∀ c ∈ ahead, StaysOver context c) (later : Closes (context :: below) rest n) :
    Closes (context :: below) (ahead ++ rest) (ahead.length + n) := by
  induction ahead with
  | nil => rwa [List.length_nil, Nat.zero_add]
  | cons c ahead ih =>
    obtain ⟨here, behind⟩ := List.forall_mem_cons.mp stays
    have step := closesStep (here (ahead ++ rest)) (ih behind)
    rw [List.cons_append, List.length_cons]
    have same : ahead.length + n + (0 + 1) = ahead.length + 1 + n := by omega
    rwa [← same]

theorem closesBreaks {context : Context} {below : List Context} (quoted : context.Quoted)
    {ahead rest : List Char} (breaks : ∀ c ∈ ahead, isBreak c = true) {n : Nat}
    (closes : Closes (context :: below) (ahead ++ rest) n) :
    ∃ m, n = ahead.length + m ∧ Closes (context :: below) rest m := by
  induction ahead generalizing n with
  | nil => exact ⟨n, by rw [List.length_nil, Nat.zero_add], closes⟩
  | cons c ahead ih =>
    obtain ⟨here, behind⟩ := List.forall_mem_cons.mp breaks
    obtain ⟨move, m, moved, later, rfl⟩ := closesMove closes
    rw [breakStays quoted here moved c here] at moved
    cases moved
    obtain ⟨k, rfl, more⟩ := ih behind later
    exact ⟨k, by simp only [List.length_cons, Move.more]; omega, more⟩

theorem closesSolid {context : Context} {below : List Context} (quoted : context.Quoted)
    {text : List Char} {n : Nat} (closes : Closes (context :: below) text n) :
    text.all isBreak = false := by
  rw [Bool.eq_false_iff]
  intro breaks
  rw [← List.append_nil text] at closes
  obtain ⟨m, -, later⟩ := closesBreaks quoted (List.all_eq_true.mp breaks) closes
  exact closesFilled later

end CommentStrip.Python
