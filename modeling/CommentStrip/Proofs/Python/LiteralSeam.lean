import CommentStrip.Proofs.Python.FieldMove
import CommentStrip.Proofs.Text.Seam

/-! A literal looks ahead, for the other two quotes of three, for a name in braces or for a line
feed, but never behind its own end: it closes at the same place whatever follows. Offsets only
name the cause of an error. -/
namespace CommentStrip.Python
open Unicode Text

namespace Context

def bare : Context → Context
  | .body quote triple affix _ => .body quote triple affix 0
  | .field depth _ => .field depth 0
  | .spec _ => .spec 0

/- The least number of characters that close the context. -/
def owed : Context → Nat
  | .body _ true _ _ => 3
  | _ => 1

theorem owedPositive (context : Context) : 1 ≤ context.owed := by
  cases context with
  | body quote triple affix start => cases triple <;> simp [owed]
  | field depth start => simp [owed]
  | spec start => simp [owed]

theorem owedBare (context : Context) : context.bare.owed = context.owed := by
  cases context with
  | body quote triple affix start => cases triple <;> rfl
  | field depth start => rfl
  | spec start => rfl

end Context

def owedAll (stack : List Context) : Nat := stack.foldr (fun context n => context.owed + n) 0

theorem owedAllCons (context : Context) (below : List Context) :
    owedAll (context :: below) = context.owed + owedAll below := rfl

def Alike (a b : List Context) : Prop := a.map Context.bare = b.map Context.bare

theorem Alike.owed {a b : List Context} (h : Alike a b) : owedAll a = owedAll b := by
  have owedOf (stack : List Context) : owedAll (stack.map Context.bare) = owedAll stack := by
    induction stack with
    | nil => rfl
    | cons context below ih => rw [List.map_cons, owedAllCons, owedAllCons, ih, Context.owedBare]
  rw [← owedOf a, ← owedOf b, h]

theorem Alike.cons {context other : Context} {a b : List Context}
    (head : context.bare = other.bare) (tail : Alike a b) : Alike (context :: a) (other :: b) := by
  simp only [Alike, List.map_cons, head]
  rw [tail]

theorem applyOwed (move : Move) (below : List Context) :
    owedAll below ≤ owedAll (move.apply below) := by
  cases move <;> simp only [Move.apply, owedAllCons] <;> omega

/- A move does not close more than it passes. Only the end of a triple literal closes more than
one character. -/
theorem moveOwed {context : Context} {offset : Nat} {c : Char} {rest : List Char} {move : Move}
    (moved : context.move offset c rest = .ok move) (below : List Context) :
    owedAll (context :: below) ≤ move.more + 1 + owedAll (move.apply below) := by
  have kept := applyOwed move below
  rw [owedAllCons]
  match context with
  | .body quote true affix start =>
    simp only [Context.move, bodyMove] at moved
    split at moved
    · cases moved
    split at moved
    · split at moved <;> cases moved
      simp only [Move.more, Move.apply, owedAllCons]
      omega
    split at moved
    · split at moved <;> cases moved <;> simp only [Move.more, Move.apply, owedAllCons] <;> omega
    split at moved
    · simp only [if_true] at moved
      split at moved <;> cases moved <;>
        simp only [Move.more, Move.apply, owedAllCons, Context.owed] <;> omega
    · cases moved
      simp only [Move.more, Move.apply, owedAllCons]
      omega
  | .body quote false affix start => simp only [Context.owed]; omega
  | .field depth start => simp only [Context.owed]; omega
  | .spec start => simp only [Context.owed]; omega

theorem closeAllOwed {offset : Nat} {stack : List Context} {text : List Char} {n : Nat}
    (closed : closeAll offset stack text = .ok n) : owedAll stack ≤ n := by
  fun_induction closeAll offset stack text generalizing n with
  | case1 => simp [owedAll]
  | case2 => cases closed
  | case3 => cases closed
  | case4 => cases closed
  | case5 offset context below c rest move moved passed n later =>
    rename_i ih
    cases closed
    have owed := moveOwed moved below
    have behind := ih later
    omega

theorem escapeInside {affix : Affix} {s x : List Char} {more : Nat}
    (taken : escapeWidth affix (s ++ x) = some more) (inside : more < s.length) (y : List Char) :
    escapeWidth affix (s ++ y) = some more := by
  have two : 2 ≤ s.length := by
    unfold escapeWidth at taken
    split at taken
    · have named : 1 ≤ more := (throughLength taken).1
      omega
    · split at taken
      · cases taken
        omega
      · cases taken
        simp only [List.length_append] at inside
        omega
  have sameName := fun text => startsWithInside ['N', '{'] two text
  have sameBreak := fun text => startsWithInside ['\r', '\n'] two text
  simp only [escapeWidth, sameName, sameBreak] at taken ⊢
  split at taken
  · rename_i named
    rw [if_pos named]
    exact throughInside taken (by omega) y
  · rename_i unnamed
    rw [if_neg unnamed]
    split at taken
    · rename_i paired
      rw [if_pos paired, taken]
    · rename_i plain
      cases taken
      rw [if_neg plain]
      simp only [List.length_append]
      congr 1
      omega

theorem isTripleInside {s : List Char} (two : 2 ≤ s.length) (quote c : Char) (x : List Char) :
    isTriple quote (c :: (s ++ x)) = isTriple quote (c :: s) :=
  startsWithInside [quote, quote, quote] (s := c :: s)
    (by simp only [List.length_cons, List.length_nil]; omega) x

theorem headInside {s : List Char} (one : 1 ≤ s.length) (x : List Char) :
    (s ++ x).head? = s.head? := by
  cases s with
  | nil => simp at one
  | cons c s => rfl

def Move.bare : Move → Move
  | .stay more context => .stay more context.bare
  | .enter more context inner => .enter more context.bare inner.bare
  | .leave more => .leave more

theorem bareMore {move other : Move} (same : move.bare = other.bare) : move.more = other.more := by
  cases move <;> cases other <;> simp_all [Move.bare, Move.more]

theorem bareApply {move other : Move} (same : move.bare = other.bare) {below under : List Context}
    (alike : Alike below under) : Alike (move.apply below) (other.apply under) := by
  cases move <;> cases other <;> simp_all [Move.bare, Move.apply, Alike]

theorem bodyInside {quote : Char} {triple : Bool} {affix : Affix} {start : Nat} {c : Char}
    {s x : List Char} {move : Move} (moved : bodyMove quote triple affix start c (s ++ x) = .ok move)
    (inside : move.more + owedAll (move.apply []) ≤ s.length) (start' : Nat) (y : List Char) :
    ∃ other, bodyMove quote triple affix start' c (s ++ y) = .ok other ∧ other.bare = move.bare := by
  simp only [bodyMove] at moved ⊢
  split at moved
  · cases moved
  rename_i sameLine
  rw [if_neg sameLine]
  split at moved
  · rename_i escape
    rw [if_pos escape]
    split at moved
    · rename_i more taken
      cases moved
      simp only [Move.more, Move.apply, owedAllCons] at inside
      have owed := Context.owedPositive (.body quote triple affix start)
      rw [escapeInside taken (by omega) y]
      exact ⟨_, rfl, rfl⟩
    · cases moved
  rename_i plain
  rw [if_neg plain]
  split at moved
  · rename_i brace
    rw [if_pos brace]
    have one : 1 ≤ s.length := by
      split at moved <;> cases moved <;>
        simp only [Move.more, Move.apply, owedAllCons, Context.owed] at inside <;> omega
    simp only [headInside one] at moved ⊢
    split at moved
    · rename_i double
      cases moved
      rw [if_pos double]
      exact ⟨_, rfl, rfl⟩
    · rename_i single
      cases moved
      rw [if_neg single]
      exact ⟨_, rfl, rfl⟩
  rename_i noBrace
  rw [if_neg noBrace]
  split at moved
  · rename_i closing
    rw [if_pos closing]
    cases triple with
    | false =>
      cases moved
      exact ⟨_, rfl, rfl⟩
    | true =>
      have two : 2 ≤ s.length := by
        simp only [if_true] at moved
        split at moved <;> cases moved <;>
          simp only [Move.more, Move.apply, owedAllCons, Context.owed] at inside <;> omega
      simp only [if_true, isTripleInside two] at moved ⊢
      split at moved
      · rename_i three
        cases moved
        rw [if_pos three]
        exact ⟨_, rfl, rfl⟩
      · rename_i fewer
        cases moved
        rw [if_neg fewer]
        exact ⟨_, rfl, rfl⟩
  · rename_i other
    rw [if_neg other]
    cases moved
    exact ⟨_, rfl, rfl⟩

theorem openInside {s : List Char} (two : 2 ≤ s.length) (affix : Affix) (start start' : Nat)
    (c : Char) (x y : List Char) :
    (openLiteral affix start' c (s ++ y)).1 = (openLiteral affix start c (s ++ x)).1 ∧
      (openLiteral affix start' c (s ++ y)).2.bare = (openLiteral affix start c (s ++ x)).2.bare := by
  simp [openLiteral, isTripleInside two, Context.bare]

theorem fieldPlain {c : Char} (noQuote : isQuote c = false) (noName : isNameChar c = false)
    {depth start offset : Nat} {rest : List Char} {move : Move}
    (moved : fieldMove depth start offset c rest = .ok move) (start' offset' : Nat)
    (other : List Char) :
    ∃ alike, fieldMove depth start' offset' c other = .ok alike ∧ alike.bare = move.bare := by
  grind [fieldMove, Move.bare, Context.bare]

theorem fieldInside {depth start offset : Nat} {c : Char} {s x : List Char} {move : Move}
    (moved : fieldMove depth start offset c (s ++ x) = .ok move)
    (inside : move.more + owedAll (move.apply []) ≤ s.length) (start' offset' : Nat)
    (y : List Char) :
    ∃ other, fieldMove depth start' offset' c (s ++ y) = .ok other ∧ other.bare = move.bare := by
  cases quote : isQuote c with
  | true =>
    rw [fieldQuote quote] at moved ⊢
    cases moved
    have owed := Context.owedPositive (openLiteral .plain offset c (s ++ x)).2
    simp only [Move.more, Move.apply, owedAllCons] at inside
    have field := Context.owedPositive (.field depth start)
    have same := openInside (s := s) (by omega) .plain offset offset' c x y
    refine ⟨_, rfl, ?_⟩
    simp only [Move.bare, same.1, same.2]
    rfl
  | false =>
    cases name : isNameChar c with
    | false => exact fieldPlain quote name moved start' offset' (s ++ y)
    | true =>
      have field := Context.owedPositive (.field depth start)
      rw [fieldWord name] at moved ⊢
      have shorter : ((s ++ x).takeWhile isNameChar).length < s.length := by
        split at moved
        · simp only at moved
          split at moved <;> cases moved <;>
            simp only [Move.more, Move.apply, owedAllCons, List.length_cons] at inside <;> omega
        · cases moved
          simp only [Move.more, Move.apply, owedAllCons] at inside
          omega
      rw [takeWhileInside shorter y]
      generalize (s ++ x).takeWhile isNameChar = run at moved shorter ⊢
      rw [List.drop_append_of_le_length (by omega)] at moved ⊢
      cases behind : s.drop run.length with
      | nil =>
        have long := congrArg List.length behind
        simp only [List.length_drop, List.length_nil] at long
        omega
      | cons d later =>
        simp only [behind, List.cons_append] at moved ⊢
        split at moved
        · rename_i prefixed
          rw [if_pos prefixed]
          cases moved
          have owed := Context.owedPositive
            (openLiteral (.ofWord (c :: run)) offset d (later ++ x)).2
          simp only [Move.more, Move.apply, owedAllCons, List.length_cons] at inside
          have length := congrArg List.length behind
          simp only [List.length_drop, List.length_cons] at length
          have same := openInside (s := later) (by omega) (.ofWord (c :: run)) offset offset' d x y
          refine ⟨_, rfl, ?_⟩
          simp only [Move.bare, same.1, same.2]
          rfl
        · rename_i other
          rw [if_neg other]
          cases moved
          exact ⟨_, rfl, rfl⟩

theorem specPlain {start : Nat} {c : Char} {move : Move} (moved : specMove start c = .ok move)
    (start' : Nat) : ∃ other, specMove start' c = .ok other ∧ other.bare = move.bare := by
  grind [specMove, Move.bare, Context.bare]

/- What a context makes of a character is settled by the characters in front of the place where
all it opens can be closed. -/
theorem moveInside {context other : Context} (alike : context.bare = other.bare)
    {offset : Nat} {c : Char} {s x : List Char} {move : Move}
    (moved : context.move offset c (s ++ x) = .ok move)
    (inside : move.more + owedAll (move.apply []) ≤ s.length) (offset' : Nat) (y : List Char) :
    ∃ move', other.move offset' c (s ++ y) = .ok move' ∧ move'.bare = move.bare := by
  cases context <;> cases other <;>
    simp only [Context.bare, Context.body.injEq, Context.field.injEq, reduceCtorEq] at alike
  · obtain ⟨rfl, rfl, rfl, -⟩ := alike
    exact bodyInside moved inside _ y
  · obtain ⟨rfl, -⟩ := alike
    exact fieldInside moved inside _ offset' y
  · exact specPlain moved _

theorem applyOwedAppend (move : Move) (below : List Context) :
    owedAll (move.apply below) = owedAll (move.apply []) + owedAll below := by
  cases move with
  | stay more context => simp [Move.apply, owedAll]
  | enter more context inner =>
    simp only [Move.apply, owedAllCons]
    simp only [owedAll, List.foldr_nil]
    omega
  | leave more => simp [Move.apply, owedAll]

theorem closeAllStep {context : Context} {below : List Context} {offset : Nat} {c : Char}
    {rest : List Char} {move : Move} {n : Nat} (moved : context.move offset c rest = .ok move)
    (later : closeAll (offset + byteLength (c :: rest.take move.more)) (move.apply below)
      (rest.drop move.more) = .ok n) :
    closeAll offset (context :: below) (c :: rest) = .ok (n + (move.more + 1)) := by
  simp only [closeAll, moved, later]

theorem closeAllInside {offset : Nat} {stack : List Context} {text : List Char} {n : Nat}
    (closed : closeAll offset stack text = .ok n) {s x : List Char} (cut : text = s ++ x)
    (whole : n = s.length) {other : List Context} (alike : Alike stack other)
    (offset' : Nat) (y : List Char) : closeAll offset' other (s ++ y) = .ok n := by
  fun_induction closeAll offset stack text generalizing n s other offset' with
  | case1 offset text =>
    cases closed
    have empty : other = [] := by simpa [Alike] using alike.symm
    simp [empty, closeAll]
  | case2 => cases closed
  | case3 => cases closed
  | case4 => cases closed
  | case5 offset context below c rest move moved passed n later =>
    rename_i ih
    cases closed
    obtain ⟨head, under, rfl⟩ : ∃ head under, other = head :: under := by
      cases other with
      | nil => simp [Alike] at alike
      | cons head under => exact ⟨head, under, rfl⟩
    simp only [Alike, List.map_cons, List.cons.injEq] at alike
    obtain ⟨s, rfl, rfl⟩ : ∃ t, s = c :: t ∧ rest = t ++ x := by
      cases s with
      | nil => simp at whole
      | cons d t =>
        simp only [List.cons_append, List.cons.injEq] at cut
        exact ⟨t, by rw [cut.1], cut.2⟩
    simp only [List.length_cons] at whole
    have owed := closeAllOwed later
    rw [applyOwedAppend] at owed
    obtain ⟨move', moved', same⟩ := moveInside alike.1 moved (by omega) offset' y
    have more := bareMore same
    rw [List.cons_append, ← more]
    apply closeAllStep moved'
    rw [List.drop_append_of_le_length (by omega)]
    apply ih later
    · rw [List.drop_append_of_le_length (by omega), more]
    · simp only [List.length_drop]
      omega
    · exact bareApply same.symm alike.2

theorem openTriple (affix : Affix) (start : Nat) (c : Char) (rest : List Char) :
    openLiteral affix start c rest =
      (if isTriple c (c :: rest) then 2 else 0, .body c (isTriple c (c :: rest)) affix start) := rfl

theorem isTripleThird {c d : Char} {x y : List Char} (third : y.head? = some c → x.head? = some c)
    (triple : isTriple c (c :: d :: y) = true) : isTriple c (c :: d :: x) = true := by
  obtain ⟨rest, same⟩ := startsWithIff.mp triple
  simp only [List.cons_append, List.nil_append, List.cons.injEq, true_and] at same
  obtain ⟨rfl, rfl⟩ := same
  cases x with
  | nil => simp at third
  | cons e x =>
    have : e = d := by simpa using third
    subst e
    exact startsWithIff.mpr ⟨x, rfl⟩

/- The one literal whose end is told by what follows is the empty one: a third quote would make
it the beginning of another. -/
theorem literalInside {affix : Affix} {start offset : Nat} {c : Char} {s x : List Char}
    (width : literalWidth affix start offset (c :: (s ++ x)) = .ok (s.length + 1))
    (start' offset' : Nat) {y : List Char} (third : y.head? = some c → x.head? = some c) :
    literalWidth affix start' offset' (c :: (s ++ y)) = .ok (s.length + 1) := by
  simp only [literalWidth] at width ⊢
  cases closed : closeAll (offset + byteLength (c :: (s ++ x).take
      (openLiteral affix start c (s ++ x)).1)) [(openLiteral affix start c (s ++ x)).2]
      ((s ++ x).drop (openLiteral affix start c (s ++ x)).1) with
  | error e => simp [closed, Except.map] at width
  | ok n =>
    simp only [closed, Except.map, Except.ok.injEq] at width
    have owed := closeAllOwed closed
    simp only [owedAllCons] at owed
    have positive := Context.owedPositive (openLiteral affix start c (s ++ x)).2
    have same : (openLiteral affix start' c (s ++ y)).1 = (openLiteral affix start c (s ++ x)).1 ∧
        (openLiteral affix start' c (s ++ y)).2.bare =
          (openLiteral affix start c (s ++ x)).2.bare := by
      by_cases two : 2 ≤ s.length
      · exact openInside two affix start start' c x y
      · obtain ⟨d, rfl⟩ : ∃ d, s = [d] := List.length_eq_one_iff.mp (by omega)
        have single : isTriple c (c :: d :: x) = false := by
          rw [Bool.eq_false_iff]
          intro triple
          simp only [openTriple, List.cons_append, List.nil_append, triple, if_true,
            List.length_singleton] at width
          omega
        have still : isTriple c (c :: d :: y) = false := by
          rw [Bool.eq_false_iff]
          intro triple
          rw [isTripleThird third triple] at single
          contradiction
        simp [openTriple, single, still, Context.bare]
    rw [same.1, List.drop_append_of_le_length (by omega)]
    rw [List.drop_append_of_le_length (by omega)] at closed
    have inside := closeAllInside closed rfl (by simp only [List.length_drop]; omega)
      (Alike.cons same.2.symm (rfl : Alike [] [])) (offset' + byteLength (c :: (s ++ y).take
        (openLiteral affix start c (s ++ x)).1)) y
    rw [inside]
    simp only [Except.map, Except.ok.injEq]
    exact width

end CommentStrip.Python
