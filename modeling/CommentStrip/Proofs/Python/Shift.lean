import CommentStrip.Proofs.Python.Cut
import CommentStrip.Proofs.Python.FieldMove

/-! Offsets are carried along and decide nothing: a text that begins `n` bytes further on, in a
state whose places are all `n` bytes further on, is cut into the same tokens or refused for the
same cause, `n` bytes further on. -/
namespace CommentStrip.Python
open Unicode Text

def Context.shift (n : Nat) : Context → Context
  | .body quote triple affix start => .body quote triple affix (n + start)
  | .field depth start => .field depth (n + start)
  | .spec start => .spec (n + start)

def Move.shift (n : Nat) : Move → Move
  | .stay more context => .stay more (context.shift n)
  | .enter more context inner => .enter more (context.shift n) (inner.shift n)
  | .leave more => .leave more

def State.shift (n : Nat) (st : State) : State :=
  { st with brackets := st.brackets.map fun opened => (opened.1, n + opened.2) }

def Next.shift (n : Nat) (found : Next) : Next := { found with state := found.state.shift n }

def carried (n : Nat) (shift : α → α) : Except TokenError α → Except TokenError α
  | .error e => .error (e.shift n)
  | .ok a => .ok (shift a)

theorem unterminatedShift (n : Nat) (context : Context) :
    (context.shift n).unterminated = context.unterminated.shift n := by
  cases context with
  | body quote triple affix start => cases triple <;> rfl
  | field depth start => rfl
  | spec start => rfl

theorem shiftMore (n : Nat) (move : Move) : (move.shift n).more = move.more := by
  cases move <;> rfl

theorem shiftApply (n : Nat) (move : Move) (below : List Context) :
    (move.shift n).apply (below.map (Context.shift n)) =
      (move.apply below).map (Context.shift n) := by
  cases move <;> rfl

theorem openShift (n : Nat) (affix : Affix) (start : Nat) (c : Char) (rest : List Char) :
    openLiteral affix (n + start) c rest =
      ((openLiteral affix start c rest).1, (openLiteral affix start c rest).2.shift n) := rfl

theorem bodyShift (n : Nat) (quote : Char) (triple : Bool) (affix : Affix) (start : Nat) (c : Char)
    (rest : List Char) : bodyMove quote triple affix (n + start) c rest =
      carried n (Move.shift n) (bodyMove quote triple affix start c rest) := by
  have cause : Context.unterminated (.body quote triple affix (n + start)) =
      (Context.unterminated (.body quote triple affix start)).shift n :=
    unterminatedShift n (.body quote triple affix start)
  simp only [bodyMove, cause]
  split
  · rfl
  split
  · cases escapeWidth affix rest <;> rfl
  split
  · split <;> rfl
  split
  · split
    · split <;> rfl
    · rfl
  · rfl

theorem fieldShift (n depth start offset : Nat) (c : Char) (rest : List Char) :
    fieldMove depth (n + start) (n + offset) c rest =
      carried n (Move.shift n) (fieldMove depth start offset c rest) := by
  cases name : isNameChar c with
  | true =>
    rw [fieldWord name, fieldWord name]
    cases rest.drop (rest.takeWhile isNameChar).length with
    | nil => rfl
    | cons quote behind =>
      simp only [openShift]
      split <;> rfl
  | false => grind [fieldMove, openShift, carried, Move.shift, Context.shift, TokenError.shift]

theorem specShift (n start : Nat) (c : Char) :
    specMove (n + start) c = carried n (Move.shift n) (specMove start c) := by
  grind [specMove, carried, Move.shift, Context.shift, Context.unterminated, TokenError.shift]

theorem moveShift (n : Nat) (context : Context) (offset : Nat) (c : Char) (rest : List Char) :
    (context.shift n).move (n + offset) c rest =
      carried n (Move.shift n) (context.move offset c rest) := by
  cases context with
  | body quote triple affix start => exact bodyShift n quote triple affix start c rest
  | field depth start => exact fieldShift n depth start offset c rest
  | spec start => exact specShift n start c

theorem closeAllShift (n offset : Nat) (stack : List Context) (text : List Char) :
    closeAll (n + offset) (stack.map (Context.shift n)) text =
      carried n id (closeAll offset stack text) := by
  fun_induction closeAll offset stack text with
  | case1 offset text => simp [closeAll, carried]
  | case2 offset context below => simp [closeAll, carried, unterminatedShift]
  | case3 offset context below c rest e refused =>
    simp [closeAll, moveShift, refused, carried]
  | case4 offset context below c rest move moved passed e refused ih =>
    rw [refused] at ih
    simp only [List.map_cons, closeAll, moveShift, moved, carried, shiftMore, shiftApply,
      Nat.add_assoc] at ih ⊢
    rw [ih]
  | case5 offset context below c rest move moved passed more closed ih =>
    rw [closed] at ih
    simp only [List.map_cons, closeAll, moveShift, moved, carried, shiftMore, shiftApply,
      Nat.add_assoc] at ih ⊢
    rw [ih]
    rfl

theorem literalShift (n : Nat) (affix : Affix) (start offset : Nat) (text : List Char) :
    literalWidth affix (n + start) (n + offset) text =
      carried n id (literalWidth affix start offset text) := by
  cases text with
  | nil => rfl
  | cons c rest =>
    have closed := closeAllShift n (offset + byteLength (c :: rest.take (openLiteral affix start c rest).1))
      [(openLiteral affix start c rest).2] (rest.drop (openLiteral affix start c rest).1)
    simp only [literalWidth, openShift, Nat.add_assoc, List.map_cons, List.map_nil] at closed ⊢
    rw [closed]
    generalize closeAll _ _ _ = result
    cases result <;> rfl

theorem literalNextShift (n : Nat) (st : State) (affix : Affix) (offset : Nat)
    (word text : List Char) : literalNext (st.shift n) affix (n + offset) word text =
      carried n (Next.shift n) (literalNext st affix offset word text) := by
  unfold literalNext
  rw [Nat.add_assoc, literalShift]
  cases literalWidth affix offset (offset + byteLength word) text <;> rfl

theorem closingShift (n : Nat) (st : State) (offset : Nat) (c : Char) :
    closingNext (st.shift n) (n + offset) c =
      carried n (Next.shift n) (closingNext st offset c) := by
  obtain ⟨brackets, content⟩ := st
  cases brackets with
  | nil => rfl
  | cons innermost outer =>
    simp only [closingNext, State.shift, List.map_cons]
    split <;> rfl

theorem kindShift (n : Nat) (st : State) : breakKind (st.shift n) = breakKind st := by
  simp [breakKind, State.shift]

theorem wordShift (n : Nat) (st : State) (offset : Nat) (c : Char) (rest : List Char) :
    wordNext (st.shift n) (n + offset) c rest =
      carried n (Next.shift n) (wordNext st offset c rest) := by
  unfold wordNext
  split
  · exact literalNextShift n st _ offset _ _
  · rfl

theorem nextShift (n : Nat) (st : State) (offset : Nat) (c : Char) (rest : List Char) :
    next (st.shift n) (n + offset) c rest = carried n (Next.shift n) (next st offset c rest) := by
  rw [nextSteps, nextSteps]
  simp only [apply_ite (carried n (Next.shift n)), kindShift]
  -- The conditions read the text alone.
  refine ite_congr rfl (fun _ => rfl) fun _ => ?_
  refine ite_congr rfl (fun _ => rfl) fun _ => ?_
  refine ite_congr rfl (fun _ => rfl) fun _ => ?_
  refine ite_congr rfl (fun _ => rfl) fun _ => ?_
  refine ite_congr rfl (fun _ => literalNextShift n st .plain offset [] (c :: rest)) fun _ => ?_
  refine ite_congr rfl (fun _ => rfl) fun _ => ?_
  refine ite_congr rfl (fun _ => wordShift n st offset c rest) fun _ => ?_
  refine ite_congr rfl (fun _ => rfl) fun _ => ?_
  exact ite_congr rfl (fun _ => closingShift n st offset c) fun _ => rfl

theorem tokensFromShift (n : Nat) (st : State) (offset : Nat) (text : List Char) :
    tokensFrom (st.shift n) (n + offset) text = carried n id (tokensFrom st offset text) := by
  fun_induction tokensFrom st offset text with
  | case1 st offset opening opened outer brackets =>
    simp [tokensFrom, State.shift, brackets, carried, TokenError.shift]
  | case2 st offset closed => simp [tokensFrom, State.shift, closed, carried]
  | case3 st offset c rest e refused => simp [tokensFrom, nextShift, refused, carried]
  | case4 st offset c rest found taken text e refused ih =>
    rw [refused] at ih
    simp only [tokensFrom, nextShift, taken, carried, Next.shift, Nat.add_assoc] at ih ⊢
    rw [ih]
  | case5 st offset c rest found taken text later accepted ih =>
    rw [accepted] at ih
    simp only [tokensFrom, nextShift, taken, carried, Next.shift, Nat.add_assoc] at ih ⊢
    rw [ih]
    rfl

theorem tokensFromInitial (n : Nat) (text : List Char) :
    tokensFrom .initial n text = carried n id (tokenize text) :=
  tokensFromShift n .initial 0 text

end CommentStrip.Python
