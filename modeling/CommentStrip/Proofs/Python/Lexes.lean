import CommentStrip.Proofs.Python.Cut
import CommentStrip.Proofs.Python.FieldMove
import CommentStrip.Proofs.Text.Seam

/-! No token reaches beyond the text, so that an accepted text is a chain of steps each of which
takes a nonempty piece from the front. -/
namespace CommentStrip.Python
open Unicode Text

theorem isTripleWithin {quote c : Char} {rest : List Char}
    (triple : isTriple quote (c :: rest) = true) : 2 ≤ rest.length := by
  have three := startsWithLength triple
  simp only [List.length_cons, List.length_nil] at three
  omega

theorem escapeWithin {affix : Affix} {rest : List Char} {more : Nat}
    (taken : escapeWidth affix rest = some more) : more ≤ rest.length := by
  unfold escapeWidth at taken
  split at taken
  · exact (throughLength taken).2
  split at taken
  · rename_i paired
    cases taken
    exact startsWithLength paired
  · cases taken
    exact Nat.min_le_right 1 rest.length

theorem bodyWithin {quote : Char} {triple : Bool} {affix : Affix} {start : Nat} {c : Char}
    {rest : List Char} {move : Move} (moved : bodyMove quote triple affix start c rest = .ok move) :
    move.more ≤ rest.length := by
  simp only [bodyMove] at moved
  split at moved
  · cases moved
  split at moved
  · split at moved <;> cases moved
    rename_i taken
    exact escapeWithin taken
  split at moved
  · split at moved <;> cases moved
    · rename_i double
      cases rest with
      | nil => simp at double
      | cons d rest => exact Nat.le_add_left 1 rest.length
    · exact Nat.zero_le _
  split at moved
  · split at moved
    · split at moved <;> cases moved
      · rename_i three
        exact isTripleWithin three
      · exact Nat.zero_le _
    · cases moved
      exact Nat.zero_le _
  · cases moved
    exact Nat.zero_le _

theorem openWithin (affix : Affix) (start : Nat) (c : Char) (rest : List Char) :
    (openLiteral affix start c rest).1 ≤ rest.length := by
  simp only [openLiteral]
  split
  · rename_i triple
    exact isTripleWithin triple
  · exact Nat.zero_le _

theorem fieldWithin {depth start offset : Nat} {c : Char} {rest : List Char} {move : Move}
    (moved : fieldMove depth start offset c rest = .ok move) : move.more ≤ rest.length := by
  cases quote : isQuote c with
  | true =>
    rw [fieldQuote quote] at moved
    cases moved
    exact openWithin _ _ _ _
  | false =>
    cases name : isNameChar c with
    | false =>
      have single : move.more = 0 := by grind [fieldMove, Move.more]
      omega
    | true =>
      rw [fieldWord name] at moved
      have word := (List.takeWhile_prefix (l := rest) isNameChar).length_le
      split at moved
      · rename_i d behind cut
        have length := congrArg List.length cut
        simp only [List.length_drop, List.length_cons] at length
        have opened := openWithin (.ofWord (c :: rest.takeWhile isNameChar)) offset d behind
        simp only at moved
        split at moved <;> cases moved <;> simp only [Move.more, List.length_cons] <;> omega
      · cases moved
        exact word

theorem moveWithin {context : Context} {offset : Nat} {c : Char} {rest : List Char} {move : Move}
    (moved : context.move offset c rest = .ok move) : move.more ≤ rest.length := by
  cases context with
  | body quote triple affix start => exact bodyWithin moved
  | field depth start => exact fieldWithin moved
  | spec start =>
    have single : move.more = 0 := by grind [Context.move, specMove, Move.more]
    omega

theorem closeAllWithin {offset : Nat} {stack : List Context} {text : List Char} {n : Nat}
    (closed : closeAll offset stack text = .ok n) : n ≤ text.length := by
  fun_induction closeAll offset stack text generalizing n with
  | case1 => cases closed; exact Nat.zero_le _
  | case2 => cases closed
  | case3 => cases closed
  | case4 => cases closed
  | case5 offset context below c rest move moved passed n later =>
    rename_i ih
    cases closed
    have within := moveWithin moved
    have behind := ih later
    simp only [List.length_drop] at behind
    simp only [List.length_cons]
    omega

theorem literalWithin {affix : Affix} {start offset : Nat} {text : List Char} {width : Nat}
    (closed : literalWidth affix start offset text = .ok width) : width ≤ text.length := by
  cases text with
  | nil => cases closed; exact Nat.le_refl 0
  | cons c rest =>
    simp only [literalWidth] at closed
    have opened := openWithin affix start c rest
    cases within : closeAll (offset + byteLength (c :: rest.take (openLiteral affix start c rest).1))
        [(openLiteral affix start c rest).2] (rest.drop (openLiteral affix start c rest).1) with
    | error e => simp [within, Except.map] at closed
    | ok n =>
      simp only [within, Except.map, Except.ok.injEq] at closed
      have behind := closeAllWithin within
      simp only [List.length_drop] at behind
      simp only [List.length_cons]
      omega

theorem numberWithin (hex : Bool) (previous : Char) (text : List Char) :
    numberTail hex previous text ≤ text.length := by
  induction text generalizing previous with
  | nil => exact Nat.le_refl 0
  | cons c rest ih =>
    simp only [numberTail]
    split
    · exact Nat.add_le_add_right (ih c) 1
    · exact Nat.zero_le _

theorem breakWithin (text : List Char) : breakWidth text ≤ text.length := by
  unfold breakWidth
  split <;> simp

theorem cutWithin {st : State} {offset : Nat} {c : Char} {rest : List Char} {found : Next}
    (cut : Cut st offset c rest found) : found.more ≤ rest.length := by
  cases cut with
  | blank => exact (List.takeWhile_prefix _).length_le
  | lineBreak =>
    have short := breakWithin (c :: rest)
    simp only [List.length_cons] at short
    simp only
    omega
  | comment => exact (List.takeWhile_prefix _).length_le
  | continuation => exact breakWithin rest
  | literal first closed =>
    have short := literalWithin closed
    simp only [List.length_cons] at short
    simp only
    omega
  | number => exact numberWithin _ _ _
  | prefixed first word quoted closed =>
    have literal := literalWithin closed
    have word := (List.takeWhile_prefix (l := rest) isNameChar).length_le
    simp only [behindWord, List.length_drop] at literal
    simp only [wordOf, List.length_cons]
    omega
  | name => exact (List.takeWhile_prefix _).length_le
  | opening => exact Nat.zero_le _
  | closing => exact Nat.zero_le _
  | mark => exact Nat.zero_le _

inductive Lexes : State → Nat → List Char → List Token → Prop where
  | done {st offset} (closed : st.brackets = []) : Lexes st offset [] []
  | token {st offset c s x found later} (taken : next st offset c (s ++ x) = .ok found)
      (whole : found.more = s.length)
      (rest : Lexes found.state (offset + byteLength (c :: s)) x later) :
      Lexes st offset (c :: (s ++ x)) (⟨found.kind, c :: s⟩ :: later)

theorem tokensFromStep {st : State} {offset : Nat} {c : Char} {s x : List Char} {found : Next}
    (taken : next st offset c (s ++ x) = .ok found) (whole : found.more = s.length) :
    tokensFrom st offset (c :: (s ++ x)) =
      (tokensFrom found.state (offset + byteLength (c :: s)) x).map
        (⟨found.kind, c :: s⟩ :: ·) := by
  simp only [tokensFrom, taken, whole, List.take_left, List.drop_left]
  cases tokensFrom found.state (offset + byteLength (c :: s)) x <;> rfl

theorem tokensFromIff {st : State} {offset : Nat} {text : List Char} {tokens : List Token} :
    tokensFrom st offset text = .ok tokens ↔ Lexes st offset text tokens := by
  constructor
  · intro accepted
    fun_induction tokensFrom st offset text generalizing tokens with
    | case1 => cases accepted
    | case2 st offset closed => cases accepted; exact .done closed
    | case3 => cases accepted
    | case4 => cases accepted
    | case5 st offset c rest found taken piece tokens accepted_later =>
      rename_i ih
      cases accepted
      have within := cutWithin (cutNext taken)
      have step := Lexes.token (s := rest.take found.more) (x := rest.drop found.more)
        (by rw [List.take_append_drop]; exact taken)
        (by rw [List.length_take]; omega) (ih accepted_later)
      rw [List.take_append_drop] at step
      exact step
  · intro lexed
    induction lexed with
    | done closed => simp [tokensFrom, closed]
    | @token st offset c s x found later taken whole rest ih =>
      rw [tokensFromStep taken whole, ih]
      rfl

theorem lexesNext {st : State} {offset : Nat} {c : Char} {s x : List Char} {found : Next}
    (taken : next st offset c (s ++ x) = .ok found) (whole : found.more = s.length)
    {tokens : List Token} : Lexes st offset (c :: (s ++ x)) tokens ↔
      ∃ later, tokens = ⟨found.kind, c :: s⟩ :: later ∧
        Lexes found.state (offset + byteLength (c :: s)) x later := by
  constructor
  · intro lexed
    rw [← tokensFromIff, tokensFromStep taken whole] at lexed
    cases accepted : tokensFrom found.state (offset + byteLength (c :: s)) x with
    | error e =>
      rw [accepted] at lexed
      cases lexed
    | ok later =>
      rw [accepted] at lexed
      cases lexed
      exact ⟨later, rfl, tokensFromIff.mp accepted⟩
  · rintro ⟨later, rfl, rest⟩
    exact .token taken whole rest

theorem tokenizeIff {text : List Char} {tokens : List Token} :
    tokenize text = .ok tokens ↔ Lexes .initial 0 text tokens := tokensFromIff

theorem lexesText {st : State} {offset : Nat} {x : List Char} {tokens : List Token}
    (lexed : Lexes st offset x tokens) : textOf tokens = x :=
  tokensFromText (tokensFromIff.mpr lexed)

theorem tokensFilled {st : State} {offset : Nat} {x : List Char} {tokens : List Token}
    (lexed : Lexes st offset x tokens) : ∀ t ∈ tokens, t.text ≠ [] := by
  induction lexed with
  | done => simp
  | token taken whole rest ih => exact List.forall_mem_cons.mpr ⟨by simp, ih⟩

end CommentStrip.Python
