import CommentStrip.Proofs.Python.TokenFlow

/-! The tokens of a text lie end to end from its first byte to its last one. What a token of each
kind looks like, and what may stand next to it. -/
namespace CommentStrip.Python
open Unicode Text

inductive Tiled : Nat → List (TokenKind × Nat × Nat) → Nat → Prop where
  | nil (start) : Tiled start [] start
  | cons {kind start stop ranges last} (filled : start < stop) (later : Tiled stop ranges last) :
      Tiled start ((kind, start, stop) :: ranges) last

def IsLineBreak (text : List Char) : Prop := text = ['\n'] ∨ text = ['\r'] ∨ text = ['\r', '\n']

def delimiter (quote : Char) (triple : Bool) : List Char :=
  if triple then [quote, quote, quote] else [quote]

/- A prefix or none, and a delimiter at both ends of what is inside. Three quotes in front are one
delimiter. -/
inductive Literal : List Char → Prop where
  | delimited {word quote triple inside} (named : word ≠ [] → isStringPrefix word = true)
      (isOne : isQuote quote = true)
      (opening : isTriple quote (delimiter quote triple ++ inside ++ delimiter quote triple) = triple) :
      Literal (word ++ (delimiter quote triple ++ inside ++ delimiter quote triple))

/- What the kind of a token says of its text, and of the text in front of it and behind it. -/
structure Formed (ahead : List Char) (t : Token) (behind : List Char) : Prop where
  comment : t.kind = .comment →
    (∃ s, t.text = '#' :: s) ∧ (∀ c ∈ t.text, isBreak c = false) ∧ AtBreak behind
  lineBreak : t.kind = .newline ∨ t.kind = .nl → IsLineBreak t.text
  whitespace : t.kind = .whitespace → (∀ c ∈ t.text, isBlank c = true) ∧
    (∀ c, ahead.getLast? = some c → isBlank c = false) ∧
    ∀ c, behind.head? = some c → isBlank c = false
  continuation : t.kind = .continuation → ∃ s, t.text = '\\' :: s ∧ IsLineBreak s
  literal : t.kind = .string → Literal t.text

theorem offsetsTiled (position : Nat) {tokens : List Token} (filled : ∀ t ∈ tokens, t.text ≠ []) :
    Tiled position (offsets position tokens) (position + byteLength (textOf tokens)) := by
  induction tokens generalizing position with
  | nil => exact .nil position
  | cons t later ih =>
    obtain ⟨here, behind⟩ := List.forall_mem_cons.mp filled
    have size := byteLengthPositive here
    have rest := ih (position + byteLength t.text) behind
    rw [textOfCons, byteLengthAppend, ← Nat.add_assoc]
    exact .cons (by omega) rest

theorem offsetsAt (position : Nat) (front : List Token) (t : Token) (back : List Token) :
    (offsets position (front ++ t :: back))[front.length]? =
      some (t.kind, position + byteLength (textOf front),
        position + byteLength (textOf front ++ t.text)) := by
  have length := offsetsLength position front
  rw [offsetsAppend, List.getElem?_append_right (by omega), length, Nat.sub_self, offsets,
    List.getElem?_cons_zero, byteLengthAppend, Nat.add_assoc]

theorem breakFormed {t x : List Char} (width : breakWidth (t ++ x) = t.length) (filled : t ≠ []) :
    IsLineBreak t := by
  rcases breakForms width filled with feed | both | ⟨lone, -⟩
  · exact .inl feed
  · exact .inr (.inr both)
  · exact .inr (.inl lone)

theorem lineBreakLast {text : List Char} (lineBreak : IsLineBreak text) {c : Char}
    (last : text.getLast? = some c) : isBreak c = true := by
  rcases lineBreak with rfl | rfl | rfl <;> cases last <;> rfl

theorem literalLast {text : List Char} (literal : Literal text) :
    ∃ quote, isQuote quote = true ∧ text.getLast? = some quote := by
  obtain ⟨-, isOne, -⟩ := literal
  rename_i word quote triple inside
  refine ⟨quote, isOne, ?_⟩
  rw [List.getLast?_append, List.getLast?_append]
  cases triple <;> rfl

theorem delimiterOpens {quote : Char} {text : List Char} (triple : isTriple quote text = true) :
    ∃ rest, text = delimiter quote true ++ rest := startsWithIff.mp triple

theorem bodyMoves {quote : Char} {triple : Bool} {affix : Affix} {start : Nat} {c : Char}
    {rest : List Char} {move : Move} (moved : bodyMove quote triple affix start c rest = .ok move) :
    (∃ more, move = .stay more (.body quote triple affix start)) ∨
      (∃ more inner, move = .enter more (.body quote triple affix start) inner) ∨
      ∃ more, move = .leave more ∧ c :: rest.take more = delimiter quote triple := by
  simp only [bodyMove] at moved
  split at moved
  · cases moved
  split at moved
  · split at moved <;> cases moved
    exact .inl ⟨_, rfl⟩
  split at moved
  · split at moved <;> cases moved
    · exact .inl ⟨_, rfl⟩
    · exact .inr (.inl ⟨_, _, rfl⟩)
  split at moved
  · rename_i closes
    subst closes
    cases triple with
    | false =>
      cases moved
      exact .inr (.inr ⟨0, rfl, rfl⟩)
    | true =>
      simp only [if_true] at moved
      split at moved <;> cases moved
      · rename_i three
        obtain ⟨behind, same⟩ := delimiterOpens three
        obtain rfl := (List.cons.inj same).2
        exact .inr (.inr ⟨2, rfl, rfl⟩)
      · exact .inl ⟨_, rfl⟩
  · cases moved
    exact .inl ⟨_, rfl⟩

theorem applyAppend (move : Move) (upper lower : List Context) :
    move.apply (upper ++ lower) = move.apply upper ++ lower := by
  cases move <;> rfl

theorem closeAllDelimited {quote : Char} {triple : Bool} {affix : Affix} {start offset : Nat}
    {stack : List Context} {text : List Char} {n : Nat}
    (closed : closeAll offset stack text = .ok n) (upper : List Context)
    (bottom : stack = upper ++ [.body quote triple affix start]) :
    ∃ inside, text.take n = inside ++ delimiter quote triple := by
  fun_induction closeAll offset stack text generalizing n upper with
  | case1 => simp at bottom
  | case2 => cases closed
  | case3 => cases closed
  | case4 => cases closed
  | case5 offset context below c rest move moved passed m later =>
    rename_i ih
    cases closed
    have passes : (c :: rest).take (m + (move.more + 1)) =
        c :: rest.take move.more ++ (rest.drop move.more).take m := by
      rw [← Nat.add_assoc, List.take_succ_cons, Nat.add_comm m, List.take_add, List.cons_append]
    have stays (upper) (same : move.apply below = upper ++ [.body quote triple affix start]) :
        ∃ inside, (c :: rest).take (m + (move.more + 1)) = inside ++ delimiter quote triple := by
      obtain ⟨inside, ends⟩ := ih later upper same
      exact ⟨c :: rest.take move.more ++ inside, by rw [passes, ends, List.append_assoc]⟩
    cases upper with
    | cons head upper =>
      obtain ⟨rfl, rfl⟩ := List.cons.inj bottom
      exact stays _ (applyAppend move upper _)
    | nil =>
      obtain ⟨rfl, rfl⟩ := List.cons.inj bottom
      rcases bodyMoves moved with ⟨more, rfl⟩ | ⟨more, inner, rfl⟩ | ⟨more, rfl, ends⟩
      · exact stays [] rfl
      · exact stays [inner] rfl
      · -- Nothing is open any more, so the delimiter is the end.
        simp only [Move.apply, closeAll] at later
        cases later
        exact ⟨[], by rw [passes, Move.more, ends]; simp⟩

theorem tripleAlone {affix : Affix} {start offset : Nat} {quote : Char} {s x : List Char}
    (closed : literalWidth affix start offset (quote :: (s ++ x)) = .ok (s.length + 1)) :
    isTriple quote (quote :: (s ++ x)) = isTriple quote (quote :: s) := by
  by_cases two : 2 ≤ s.length
  · exact isTripleInside two quote quote x
  · have outside : isTriple quote (quote :: (s ++ x)) = false := by
      rw [Bool.eq_false_iff]
      exact fun triple => two (tripleInside closed triple)
    have alone : isTriple quote (quote :: s) = false := by
      rw [Bool.eq_false_iff]
      exact fun triple => two (isTripleWithin triple)
    rw [outside, alone]

theorem literalDelimited {affix : Affix} {start offset : Nat} {quote : Char} {s x : List Char}
    (closed : literalWidth affix start offset (quote :: (s ++ x)) = .ok (s.length + 1)) :
    ∃ inside, quote :: s = delimiter quote (isTriple quote (quote :: s)) ++ inside ++
      delimiter quote (isTriple quote (quote :: s)) := by
  have same := tripleAlone closed
  simp only [literalWidth, openTriple, same] at closed
  obtain ⟨n, shut, width⟩ := mapOk closed
  obtain ⟨inside, ends⟩ := closeAllDelimited shut [] rfl
  cases triple : isTriple quote (quote :: s) with
  | true =>
    obtain ⟨rest, begins⟩ := delimiterOpens triple
    obtain rfl : s = quote :: quote :: rest := (List.cons.inj begins).2
    simp only [triple, if_true, List.length_cons] at width
    obtain rfl : n = rest.length := by omega
    simp only [triple, if_true, List.cons_append, List.drop_succ_cons, List.drop_zero,
      List.take_left] at ends
    exact ⟨inside, by rw [begins, ends, List.append_assoc]⟩
  | false =>
    simp only [triple, Bool.false_eq_true, if_false] at width
    obtain rfl : n = s.length := by omega
    simp only [triple, Bool.false_eq_true, if_false, List.drop_zero, List.take_left] at ends
    exact ⟨inside, by rw [ends]; rfl⟩

section
variable {st : State} {offset : Nat} {c : Char} {s x : List Char} {found : Next}
  (taken : next st offset c (s ++ x) = .ok found) (whole : found.more = s.length)
include taken whole

theorem commentForm (comment : found.kind = .comment) :
    c = '#' ∧ (∀ d ∈ c :: s, isBreak d = false) ∧ AtBreak x := by
  have atBreak := commentEnds taken whole comment
  cases cutNext taken with
  | comment first =>
    subst first
    refine ⟨rfl, List.forall_mem_cons.mpr ⟨rfl, ?_⟩, atBreak⟩
    intro d member
    rw [← takeWhileAll whole] at member
    simpa using List.all_eq_true.mp List.all_takeWhile d member
  | lineBreak first => rcases breakKindBreak st with same | same <;> simp [same] at comment
  | _ => cases comment

theorem breakForm (ends : found.kind = .newline ∨ found.kind = .nl) : IsLineBreak (c :: s) := by
  cases cutNext taken with
  | lineBreak first => exact breakFormed (breakWhole first whole) (by simp)
  | _ => simp at ends

theorem continuationForm (continues : found.kind = .continuation) :
    c = '\\' ∧ IsLineBreak s := by
  cases cutNext taken with
  | continuation first behind =>
    simp only at whole
    rw [whole] at behind
    have filled : s ≠ [] := fun none => behind (by rw [none]; rfl)
    exact ⟨first, breakFormed whole filled⟩
  | lineBreak first => rcases breakKindBreak st with same | same <;> simp [same] at continues
  | _ => cases continues

theorem literalForm (literal : found.kind = .string) : Literal (c :: s) := by
  obtain ⟨word, quote, rest, start, inside, parts, -, named, isOne, closed⟩ :=
    cutLiteral taken whole literal
  obtain ⟨within, delimited⟩ := literalDelimited closed
  rw [parts, delimited]
  exact .delimited named isOne (by rw [← delimited])

theorem blankApart {d e : Char} (last : (c :: s).getLast? = some d) (first : x.head? = some e)
    (blank : isBlank e = true) : isBlank d = false := by
  cases kind : found.kind with
  | whitespace =>
    have other := (whitespaceEnds taken whole kind).2 e first
    rw [blank] at other
    cases other
  | comment =>
    have lineBreak := (commentForm taken whole kind).2.2 e first
    rw [breakNotBlank lineBreak] at blank
    cases blank
  | newline | nl =>
    exact breakNotBlank (lineBreakLast (breakForm taken whole (by simp [kind])) last)
  | continuation =>
    obtain ⟨-, lineBreak⟩ := continuationForm taken whole kind
    refine breakNotBlank (lineBreakLast lineBreak ?_)
    rw [← last]
    rcases lineBreak with rfl | rfl | rfl <;> rfl
  | string =>
    obtain ⟨quote, isOne, ends⟩ := literalLast (literalForm taken whole kind)
    obtain rfl := Option.some.inj (last.symm.trans ends)
    rcases quoteOne isOne with rfl | rfl <;> rfl
  | name | number | op =>
    have solid := cutPlain taken whole (by simp [kind])
    exact (solid d (List.mem_of_getLast? last)).2

theorem tokenFormed {ahead : List Char}
    (apart : ∀ d, ahead.getLast? = some d → isBlank c = true → isBlank d = false) :
    Formed ahead ⟨found.kind, c :: s⟩ x where
  comment kind := by
    obtain ⟨rfl, inLine, atBreak⟩ := commentForm taken whole kind
    exact ⟨⟨s, rfl⟩, inLine, atBreak⟩
  lineBreak := breakForm taken whole
  whitespace kind := by
    obtain ⟨blanks, ends⟩ := whitespaceEnds taken whole kind
    exact ⟨blanks, fun d last => apart d last (blanks c List.mem_cons_self), ends⟩
  continuation kind := by
    obtain ⟨rfl, lineBreak⟩ := continuationForm taken whole kind
    exact ⟨s, rfl, lineBreak⟩
  literal := literalForm taken whole

end

/- Step by step: what a token ends with keeps it apart from the next one. -/
theorem lexesFormed {st : State} {offset : Nat} {x : List Char} {tokens : List Token}
    (lexed : Lexes st offset x tokens) (ahead : List Char)
    (apart : ∀ d e, ahead.getLast? = some d → x.head? = some e → isBlank e = true →
      isBlank d = false) {front back : List Token} {t : Token} (split : tokens = front ++ t :: back) :
    Formed (ahead ++ textOf front) t (textOf back) := by
  induction lexed generalizing ahead front with
  | done => simp at split
  | @token st offset c s x found later taken whole rest ih =>
    cases front with
    | nil =>
      obtain ⟨rfl, rfl⟩ := List.cons.inj split
      rw [lexesText rest]
      simpa [textOf] using tokenFormed taken whole fun d last => apart d c last rfl
    | cons u front =>
      obtain ⟨rfl, rfl⟩ := List.cons.inj split
      rw [textOfCons, ← List.append_assoc]
      refine ih _ ?_ rfl
      intro d e last first blank
      refine blankApart taken whole ?_ first blank
      rwa [List.getLast?_append, List.getLast?_cons, Option.some_or, ← List.getLast?_cons] at last

/- The tokens of a text are the text, byte by byte and without overlap, and each of them has the
form of its kind. -/
theorem tokensCover {text : List Char} {tokens : List Token}
    (accepted : tokenize text = .ok tokens) :
    Tiled 0 (offsets 0 tokens) (byteLength text) ∧
      ∀ front t back, tokens = front ++ t :: back →
        text = textOf front ++ t.text ++ textOf back ∧
          (offsets 0 tokens)[front.length]? = some (t.kind, byteLength (textOf front),
            byteLength (textOf front ++ t.text)) ∧
          Formed (textOf front) t (textOf back) := by
  have lexed := tokenizeIff.mp accepted
  have whole := tokenizeText accepted
  constructor
  · have tiled := offsetsTiled 0 (tokensFilled lexed)
    rwa [whole, Nat.zero_add] at tiled
  · rintro front t back rfl
    refine ⟨?_, ?_, ?_⟩
    · rw [← whole, textOfAppend, List.append_assoc]
      rfl
    · simpa only [Nat.zero_add] using offsetsAt 0 front t back
    · exact lexesFormed lexed [] (by simp) rfl

theorem tokensCoverScript :
    tokenize "Rb'é#' \\\r\n\t# c\n".toList =
        .ok [⟨.string, "Rb'é#'".toList⟩, ⟨.whitespace, [' ']⟩, ⟨.continuation, ['\\', '\r', '\n']⟩,
          ⟨.whitespace, ['\t']⟩, ⟨.comment, "# c".toList⟩, ⟨.newline, ['\n']⟩] ∧
      Tiled 0 [(.string, 0, 7), (.whitespace, 7, 8), (.continuation, 8, 11), (.whitespace, 11, 12),
        (.comment, 12, 15), (.newline, 15, 16)] 16 ∧
      Formed [] ⟨.string, "Rb'é#'".toList⟩ " \\\r\n\t# c\n".toList ∧
      Formed "Rb'é#' \\\r\n\t".toList ⟨.comment, "# c".toList⟩ ['\n'] := by
  have accepted : tokenize "Rb'é#' \\\r\n\t# c\n".toList =
      .ok [⟨.string, "Rb'é#'".toList⟩, ⟨.whitespace, [' ']⟩, ⟨.continuation, ['\\', '\r', '\n']⟩,
        ⟨.whitespace, ['\t']⟩, ⟨.comment, "# c".toList⟩, ⟨.newline, ['\n']⟩] := by
    with_unfolding_all rfl
  obtain ⟨tiled, formed⟩ := tokensCover accepted
  exact ⟨accepted, tiled, (formed [] _ _ rfl).2.2,
    (formed [⟨.string, "Rb'é#'".toList⟩, ⟨.whitespace, [' ']⟩, ⟨.continuation, ['\\', '\r', '\n']⟩,
      ⟨.whitespace, ['\t']⟩] _ _ rfl).2.2⟩

end CommentStrip.Python
