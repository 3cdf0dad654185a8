import CommentStrip.Proofs.Python.FirstEnd
import CommentStrip.Proofs.Python.Spaceless

/-! Every place where the tokenizer begins a literal without fields, between two tokens or in a
replacement field, and what becomes of the literal there. -/
namespace CommentStrip.Python
open Unicode Text

structure Begins (word : List Char) (quote : Char) (triple : Bool) (body : List Char) : Prop where
  named : word ≠ [] → isStringPrefix word = true
  isOne : isQuote quote = true
  opening : isTriple quote (delimiter quote triple ++ body) = triple

/- The tokenizer comes to a place: `front` is passed, `here` stands ahead, and the contexts are
those of a literal that is open, none between two tokens. -/
inductive Arrives (text : List Char) :
    (front : List Char) → State → List Context → (here : List Char) → Prop where
  | start : Arrives text [] .initial [] text
  | token {front st c s x found} (arrives : Arrives text front st [] (c :: (s ++ x)))
      (taken : next st (byteLength front) c (s ++ x) = .ok found) (whole : found.more = s.length) :
      Arrives text (front ++ c :: s) found.state [] x
  | opened {front st word quote triple body}
      (arrives : Arrives text front st [] (word ++ (delimiter quote triple ++ body)))
      (begins : Begins word quote triple body) :
      Arrives text (front ++ (word ++ delimiter quote triple)) st
        [.body quote triple (.ofWord word) (byteLength front)] body
  | moved {front st context below c s x move}
      (arrives : Arrives text front st (context :: below) (c :: (s ++ x)))
      (taken : context.move (byteLength front) c (s ++ x) = .ok move) (whole : move.more = s.length)
      (stays : move.apply below ≠ []) :
      Arrives text (front ++ c :: s) st (move.apply below) x

def Fails (st : State) (offset : Nat) (here : List Char) (e : TokenError) : List Context → Prop
  | [] => tokensFrom st offset here = .error e
  | context :: below => closeAll offset (context :: below) here = .error e

theorem unnamedLower {c : Char} (other : (!isNameChar c) = true) : asciiLower c = c := by
  rw [asciiLower, if_neg]
  rintro ⟨above, below⟩
  have upper : c.isUpper = true := decide_eq_true ⟨above, below⟩
  have alpha : c.isAlpha = true := Bool.or_eq_true_iff.mpr (.inl upper)
  simp [isNameChar, Char.isAlphanum, alpha] at other

theorem prefixNames {word : List Char} (letters : isStringPrefix word = true) :
    ∀ c ∈ word, isNameChar c = true := by
  simpa using prefixEach (fun _ => unnamedLower) (by decide) letters

section
variable {word : List Char} {quote : Char} {triple : Bool} {body : List Char}
  (begins : Begins word quote triple body)
include begins

theorem beginsWord {c : Char} {letters : List Char} (front : word = c :: letters)
    (behind : List Char) : isNameChar c = true ∧ c.isDigit = false ∧
      (letters ++ quote :: behind).takeWhile isNameChar = letters := by
  have isPrefix := begins.named (by simp [front])
  have names := prefixNames isPrefix
  rw [front] at names isPrefix
  obtain ⟨first, others⟩ := List.forall_mem_cons.mp names
  refine ⟨first, prefixDigitless isPrefix c List.mem_cons_self, takeWhileExact others ?_⟩
  intro d ahead
  cases ahead
  exact quoteNotName begins.isOne

theorem beginsNext (st : State) (offset : Nat) :
    ∃ c s, word ++ delimiter quote triple = c :: s ∧ next st offset c (s ++ body) =
      literalNext st (.ofWord word) offset word (delimiter quote triple ++ body) := by
  obtain ⟨mark, marked⟩ := delimiterFirst quote triple
  cases front : word with
  | nil =>
    refine ⟨quote, mark, by rw [marked]; rfl, ?_⟩
    rw [marked]
    rcases quoteOne begins.isOne with rfl | rfl <;> rfl
  | cons c letters =>
    obtain ⟨first, digitless, run⟩ := beginsWord begins front (mark ++ body)
    have isPrefix := begins.named (by simp [front])
    rw [front] at isPrefix
    refine ⟨c, letters ++ delimiter quote triple, rfl, ?_⟩
    have apart := nameApart first
    have point : startsNumber c (letters ++ quote :: (mark ++ body)) = false := by
      simp [startsNumber, digitless, nameOther first (by decide : isNameChar '.' = false)]
    have whole : wordOf c (letters ++ quote :: (mark ++ body)) = c :: letters := by
      rw [wordOf, run]
    have behind : behindWord (letters ++ quote :: (mark ++ body)) = quote :: (mark ++ body) := by
      rw [behindWord, run, List.drop_left]
    have quoted : prefixesLiteral c (letters ++ quote :: (mark ++ body)) = true := by
      rw [prefixesLiteral, whole, behind, isPrefix]
      simp [begins.isOne]
    rw [marked, List.append_assoc, List.cons_append, nextSteps]
    simp [apart, point, first, wordNext, quoted, whole, behind]

theorem beginsOpen (affix : Affix) (start : Nat) {mark : List Char}
    (marked : delimiter quote triple = quote :: mark) :
    openLiteral affix start quote (mark ++ body) =
      (mark.length, .body quote triple affix start) := by
  have opening := begins.opening
  rw [marked, List.cons_append] at opening
  rw [openTriple, opening]
  cases triple <;> cases marked <;> rfl

theorem beginsField (depth start offset : Nat) :
    ∃ c s, word ++ delimiter quote triple = c :: s ∧ fieldMove depth start offset c (s ++ body) =
      .ok (.enter s.length (.field depth start) (.body quote triple (.ofWord word) offset)) := by
  obtain ⟨mark, marked⟩ := delimiterFirst quote triple
  have opened (affix : Affix) := beginsOpen begins affix offset marked
  cases front : word with
  | nil =>
    refine ⟨quote, mark, by rw [marked]; rfl, ?_⟩
    rw [fieldQuote begins.isOne, opened]
    rfl
  | cons c letters =>
    obtain ⟨first, -, run⟩ := beginsWord begins front (mark ++ body)
    have isPrefix := begins.named (by simp [front])
    rw [front] at isPrefix
    refine ⟨c, letters ++ delimiter quote triple, rfl, ?_⟩
    rw [marked, List.append_assoc, List.cons_append, fieldWord first, run, List.drop_left]
    simp only [begins.isOne, isPrefix, opened]
    have count : letters.length + 1 + mark.length = letters.length + (mark.length + 1) := by omega
    simp [count]

theorem beginsWidth (affix : Affix) (start offset : Nat) :
    literalWidth affix start offset (delimiter quote triple ++ body) =
      (closeAll (offset + byteLength (delimiter quote triple)) [.body quote triple affix start]
        body).map (· + (delimiter quote triple).length) := by
  obtain ⟨mark, marked⟩ := delimiterFirst quote triple
  rw [marked, List.cons_append, literalWidth, beginsOpen begins affix start marked]
  simp only [List.take_left, List.drop_left, List.length_cons]

end

theorem tokensFromFailed {st : State} {offset : Nat} {c : Char} {rest : List Char} {e : TokenError}
    (failed : next st offset c rest = .error e) : tokensFrom st offset (c :: rest) = .error e := by
  simp only [tokensFrom, failed]

theorem arrivesFails {text front here : List Char} {st : State} {stack : List Context}
    (arrives : Arrives text front st stack here) {e : TokenError}
    (fails : Fails st (byteLength front) here e stack) : tokenize text = .error e := by
  induction arrives with
  | start => exact fails
  | @token front st c s x found arrives taken whole ih =>
    refine ih ?_
    rw [Fails, tokensFromStep taken whole, ← byteLengthAppend]
    have fails : tokensFrom found.state (byteLength (front ++ c :: s)) x = .error e := fails
    rw [fails]
    rfl
  | @opened front st word quote triple body arrives begins ih =>
    refine ih ?_
    obtain ⟨c, s, split, taken⟩ := beginsNext begins st (byteLength front)
    have fails : closeAll (byteLength (front ++ (word ++ delimiter quote triple)))
        [.body quote triple (.ofWord word) (byteLength front)] body = .error e := fails
    rw [Fails, ← List.append_assoc, split, List.cons_append]
    refine tokensFromFailed ?_
    rw [taken, literalNext, beginsWidth begins, Nat.add_assoc, ← byteLengthAppend,
      ← byteLengthAppend, fails]
    rfl
  | @moved front st context below c s x move arrives taken whole stays ih =>
    refine ih ?_
    rw [Fails, closeAllMoved taken whole, ← byteLengthAppend]
    have fails : closeAll (byteLength (front ++ c :: s)) (move.apply below) x = .error e := by
      cases open' : move.apply below with
      | nil => exact absurd open' stays
      | cons context below =>
        rw [open'] at fails
        exact fails
    rw [fails]
    rfl

theorem arrivesBetween {text front here : List Char} {st : State} {stack : List Context}
    (arrives : Arrives text front st stack here) (between : stack = []) {tokens : List Token}
    (accepted : tokenize text = .ok tokens) :
    ∃ earlier later, tokens = earlier ++ later ∧ textOf earlier = front ∧
      Lexes st (byteLength front) here later := by
  induction arrives with
  | start => exact ⟨[], tokens, rfl, rfl, tokenizeIff.mp accepted⟩
  | @token front st c s x found arrives taken whole ih =>
    obtain ⟨earlier, later, rfl, passed, lexed⟩ := ih rfl
    obtain ⟨later, rfl, lexed⟩ := (lexesNext taken whole).mp lexed
    refine ⟨earlier ++ [⟨found.kind, c :: s⟩], later, by simp, ?_, ?_⟩
    · rw [textOfAppend, passed]
      simp [textOf]
    · rwa [byteLengthAppend]
  | opened => cases between
  | moved arrives taken whole stays => exact absurd between stays

theorem arrivesTokens {text ahead x : List Char} {st : State} {offset : Nat} {tokens : List Token}
    (lexed : Lexes st offset x tokens) (arrives : Arrives text ahead st [] x)
    (passed : offset = byteLength ahead) {front back : List Token} {t : Token}
    (split : tokens = front ++ t :: back) :
    ∃ st c s found, Arrives text (ahead ++ textOf front) st [] (c :: (s ++ textOf back)) ∧
      next st (byteLength (ahead ++ textOf front)) c (s ++ textOf back) = .ok found ∧
      found.more = s.length ∧ t = ⟨found.kind, c :: s⟩ := by
  induction lexed generalizing ahead front with
  | done => simp at split
  | @token st offset c s x found later taken whole rest ih =>
    subst passed
    cases front with
    | nil =>
      obtain ⟨rfl, rfl⟩ := List.cons.inj split
      have here : ahead ++ textOf [] = ahead := List.append_nil ahead
      rw [lexesText rest, here]
      exact ⟨st, c, s, found, arrives, taken, whole, rfl⟩
    | cons u front =>
      obtain ⟨rfl, rfl⟩ := List.cons.inj split
      rw [textOfCons, ← List.append_assoc]
      exact ih (.token arrives taken whole) (byteLengthAppend ahead (c :: s)).symm rfl

theorem markSplit (quote : Char) (rest : List Char) :
    ∃ body, quote :: rest = delimiter quote (isTriple quote (quote :: rest)) ++ body := by
  cases triple : isTriple quote (quote :: rest) with
  | true => exact delimiterOpens triple
  | false => exact ⟨rest, rfl⟩

section
variable {text front word body : List Char} {st : State} {stack : List Context} {quote : Char}
  {triple : Bool} (arrives : Arrives text front st stack (word ++ (delimiter quote triple ++ body)))
  (begins : Begins word quote triple body)
include arrives begins

theorem arrivesOpen
    (outside : stack = [] ∨ ∃ depth start below, stack = .field depth start :: below) :
    Arrives text (front ++ (word ++ delimiter quote triple)) st
      (.body quote triple (.ofWord word) (byteLength front) :: stack) body := by
  rcases outside with rfl | ⟨depth, start, below, rfl⟩
  · exact .opened arrives begins
  · obtain ⟨c, s, split, moved⟩ := beginsField begins depth start (byteLength front)
    rw [← List.append_assoc, split] at arrives
    rw [split]
    exact .moved arrives moved rfl (by simp [Move.apply])

end

section
variable {text : List Char} {st : State} {quote : Char} {triple : Bool} {affix : Affix} {start : Nat}
  {below : List Context} (isOne : isQuote quote = true) (unformatted : affix.formatted = false)
  {t x : List Char} (shut : Shuts quote triple t x)
include isOne unformatted shut

theorem closeAllShut (offset : Nat) :
    closeAll offset (.body quote triple affix start :: below) (t ++ x) =
      (closeAll (offset + byteLength t) below x).map (· + t.length) := by
  revert offset
  refine shutsSteps isOne ?_ ?_ shut
  · intro x offset
    obtain ⟨c, s, same, left⟩ := markMove unformatted start isOne x
    have moved : (Context.body quote triple affix start).move offset c (s ++ x) = _ := left
    rw [same, List.cons_append, closeAllMoved moved rfl]
    rfl
  · intro u t x within shut ih offset
    obtain ⟨c, s, rfl, stays⟩ := withinMove unformatted start within
    have moved : (Context.body quote triple affix start).move offset c (s ++ (t ++ x)) = _ := stays
    rw [List.append_assoc, List.cons_append, closeAllMoved moved rfl, Move.apply, ih,
      byteLengthAppend, Nat.add_assoc]
    cases closeAll (offset + (byteLength (c :: s) + byteLength t)) below x with
    | error e => rfl
    | ok n =>
      simp only [Except.map, List.length_append, List.length_cons, Except.ok.injEq]
      omega

theorem arrivesShut (inField : below ≠ []) (front : List Char)
    (arrives : Arrives text front st (.body quote triple affix start :: below) (t ++ x)) :
    Arrives text (front ++ t) st below x := by
  revert front
  refine shutsSteps isOne ?_ ?_ shut
  · intro x front arrives
    obtain ⟨c, s, same, left⟩ := markMove unformatted start isOne x
    rw [same] at arrives ⊢
    exact .moved arrives left rfl inField
  · intro u t x within shut ih front arrives
    obtain ⟨c, s, rfl, stays⟩ := withinMove unformatted start within
    rw [List.append_assoc] at arrives
    rw [← List.append_assoc]
    exact ih _ (.moved arrives stays rfl (by simp [Move.apply]))

end

theorem nextShut {st : State} {word : List Char} {quote : Char} {triple : Bool} {t x : List Char}
    (begins : Begins word quote triple (t ++ x)) (unformatted : (Affix.ofWord word).formatted = false)
    (shut : Shuts quote triple t x) (offset : Nat) :
    ∃ c s, word ++ delimiter quote triple ++ t = c :: s ∧
      next st offset c (s ++ x) = .ok ⟨.string, s.length, st.withContent⟩ := by
  obtain ⟨c, s, split, taken⟩ := beginsNext begins st offset
  have width := beginsWidth begins (.ofWord word) offset (offset + byteLength word)
  rw [closeAllShut begins.isOne unformatted shut, closeAll] at width
  have count : word.length + (delimiter quote triple).length = s.length + 1 := by
    simpa using congrArg List.length split
  refine ⟨c, s ++ t, by rw [split]; rfl, ?_⟩
  rw [List.append_assoc, taken, literalNext, width]
  simp only [Except.map, Except.ok.injEq, Next.mk.injEq, List.length_append, true_and, and_true]
  omega

theorem endsUnique {mark body inner behind other rest : List Char}
    (ends : EndsAt mark body inner behind) (also : EndsAt mark body other rest) :
    inner = other ∧ behind = rest := by
  have short := ends.first other rest also.split also.free
  have long := also.first inner behind ends.split ends.free
  obtain ⟨same, later⟩ := List.append_inj (ends.split.symm.trans also.split) (by omega)
  exact ⟨same, List.append_cancel_left later⟩

/- A literal without fields, wherever the tokenizer begins one, is passed up to its first free mark
and no further, as a token of its own between two tokens. Without such a mark, or with a free line
break in front of it in a literal of one line, the text is refused for that literal. -/
theorem plainLiteralEnds {text front word body : List Char} {st : State} {stack : List Context}
    {quote : Char} {triple : Bool}
    (arrives : Arrives text front st stack (word ++ (delimiter quote triple ++ body)))
    (outside : stack = [] ∨ ∃ depth start below, stack = .field depth start :: below)
    (begins : Begins word quote triple body) (plain : ∀ c ∈ word, c ≠ 'f' ∧ c ≠ 'F') :
    (∀ inner behind, EndsAt (delimiter quote triple) body inner behind →
      (triple = false → ¬ HoldsBreak inner) →
      (stack ≠ [] → Arrives text
        (front ++ (word ++ delimiter quote triple ++ (inner ++ delimiter quote triple))) st stack
        behind) ∧
      (stack = [] → Arrives text
          (front ++ (word ++ delimiter quote triple ++ (inner ++ delimiter quote triple)))
          st.withContent [] behind ∧
        ∀ tokens, tokenize text = .ok tokens → ∃ earlier later,
          tokens = earlier ++
            ⟨.string, word ++ delimiter quote triple ++ (inner ++ delimiter quote triple)⟩ :: later ∧
          textOf earlier = front)) ∧
    ((¬ ∃ inner behind, EndsAt (delimiter quote triple) body inner behind) ∨
      (triple = false ∧
        ∃ inner behind, EndsAt (delimiter quote triple) body inner behind ∧ HoldsBreak inner) →
      tokenize text = .error (if triple then .unterminatedTriple (byteLength front)
        else .unterminatedString (byteLength front))) := by
  have unformatted : (Affix.ofWord word).formatted = false := by
    simpa [Affix.ofWord] using plain
  have isOne := begins.isOne
  have opened := arrivesOpen arrives begins outside
  constructor
  · intro inner behind ends inLine
    have shut := (shutsIff isOne ends.split).mpr ⟨ends, inLine⟩
    have split : body = inner ++ delimiter quote triple ++ behind := by simp [ends.split]
    rw [split] at opened
    constructor
    · intro inField
      rw [← List.append_assoc]
      exact arrivesShut isOne unformatted shut inField _ opened
    · rintro rfl
      rw [split] at arrives begins
      obtain ⟨c, s, whole, taken⟩ := nextShut begins unformatted shut (byteLength front)
      rw [← List.append_assoc, ← List.append_assoc, whole] at arrives
      rw [whole]
      refine ⟨.token arrives taken rfl, fun tokens accepted => ?_⟩
      obtain ⟨earlier, later, rfl, passed, lexed⟩ := arrivesBetween arrives rfl accepted
      obtain ⟨later, rfl, -⟩ := (lexesNext taken rfl).mp lexed
      exact ⟨earlier, later, rfl, passed⟩
  · intro unended
    rcases @bodyOutcome quote triple _ unformatted (byteLength front) isOne body with ⟨t, x, rfl, shut⟩ | fails
    · exfalso
      obtain ⟨inner, rfl, ends, inLine⟩ := shutsEnds isOne shut
      rcases unended with none | ⟨single, other, rest, also, holds⟩
      · exact none ⟨inner, x, ends⟩
      · obtain ⟨rfl, -⟩ := endsUnique ends also
        exact inLine single holds
    · exact arrivesFails opened (fails _ stack)

theorem plainLiteralEndsEscaped :
    EndsAt ['\''] ['\\', '\'', 'a', '\''] ['\\', '\'', 'a'] [] ∧
      (∀ tokens, tokenize ['r', '\'', '\\', '\'', 'a', '\''] = .ok tokens → ∃ earlier later,
        tokens = earlier ++ ⟨.string, ['r', '\'', '\\', '\'', 'a', '\'']⟩ :: later ∧
          textOf earlier = []) ∧
      tokenize ['f', '"', '{', '\'', 'a'] = .error (.unterminatedString 3) := by
  have ends : EndsAt ['\''] ['\\', '\'', 'a', '\''] ['\\', '\'', 'a'] [] := by
    refine ⟨rfl, rfl, fun front back split free => ?_⟩
    rcases front with _ | ⟨c, _ | ⟨d, _ | ⟨e, front⟩⟩⟩
    · simp at split
    · obtain ⟨rfl, -⟩ := List.cons.inj split
      exact absurd free (by decide)
    · simp at split
    · simp
  have inLine : ¬ HoldsBreak ['\\', '\'', 'a'] := by
    rintro ⟨front, c, back, split, lineBreak, -⟩
    have inside : c ∈ ['\\', '\'', 'a'] := by simp [split]
    simp only [List.mem_cons, List.not_mem_nil, or_false] at inside
    rcases inside with rfl | rfl | rfl <;> cases lineBreak
  have unended : ¬ ∃ inner behind, EndsAt ['\''] ['a'] inner behind := by
    rintro ⟨inner, behind, ends⟩
    have inside : '\'' ∈ ['a'] := by
      rw [ends.split]
      simp
    simp at inside
  refine ⟨ends, ?_, ?_⟩
  · have passed := (@plainLiteralEnds _ [] ['r'] _ _ _ '\'' false .start (.inl rfl)
      ⟨fun _ => rfl, rfl, rfl⟩ (by simp)).1 _ _ ends fun _ => inLine
    exact (passed.2 rfl).2
  · have opened : Arrives ['f', '"', '{', '\'', 'a'] ['f', '"'] .initial
        [.body '"' false (.ofWord ['f']) 0] ['{', '\'', 'a'] :=
      @Arrives.opened _ [] _ ['f'] '"' false _ .start ⟨fun _ => rfl, rfl, rfl⟩
    have inField : Arrives ['f', '"', '{', '\'', 'a'] ['f', '"', '{'] .initial
        [.field 0 0, .body '"' false (.ofWord ['f']) 0] ['\'', 'a'] :=
      @Arrives.moved _ _ _ _ _ _ [] _ _ opened rfl rfl (by simp [Move.apply])
    exact (@plainLiteralEnds _ _ [] ['a'] _ _ '\'' false inField (.inr ⟨_, _, _, rfl⟩)
      ⟨fun filled => absurd rfl filled, rfl, rfl⟩ (by simp)).2 (.inl unended)

end CommentStrip.Python
