import CommentStrip.Proofs.Python.LineFlow
import CommentStrip.Proofs.Python.LiteralSeam

/-! Literals without replacement fields. Where the tokenizer finds such a literal closed, the
quotes of the line scan are closed too. -/
namespace CommentStrip.Python
open Unicode Text

/- Behind the opening quotes, `t` is the rest of a literal without fields. -/
inductive Shuts (quote : Char) : (triple : Bool) → (t x : List Char) → Prop where
  | single {x} : Shuts quote false [quote] x
  | triple {x} : Shuts quote true [quote, quote, quote] x
  | pair {triple c t x} (alone : c = '\r' → (t ++ x).head? ≠ some '\n')
      (later : Shuts quote triple t x) : Shuts quote triple ('\\' :: c :: t) x
  | both {triple t x} (later : Shuts quote triple t x) :
      Shuts quote triple ('\\' :: '\r' :: '\n' :: t) x
  | plain {triple c t x} (normal : c ≠ '\\') (lineBreak : isBreak c = true → triple = true)
      (inside : c = quote → triple = true ∧ isTriple quote (c :: (t ++ x)) = false)
      (later : Shuts quote triple t x) : Shuts quote triple (c :: t) x

theorem escapePlain {affix : Affix} (plain : affix.formatted = false) (rest : List Char) :
    escapeWidth affix rest =
      if startsWith ['\r', '\n'] rest then some 2 else some (min 1 rest.length) := by
  simp [escapeWidth, plain]

theorem bodyPlain {affix : Affix} (plain : affix.formatted = false) {quote : Char}
    {triple : Bool} {start : Nat} {c : Char} {rest : List Char} (normal : c ≠ '\\')
    (lineBreak : isBreak c = true → triple = true) :
    bodyMove quote triple affix start c rest =
      if c = quote ∧ (triple = true → isTriple quote (c :: rest) = true) then
        .ok (.leave (if triple then 2 else 0))
      else .ok (.stay 0 (.body quote triple affix start)) := by
  have inLine : (isBreak c && !triple) = false := by
    cases h : isBreak c with
    | true => simp [lineBreak h]
    | false => rfl
  simp only [bodyMove, inLine, Bool.false_eq_true, if_false, if_neg normal, plain, and_false]
  by_cases same : c = quote
  · cases triple <;> simp [same]
  · simp [same]

theorem bodyBackslash {affix : Affix} (plain : affix.formatted = false) (quote : Char)
    (triple : Bool) (start : Nat) (rest : List Char) :
    bodyMove quote triple affix start '\\' rest =
      .ok (.stay (if startsWith ['\r', '\n'] rest then 2 else min 1 rest.length)
        (.body quote triple affix start)) := by
  simp only [bodyMove, escapePlain plain]
  cases startsWith ['\r', '\n'] rest <;> rfl

theorem bodyBroken {affix : Affix} {quote : Char} {start : Nat} {c : Char} {rest : List Char}
    (lineBreak : isBreak c = true) :
    bodyMove quote false affix start c rest =
      .error (Context.body quote false affix start).unterminated := by
  simp [bodyMove, lineBreak]

theorem shutsEscape {quote : Char} {triple : Bool} {rest t x : List Char}
    (cut : rest.drop (if startsWith ['\r', '\n'] rest then 2 else min 1 rest.length) = t ++ x)
    (filled : rest ≠ []) (later : Shuts quote triple t x) :
    ∃ t', '\\' :: rest = t' ++ x ∧
      t'.length = t.length + ((if startsWith ['\r', '\n'] rest then 2 else min 1 rest.length) + 1) ∧
      Shuts quote triple t' x := by
  cases both : startsWith ['\r', '\n'] rest with
  | true =>
    obtain ⟨behind, rfl⟩ := startsWithIff.mp both
    simp only [both, if_true] at cut
    obtain rfl : behind = t ++ x := cut
    exact ⟨'\\' :: '\r' :: '\n' :: t, rfl, rfl, .both later⟩
  | false =>
    cases rest with
    | nil => exact absurd rfl filled
    | cons c rest =>
      simp only [both, Bool.false_eq_true, if_false, List.length_cons,
        Nat.min_eq_left (Nat.le_add_left 1 _), List.drop_one, List.tail_cons] at cut ⊢
      subst cut
      refine ⟨'\\' :: c :: t, rfl, rfl, .pair ?_ later⟩
      intro same first
      subst same
      have starts : startsWith ['\r', '\n'] ('\r' :: (t ++ x)) = true := by
        cases h : t ++ x with
        | nil => simp [h] at first
        | cons d more =>
          rw [h] at first
          cases first
          rfl
      rw [both] at starts
      cases starts

theorem shutsOf {affix : Affix} (plain : affix.formatted = false) {quote : Char} {triple : Bool}
    {start offset : Nat} {text : List Char} {n : Nat} {stack : List Context}
    (closed : closeAll offset stack text = .ok n) (body : stack = [.body quote triple affix start]) :
    ∃ t x, text = t ++ x ∧ t.length = n ∧ Shuts quote triple t x := by
  fun_induction closeAll offset stack text generalizing n with
  | case1 => cases body
  | case2 => cases closed
  | case3 => cases closed
  | case4 => cases closed
  | case5 offset context below c rest move moved passed m later =>
    rename_i ih
    cases closed
    cases body
    rw [Context.move] at moved
    by_cases backslash : c = '\\'
    · subst backslash
      rw [bodyBackslash plain] at moved
      cases moved
      obtain ⟨t, x, cut, rfl, shut⟩ := ih later rfl
      have filled : rest ≠ [] := by
        intro same
        subst same
        simp [Move.apply, closeAll] at later
      obtain ⟨t', same, long, shut⟩ := shutsEscape cut filled shut
      exact ⟨t', x, same, long, shut⟩
    · by_cases lineBreak : isBreak c = true → triple = true
      · rw [bodyPlain plain backslash lineBreak] at moved
        by_cases closes : c = quote ∧ (triple = true → isTriple quote (c :: rest) = true)
        · rw [if_pos closes] at moved
          cases moved
          obtain ⟨rfl, triples⟩ := closes
          simp only [Move.apply, closeAll] at later
          cases later
          cases triple with
          | true =>
            obtain ⟨behind, same⟩ := startsWithIff.mp (triples rfl)
            simp only [List.cons_append, List.nil_append, List.cons.injEq, true_and] at same
            subst same
            exact ⟨[c, c, c], behind, rfl, rfl, .triple⟩
          | false => exact ⟨[c], rest, rfl, rfl, .single⟩
        · rw [if_neg closes] at moved
          cases moved
          obtain ⟨t, x, cut, rfl, shut⟩ := ih later rfl
          obtain rfl : rest = t ++ x := cut
          refine ⟨c :: t, x, rfl, rfl, .plain backslash lineBreak ?_ shut⟩
          intro same
          rw [not_and] at closes
          have unclosed := closes same
          cases triple with
          | true => exact ⟨rfl, by simpa using unclosed⟩
          | false => exact absurd (by simp) unclosed
      · rw [Classical.not_imp, Bool.not_eq_true] at lineBreak
        obtain ⟨lineBreak, rfl⟩ := lineBreak
        rw [bodyBroken lineBreak] at moved
        cases moved

def insideOf (quote : Char) : (triple : Bool) → QuoteState
  | true => ⟨false, false, some (if quote = '"' then .double else .single), false⟩
  | false => ⟨quote == '\'', quote == '"', none, false⟩

def QuoteState.escape (st : QuoteState) : QuoteState := { st with escaped := true }

section
variable {quote : Char} (isOne : isQuote quote = true)
include isOne

theorem quoteOne : quote = '\'' ∨ quote = '"' := by simpa [isQuote] using isOne

theorem quoteInLine : quote ≠ '\n' := by
  rcases quoteOne isOne with rfl | rfl <;> decide

theorem insideOpen (triple : Bool) : (insideOf quote triple).isOpen = true := by
  rcases quoteOne isOne with rfl | rfl <;> cases triple <;> rfl

theorem insideTurn {triple : Bool} {text : List Char}
    (stays : triple = true → isTriple quote text = false) :
    (insideOf quote triple).turn? text = none := by
  cases triple with
  | true =>
    have none := stays rfl
    rcases quoteOne isOne with rfl | rfl <;>
      simpa [insideOf, QuoteState.turn?, TripleQuote.delimiter, TripleQuote.mark, isTriple]
        using none
  | false => rcases quoteOne isOne with rfl | rfl <;> rfl

theorem insideLeave (x : List Char) :
    (insideOf quote true).turn? (quote :: quote :: quote :: x) = some .initial := by
  rcases quoteOne isOne with rfl | rfl <;>
    simp [insideOf, QuoteState.turn?, TripleQuote.delimiter, TripleQuote.mark, startsWith, after,
      QuoteState.initial]

theorem insideClose : (insideOf quote false).pass quote = .initial := by
  rcases quoteOne isOne with rfl | rfl <;> rfl

theorem insidePass {triple : Bool} {c : Char} (normal : c ≠ '\\')
    (stays : triple = false → c ≠ quote) :
    (insideOf quote triple).pass c = insideOf quote triple := by
  cases triple with
  | true => simp [insideOf, QuoteState.pass, normal]
  | false =>
    have other := stays rfl
    rcases quoteOne isOne with rfl | rfl <;> simp [insideOf, QuoteState.pass, normal, other]

theorem insideBackslash (triple : Bool) :
    (insideOf quote triple).pass '\\' = (insideOf quote triple).escape := by
  rcases quoteOne isOne with rfl | rfl <;> cases triple <;> rfl

end

theorem escapeTurn (st : QuoteState) (text : List Char) : st.escape.turn? text = none := by
  cases st with
  | mk single double triple escaped => cases triple <;> rfl

theorem escapePass (quote : Char) (triple : Bool) (c : Char) :
    (insideOf quote triple).escape.pass c = insideOf quote triple := by
  cases triple <;> rfl

theorem reachesEscape {quote : Char} (isOne : isQuote quote = true) {triple : Bool}
    {rest x : List Char} {st : QuoteState}
    (later : Reaches (insideOf quote triple).escape rest x st) :
    Reaches (insideOf quote triple) ('\\' :: rest) x st := by
  have other : '\\' ≠ quote := by rcases quoteOne isOne with rfl | rfl <;> decide
  refine .char (by decide) ?_ (by simp [insideOpen isOne]) ?_
  · apply insideTurn isOne
    intro _
    simp [isTriple, startsWith, after, other.symm]
  · rw [insideBackslash isOne]
    exact later

theorem shutsFilled {quote : Char} {triple : Bool} {t x : List Char}
    (shut : Shuts quote triple t x) : t ≠ [] := by
  cases shut <;> simp

theorem shutsLast {quote : Char} {triple : Bool} {t x : List Char}
    (shut : Shuts quote triple t x) : t.getLast? = some quote := by
  induction shut with
  | single => rfl
  | triple => rfl
  | pair alone later ih => simp [List.getLast?_cons, ih]
  | both later ih => simp [List.getLast?_cons, ih]
  | plain normal lineBreak inside later ih => simp [List.getLast?_cons, ih]

theorem shutsReaches {quote : Char} (isOne : isQuote quote = true) {triple : Bool}
    {t x : List Char} (shut : Shuts quote triple t x)
    (onLine : triple = false → '\n' ∉ t) :
    Reaches (insideOf quote triple) t x .initial := by
  induction shut with
  | @single x =>
    refine .char (quoteInLine isOne) (insideTurn isOne (by simp)) (by simp [insideOpen isOne]) ?_
    rw [insideClose isOne]
    exact .here
  | @triple x => exact .turn (insideLeave isOne x) .here
  | @pair triple c t x alone later ih =>
    apply reachesEscape isOne
    have tail := ih fun single member => onLine single (by simp [member])
    by_cases feed : c = '\n'
    · subst feed
      cases triple with
      | false => exact absurd (by simp) (onLine rfl)
      | true => exact .feed tail
    · refine .char feed (escapeTurn _ _) (by simp [QuoteState.escape]) ?_
      rw [escapePass]
      exact tail
  | @both triple t x later ih =>
    apply reachesEscape isOne
    have tail := ih fun single member => onLine single (by simp [member])
    cases triple with
    | false => exact absurd (by simp) (onLine rfl)
    | true =>
      refine .char (by decide) (escapeTurn _ _) (by simp [QuoteState.escape]) ?_
      rw [escapePass]
      exact .feed tail
  | @plain triple c t x normal lineBreak inside later ih =>
    have tail := ih fun single member => onLine single (by simp [member])
    by_cases feed : c = '\n'
    · subst feed
      obtain rfl := lineBreak rfl
      exact .feed tail
    · refine .char feed (insideTurn isOne ?_) (by simp [insideOpen isOne]) ?_
      · intro long
        by_cases same : c = quote
        · exact (inside same).2
        · simp [isTriple, startsWith, after, Ne.symm same]
      · rw [insidePass isOne normal ?_]
        · exact tail
        · intro equal same
          subst equal
          exact absurd (inside same).1 (by decide)

theorem quoteTurn {quote : Char} (isOne : isQuote quote = true) (rest : List Char) :
    QuoteState.initial.turn? (quote :: rest) =
      if isTriple quote (quote :: rest) then some (insideOf quote true) else none := by
  rcases quoteOne isOne with rfl | rfl <;>
    simp [QuoteState.initial, QuoteState.turn?, TripleQuote.delimiter, TripleQuote.mark, isTriple,
      startsWith, after, insideOf]

theorem mapOk {result : Except TokenError Nat} {f : Nat → Nat} {m : Nat}
    (mapped : result.map f = .ok m) : ∃ n, result = .ok n ∧ f n = m := by
  cases result with
  | error e => cases mapped
  | ok n =>
    cases mapped
    exact ⟨n, rfl, rfl⟩

theorem tripleInside {affix : Affix} {start offset : Nat} {quote : Char} {s x : List Char}
    (closed : literalWidth affix start offset (quote :: (s ++ x)) = .ok (s.length + 1))
    (triple : isTriple quote (quote :: (s ++ x)) = true) : 2 ≤ s.length := by
  simp only [literalWidth, openTriple, triple, if_true] at closed
  obtain ⟨n, -, width⟩ := mapOk closed
  omega

/- Behind the first quote, `s` is the rest of a literal without fields. -/
inductive Opens (quote : Char) : (s x : List Char) → Prop where
  | triple {t x} (shut : Shuts quote true t x) : Opens quote (quote :: quote :: t) x
  | single {s x} (alone : isTriple quote (quote :: (s ++ x)) = false)
      (shut : Shuts quote false s x) : Opens quote s x

theorem literalOpens {affix : Affix} (plain : affix.formatted = false) {start offset : Nat}
    {quote : Char} {s x : List Char}
    (closed : literalWidth affix start offset (quote :: (s ++ x)) = .ok (s.length + 1)) :
    Opens quote s x := by
  simp only [literalWidth, openTriple] at closed
  cases triple : isTriple quote (quote :: (s ++ x)) with
  | true =>
    rw [triple] at closed
    obtain ⟨n, shut, width⟩ := mapOk closed
    obtain ⟨t, behind, same, rfl, shut⟩ := shutsOf plain shut rfl
    obtain ⟨more, starts⟩ := startsWithIff.mp triple
    simp only [List.cons_append, List.nil_append, List.cons.injEq, true_and] at starts
    simp only [starts, if_true, List.drop_succ_cons, List.drop_zero] at same width
    subst same
    obtain ⟨rfl, rfl⟩ : s = quote :: quote :: t ∧ x = behind :=
      List.append_inj starts (by simp only [List.length_cons]; omega)
    exact .triple shut
  | false =>
    rw [triple] at closed
    obtain ⟨n, shut, width⟩ := mapOk closed
    obtain ⟨t, behind, same, rfl, shut⟩ := shutsOf plain shut rfl
    simp only [Bool.false_eq_true, if_false, List.drop_zero] at same width
    obtain ⟨rfl, rfl⟩ : s = t ∧ x = behind := List.append_inj same (by omega)
    exact .single triple shut

theorem opensLast {quote : Char} {s x : List Char} (opens : Opens quote s x) :
    s.getLast? = some quote := by
  cases opens with
  | triple shut => simp [List.getLast?_cons, shutsLast shut]
  | single alone shut => exact shutsLast shut

theorem opensReaches {quote : Char} (isOne : isQuote quote = true) {s x : List Char}
    (opens : Opens quote s x) (onLine : isTriple quote (quote :: s) = false → '\n' ∉ s) :
    Reaches .initial (quote :: s) x .initial := by
  cases opens with
  | @triple t x shut =>
    have turns : QuoteState.initial.turn? (quote :: quote :: quote :: (t ++ x)) =
        some (insideOf quote true) := by
      rw [quoteTurn isOne]
      exact if_pos (startsWithIff.mpr ⟨t ++ x, rfl⟩)
    exact .turn turns (shutsReaches isOne shut (by simp))
  | single alone shut =>
    have within : isTriple quote (quote :: s) = false := by
      rw [Bool.eq_false_iff]
      intro starts
      obtain ⟨more, front⟩ := startsWithIff.mp starts
      have whole : isTriple quote (quote :: (s ++ x)) = true :=
        startsWithIff.mpr ⟨more ++ x, by rw [← List.append_assoc, ← front]; rfl⟩
      rw [alone] at whole
      cases whole
    refine .char (quoteInLine isOne) ?_ ?_ ?_
    · rw [quoteTurn isOne, if_neg (by simp [alone])]
    · rcases quoteOne isOne with rfl | rfl <;> simp
    · have entered : QuoteState.initial.pass quote = insideOf quote false := by
        rcases quoteOne isOne with rfl | rfl <;> rfl
      rw [entered]
      exact shutsReaches isOne shut (fun _ => onLine within)

end CommentStrip.Python
